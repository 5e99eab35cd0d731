import Pseudocode.Fault

/-! # Building values

How a type makes a value out of raw data: a machine word, a text, a calendar day. Literals are built
this way, and what is no member of the type is refused. -/

namespace Pseudocode

/-- Raw data that a value may be built from. -/
inductive Raw where
  | word64 (n : Int64)
  /-- A word of the machine's own width. -/
  | word (n : Int64)
  /-- A 32-bit word, which is also the code of a character. -/
  | word32 (n : Int32)
  | double (x : Float)
  | single (x : Float32)
  | truth (b : Bool)
  | text (s : String)
  /-- Three numbers that need not be a date. -/
  | date (d : Date)
  /-- A day of the calendar. -/
  | day (d : Date)
  | value (v : Value)

def Raw.shape : Raw → String
  | word64 _ => "int64"
  | word _ => "int"
  | word32 _ => "int32"
  | double _ => "float64"
  | single _ => "float32"
  | truth _ => "bool"
  | text _ => "string"
  | date _ => "runtime.DateValue"
  | day _ => "time.Time"
  | value .nothing => "<nil>"
  | value (.integer _) => "runtime.IntegerValue"
  | value (.real _) => "runtime.RealValue"
  | value (.string _) => "runtime.StringValue"
  | value (.char _) => "runtime.CharValue"
  | value (.boolean _) => "runtime.BooleanValue"
  | value (.date _) => "runtime.DateValue"
  | value (.procedure _) => "*runtime.ProcedureValue"
  | value (.function _ _) => "*runtime.FunctionValue"
  | value (.type _) => "*runtime.TypeValue"

namespace Date

/-- The days from 1 March of the year 0 to the first of March of the year `y`. -/
def daysBeforeYear (y : Int) : Int :=
  365 * y + y / 4 - y / 100 + y / 400

/-- The days from 1 March to the first day of the month that is `m` months after March. -/
def daysBeforeMonth (m : Int) : Int :=
  (153 * m + 2) / 5

/-- The number of a day of the calendar, counted from 1 March of the year 0. Months and days beyond
their ranges run on into the next or the previous ones. -/
def toDayNumber (d : Date) : Int :=
  let months := d.year * 12 + (d.month - 1) - 2
  daysBeforeYear (months / 12) + daysBeforeMonth (months % 12) + d.day - 1

/-- The day of the calendar with this number. -/
def ofDayNumber (n : Int) : Date :=
  let era := n / 146097
  let ofEra := n % 146097
  let yearOfEra := (ofEra - ofEra / 1460 + ofEra / 36524 - ofEra / 146096) / 365
  let ofYear := ofEra - daysBeforeYear yearOfEra
  let month := (5 * ofYear + 2) / 153
  { year := era * 400 + yearOfEra + (if month < 10 then 0 else 1)
    month := if month < 10 then month + 3 else month - 9
    day := ofYear - daysBeforeMonth month + 1 }

/-- The day of the calendar that the numbers lead to: 31 February is a day of March. -/
def normalized (d : Date) : Date :=
  ofDayNumber d.toDayNumber

end Date

namespace Value

/-- A CHAR from a text of exactly one character. -/
def ofCharText (s : String) : Except Cause Value :=
  match s.toList with
  | [c] => .ok (.char (Int32.ofNat c.toNat))
  | _ => .error (.charLength s)

/-- A DATE from three numbers that are one. -/
def ofDate (d : Date) : Except Cause Value :=
  match d.flaw? with
  | some flaw => .error (.date flaw)
  | none => .ok (.date d)

end Value

namespace Kind

def build (kind : Kind) (raw : Raw) : Except Cause Value :=
  match kind, raw with
  | integer, .word64 n | integer, .word n => .ok (.integer n)
  | integer, .word32 n => .ok (.integer (Int64.ofInt n.toInt))
  | real, .double x => .ok (.real x)
  | real, .single x => .ok (.real x.toFloat)
  | real, .word64 n | real, .word n => .ok (.real n.toFloat)
  | boolean, .truth b => .ok (.boolean b)
  | string, .text s => .ok (.string s)
  | char, .word32 n => .ok (.char n)
  | char, .text s => Value.ofCharText s
  | date, .date d | date, .value (.date d) => Value.ofDate d
  | date, .day d => Value.ofDate d.normalized
  | procedure, .value (.procedure r) => .ok (.procedure r)
  | function, .value (.function r result) => .ok (.function r result)
  | type, .value (.type t) => .ok (.type t)
  | _, _ => .error (.cannotBuild kind raw.shape)

end Kind

def Ty.build (type : Ty) (raw : Raw) : Except Cause Value :=
  match type with
  | of kind => kind.build raw
  | _ => .error (.cannotConstruct type)

end Pseudocode
