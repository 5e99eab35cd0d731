import Pseudocode.Tree

/-! # Values and types

What expressions evaluate to. A value has a kind, and a type accepts the values of one kind. A routine
is a value too: it remembers the scope it was defined in. -/

namespace Pseudocode

inductive Kind where
  | integer | real | string | char | boolean | date | procedure | function | type
  deriving Repr, DecidableEq

def Kind.name : Kind → String
  | integer => "INTEGER"
  | real => "REAL"
  | string => "STRING"
  | char => "CHAR"
  | boolean => "BOOLEAN"
  | date => "DATE"
  | procedure => "PROCEDURE"
  | function => "FUNCTION"
  | type => "TYPE"

/-- A type: what a variable, a constant or a parameter is declared with. -/
inductive Ty where
  /-- The values of one kind. -/
  | of (kind : Kind)
  /-- A named type without any values. -/
  | bare (name : String)
  /-- No type at all; it has no values either. -/
  | absent
  deriving Repr, DecidableEq

def Ty.name : Ty → String
  | of kind => kind.name
  | bare name => name
  | absent => "<nil type>"

/-- A scope, by its place among the scopes of a memory. -/
abbrev ScopeId := Nat

/-- A formal parameter whose type is resolved. -/
structure Formal where
  name : String
  type : Ty
  byRef : Bool
  deriving Repr, DecidableEq

/-- A procedure or function together with the scope it was defined in. -/
structure Routine where
  name : String
  params : List Formal
  body : List Stmt
  home : ScopeId

inductive Value where
  /-- The absence of a value. No type accepts it, and no expression evaluates to it. -/
  | nothing
  | integer (n : Int64)
  | real (x : Float)
  | string (s : String)
  /-- A character by its code, which need not be that of a character. -/
  | char (code : Int32)
  | boolean (b : Bool)
  | date (d : Date)
  | procedure (r : Routine)
  /-- A routine with the type of its results. -/
  | function (r : Routine) (result : Ty)
  | type (t : Ty)

namespace Value

def kind? : Value → Option Kind
  | nothing => none
  | integer _ => some .integer
  | real _ => some .real
  | string _ => some .string
  | char _ => some .char
  | boolean _ => some .boolean
  | date _ => some .date
  | procedure _ => some .procedure
  | function _ _ => some .function
  | type _ => some .type

/-- How messages describe a value: by its kind, and a type by its name. -/
def described : Value → String
  | nothing => "nothing"
  | type .absent => Kind.type.name
  | type t => "type " ++ t.name
  | integer _ => Kind.integer.name
  | real _ => Kind.real.name
  | string _ => Kind.string.name
  | char _ => Kind.char.name
  | boolean _ => Kind.boolean.name
  | date _ => Kind.date.name
  | procedure _ => Kind.procedure.name
  | function _ _ => Kind.function.name

def isNumeric : Value → Bool
  | integer _ | real _ => true
  | _ => false

end Value

/-- Whether the value is a member of the type. -/
def Ty.accepts : Ty → Value → Bool
  | of kind, v => v.kind? = some kind
  | _, _ => false

end Pseudocode
