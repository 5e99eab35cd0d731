import Pseudocode.Fault
import Pseudocode.Value.Shown

/-! # Operators

What the operators compute. INTEGER arithmetic is exact or fails: the machine's word arithmetic wraps
around, and the signs of the operands and the result show when it did. An operation with a REAL
operand is an operation on REAL. -/

namespace Pseudocode

namespace Integer

def add? (l r : Int64) : Option Int64 :=
  let sum := l + r
  if (0 < r && sum < l) || (r < 0 && l < sum) then none else some sum

def subtract? (l r : Int64) : Option Int64 :=
  let difference := l - r
  if (r < 0 && difference < l) || (0 < r && l < difference) then none else some difference

def multiply? (l r : Int64) : Option Int64 :=
  let product := l * r
  if l = 0 || r = 0 then some product
  else if product / r ≠ l || (l = -1 && r = Int64.minValue) || (r = -1 && l = Int64.minValue) then
    none
  else some product

def negate? (n : Int64) : Option Int64 :=
  if n = Int64.minValue then none else some (-n)

/-- The remainder of the division that truncates toward zero, by a divisor other than zero. It has
the sign of the dividend. -/
def modulo (l r : Int64) : Int64 :=
  if r = -1 then 0 else l % r

/-- The quotient truncated toward zero, by a divisor other than zero, unless it is no INTEGER. -/
def quotient? (l r : Int64) : Option Int64 :=
  if l = Int64.minValue && r = -1 then none else some (l / r)

end Integer

namespace Value

def toReal? : Value → Option Float
  | integer n => some n.toFloat
  | real x => some x
  | _ => none

def toText? : Value → Option String
  | string s => some s
  | char code => some (String.singleton (charOfCode code))
  | _ => none

/-- How two REAL numbers compare. A NaN is neither less nor greater than anything. -/
def compareReals (l r : Float) : Ordering :=
  if l < r then .lt else if r < l then .gt else .eq

def compareNumbers? : Value → Value → Option Ordering
  | integer l, integer r => some (if l < r then .lt else if r < l then .gt else .eq)
  | l, r =>
    match l.toReal?, r.toReal? with
    | some x, some y => some (compareReals x y)
    | _, _ => none

/-- Whether two values are equal: two numbers, or two values of one kind other than that of a routine
or a type. -/
def equals? (l r : Value) : Option Bool :=
  match compareNumbers? l r with
  | some ordering => some (ordering == .eq)
  | none =>
    match l, r with
    | string a, string b => some (a = b)
    | char a, char b => some (a = b)
    | boolean a, boolean b => some (a = b)
    | date a, date b => some (a = b)
    | _, _ => none

end Value

def UnaryOp.apply (op : UnaryOp) (v : Value) : Except Cause Value :=
  match op, v with
  | negate, .integer n =>
    match Integer.negate? n with
    | some m => .ok (.integer m)
    | none => .error (.negationOverflow n)
  | negate, .real x => .ok (.real (-x))
  | negate, _ => .error (.operand op "numeric" v.described)
  | not, .boolean b => .ok (.boolean !b)
  | not, _ => .error (.operand op "BOOLEAN" v.described)
  | unknown sign, _ => .error (.unknownUnary sign)

namespace BinaryOp

/-- The operands are not of the kinds that the operator wants. -/
def mismatch (op : BinaryOp) (wanted : String) (l r : Value) : Except Cause Value :=
  .error (.operands op wanted l.described r.described)

/-- Arithmetic that stays in INTEGER for two INTEGER operands and is REAL otherwise. -/
def arithmetic (op : BinaryOp) (onIntegers? : Int64 → Int64 → Option Int64)
    (onReals : Float → Float → Float) (l r : Value) : Except Cause Value :=
  match l, r with
  | .integer m, .integer n =>
    match onIntegers? m n with
    | some result => .ok (.integer result)
    | none => .error (.overflow m op n)
  | _, _ =>
    match l.toReal?, r.toReal? with
    | some x, some y => .ok (.real (onReals x y))
    | _, _ => op.mismatch "numeric" l r

/-- Division, which is always REAL. -/
def division (op : BinaryOp) (l r : Value) : Except Cause Value :=
  match l.toReal?, r.toReal? with
  | some x, some y => if y == 0 then .error .divisionByZero else .ok (.real (x / y))
  | _, _ => op.mismatch "numeric" l r

/-- `MOD` and `DIV`. -/
def integerDivision (op : BinaryOp) (result? : Int64 → Int64 → Option Int64) (l r : Value) :
    Except Cause Value :=
  match l, r with
  | .integer m, .integer n =>
    if n = 0 then .error (.zeroDivisor op)
    else match result? m n with
      | some result => .ok (.integer result)
      | none => .error (.overflow m op n)
  | _, _ => op.mismatch "INTEGER" l r

/-- `&`, which is always STRING. -/
def concatenation (op : BinaryOp) (l r : Value) : Except Cause Value :=
  match l.toText?, r.toText? with
  | some a, some b => .ok (.string (a ++ b))
  | _, _ => op.mismatch "STRING or CHAR" l r

/-- An order between two numbers. -/
def comparison (op : BinaryOp) (holds : Ordering → Bool) (l r : Value) : Except Cause Value :=
  match Value.compareNumbers? l r with
  | some ordering => .ok (.boolean (holds ordering))
  | none => op.mismatch "numeric" l r

/-- `=` and `<>`. -/
def equality (holds : Bool → Bool) (l r : Value) : Except Cause Value :=
  match l.equals? r with
  | some same => .ok (.boolean (holds same))
  | none => .error (.incomparable l.described r.described)

/-- `AND` and `OR`; both operands are always evaluated. -/
def logic (op : BinaryOp) (holds : Bool → Bool → Bool) (l r : Value) : Except Cause Value :=
  match l, r with
  | .boolean a, .boolean b => .ok (.boolean (holds a b))
  | _, _ => op.mismatch "BOOLEAN" l r

def apply (op : BinaryOp) (l r : Value) : Except Cause Value :=
  match op with
  | add => op.arithmetic Integer.add? (· + ·) l r
  | subtract => op.arithmetic Integer.subtract? (· - ·) l r
  | multiply => op.arithmetic Integer.multiply? (· * ·) l r
  | divide => op.division l r
  | modulo => op.integerDivision (fun m n => some (Integer.modulo m n)) l r
  | quotient => op.integerDivision Integer.quotient? l r
  | join => op.concatenation l r
  | less => op.comparison (· == .lt) l r
  | greater => op.comparison (· == .gt) l r
  | lessEqual => op.comparison (· != .gt) l r
  | greaterEqual => op.comparison (· != .lt) l r
  | equal => equality id l r
  | notEqual => equality not l r
  | and => op.logic (· && ·) l r
  | or => op.logic (· || ·) l r
  | unknown sign => .error (.unknownBinary sign)

end BinaryOp

end Pseudocode
