import Pseudocode.Operator
import Pseudocode.Proofs.Actions
import Pseudocode.Value.Build

/-! # Results of literals and operators

Whatever its operands are, an operator gives a number, a text or a truth value, or it fails; so no
operator makes a date, a routine or a type out of others. Dates come from literals, which are
checked. -/

namespace Pseudocode

/-- A plain value, or a failure that has nothing to do with handles. -/
def Computed (result : Except Cause Value) : Prop :=
  match result with
  | .ok v => v.Plain
  | .error cause => cause.Tame

theorem Value.ofCharText_computed (text : String) : Computed (Value.ofCharText text) := by
  unfold Value.ofCharText
  split
  · trivial
  · exact nofun

theorem Value.ofDate_computed (d : Date) : Computed (Value.ofDate d) := by
  unfold Value.ofDate
  split
  · exact nofun
  case h_2 valid => exact Date.flaw?_eq_none.mp valid

theorem Value.ofCharText_kind {text : String} {v : Value} (gives : Value.ofCharText text = .ok v) :
    v.kind? = some .char := by
  unfold Value.ofCharText at gives
  split at gives
  · cases gives
    rfl
  · cases gives

theorem Value.ofDate_kind {d : Date} {v : Value} (gives : Value.ofDate d = .ok v) :
    v.kind? = some .date := by
  unfold Value.ofDate at gives
  split at gives
  · cases gives
  · cases gives
    rfl

/-- Whether the cause has to do with the machine and not with what is written. -/
def Cause.isInternal : Cause → Bool
  | notLive _ | unknownUnary _ | unknownBinary _ | cannotBuild _ _ | cannotConstruct _
  | other _ _ _ => true
  | _ => false

/-- A number, a truth value, or a failure that has nothing to do with the machine. -/
inductive Answered : Except Cause Value → Prop where
  | integer (n : Int64) : Answered (.ok (.integer n))
  | real (x : Float) : Answered (.ok (.real x))
  | boolean (b : Bool) : Answered (.ok (.boolean b))
  | refused {cause : Cause} : cause.isInternal = false → Answered (.error cause)

theorem Answered.computed {result : Except Cause Value} (answered : Answered result) :
    Computed result := by
  cases answered with
  | integer | real | boolean => trivial
  | refused proper =>
    rintro h rfl
    cases proper

theorem UnaryOp.apply_cases (op : UnaryOp) (v : Value) :
    Answered (op.apply v) ∨ ∃ sign, op = .unknown sign := by
  unfold UnaryOp.apply
  split
  case h_1 =>
    left
    split
    · exact .integer _
    · exact .refused rfl
  case h_2 => exact .inl (.real _)
  case h_4 => exact .inl (.boolean _)
  case h_6 sign => exact .inr ⟨sign, rfl⟩
  all_goals exact .inl (.refused rfl)

theorem UnaryOp.apply_computed (op : UnaryOp) (v : Value) : Computed (op.apply v) := by
  rcases op.apply_cases v with answered | ⟨sign, rfl⟩
  · exact answered.computed
  · exact nofun

namespace BinaryOp

variable (op : BinaryOp)

include op

theorem arithmetic_answered (onIntegers? : Int64 → Int64 → Option Int64)
    (onReals : Float → Float → Float) (l r : Value) :
    Answered (op.arithmetic onIntegers? onReals l r) := by
  unfold arithmetic
  split
  · split
    · exact .integer _
    · exact .refused rfl
  · split
    · exact .real _
    · exact .refused rfl

theorem division_answered (l r : Value) : Answered (op.division l r) := by
  unfold division
  split
  · split
    · exact .refused rfl
    · exact .real _
  · exact .refused rfl

theorem integerDivision_answered (result? : Int64 → Int64 → Option Int64) (l r : Value) :
    Answered (op.integerDivision result? l r) := by
  unfold integerDivision
  split
  · split
    · exact .refused rfl
    · split
      · exact .integer _
      · exact .refused rfl
  · exact .refused rfl

theorem comparison_answered (holds : Ordering → Bool) (l r : Value) :
    Answered (op.comparison holds l r) := by
  unfold comparison
  split
  · exact .boolean _
  · exact .refused rfl

omit op in
theorem equality_answered (holds : Bool → Bool) (l r : Value) : Answered (equality holds l r) := by
  unfold equality
  split
  · exact .boolean _
  · exact .refused rfl

theorem logic_answered (holds : Bool → Bool → Bool) (l r : Value) :
    Answered (op.logic holds l r) := by
  unfold logic
  split
  · exact .boolean _
  · exact .refused rfl

/-- Only `&` gives a text. -/
theorem apply_cases (l r : Value) :
    Answered (op.apply l r) ∨
      (op = .join ∧ ∃ a b, l.toText? = some a ∧ r.toText? = some b ∧
        op.apply l r = .ok (.string (a ++ b))) ∨
      ∃ sign, op = .unknown sign := by
  cases op with
  | add | subtract | multiply => exact .inl (arithmetic_answered _ _ _ l r)
  | divide => exact .inl (division_answered _ l r)
  | modulo => exact .inl (integerDivision_answered _ (fun m n => some (Integer.modulo m n)) l r)
  | quotient => exact .inl (integerDivision_answered _ _ l r)
  | less | greater | lessEqual | greaterEqual => exact .inl (comparison_answered _ _ l r)
  | equal | notEqual => exact .inl (equality_answered _ l r)
  | and | or => exact .inl (logic_answered _ _ l r)
  | unknown sign => exact .inr (.inr ⟨sign, rfl⟩)
  | join =>
    rw [apply, concatenation]
    split
    case h_1 a b left right => exact .inr (.inl ⟨rfl, a, b, left, right, rfl⟩)
    case h_2 => exact .inl (.refused rfl)

theorem apply_computed (l r : Value) : Computed (op.apply l r) := by
  rcases op.apply_cases l r with answered | ⟨-, a, b, -, -, gives⟩ | ⟨sign, rfl⟩
  · exact answered.computed
  · rw [gives]
    trivial
  · exact nofun

end BinaryOp

end Pseudocode
