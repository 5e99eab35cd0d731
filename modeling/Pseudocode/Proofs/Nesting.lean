import Pseudocode.Proofs.Moves

/-! # What the frames of a stack wait for

Some frames wait for a value and others for the end of a statement or block. A frame that itself
ends as a statement does, without a value, stands on one that waits for such an end. So the end of a
statement and a `RETURN` never reach a frame that waits for a value; in particular they never pass
by a call whose arguments are being bound. -/

namespace Pseudocode

/-- The end of a statement can be handed to the stack. -/
def TakesEnd : List Frame → Prop
  | [] => True
  | frame :: _ => frame.waitsForEnd = true

/-- Every frame that ends as a statement does stands on one that takes such an end. -/
def StackNested : List Frame → Prop
  | [] => True
  | frame :: rest => (frame.endsPlainly = true → TakesEnd rest) ∧ StackNested rest

structure Config.Nested (c : Config) : Prop where
  control : c.control.endsPlainly = true → TakesEnd c.stack
  stack : StackNested c.stack

namespace Config

variable {settings : Settings} {plain returns : Bool} {values : Value → Prop} {stack : List Frame}
  {id : ScopeId} {log : Array LogEntry} {depth : Nat} {c : Config}

theorem Moves.nested (moves : Moves plain returns values id stack log depth c)
    (ends : plain = true → TakesEnd stack) (nested : StackNested stack) : c.Nested := by
  cases moves with
  | goes plainly => exact ⟨fun control => ends (plainly control), nested⟩
  | @waits control frame _ _ awaits plainly =>
    refine ⟨fun control => ?_, fun frame => ends (plainly frame), nested⟩
    change frame.waitsForEnd = true
    unfold Frame.awaits at awaits
    split at awaits
    · cases control
    · exact (Bool.and_eq_true_iff.mp awaits).1
    · exact (Bool.and_eq_true_iff.mp awaits).1
    · cases awaits

theorem Nested.step (nested : c.Nested) : (c.step settings).Nested := by
  have move := c.step_move settings
  generalize c.step settings = next at move
  cases move with
  | halts => exact nested
  | begins _ _ moves => exact moves.nested nested.control nested.stack
  | enters isCall =>
    refine ⟨fun _ => rfl, fun ends => nested.control ?_, nested.stack⟩
    rw [isCall]
    exact ends
  | hands isTop _ _ plainly _ moves =>
    obtain ⟨ends, frames⟩ := nested
    rw [isTop] at ends frames
    refine moves.nested (fun isPlain => ?_) frames.2
    rcases plainly isPlain with frameEnds | ⟨controlEnds, waiting⟩
    · exact frames.1 frameEnds
    · exact absurd (ends controlEnds) (Bool.eq_false_iff.mp waiting)
  | drops _ isTop waiting =>
    refine ⟨fun _ => ?_, nested.stack⟩
    rw [isTop]
    exact waiting

end Config

end Pseudocode
