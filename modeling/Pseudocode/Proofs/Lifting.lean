import Pseudocode.Proofs.Output

/-! # Runs do not look below

Frames that wait below what is being done do not take part in it: until a run has nothing left to do
above them, it goes as it would go without them. -/

namespace Pseudocode

namespace Config

def onto (c : Config) (base : List Frame) : Config :=
  { c with stack := c.stack ++ base }

variable {settings : Settings}

theorem step_onto {c : Config} (running : c.halted = false) (base : List Frame) :
    (c.onto base).step settings = (c.step settings).onto base := by
  by_cases writes : ∃ v, c.Writes v
  case neg =>
    -- The sink stays, so nothing but the frames below is different.
    have silent := not_exists.mp writes
    have same : (c.step settings).withSink c.state.sink = c.step settings :=
      (step_withSink silent c.state.sink).symm
    have inner : c.halted = true → base = [] := fun halted => by
      rw [running] at halted
      cases halted
    exact (step_elsewhere silent inner c.state.sink).trans (congrArg (·.onto base) same)
  case pos =>
    obtain ⟨v, rest, isValue, isOutput⟩ := writes
    obtain ⟨control, stack, id, state⟩ := c
    cases isValue
    cases isOutput
    change step settings ⟨.value v, .output :: (rest ++ base), id, state⟩ = _
    cases closed : state.sink.closed with
    | true =>
      rw [step_closed v _ closed, step_closed v _ closed]
      rfl
    | false =>
      rw [step_taken v _ closed, step_taken v _ closed]
      rfl

theorem halted_onto {c : Config} (running : c.halted = false) (base : List Frame) :
    (c.onto base).halted = false := by
  obtain ⟨control, upper, id, state⟩ := c
  cases upper with
  | nil =>
    cases control with
    | value | done | returning | failing => cases running
    | _ => cases base <;> rfl
  | cons frame rest => rfl

/-- As long as a run has something left to do, it goes the same way above other frames. -/
theorem advance_onto {c : Config} {n : Nat}
    (running : ∀ k < n, (c.advance settings k).halted = false) (base : List Frame) :
    (c.onto base).advance settings n = (c.advance settings n).onto base := by
  induction n generalizing c with
  | zero => rfl
  | succ n ih =>
    have now : c.halted = false := running 0 (Nat.succ_pos n)
    rw [advance_succ now, advance_succ (halted_onto now base), step_onto now]
    refine ih fun k below => ?_
    rw [← advance_succ now]
    exact running (k + 1) (Nat.succ_lt_succ below)

end Config

end Pseudocode
