import Pseudocode.Proofs.Passing

/-! # The first `RETURN`

A routine is left by the first of its own `RETURN` statements that runs, however deep it stands in
branches and loops. The `RETURN` statements of the routines that it calls leave these and nothing
else. So what a body comes to is decided by the first `RETURN` at which no further call is open: if
there is none, the body runs to its end or fails. -/

namespace Pseudocode

/-- Every `RETURN` that waits for its value belongs to a routine that is called above. -/
def StackQuiet : List Frame → Prop
  | [] => True
  | frame :: rest => (frame.isReturning = true → 0 < openCalls rest) ∧ StackQuiet rest

namespace Config

variable {settings : Settings} {stack : List Frame} {id : ScopeId} {state : State}

/-- The expression of the `RETURN` that the next step runs, if this `RETURN` belongs to the body with
which the run began. -/
def ownReturn? (c : Config) : Option (Option Expr) :=
  match c.control with
  | .exec (.returning value _) => if openCalls c.stack = 0 then some value else none
  | _ => none

/-! ## Only a `RETURN` returns -/

/-- No `RETURN` of the body with which the run began is under way. -/
structure Quiet (c : Config) : Prop where
  control : c.control.isReturning = true → 0 < openCalls c.stack
  stack : StackQuiet c.stack

namespace Quiet

theorem of_moves {plain returns : Bool} {values : Value → Prop} {log : Array LogEntry}
    {depth : Nat} {c : Config} (moves : Moves plain returns values id stack log depth c)
    (quiet : StackQuiet stack) (calls : returns = true → 0 < openCalls stack) : c.Quiet := by
  cases moves with
  | goes _ returning => exact ⟨fun control => calls (returning control), quiet⟩
  | @waits control frame _ _ awaits _ returning =>
    refine ⟨fun returns => ?_, fun frame => calls (returning frame), quiet⟩
    cases control with
    | returning => cases awaits
    | _ => cases returns

/-- A `RETURN` that runs while a further call is open is not one of the body's own. -/
theorem step {c : Config} (quiet : c.Quiet) (other : c.ownReturn? = none) :
    (c.step settings).Quiet := by
  have move := c.step_move settings
  generalize c.step settings = next at move
  cases move with
  | halts => exact quiet
  | enters => exact ⟨(fun none => by cases none), (fun none => by cases none), quiet.stack⟩
  | begins _ _ moves =>
    refine of_moves moves quiet.stack fun begins => ?_
    unfold Control.beginsReturn at begins
    split at begins
    case h_1 value span isReturn =>
      simp only [ownReturn?, isReturn] at other
      split at other
      · cases other
      · omega
    case h_2 => cases begins
  | @hands frame rest _ _ _ isTop _ _ _ returning moves =>
    obtain ⟨control, frames⟩ := quiet
    rw [isTop] at control frames
    refine of_moves moves frames.2 fun returns => ?_
    rcases returning returns with waiting | ⟨isReturning, inside⟩
    · exact frames.1 waiting
    · have calls := control isReturning
      cases frame with
      | invocation => cases inside
      | _ => exact calls
  | drops => exact ⟨(fun none => by cases none), quiet.stack⟩

theorem advance {c : Config} (quiet : c.Quiet)
    (never : ∀ n, (c.advance settings n).ownReturn? = none) (n : Nat) :
    (c.advance settings n).Quiet := by
  induction n with
  | zero => exact quiet
  | succ n ih =>
    rw [← step_advance]
    exact ih.step (never n)

end Quiet

/-! ## What a `RETURN` leads to -/

/-- What a `RETURN` with this expression carries. -/
def Carries (settings : Settings) (c : Config) : Option Expr → Option Value → Prop
  | none, carried => carried = none
  | some e, carried =>
    ∃ v after, Comes settings (.eval e) c.scope c.state (.value v) after ∧ carried = some v

/-- The first `RETURN` of its own that the body reaches carries this. -/
def FirstReturns (settings : Settings) (c : Config) (carried : Option Value) : Prop :=
  ∃ n value, (c.advance settings n).ownReturn? = some value ∧
    (∀ k < n, (c.advance settings k).ownReturn? = none) ∧
    (c.advance settings n).Carries settings value carried

def NeverReturns (settings : Settings) (c : Config) : Prop :=
  ∀ n, (c.advance settings n).ownReturn? = none

variable {c d : Config} {value : Option Expr} {carried : Option Value} {flow : Control}
  {block : List Stmt} {left : State}

theorem eq_of_ownReturn? (own : c.ownReturn? = some value) :
    ∃ span, c.control = .exec (.returning value span) ∧ openCalls c.stack = 0 := by
  unfold ownReturn? at own
  split at own
  case h_1 found span isReturn =>
    split at own
    case isTrue none =>
      cases own
      exact ⟨span, isReturn, none⟩
    case isFalse => cases own
  case h_2 => cases own

/-- A `RETURN` drops the frames of its routine, one after the other. -/
theorem returning_reaches (own : openCalls stack = 0) (v : Option Value) (span : Span) :
    Reaches settings ⟨.returning v span, stack, id, state⟩ ⟨.returning v span, [], id, state⟩ := by
  induction stack with
  | nil => exact .refl _
  | cons frame rest ih =>
    cases frame with
    | invocation => cases own
    | _ => exact .step (ih own)

theorem Carries.reaches (own : c.ownReturn? = some value)
    (carries : c.Carries settings value carried) :
    ∃ span id state, c.Reaches settings ⟨.returning carried span, [], id, state⟩ := by
  obtain ⟨control, stack, id, state⟩ := c
  obtain ⟨span, rfl, none⟩ := eq_of_ownReturn? own
  cases value with
  | none =>
    cases carries
    exact ⟨span, id, state, .step (returning_reaches none _ span)⟩
  | some e =>
    obtain ⟨v, after, comes, rfl⟩ := carries
    refine ⟨span, id, after, .step ?_⟩
    have evaluated := comes.reaches (.returning span :: stack)
    exact evaluated.trans (.step (returning_reaches none (some v) span))

theorem step_failing (f : Failure) :
    ∃ f', (step settings ⟨.failing f, stack, id, state⟩).control = .failing f' := by
  cases stack with
  | nil => exact ⟨f, rfl⟩
  | cons frame rest =>
    cases frame with
    | argument | invocation =>
      apply access_all (P := fun next => ∃ f', next.control = .failing f')
      · exact fun _ _ => ⟨_, rfl⟩
      · exact fun _ _ => ⟨_, rfl⟩
    | _ => exact ⟨_, rfl⟩

theorem Reaches.failing {f : Failure} (reaches : c.Reaches settings d)
    (fails : c.control = .failing f) : ∃ f', d.control = .failing f' := by
  obtain ⟨n, rfl⟩ := reaches
  apply advance_induction (P := fun d => ∃ f', d.control = .failing f')
  · rintro ⟨control, stack, id, state⟩ ⟨f', rfl⟩
    exact step_failing f'
  · exact ⟨f, fails⟩

theorem Reaches.nested (reaches : c.Reaches settings d) (nested : c.Nested) : d.Nested := by
  obtain ⟨n, rfl⟩ := reaches
  exact advance_induction (P := Nested) (fun _ => Nested.step) n nested

/-- If the run does not end in a failure, its `RETURN` carries something. -/
theorem Halts.carries (halts : c.Halts settings d) (intact : ∀ f, d.control ≠ .failing f)
    (nested : c.Nested) (own : c.ownReturn? = some value) :
    ∃ carried, c.Carries settings value carried := by
  obtain ⟨control, stack, id, state⟩ := c
  obtain ⟨span, rfl, -⟩ := eq_of_ownReturn? own
  cases value with
  | none => exact ⟨none, rfl⟩
  | some e =>
    have above : Halts settings (onto ⟨.eval e, [], id, state⟩ (.returning span :: stack)) d :=
      halts_step.mpr halts
    obtain ⟨_, ends, later⟩ := halts_onto.mp above
    obtain ⟨outcome, after, rfl⟩ := ends.comes
    have comes : Comes settings (.eval e) id state outcome after := ends
    have isOutcome := comes.isOutcome
    have evaluated := comes.reaches (.returning span :: stack)
    have waits := (Reaches.step evaluated).nested nested
    cases outcome with
    | value v => exact ⟨some v, v, after, comes, rfl⟩
    | failing f =>
      obtain ⟨f, fails⟩ := Reaches.failing later.2 rfl
      exact absurd fails (intact f)
    | done => cases waits.control rfl
    | returning v span => cases waits.control rfl
    | _ => cases isOutcome

theorem exists_first_ownReturn {n : Nat} (own : (c.advance settings n).ownReturn? = some value) :
    ∃ k value, (c.advance settings k).ownReturn? = some value ∧
      ∀ j < k, (c.advance settings j).ownReturn? = none := by
  have some : ∃ k, (c.advance settings k).ownReturn?.isSome = true := ⟨n, by rw [own]; rfl⟩
  obtain ⟨value, first⟩ := Option.isSome_iff_exists.mp (Nat.find_spec some)
  refine ⟨Nat.find some, value, first, fun j early => ?_⟩
  exact Option.not_isSome_iff_eq_none.mp (Nat.find_min some early)

/-! ## What a body comes to -/

section Body

variable (comes : Comes settings (.run block) id state flow left)

include comes

theorem Comes.eq_of_carries {n : Nat}
    (own : (advance settings n ⟨.run block, [], id, state⟩).ownReturn? = some value)
    (carries : (advance settings n ⟨.run block, [], id, state⟩).Carries settings value carried) :
    ∃ span, flow = .returning carried span := by
  obtain ⟨span, id', state', reaches⟩ := carries.reaches own
  have here : Reaches settings ⟨.run block, [], id, state⟩ _ := ⟨n, rfl⟩
  have halts := (here.trans reaches).halts_iff.mpr ((halts_of_halted rfl).mpr rfl)
  exact ⟨span, congrArg Config.control (Halts.unique comes halts)⟩

theorem Comes.exists_ownReturn {span : Span} (returns : flow = .returning carried span) :
    ∃ n value, (advance settings n ⟨.run block, [], id, state⟩).ownReturn? = some value := by
  by_contra none
  have never : NeverReturns settings ⟨.run block, [], id, state⟩ := by
    intro n
    exact Option.eq_none_iff_forall_ne_some.mpr fun value own => none ⟨n, value, own⟩
  obtain ⟨-, n, ended⟩ := comes
  have begins : Quiet ⟨.run block, [], id, state⟩ := ⟨fun returns => (by cases returns), trivial⟩
  have quiet := begins.advance never n
  rw [ended, returns] at quiet
  exact Nat.lt_irrefl 0 (quiet.control rfl)

variable (intact : ∀ f, flow ≠ .failing f)

include intact

theorem Comes.exists_carries {n : Nat}
    (own : (advance settings n ⟨.run block, [], id, state⟩).ownReturn? = some value) :
    ∃ carried, (advance settings n ⟨.run block, [], id, state⟩).Carries settings value carried := by
  have here : Reaches settings ⟨.run block, [], id, state⟩ _ := ⟨n, rfl⟩
  have begins : Nested ⟨.run block, [], id, state⟩ := ⟨fun _ => trivial, trivial⟩
  exact Halts.carries (here.halts_iff.mp comes) intact (here.nested begins) own

theorem Comes.done_or_returning : flow = .done ∨ ∃ v span, flow = .returning v span := by
  have isOutcome := comes.isOutcome
  rcases comes.block with done | stops
  · exact .inl done
  · cases flow with
    | returning v span => exact .inr ⟨v, span, rfl⟩
    | failing f => exact absurd rfl (intact f)
    | value | done => cases stops
    | _ => cases isOutcome

theorem Comes.firstReturns_iff :
    FirstReturns settings ⟨.run block, [], id, state⟩ carried ↔
      ∃ span, flow = .returning carried span := by
  constructor
  · rintro ⟨n, value, own, -, carries⟩
    exact comes.eq_of_carries own carries
  · rintro ⟨span, returns⟩
    obtain ⟨n, value, own⟩ := comes.exists_ownReturn returns
    obtain ⟨k, value, first, earlier⟩ := exists_first_ownReturn own
    obtain ⟨found, carries⟩ := comes.exists_carries intact first
    obtain ⟨span', same⟩ := comes.eq_of_carries first carries
    cases returns.symm.trans same
    exact ⟨k, value, first, earlier, carries⟩

theorem Comes.neverReturns_iff :
    NeverReturns settings ⟨.run block, [], id, state⟩ ↔ flow = .done := by
  constructor
  · intro never
    rcases comes.done_or_returning intact with done | ⟨v, span, returns⟩
    · exact done
    · obtain ⟨n, value, own⟩ := comes.exists_ownReturn returns
      cases (never n).symm.trans own
  · rintro rfl n
    refine Option.eq_none_iff_forall_ne_some.mpr fun value own => ?_
    obtain ⟨carried, carries⟩ := comes.exists_carries intact own
    obtain ⟨span, same⟩ := comes.eq_of_carries own carries
    cases same

end Body

end Config

end Pseudocode
