import Pseudocode.Proofs.Lifting
import Pseudocode.Proofs.Sessions

/-! # The store is typed

What a variable holds is of the variable's type, what a call of a function gives is of the type that
the function was declared with, and a date is a date of the language wherever it occurs.

A call that is evaluated in the middle of a run is followed to the moment at which the frames below
it are next. Up to there the run goes as if the call were evaluated alone, and then the frame of the
call is the lowest one. -/

namespace Pseudocode

/-- The type of the results, if the frame belongs to the call of a function. -/
def Frame.result? : Frame → Option Ty
  | .argument call => call.result
  | .invocation _ result _ _ => result
  | _ => none

namespace Config

/-- What the configuration begins to do has come to its end, and the frames that waited are next. -/
def Returned (c later : Config) : Prop :=
  later.stack = c.stack ∧ later.control.isOutcome = true

/-- What the configuration begins to do ends after `n` steps in this way. -/
structure Ends (settings : Settings) (c : Config) (n : Nat) (outcome : Control) : Prop where
  returned : c.Returned (c.advance settings n)
  control : (c.advance settings n).control = outcome
  first : ∀ k < n, ¬ c.Returned (c.advance settings k)

/-- The values that occur in a configuration. -/
inductive Occurs (c : Config) : Value → Prop where
  | cell {h cell v} : c.state.memory.store.cell? h = some cell → cell.value = some v → Occurs c v
  | constant {id name v} : c.state.memory.Binds id name (.constant v) → Occurs c v
  /-- The value of an expression: an operand, an argument, a result. -/
  | value {v} : c.control = .value v → Occurs c v
  | returning {v span} : c.control = .returning (some v) span → Occurs c v
  | operand {op v} : .right op v ∈ c.stack → Occurs c v

def alone (c : Config) : Config :=
  { c with stack := [] }

theorem onto_alone (c : Config) : c.alone.onto c.stack = c := rfl

variable {settings : Settings} {c : Config}

/-- While what is done alone still runs, the run above the frames is the same run. -/
theorem advance_alone {n : Nat} (running : ∀ k < n, (c.alone.advance settings k).halted = false) :
    c.advance settings n = (c.alone.advance settings n).onto c.stack := by
  rw [← advance_onto running, onto_alone]

/-- What ends in the middle of a run ends in the same way when it is done alone. -/
theorem Ends.alone {n : Nat} {outcome : Control} (ends : c.Ends settings n outcome) :
    (c.alone.advance settings n).stack = [] ∧ (c.alone.advance settings n).control = outcome := by
  -- Were it over earlier when done alone, it would be over earlier in the run.
  have running (k : Nat) (le : k ≤ n) : ∀ j < k, (c.alone.advance settings j).halted = false := by
    induction k with
    | zero => exact fun j below => (Nat.not_lt_zero j below).elim
    | succ k ih =>
      intro j below
      rcases Nat.lt_succ_iff_lt_or_eq.mp below with earlier | rfl
      · exact ih (Nat.le_of_succ_le le) j earlier
      · refine Bool.eq_false_iff.mpr fun halted => ends.first j le ?_
        obtain ⟨empty, isOutcome⟩ := halted_iff.mp halted
        rw [advance_alone (ih (Nat.le_of_succ_le le))]
        exact ⟨(congrArg (· ++ c.stack) empty).trans (List.nil_append _), isOutcome⟩
  have same := advance_alone (running n (Nat.le_refl n))
  obtain ⟨stack, -⟩ := ends.returned
  rw [same] at stack
  refine ⟨List.append_left_eq_self.mp stack, ?_⟩
  exact (congrArg Config.control same).symm.trans ends.control

/-! ## Calls of functions -/

/-- A call of a function with results of type `t` is being evaluated alone, or it has ended. -/
inductive Calling (t : Ty) : Config → Prop where
  | binding {call id state} : call.result = some t → Calling t ⟨.bind call, [], id, state⟩
  | inside {control upper frame id state} : frame.result? = some t →
      Calling t ⟨control, upper ++ [frame], id, state⟩
  | ended {control id state} : control.isOutcome = true →
      (∀ v, control = .value v → t.accepts v = true) → Calling t ⟨control, [], id, state⟩

variable {t : Ty} {state : State} {id : ScopeId} {control : Control}

theorem Calling.lowest {frame : Frame} (result : frame.result? = some t) :
    Calling t ⟨control, [frame], id, state⟩ :=
  @Calling.inside t control [] frame id state result

theorem Calling.failing (f : Failure) (id : ScopeId) (state : State) :
    Calling t ⟨.failing f, [], id, state⟩ :=
  .ended rfl nofun

theorem Calling.tryAccess {α : Type} {action : Memory.Action α} {onOk : α → State → Config}
    (ok : ∀ a state, Calling t (onOk a state)) : Calling t (tryAccess state action [] id onOk) :=
  access_all ok fun fault _ => .failing (.fault fault) ..

theorem Calling.abandon (call : Call) (argument : Span) (f : Failure) :
    Calling t (abandon call argument f [] id state) :=
  .tryAccess fun _ _ => .failing ..

theorem Calling.leave {routine : Routine} {callee caller : ScopeId}
    (isOutcome : control.isOutcome = true)
    (accepted : ∀ v, control = .value v → t.accepts v = true) :
    Calling t (leave settings routine callee caller control [] state) :=
  .tryAccess fun _ _ => .ended isOutcome accepted

theorem returned_accepted (routine : Routine) (t : Ty) (v : Option Value) (span : Span) :
    (returned routine t v span).isOutcome = true ∧
      ∀ w, returned routine t v span = .value w → t.accepts w = true := by
  rcases returned_cases routine t v span with ⟨w, -, accepted, gives⟩ | ⟨f, fails⟩
  · rw [gives]
    refine ⟨rfl, fun w' same => ?_⟩
    cases same
    exact accepted
  · rw [fails]
    exact ⟨rfl, nofun⟩

theorem Calling.bindNext {call : Call} (result : call.result = some t) (id : ScopeId)
    (state : State) : Calling t (bindNext settings call [] id state) := by
  unfold Config.bindNext
  split
  · split
    · split
      · exact access_all (fun _ _ => .binding result) fun _ _ => .abandon ..
      · exact .abandon ..
    · exact .lowest result
  · exact .lowest result

/-- The frame of the call is the only one, and something comes of what it waits for. -/
theorem Calling.resume {frame : Frame} (result : frame.result? = some t)
    (isOutcome : control.isOutcome = true) (id : ScopeId) (state : State) :
    Calling t (step settings ⟨control, [frame], id, state⟩) := by
  cases frame with
  | argument call =>
    cases control with
    | value v =>
      unfold step give
      dsimp only
      split
      · exact access_all (fun _ _ => .binding result) fun _ _ => .abandon ..
      · exact .binding result
    | done => exact .ended rfl nofun
    | returning v span => exact .ended rfl nofun
    | failing f => exact .abandon ..
    | _ => cases isOutcome
  | invocation routine result' callee caller =>
    cases result
    cases control with
    | value v => exact .lowest rfl
    | done => exact .leave rfl nofun
    | returning v span =>
      obtain ⟨isOutcome, accepted⟩ := returned_accepted routine t v span
      exact .leave isOutcome accepted
    | failing f => exact .leave rfl nofun
    | _ => cases isOutcome
  | _ => cases result

theorem Calling.step (calling : Calling t c) : Calling t (c.step settings) := by
  cases calling with
  | binding result => exact .bindNext result ..
  | @ended control id state isOutcome accepted =>
    cases control with
    | value | done | returning | failing => exact .ended rfl accepted
    | _ => cases isOutcome
  | @inside control upper frame id state result =>
    cases halted : Config.halted ⟨control, upper, id, state⟩ with
    | true =>
      obtain ⟨empty, isOutcome⟩ := halted_iff.mp halted
      cases empty
      exact .resume result isOutcome id state
    | false =>
      -- The lowest frame takes no part in the step.
      change Calling t (Config.step settings (Config.onto ⟨control, upper, id, state⟩ [frame]))
      rw [step_onto halted]
      exact .inside result

theorem Calling.beginCall (routine : Routine) (arguments : List Expr) (id : ScopeId)
    (state : State) : Calling t (beginCall settings routine (some t) arguments [] id state) := by
  unfold Config.beginCall
  split
  · exact .failing ..
  · split
    · exact .failing ..
    · exact .tryAccess fun _ _ => .binding rfl

theorem Calling.accepted (calling : Calling t c) {v : Value} (alone : c.stack = [])
    (gives : c.control = .value v) : t.accepts v = true := by
  cases calling with
  | binding => cases gives
  | inside => exact (List.append_ne_nil_of_right_ne_nil _ (List.cons_ne_nil _ _) alone).elim
  | ended _ accepted => exact accepted v gives

/-- A call in an expression begins if its name stands for a function, and fails otherwise. -/
theorem call_begins (callee : Ident) (arguments : List Expr) (span : Span) (stack : List Frame)
    (id : ScopeId) (state : State) :
    (∃ routine t, (Memory.lookup id callee.name).run state.memory =
      .ok (.function routine t) state.memory ∧
      Config.step settings ⟨.eval (.call callee arguments span), stack, id, state⟩ =
        beginCall settings routine (some t) arguments stack id state) ∨
    ∃ f, Config.step settings ⟨.eval (.call callee arguments span), stack, id, state⟩ =
      ⟨.failing f, stack, id, state⟩ := by
  unfold Config.step evaluate
  dsimp only
  have same := state.memory.lookup_same id callee.name
  cases found : (Memory.lookup id callee.name).run state.memory with
  | error fault m =>
    rw [found] at same
    cases same
    exact .inr ⟨.fault fault, tryAccess_error found ..⟩
  | ok v m =>
    rw [found] at same
    cases same
    rw [tryAccess_ok found]
    cases v with
    | function routine t => exact .inl ⟨routine, t, rfl, rfl⟩
    | _ => exact .inr ⟨_, rfl⟩

/-- A call that gives a value is the call of a function, and the value is of its result type. -/
theorem call_accepted {callee : Ident} {arguments : List Expr} {span : Span} {last : Config}
    {n : Nat} {v : Value}
    (isLast : Config.advance settings n ⟨.eval (.call callee arguments span), [], id, state⟩ = last)
    (alone : last.stack = []) (gives : last.control = .value v) :
    ∃ routine t, (Memory.lookup id callee.name).run state.memory =
      .ok (.function routine t) state.memory ∧ t.accepts v = true := by
  cases n with
  | zero =>
    cases isLast
    cases gives
  | succ n =>
    rw [advance_succ rfl] at isLast
    rcases call_begins callee arguments span [] id state with
      ⟨routine, t, found, begun⟩ | ⟨f, failed⟩
    · refine ⟨routine, t, found, ?_⟩
      rw [begun] at isLast
      have begins : Calling t (beginCall settings routine (some t) arguments [] id state) :=
        .beginCall routine arguments id state
      have calling : Calling t last :=
        isLast ▸ advance_induction (P := Calling t) (fun _ => Calling.step) n begins
      exact calling.accepted alone gives
    · rw [failed, advance_halted rfl] at isLast
      cases isLast
      cases gives

/-! ## Dates -/

theorem Occurs.date_valid {limit : Nat} (sound : c.Sound limit) {d : Date}
    (occurs : c.Occurs (.date d)) : d.Valid := by
  have memory := sound.settled.memory
  have control := sound.control
  cases occurs with
  | cell found value => exact ((memory.cells _ _ found).2 _ value).2
  | constant binds => exact memory.constants _ _ _ binds
  | value isValue =>
    rw [isValue] at control
    exact control
  | returning isReturning =>
    rw [isReturning] at control
    exact control
  | operand waits =>
    obtain ⟨id, fits⟩ := sound.settled.frames.operand (List.mem_append_right _ waits)
    exact fits

end Config

/-- At every moment of every request what a variable holds is of the variable's type, what a call of
a function gives is of the function's result type, and the dates that occur are dates of the
language. -/
theorem Session.Reached.typed {options : Options} {s : Session} (reached : Reached options s)
    {c : Config} (passes : s.Passes c) :
    (∀ h cell v, c.state.memory.store.cell? h = some cell → cell.value = some v →
      cell.type.accepts v = true) ∧
    (∀ callee arguments span n v, c.control = .eval (.call callee arguments span) →
      c.Ends s.settings n (.value v) → ∃ routine t,
        (Memory.lookup c.scope callee.name).run c.state.memory =
          .ok (.function routine t) c.state.memory ∧ t.accepts v = true) ∧
    ∀ d, c.Occurs (.date d) → d.Valid := by
  have sound := (reached.idle.passes passes).2
  refine ⟨?_, ?_, fun d occurs => occurs.date_valid sound⟩
  · exact fun h cell v found value => ((sound.settled.memory.cells h cell found).2 v value).1
  · intro callee arguments span n v begins ends
    obtain ⟨control, stack, id, state⟩ := c
    cases begins
    obtain ⟨alone, gives⟩ := ends.alone
    exact Config.call_accepted rfl alone gives

/-- The function of the sample gives 42 for 21, and its result type accepts 42. -/
theorem Session.Reached.typed_sample :
    let c : Config :=
      ⟨.eval (Sample.twice (.integer 21 .zero)), [], Memory.global, Sample.finished.state⟩
    c.Ends Sample.finished.settings 15 (.value (.integer 42)) ∧
      ∃ routine t, (Memory.lookup Memory.global "twice").run Sample.finished.state.memory =
          .ok (.function routine t) Sample.finished.state.memory ∧
        t.accepts (.integer 42) = true := by
  intro c
  have running : ∀ k < 15, (c.advance Sample.finished.settings k).halted = false := by
    decide +kernel
  have halted : (c.advance Sample.finished.settings 15).halted = true := by decide +kernel
  have gives : (c.advance Sample.finished.settings 15).control.gives (.integer 42) = true := by
    decide +kernel
  have ends : c.Ends Sample.finished.settings 15 (.value (.integer 42)) := by
    refine ⟨Config.halted_iff.mp halted, Control.eq_of_gives gives, fun k below returned => ?_⟩
    have late := Config.halted_iff.mpr returned
    rw [running k below] at late
    cases late
  have passes : Sample.finished.Passes c :=
    ⟨.expression (Sample.twice (.integer 21 .zero)), c, 0, rfl, rfl⟩
  exact ⟨ends, (Session.Reached.typed Sample.reached passes).2.1 _ _ _ 15 _ rfl ends⟩

end Pseudocode
