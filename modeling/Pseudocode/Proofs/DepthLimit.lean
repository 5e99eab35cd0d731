import Pseudocode.Proofs.Sequencing

/-! # The depth limit only cuts off

The limit is consulted in one place, where a call begins. There a higher limit makes no difference,
unless the lower one refuses the call; and nothing takes up the failure that follows, so it is what
comes of the program. -/

namespace Pseudocode

def Settings.withDepth (settings : Settings) (limit : Nat) : Settings :=
  { settings with maxDepth := limit }

def Failure.isExhaustion (f : Failure) : Bool :=
  f.kind? == some .stackExhausted

/-- A failure to begin a call is on its way up, because too many calls are open. -/
def Control.isExhaustion : Control → Bool
  | .failing f => f.isExhaustion
  | _ => false

theorem Failure.isExhaustion_withSpan (f : Failure) (span : Span) :
    (f.withSpan span).isExhaustion = f.isExhaustion := by
  rw [isExhaustion, kind?_withSpan, isExhaustion]

namespace Config

variable {settings : Settings} {limit : Nat} {stack : List Frame} {id : ScopeId} {state : State}

/-! ## Steps under two limits -/

/-- What comes under the lower limit also comes under the higher one, unless a call was refused. -/
def CutOff (lower higher : Config) : Prop :=
  higher = lower ∨ lower.control.isExhaustion = true

theorem tryAccess_cutOff {α : Type} {action : Memory.Action α} {onOk onOk' : α → State → Config}
    (ok : ∀ a state, CutOff (onOk a state) (onOk' a state)) :
    CutOff (tryAccess state action stack id onOk) (tryAccess state action stack id onOk') := by
  cases ran : action.run state.memory with
  | error fault m =>
    rw [tryAccess_error ran, tryAccess_error ran]
    exact .inl rfl
  | ok a m =>
    rw [tryAccess_ok ran, tryAccess_ok ran]
    exact ok a _

section

variable (higher : settings.maxDepth ≤ limit)

include higher

theorem beginCall_cutOff (routine : Routine) (result : Option Ty) (arguments : List Expr) :
    CutOff (beginCall settings routine result arguments stack id state)
      (beginCall (settings.withDepth limit) routine result arguments stack id state) := by
  by_cases deep : settings.maxDepth ≤ state.depth
  · right
    rw [beginCall, if_pos deep]
    rfl
  · left
    have shallow : ¬ (settings.withDepth limit).maxDepth ≤ state.depth := by
      change ¬ limit ≤ state.depth
      omega
    rw [beginCall, beginCall, if_neg deep, if_neg shallow]

theorem evaluate_cutOff (e : Expr) :
    CutOff (evaluate settings e stack id state)
      (evaluate (settings.withDepth limit) e stack id state) := by
  cases e with
  | call callee arguments =>
    refine tryAccess_cutOff fun v state => ?_
    cases v with
    | function routine result => exact beginCall_cutOff higher routine (some result) arguments
    | _ => exact .inl rfl
  | _ => exact .inl rfl

theorem execute_cutOff (s : Stmt) :
    CutOff (execute settings s stack id state)
      (execute (settings.withDepth limit) s stack id state) := by
  cases s with
  | call callee arguments =>
    refine tryAccess_cutOff fun v state => ?_
    cases v with
    | procedure routine => exact beginCall_cutOff higher routine none _
    | function routine result => exact beginCall_cutOff higher routine (some result) _
    | _ => exact .inl rfl
  | returning value => cases value <;> exact .inl rfl
  | _ => exact .inl rfl

theorem step_cutOff (c : Config) :
    CutOff (c.step settings) (c.step (settings.withDepth limit)) := by
  obtain ⟨control, stack, id, state⟩ := c
  cases control with
  | eval e => exact evaluate_cutOff higher e
  | exec s => exact execute_cutOff higher s
  | run block => cases block <;> exact .inl rfl
  | value | done | returning | failing => cases stack <;> exact .inl rfl
  | _ => exact .inl rfl

end

/-! ## A refused call is the end -/

theorem propagate_isExhaustion {f : Failure} (exhausted : f.isExhaustion = true) (frame : Frame) :
    (propagate settings f frame stack id state).control.isExhaustion = true := by
  have placed (span : Span) : (f.withSpan span).isExhaustion = true := by
    rw [Failure.isExhaustion_withSpan, exhausted]
  cases frame with
  | block | argument | paramType => exact placed _
  | _ => exact exhausted

theorem step_isExhaustion {c : Config} (exhausted : c.control.isExhaustion = true) :
    (c.step settings).control.isExhaustion = true := by
  obtain ⟨control, stack, id, state⟩ := c
  cases control with
  | failing f =>
    cases stack with
    | nil => exact exhausted
    | cons frame rest => exact propagate_isExhaustion exhausted frame
  | _ => cases exhausted

theorem advance_cutOff (higher : settings.maxDepth ≤ limit) (c : Config) (n : Nat) :
    CutOff (c.advance settings n) (c.advance (settings.withDepth limit) n) := by
  induction n generalizing c with
  | zero => exact .inl rfl
  | succ n ih =>
    rw [advance_step, advance_step]
    rcases step_cutOff higher c with same | exhausted
    · rw [same]
      exact ih (c.step settings)
    -- From the first refused call on only the run under the lower limit counts.
    · right
      exact advance_induction (P := fun d => d.control.isExhaustion = true)
        (fun _ => step_isExhaustion) n exhausted

end Config

namespace Session

def withDepth (s : Session) (limit : Nat) : Session :=
  ⟨s.settings.withDepth limit, s.state⟩

theorem conclude_withDepth (settings : Settings) (limit : Nat) (c : Config) :
    conclude (settings.withDepth limit) c =
      ((conclude settings c).1, (conclude settings c).2.withDepth limit) := by
  obtain ⟨control, stack, id, state⟩ := c
  cases control <;> rfl

/-- A run that fails otherwise, or not at all, goes the same way under a higher limit. -/
theorem execute_withDepth {s final : Session} {limit fuel : Nat} {program : Program}
    {result : Except Failure Unit} (higher : s.settings.maxDepth ≤ limit)
    (ran : s.execute fuel (some program) = some (result, final))
    (within : ∀ f, result = .error f → f.isExhaustion = false) :
    (s.withDepth limit).execute fuel (some program) = some (result, final.withDepth limit) := by
  obtain ⟨halted, concluded⟩ := execute_iff.mp ran
  have same : (s.begin program).advance (s.settings.withDepth limit) fuel =
      (s.begin program).advance s.settings fuel := by
    apply (Config.advance_cutOff higher _ fuel).resolve_right
    intro exhausted
    generalize (s.begin program).advance s.settings fuel = last at concluded exhausted
    obtain ⟨control, stack, id, state⟩ := last
    cases control with
    | failing f =>
      cases concluded
      have other := within f rfl
      rw [show f.isExhaustion = true from exhausted] at other
      cases other
    | _ => cases exhausted
  apply execute_iff.mpr
  change (Config.advance (s.settings.withDepth limit) fuel (s.begin program)).halted = true ∧
    conclude (s.settings.withDepth limit)
      (Config.advance (s.settings.withDepth limit) fuel (s.begin program)) = _
  rw [same, conclude_withDepth, concluded]
  exact ⟨halted, rfl⟩

/-- A session can be started with every limit in the range. -/
theorem start_withDepth {options : Options} {limit : Int} {s : Session}
    (started : start options = .ok s) (inRange : 0 ≤ limit ∧ limit ≤ Options.deepest) :
    start { options with maxDepth := limit } =
      .ok (s.withDepth (Options.depthLimit { options with maxDepth := limit })) := by
  obtain ⟨builtins, memory, chosen, installed, rfl⟩ := start_ok started
  have same : limit.toNat = 0 ↔ limit = 0 := by omega
  unfold start
  dsimp only
  rw [if_neg (by omega), if_neg (by omega), chosen]
  simp only [installed, same]
  rfl

/-- A program that does not fail for too many open calls does the same under every higher limit. -/
theorem execute_deeper {options : Options} {s : Session} (started : start options = .ok s)
    {limit : Int} (inRange : 0 ≤ limit ∧ limit ≤ Options.deepest)
    (higher : options.depthLimit ≤ Options.depthLimit { options with maxDepth := limit }) :
    ∃ s', start { options with maxDepth := limit } = .ok s' ∧
      ∀ fuel program result final, s.execute fuel (some program) = some (result, final) →
        (∀ f, result = .error f → f.kind? ≠ some .stackExhausted) →
        ∃ final', s'.execute fuel (some program) = some (result, final') ∧
          final'.outputSince 0 = final.outputSince 0 ∧ final'.globals = final.globals ∧
          final'.live = final.live ∧ final'.state.log = final.state.log := by
  refine ⟨_, start_withDepth started inRange, ?_⟩
  intro fuel program result final ran within
  have limited : s.settings.maxDepth = options.depthLimit := by
    obtain ⟨_, _, _, _, rfl⟩ := start_ok started
    rfl
  rw [← limited] at higher
  have other (f : Failure) (fails : result = .error f) : f.isExhaustion = false :=
    beq_eq_false_iff_ne.mpr (within f fails)
  exact ⟨_, execute_withDepth higher ran other, rfl, rfl, rfl, rfl⟩

end Session

namespace Sample

/-- Just enough for the two calls of the program that are open at once. -/
def shallowOptions : Options := { maxDepth := 2, logged := true }

def shallow : Session :=
  match Session.start shallowOptions with
  | .ok s => s
  | .error _ => fresh

theorem shallow_ends : (shallow.execute 200 (some program)).isSome = true := by decide +kernel

def shallowRun : Except Failure Unit × Session :=
  (shallow.execute 200 (some program)).get shallow_ends

end Sample

/-- The program of the sample fails, but not for too many open calls. -/
theorem Session.execute_deeper_sample :
    let options := Sample.shallowOptions
    let run := Sample.shallowRun
    start options = .ok Sample.shallow ∧
      Sample.shallow.execute 200 (some Sample.program) = some run ∧
      (∀ f, run.1 = .error f → f.kind? ≠ some .stackExhausted) ∧
      ∃ s', start { options with maxDepth := 100000 } = .ok s' ∧
        ∃ final', s'.execute 200 (some Sample.program) = some (run.1, final') ∧
          final'.outputSince 0 = run.2.outputSince 0 ∧ final'.globals = run.2.globals ∧
          final'.live = run.2.live ∧ final'.state.log = run.2.state.log := by
  intro options run
  have started : start options = .ok Sample.shallow := rfl
  have ran : Sample.shallow.execute 200 (some Sample.program) = some (run.1, run.2) :=
    (Option.some_get Sample.shallow_ends).symm
  have mismatch : (Answer.ran run.1).failure?.bind Failure.kind? = some .typeMismatch := by
    decide +kernel
  have within : ∀ f, run.1 = .error f → f.kind? ≠ some .stackExhausted := by
    intro f fails exhausted
    rw [fails] at mismatch
    cases exhausted.symm.trans mismatch
  have inRange : 0 ≤ (100000 : Int) ∧ (100000 : Int) ≤ Options.deepest := by decide
  obtain ⟨s', started', same⟩ := Session.execute_deeper started inRange (by decide)
  exact ⟨started, ran, within, s', started', same 200 Sample.program run.1 run.2 ran within⟩

end Pseudocode
