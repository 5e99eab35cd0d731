import Pseudocode.Proofs.Changes
import Pseudocode.Proofs.Typing

/-! # Calls from their beginning to their end

From the moment at which a call begins to the moment at which it is left, a frame of the call stands
on the frames that wait for it: first the one that waits for an argument, then the one that waits for
the end of the routine. As long as it stands there the scope of the call is not closed, and names are
bound only in this scope and in later ones. While arguments are evaluated that is so although the
current scope is the caller's, since evaluating an expression declares nothing. -/

namespace Pseudocode

def Control.isCall : Control → Bool
  | .eval (.call _ _ _) | .exec (.call _ _ _) => true
  | _ => false

structure Call.Of (id : ScopeId) (r : Routine) (call : Call) : Prop where
  callee : call.callee = id
  routine : call.routine = r
  params : call.params ⊆ r.params

theorem Call.Of.rest {callee : ScopeId} {routine : Routine} {call : Call}
    (same : call.Of callee routine) : call.rest.Of callee routine :=
  ⟨same.callee, same.routine, fun _ member => same.params (List.mem_of_mem_drop member)⟩

def Frame.Serves (callee : ScopeId) (routine : Routine) : Frame → Prop
  | .argument call => call.Of callee routine
  | .invocation r _ id _ => id = callee ∧ r = routine
  | _ => False

/-! ## Where the frames of a call stand -/

namespace StackFits

variable {limit : Nat} {m : Memory} {callee : ScopeId} {routine : Routine} {frame : Frame}
  {upper base : List Frame} {id : ScopeId} {size : Nat}

theorem callee_lt (fits : StackFits limit m (upper ++ frame :: base) id size)
    (serves : frame.Serves callee routine) : callee < size := by
  induction upper generalizing id size with
  | nil =>
    cases frame with
    | argument call =>
      obtain ⟨rfl, -⟩ := fits
      simp [serves.callee]
    | invocation r result id' caller =>
      obtain ⟨-, rfl, -⟩ := fits
      simp [serves.1]
    | _ => cases serves
  | cons first upper ih =>
    cases first with
    | argument call =>
      obtain ⟨rfl, -, -, below⟩ := fits
      exact Nat.lt_succ_of_lt (ih below)
    | invocation r result id' caller =>
      obtain ⟨-, rfl, -, -, below⟩ := fits
      exact Nat.lt_succ_of_lt (ih below)
    | _ => exact ih fits.2

/-- A scope in which a statement runs on top of a call is that of the call or a later one. -/
theorem callee_le (fits : StackFits limit m (upper ++ frame :: base) id size)
    (serves : frame.Serves callee routine) (nested : StackNested (upper ++ frame :: base))
    (ends : TakesEnd (upper ++ frame :: base)) : callee ≤ id := by
  induction upper generalizing id size with
  | nil =>
    cases frame with
    | invocation r result id' caller =>
      obtain ⟨rfl, -⟩ := fits
      simp [serves.1]
    | argument => cases ends
    | _ => cases serves
  | cons first upper ih =>
    cases first with
    | loopBody | whileBody | doBody | block => exact ih fits.2 nested.2 (nested.1 rfl)
    | invocation r result id' caller =>
      obtain ⟨rfl, -, -, -, below⟩ := fits
      exact Nat.le_of_lt (below.callee_lt serves)
    | _ => cases ends

/-- Once the routine is entered, every scope in which something is done is its own or a later one. -/
theorem callee_le_of_entered {result : Option Ty} {caller : ScopeId}
    (fits : StackFits limit m (upper ++ .invocation routine result callee caller :: base) id size) :
    callee ≤ id := by
  induction upper generalizing id size with
  | nil =>
    obtain ⟨rfl, -⟩ := fits
    exact Nat.le_refl _
  | cons first upper ih =>
    cases first with
    | argument call => exact ih fits.2.2.2
    | invocation r result' id' caller' =>
      obtain ⟨rfl, -, -, -, below⟩ := fits
      exact Nat.le_of_lt (Nat.lt_of_le_of_lt (ih below) below.lt)
    | _ => exact ih fits.2

end StackFits

namespace Config

variable {settings : Settings} {base : List Frame} {callee : ScopeId} {routine : Routine}

/-! ## The run of a call -/

inductive Entered (base : List Frame) (callee : ScopeId) (routine : Routine) : Config → Prop where
  | intro {control upper result caller id state} :
      Entered base callee routine
        ⟨control, upper ++ .invocation routine result callee caller :: base, id, state⟩

inductive Within (base : List Frame) (callee : ScopeId) (routine : Routine) : Config → Prop where
  | binding {call id state} : call.Of callee routine →
      Within base callee routine ⟨.bind call, base, id, state⟩
  | argument {control upper call id state} : call.Of callee routine →
      Within base callee routine ⟨control, upper ++ .argument call :: base, id, state⟩
  | entered {c} : Entered base callee routine c → Within base callee routine c

theorem Entered.lowest (control : Control) (result : Option Ty) (caller id : ScopeId)
    (state : State) : Entered base callee routine
      ⟨control, .invocation routine result callee caller :: base, id, state⟩ :=
  @Entered.intro base callee routine control [] result caller id state

theorem Within.lowest {call : Call} (same : call.Of callee routine) (control : Control)
    (id : ScopeId) (state : State) :
    Within base callee routine ⟨control, .argument call :: base, id, state⟩ :=
  @Within.argument base callee routine control [] call id state same

/-- What the frames wait for has come. -/
def Left (base : List Frame) (c : Config) : Prop :=
  c.stack = base ∧ c.control.isOutcome = true

variable {id : ScopeId} {state : State} {c : Config}

theorem Left.tryAccess {α : Type} {action : Memory.Action α} {onOk : α → State → Config}
    (ok : ∀ a state, Left base (onOk a state)) : Left base (tryAccess state action base id onOk) :=
  access_all ok fun _ _ => ⟨rfl, rfl⟩

theorem Left.abandon (call : Call) (argument : Span) (f : Failure) :
    Left base (abandon call argument f base id state) :=
  .tryAccess fun _ _ => ⟨rfl, rfl⟩

theorem Left.leave {r : Routine} {caller : ScopeId} {control : Control}
    (isOutcome : control.isOutcome = true) :
    Left base (leave settings r id caller control base state) :=
  .tryAccess fun _ _ => ⟨rfl, isOutcome⟩

/-- Either the frame on `base` takes no part in a step, or it is the only one above `base`. -/
theorem step_above {control : Control} {upper : List Frame} {frame : Frame} {P : Config → Prop}
    (above : ∀ control upper id state, P ⟨control, upper ++ frame :: base, id, state⟩)
    (resume : control.isOutcome = true → P (step settings ⟨control, frame :: base, id, state⟩)) :
    P (step settings ⟨control, upper ++ frame :: base, id, state⟩) := by
  cases halted : Config.halted ⟨control, upper, id, state⟩ with
  | true =>
    obtain ⟨rfl, isOutcome⟩ := halted_iff.mp halted
    exact resume isOutcome
  | false =>
    change P (step settings (onto ⟨control, upper, id, state⟩ (frame :: base)))
    rw [step_onto halted]
    exact above ..

theorem Entered.step (entered : Entered base callee routine c) :
    Entered base callee routine (c.step settings) ∨ Left base (c.step settings) := by
  obtain @⟨control, upper, result, caller, id, state⟩ := entered
  refine step_above (P := fun c => Entered base callee routine c ∨ Left base c)
    (fun _ _ _ _ => .inl .intro) fun isOutcome => ?_
  cases control with
  | value v => exact .inl (.lowest ..)
  | done => cases result <;> exact .inr (.leave rfl)
  | returning v span =>
    cases result with
    | none => exact .inr (.leave rfl)
    | some t => exact .inr (.leave (returned_accepted routine t v span).1)
  | failing f => exact .inr (.leave rfl)
  | _ => cases isOutcome

theorem Within.bindNext {call : Call} (same : call.Of callee routine) (id : ScopeId)
    (state : State) :
    Within base callee routine (bindNext settings call base id state) ∨
      Left base (bindNext settings call base id state) := by
  unfold Config.bindNext
  split
  · split
    · split
      · exact access_all (P := fun c => Within base callee routine c ∨ Left base c)
          (fun _ _ => .inl (.binding same.rest)) fun _ _ => .inr (.abandon ..)
      · exact .inr (.abandon ..)
    · exact .inl (.lowest same ..)
  · obtain ⟨rfl, rfl, -⟩ := same
    exact .inl (.entered (.lowest ..))

theorem Within.step (within : Within base callee routine c) :
    Within base callee routine (c.step settings) ∨ Left base (c.step settings) := by
  cases within with
  | binding same => exact bindNext same ..
  | entered entered => exact entered.step.imp .entered id
  | @argument control upper call id state same =>
    refine step_above (P := fun c => Within base callee routine c ∨ Left base c)
      (fun _ _ _ _ => .inl (.argument same)) fun isOutcome => ?_
    cases control with
    | value v =>
      unfold Config.step give
      dsimp only
      split
      · exact access_all (P := fun c => Within base callee routine c ∨ Left base c)
          (fun _ _ => .inl (.binding same.rest)) fun _ _ => .inr (.abandon ..)
      · exact .inl (.binding same)
    | done | returning => exact .inr ⟨rfl, rfl⟩
    | failing f => exact .inr (.abandon ..)
    | _ => cases isOutcome

/-- A call begins with a scope below the routine's home, unless it fails at once. -/
theorem step_isCall (calls : c.control.isCall = true) :
    Left c.stack (c.step settings) ∨ ∃ routine result arguments,
      c.step settings =
        ⟨.bind ⟨routine, result, c.state.memory.scopes.size, routine.params, arguments⟩, c.stack,
          c.scope,
          { c.state with memory := c.state.memory.opened routine.home routine.name }⟩ := by
  obtain ⟨control, stack, id, state⟩ := c
  have begin_ (routine : Routine) (result : Option Ty) (arguments : List Expr) :
      let next := beginCall settings routine result arguments stack id state
      Left stack next ∨ next =
        ⟨.bind ⟨routine, result, state.memory.scopes.size, routine.params, arguments⟩, stack, id,
          { state with memory := state.memory.opened routine.home routine.name }⟩ := by
    unfold beginCall
    split
    · exact .inl ⟨rfl, rfl⟩
    · split
      · exact .inl ⟨rfl, rfl⟩
      · exact .inr rfl
  have look (name : String) (onOk : Value → State → Config)
      (ok : ∀ v, Left stack (onOk v state) ∨ ∃ routine result arguments,
        onOk v state = beginCall settings routine result arguments stack id state) :
      let next := tryAccess state (Memory.lookup id name) stack id onOk
      Left stack next ∨ ∃ routine result arguments, next =
        ⟨.bind ⟨routine, result, state.memory.scopes.size, routine.params, arguments⟩, stack, id,
          { state with memory := state.memory.opened routine.home routine.name }⟩ := by
    have same := state.memory.lookup_same id name
    cases found : (Memory.lookup id name).run state.memory with
    | error fault m => exact .inl (tryAccess_error found stack id onOk ▸ ⟨rfl, rfl⟩)
    | ok v m =>
      rw [found] at same
      cases same
      rw [tryAccess_ok found]
      rcases ok v with left | ⟨routine, result, arguments, begun⟩
      · exact .inl left
      · rw [begun]
        exact (begin_ routine result arguments).imp_right fun same => ⟨_, _, _, same⟩
  cases control with
  | eval e =>
    cases e with
    | call callee arguments =>
      refine look callee.name _ fun v => ?_
      cases v with
      | function routine result => exact .inr ⟨routine, some result, arguments, rfl⟩
      | _ => exact .inl ⟨rfl, rfl⟩
    | _ => cases calls
  | exec s =>
    cases s with
    | call callee arguments =>
      refine look callee.name _ fun v => ?_
      cases v with
      | procedure routine => exact .inr ⟨routine, none, _, rfl⟩
      | function routine result => exact .inr ⟨routine, some result, _, rfl⟩
      | _ => exact .inl ⟨rfl, rfl⟩
    | _ => cases calls
  | _ => cases calls

/-! ## What steps within a call can bind -/

theorem Within.frames (within : Within base callee routine c) :
    ∃ upper frame, c.control.waiting ++ c.stack = upper ++ frame :: base ∧
      frame.Serves callee routine := by
  cases within with
  | @binding call id state same => exact ⟨[], .argument call, rfl, same⟩
  | @argument control upper call id state same =>
    exact ⟨control.waiting ++ upper, .argument call, by simp, same⟩
  | entered entered =>
    obtain @⟨control, upper, result, caller, id, state⟩ := entered
    exact ⟨control.waiting ++ upper, .invocation routine result callee caller, by simp, rfl, rfl⟩

theorem Nested.waiting (nested : c.Nested) : StackNested (c.control.waiting ++ c.stack) := by
  obtain ⟨control, stack, id, state⟩ := c
  cases control with
  | bind | define | iterate => exact ⟨nested.control, nested.stack⟩
  | _ => exact nested.stack

variable {limit : Nat} {c : Config}

variable (within : Within base callee routine c) (sound : c.Sound limit)

include within sound

theorem Within.callee_lt : callee < c.state.memory.scopes.size := by
  obtain ⟨upper, frame, frames, serves⟩ := within.frames
  have fits := sound.settled.frames
  rw [frames] at fits
  exact fits.callee_lt serves

/-- What declares a name in the current scope does so as a statement of the call or of a later
one. -/
theorem Within.callee_le (nested : c.Nested) (statement : c.InStatement) : callee ≤ c.scope := by
  obtain ⟨frame, rest, frames, inScope, ends⟩ := statement
  obtain ⟨upper, server, frames', serves⟩ := within.frames
  have fits := sound.settled.frames
  have wrapped := nested.waiting
  rw [frames'] at frames fits wrapped
  cases upper with
  | nil =>
    cases frames
    cases frame with
    | argument | invocation => cases inScope
    | _ => cases serves
  | cons first upper =>
    cases frames
    exact ((StackFits.cons_iff inScope).mp fits).2.callee_le serves wrapped.2 (wrapped.1 ends)

/-- An argument is bound in the scope of the call or in a later one. Only in the first case it is an
argument of the call. -/
theorem Within.callee_le_call {call : Call} {rest : List Frame}
    (frames : c.control.waiting ++ c.stack = .argument call :: rest) :
    callee ≤ call.callee ∧ (callee = call.callee → call.Of callee routine) := by
  obtain ⟨upper, server, frames', serves⟩ := within.frames
  have fits := sound.settled.frames
  rw [frames'] at frames fits
  cases upper with
  | nil =>
    cases frames
    exact ⟨Nat.le_of_eq serves.callee.symm, fun _ => serves⟩
  | cons first upper =>
    cases frames
    have below : callee < call.callee := fits.2.2.2.callee_lt serves
    exact ⟨Nat.le_of_lt below, fun same => absurd same (Nat.ne_of_lt below)⟩

/-- The parameter that the declaration is about, if it is bound in the scope of the call. -/
theorem Within.declares (nested : c.Nested) {d : Declaration} (declares : c.declares? = some d) :
    callee ≤ d.scope ∧ (d.scope = callee → d.source.isSome = true →
      ∃ p ∈ routine.params, p.byRef = true ∧ p.name = d.name) := by
  rcases declares?_cases declares with
    ⟨statement, isScope, isOwn⟩ | ⟨call, rest, first, isScope, -, byRef⟩
  · rw [isScope, isOwn]
    exact ⟨within.callee_le sound nested statement, fun _ => nofun⟩
  · obtain ⟨le, own⟩ := within.callee_le_call sound first
    rw [isScope]
    refine ⟨le, fun atCallee isReference => ?_⟩
    obtain ⟨p, member, passed, named⟩ := byRef isReference
    exact ⟨p, (own atCallee.symm).params member, passed, named⟩

end Config

end Pseudocode
