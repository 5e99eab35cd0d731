import Pseudocode.Proofs.Returning
import Pseudocode.Proofs.Sessions

/-! # The protocol of calls

A call is refused before anything else happens if too many calls are open or if the number of its
arguments is wrong. Otherwise a scope is made for it, its arguments are bound there from left to
right, and its body runs. A function then gives what its first `RETURN` carries, if that is a member
of the result type, and fails in one of two ways otherwise. -/

namespace Pseudocode

/-- A new scope binds nothing. -/
theorem Memory.has_opened (m : Memory) (parent : ScopeId) (label name : String) :
    (m.opened parent label).has m.scopes.size name = false := by
  rw [has, scopes_opened, if_pos rfl]
  rfl

namespace Config

def call? (c : Config) : Option Call :=
  let callee := c.state.memory.scopes.size
  match c.control with
  | .eval (.call name arguments _) =>
    match (Memory.lookup c.scope name.name).run c.state.memory with
    | .ok (.function routine result) _ =>
      some ⟨routine, some result, callee, routine.params, arguments⟩
    | _ => none
  | .exec (.call name arguments _) =>
    match (Memory.lookup c.scope name.name).run c.state.memory with
    | .ok (.procedure routine) _ => some ⟨routine, none, callee, routine.params, arguments.getD []⟩
    | .ok (.function routine result) _ =>
      some ⟨routine, some result, callee, routine.params, arguments.getD []⟩
    | _ => none
  | _ => none

/-- The next step fails in this way and changes nothing. -/
def Refused (settings : Settings) (c : Config) (kind : FaultKind) : Prop :=
  ∃ f, c.step settings = ⟨.failing f, c.stack, c.scope, c.state⟩ ∧ f.kind? = some kind

def bodyOf (settings : Settings) (call : Call) (bound : State) : Config :=
  ⟨.run call.routine.body, [], call.callee, bound.entered settings call.routine⟩

/-- What the call `c` of a function with results of the type `t` gives for this body. -/
structure Answers (settings : Settings) (c body : Config) (t : Ty) : Prop where
  value : ∀ v, (∃ n, c.Ends settings n (.value v)) ↔
    body.FirstReturns settings (some v) ∧ t.accepts v = true
  typeMismatch : (∃ n f, c.Ends settings n (.failing f) ∧ f.kind? = some .typeMismatch) ↔
    ∃ v, body.FirstReturns settings (some v) ∧ t.accepts v = false
  missingReturn : (∃ n f, c.Ends settings n (.failing f) ∧ f.kind? = some .missingReturn) ↔
    body.NeverReturns settings ∨ body.FirstReturns settings none

variable {settings : Settings} {c : Config} {call : Call} {state bound left : State} {id : ScopeId}
  {stack : List Frame} {passed : List Passed} {flow : Control} {t : Ty}

/-! ## How a call begins -/

theorem isCall_of_call? (begins : c.call? = some call) : c.control.isCall = true := by
  unfold call? at begins
  split at begins
  case h_1 isControl | h_2 isControl => rw [isControl]; rfl
  case h_3 => cases begins

theorem callee_of_call? (begins : c.call? = some call) :
    call.callee = c.state.memory.scopes.size ∧ call.params = call.routine.params := by
  unfold call? at begins
  repeat' split at begins
  all_goals cases begins
  all_goals exact ⟨rfl, rfl⟩

theorem step_call? (begins : c.call? = some call) (stack : List Frame) :
    step settings ⟨c.control, stack, c.scope, c.state⟩ =
      beginCall settings call.routine call.result call.arguments stack c.scope c.state := by
  obtain ⟨control, _, id, state⟩ := c
  -- A lookup leaves the memory as it is.
  have same {name : String} {v : Value} {m : Memory}
      (found : (Memory.lookup id name).run state.memory = .ok v m) : m = state.memory := by
    have same := state.memory.lookup_same id name
    rw [found] at same
    exact same
  unfold call? at begins
  dsimp only at begins
  split at begins
  case h_1 name arguments span =>
    split at begins
    case h_1 routine result m found =>
      cases begins
      cases same found
      simp only [step, evaluate, tryAccess_ok found]
    case h_2 => cases begins
  case h_2 name arguments span =>
    split at begins
    case h_1 routine m found =>
      cases begins
      cases same found
      simp only [step, execute, tryAccess_ok found]
    case h_2 routine result m found =>
      cases begins
      cases same found
      simp only [step, execute, tryAccess_ok found]
    case h_3 => cases begins
  case h_3 => cases begins

theorem beginCall_tooDeep (deep : settings.maxDepth ≤ state.depth) (routine : Routine)
    (result : Option Ty) (arguments : List Expr) :
    beginCall settings routine result arguments stack id state =
      fail (.tooDeep routine.name settings.maxDepth) stack id state := by
  rw [beginCall, if_pos deep]

variable {routine : Routine}

theorem beginCall_arity (room : state.depth < settings.maxDepth) (result : Option Ty)
    {arguments : List Expr} (wrong : arguments.length ≠ routine.params.length) :
    beginCall settings routine result arguments stack id state =
      fail (.arity routine.name routine.params.length arguments.length) stack id state := by
  rw [beginCall, if_neg (Nat.not_le_of_lt room), if_pos wrong]

theorem beginCall_binds (room : state.depth < settings.maxDepth) (result : Option Ty)
    {arguments : List Expr} (lengths : arguments.length = routine.params.length) :
    beginCall settings routine result arguments stack id state =
      ⟨.bind ⟨routine, result, state.memory.scopes.size, routine.params, arguments⟩, stack, id,
        { state with memory := state.memory.opened routine.home routine.name }⟩ := by
  rw [beginCall, if_neg (Nat.not_le_of_lt room), if_neg (not_not_intro lengths)]
  exact tryAccess_ok (Memory.child_run ..) ..

theorem step_call?_binds (begins : c.call? = some call) (room : c.state.depth < settings.maxDepth)
    (lengths : call.arguments.length = call.params.length) (stack : List Frame) :
    step settings ⟨c.control, stack, c.scope, c.state⟩ =
      ⟨.bind call, stack, c.scope,
        { c.state with memory := c.state.memory.opened call.routine.home call.routine.name }⟩ := by
  obtain ⟨callee, params⟩ := callee_of_call? begins
  rw [step_call? begins stack, beginCall_binds room _ (params ▸ lengths), ← callee, ← params]

theorem comes_call_iff (begins : c.call? = some call) (room : c.state.depth < settings.maxDepth)
    (lengths : call.arguments.length = call.params.length) (regular : c.Regular settings)
    {outcome : Control} {after : State} :
    Comes settings c.control c.scope c.state outcome after ↔
      Concludes settings c.scope call
        { c.state with memory := c.state.memory.opened call.routine.home call.routine.name }
        outcome after := by
  have next : (step settings ⟨c.control, c.stack, c.scope, c.state⟩).Regular settings := regular.step
  rw [step_call?_binds begins room lengths] at next
  rw [← comes_step, step_call?_binds begins room lengths]
  exact comes_bind_iff lengths next

/-! ## How a call goes on -/

/-- Once its arguments are bound, the body of the call begins. -/
theorem HandsOver.reaches
    (handed : HandsOver settings id call.callee call.params call.arguments state passed bound)
    (stack : List Frame) :
    Reaches settings ⟨.bind call, stack, id, state⟩
      ⟨.run call.routine.body, .invocation call.routine call.result call.callee id :: stack,
        call.callee, bound.entered settings call.routine⟩ := by
  obtain ⟨routine, result, callee, params, arguments⟩ := call
  dsimp only at handed ⊢
  induction handed with
  | nil =>
    apply Reaches.step
    rw [step_bind_nil rfl]
    exact .refl _
  | cons hands later ih => exact (hands.through rfl rfl stack).reaches.trans ih

/-- Unless the body fails, its first `RETURN` decides what a function gives. -/
theorem answers_of_comes {block : List Stmt} {after : State}
    (run : Comes settings c.control c.scope c.state (concluded routine (some t) flow) after)
    (comes : Comes settings (.run block) id state flow left) (intact : ∀ f, flow ≠ .failing f) :
    Answers settings c ⟨.run block, [], id, state⟩ t := by
  have ends (outcome : Control) : (∃ n, c.Ends settings n outcome) ↔ _ := run.ends_iff
  have first (carried : Option Value) :
      FirstReturns settings ⟨.run block, [], id, state⟩ carried ↔ _ :=
    comes.firstReturns_iff intact
  have never := comes.neverReturns_iff intact
  have fails (kind : FaultKind) :
      (∃ n f, c.Ends settings n (.failing f) ∧ f.kind? = some kind) ↔
        ∃ f, .failing f = concluded routine (some t) flow ∧ f.kind? = some kind := by
    rw [exists_comm]
    refine exists_congr fun f => ?_
    rw [exists_and_right, ends]
  rcases comes.done_or_returning intact with rfl | ⟨carried, span, rfl⟩
  · constructor <;> simp [ends, fails, first, never, concluded, Cause.kind]
  · cases carried with
    | none => constructor <;> simp [ends, fails, first, never, concluded, returned, Cause.kind]
    | some w =>
      cases accepted : t.accepts w with
      | false =>
        constructor <;>
          simp [ends, fails, first, never, concluded, returned, accepted, Cause.kind]
      | true =>
        refine ⟨fun v => ?_, ?_, ?_⟩
        · have given : v = w ↔ w = v ∧ t.accepts v = true := by
            constructor
            · rintro rfl
              exact ⟨rfl, accepted⟩
            · exact fun both => both.1.symm
          simpa [ends, first, concluded, returned, accepted] using given
        · simp [fails, first, concluded, returned, accepted]
        · simp [fails, first, never, concluded, returned, accepted]

end Config

/-! ## Calls in sessions -/

namespace Session

open Config

/-- A call fails at once and changes nothing if too many calls are open, and otherwise if the number
of its arguments is wrong. Otherwise it comes to what its arguments and its body come to. When all
arguments are bound, the new scope binds the parameters and nothing else: a parameter passed by
reference to the cell that its argument named in the caller, and one passed by value to a cell of its
own that holds the argument's value. A function whose body does not fail then gives what the first
`RETURN` of the body carries, if it carries a member of the result type. -/
theorem Reached.call_protocol {options : Options} {s : Session} (reached : Reached options s)
    {c : Config} (passes : s.Passes c) {call : Call} (begins : c.call? = some call) :
    let settings := s.settings
    let opened : State :=
      { c.state with memory := c.state.memory.opened call.routine.home call.routine.name }
    (settings.maxDepth ≤ c.state.depth → c.Refused settings .stackExhausted) ∧
    (c.state.depth < settings.maxDepth → call.arguments.length ≠ call.params.length →
      c.Refused settings .arityMismatch) ∧
    (c.state.depth < settings.maxDepth → call.arguments.length = call.params.length →
      (∀ outcome after,
        (∃ n, c.Ends settings n outcome ∧ (c.advance settings n).state = after) ↔
          Concludes settings c.scope call opened outcome after) ∧
      ∀ passed bound,
        HandsOver settings c.scope call.callee call.params call.arguments opened passed bound →
          c.Reaches settings ⟨.run call.routine.body,
            .invocation call.routine call.result call.callee c.scope :: c.stack, call.callee,
            bound.entered settings call.routine⟩ ∧
          (call.params.map Formal.name).Nodup ∧
          (∀ name, bound.memory.has call.callee name = true ↔ ∃ p ∈ call.params, p.name = name) ∧
          (∀ (i : Nat) p a, call.params[i]? = some p → call.arguments[i]? = some a →
            ∃ w, passed[i]? = some w ∧
              Memory.Receives c.state.memory bound.memory c.scope call.callee p a w) ∧
          ∀ t flow left, call.result = some t →
            Comes settings (.run call.routine.body) call.callee
              (bound.entered settings call.routine) flow left →
            (∀ f, flow ≠ .failing f) → c.Answers settings (bodyOf settings call bound) t) := by
  intro settings opened
  obtain ⟨callee, params⟩ := callee_of_call? begins
  obtain ⟨nested, sound⟩ := reached.idle.passes passes
  have regular : c.Regular settings := ⟨nested, sound⟩
  refine ⟨fun deep => ?_, fun room wrong => ?_, fun room lengths => ⟨?_, ?_⟩⟩
  · exact ⟨_, (step_call? begins c.stack).trans (beginCall_tooDeep deep ..), rfl⟩
  · rw [params] at wrong
    exact ⟨_, (step_call? begins c.stack).trans (beginCall_arity room _ wrong), rfl⟩
  · intro outcome after
    rw [ends_iff_comes]
    exact comes_call_iff begins room lengths regular
  · intro passed bound handed
    have bind : c.step settings = ⟨.bind call, c.stack, c.scope, opened⟩ :=
      step_call?_binds begins room lengths c.stack
    have next := regular.step
    rw [bind] at next
    obtain ⟨supplies, receives⟩ := handed.receives next
    refine ⟨?_, supplies.distinct, fun name => ?_, fun i p a isParam isArgument => ?_, ?_⟩
    · apply Reaches.step
      rw [bind]
      exact handed.reaches c.stack
    · rw [supplies.has, callee, Memory.has_opened]
      simp
    · obtain ⟨w, isPassed, received⟩ := receives i p a isParam isArgument
      refine ⟨w, isPassed, received.earlier (fun id below => ?_) ?_⟩
      · rw [Memory.scopes_opened, if_neg (Nat.ne_of_lt (callee ▸ below))]
      · exact next.sound.settled.frames.2.2.2.lt
    · intro t flow left isFunction comes intact
      have run := (comes_call_iff begins room lengths regular).mpr (.runs handed comes)
      rw [isFunction] at run
      exact answers_of_comes run comes intact

end Session

namespace Sample

theorem calling_calls : calling.call?.isSome = true := by decide +kernel

def twiceCall : Call :=
  calling.call?.get calling_calls

theorem twiceCall_result : twiceCall.result.isSome = true := by decide +kernel

def twiceType : Ty :=
  twiceCall.result.get twiceCall_result

end Sample

/-- The procedure of the sample calls a function with 21. The argument is bound, the first `RETURN` of
the function carries 42, and that is what the call gives. -/
theorem Session.Reached.call_protocol_sample :
    let settings := Sample.fresh.settings
    let c := Sample.calling
    let call := Sample.twiceCall
    let opened : State :=
      { c.state with memory := c.state.memory.opened call.routine.home call.routine.name }
    c.call? = some call ∧ c.Ends settings 15 (.value (.integer 42)) ∧
      ∃ passed bound,
        Config.HandsOver settings c.scope call.callee call.params call.arguments opened passed bound ∧
        (∀ name, bound.memory.has call.callee name = true ↔ ∃ p ∈ call.params, p.name = name) ∧
        (Config.bodyOf settings call bound).FirstReturns settings (some (.integer 42)) ∧
        Sample.twiceType.accepts (.integer 42) = true := by
  intro settings c call opened
  have fresh : Reached {} Sample.fresh := ⟨_, Sample.started, .refl⟩
  have passes : Sample.fresh.Passes c := ⟨.program (some Sample.program), _, 40, rfl, rfl⟩
  have begins : c.call? = some call := (Option.some_get Sample.calling_calls).symm
  have isFunction : call.result = some Sample.twiceType :=
    (Option.some_get Sample.twiceCall_result).symm
  have ends : c.Ends settings 15 (.value (.integer 42)) := by
    have running : ∀ k < 15, (c.alone.advance settings k).halted = false := by decide +kernel
    have ends := Config.Ends.of_alone running (by decide +kernel)
    have gives : (c.advance settings 15).control.gives (.integer 42) = true := by decide +kernel
    rwa [Control.eq_of_gives gives] at ends
  obtain ⟨exactly, binds⟩ :=
    (Session.Reached.call_protocol fresh passes begins).2.2 (by decide +kernel) (by decide +kernel)
  obtain ⟨after, concludes⟩ :
      ∃ after, Config.Concludes settings c.scope call opened (.value (.integer 42)) after :=
    ⟨_, (exactly _ _).mp ⟨15, ends, rfl⟩⟩
  refine ⟨begins, ends, ?_⟩
  generalize isValue : Control.value (.integer 42) = outcome at concludes
  cases concludes with
  | balks => cases isValue
  | @runs passed bound flow left handed comes =>
    obtain ⟨-, -, names, -, answers⟩ := binds passed bound handed
    have intact (f : Failure) : flow ≠ .failing f := by
      rintro rfl
      cases isValue
    have answer := (answers _ flow left isFunction comes intact).value (.integer 42)
    obtain ⟨first, accepted⟩ := answer.mp ⟨15, ends⟩
    exact ⟨passed, bound, handed, names, first, accepted⟩

end Pseudocode
