import Pseudocode.Proofs.Operators
import Pseudocode.Proofs.Steps

/-! # What a step can do

What is being done is replaced by something else, or a frame is left behind that waits for something
else, or a routine is entered. What is known of the control and of the frame that come of it is said
here once: whether they end as a statement does, whether they belong to a `RETURN`, and where a value
comes from. -/

namespace Pseudocode

namespace Frame

def waitsForEnd : Frame → Bool
  | .loopBody _ | .whileBody _ _ | .doBody _ _ | .block _ _ | .invocation _ _ _ _ => true
  | _ => false

/-- Whether what the frame belongs to ends as a statement does. -/
def endsPlainly : Frame → Bool
  | .unary _ | .left _ _ | .right _ _ => false
  | .argument call => call.result.isNone
  | .invocation _ result _ _ => result.isNone
  | _ => true

def isReturning : Frame → Bool
  | .returning _ => true
  | _ => false

def isInvocation : Frame → Bool
  | .invocation _ _ _ _ => true
  | _ => false

def scopeAfter (id : ScopeId) : Frame → ScopeId
  | .invocation _ _ _ caller => caller
  | _ => id

def stateAfter (settings : Settings) (state : State) : Frame → State
  | .invocation routine _ _ _ =>
    let state := state.note settings (.leave routine.name state.depth)
    { state with depth := state.depth - 1 }
  | _ => state

/-- Whether the frame can be left behind to wait for this: for an expression, or for the end of a
statement or block if it waits for one. -/
def awaits (frame : Frame) : Control → Bool
  | .eval _ => !frame.isInvocation
  | .exec _ | .run _ => frame.waitsForEnd && !frame.isInvocation
  | _ => false

end Frame

def Call.isBound (call : Call) : Bool :=
  call.params.isEmpty || call.arguments.isEmpty

theorem Call.isBound_eq_false {call : Call} (more : call.isBound = false) :
    ∃ p params a arguments, call.params = p :: params ∧ call.arguments = a :: arguments := by
  obtain ⟨routine, result, callee, params, arguments⟩ := call
  cases params with
  | nil => cases more
  | cons p params =>
    cases arguments with
    | nil => cases more
    | cons a arguments => exact ⟨p, params, a, arguments, rfl, rfl⟩

namespace Control

def endsPlainly : Control → Bool
  | .eval _ | .value _ | .failing _ => false
  | .bind call => call.result.isNone
  | _ => true

def isReturning : Control → Bool
  | .returning _ _ => true
  | _ => false

def isValue : Control → Bool
  | .value _ => true
  | _ => false

def beginsReturn : Control → Bool
  | .exec (.returning _ _) => true
  | _ => false

end Control

namespace Builtins

theorem isData_always : ∀ kind ∈ always, kind.isData = true := by decide

theorem enabled_always (b : Builtins) {kind : Kind} (member : kind ∈ always) :
    b.enabled kind = true :=
  decide_eq_true (List.mem_append_left _ member)

end Builtins

namespace Config

/-- Where the value that a step gives comes from. -/
inductive Source (settings : Settings) (c : Config) (v : Value) : Prop where
  | literal {e kind} : c.control = .eval e → v.kind? = some kind → kind.isData = true →
      settings.builtins.enabled kind = true → Source settings c v
  | name {x m} : c.control = .eval (.name x) →
      (Memory.lookup c.scope x.name).run c.state.memory = .ok v m → Source settings c v
  | unary {op operand rest} : c.control = .value operand → c.stack = .unary op :: rest →
      op.apply operand = .ok v → Source settings c v
  | binary {op l r rest} : c.control = .value r → c.stack = .right op l :: rest →
      op.apply l r = .ok v → Source settings c v
  | call {routine t callee caller rest span} : c.control = .returning (some v) span →
      c.stack = .invocation routine (some t) callee caller :: rest → t.accepts v = true →
      Source settings c v

/-- What can come of a part of a program in the scope `id`, above the frames of `stack`. It may end
as a statement does if the part is `plain`, it may be a `RETURN` if the part `returns`, and the
values that it may have are given. No call is entered or left, so the log and the depth stay. -/
inductive Moves (plain returns : Bool) (values : Value → Prop) (id : ScopeId)
    (stack : List Frame) (log : Array LogEntry) (depth : Nat) : Config → Prop where
  /-- Something else is done instead. -/
  | goes {control memory sink} : (control.endsPlainly = true → plain = true) →
      (control.isReturning = true → returns = true) → (∀ v, control = .value v → values v) →
      Moves plain returns values id stack log depth
        ⟨control, stack, id, { memory, sink, log, depth }⟩
  /-- A frame is left behind. -/
  | waits {control frame memory sink} : frame.awaits control = true →
      (frame.endsPlainly = true → plain = true) → (frame.isReturning = true → returns = true) →
      Moves plain returns values id stack log depth
        ⟨control, frame :: stack, id, { memory, sink, log, depth }⟩

variable {settings : Settings} {plain returns : Bool} {values : Value → Prop} {stack : List Frame}
  {id : ScopeId} {state : State} {memory : Memory} {sink : Sink} {log : Array LogEntry} {depth : Nat}

namespace Moves

theorem failing (f : Failure) :
    Moves plain returns values id stack log depth
      ⟨.failing f, stack, id, ⟨memory, sink, log, depth⟩⟩ :=
  .goes (by simp [Control.endsPlainly]) (by simp [Control.isReturning]) (by simp)

theorem value {v : Value} (given : values v) :
    Moves plain returns values id stack log depth
      ⟨.value v, stack, id, ⟨memory, sink, log, depth⟩⟩ := by
  refine .goes (by simp [Control.endsPlainly]) (by simp [Control.isReturning]) ?_
  rintro _ ⟨⟩
  exact given

variable {control : Control} {frame : Frame} {α : Type}

/-- The part goes on as something that ends as it does itself. -/
theorem stays (ends : control.endsPlainly = plain) (notReturning : control.isReturning = false)
    (notValue : control.isValue = false) :
    Moves plain returns values id stack log depth
      ⟨control, stack, id, ⟨memory, sink, log, depth⟩⟩ := by
  refine .goes (fun plainly => ends ▸ plainly) (by simp [notReturning]) ?_
  rintro v rfl
  cases notValue

theorem pushes (awaits : frame.awaits control = true) (ends : frame.endsPlainly = plain)
    (notReturning : frame.isReturning = false) :
    Moves plain returns values id stack log depth
      ⟨control, frame :: stack, id, ⟨memory, sink, log, depth⟩⟩ :=
  .waits awaits (fun plainly => ends ▸ plainly) (by simp [notReturning])

theorem tryAccess {action : Memory.Action α} {onOk : α → State → Config}
    (ok : ∀ a memory, Moves plain returns values id stack log depth
      (onOk a ⟨memory, sink, log, depth⟩)) :
    Moves plain returns values id stack log depth
      (tryAccess ⟨memory, sink, log, depth⟩ action stack id onOk) :=
  access_each ok fun _ _ => .failing _

theorem tryAccess_done {action : Memory.Action α} :
    Moves true returns values id stack log depth
      (Config.tryAccess ⟨memory, sink, log, depth⟩ action stack id fun _ state =>
        ⟨.done, stack, id, state⟩) :=
  .tryAccess fun _ _ => .stays rfl rfl rfl

theorem orFail (result : Except Cause α) {onOk : α → State → Config}
    (ok : ∀ a, result = .ok a →
      Moves plain returns values id stack log depth (onOk a ⟨memory, sink, log, depth⟩)) :
    Moves plain returns values id stack log depth
      (orFail result stack id ⟨memory, sink, log, depth⟩ onOk) := by
  cases result with
  | ok a => exact ok a rfl
  | error cause => exact .failing _

theorem ofResult (result : Except Cause Value) (good : ∀ v, result = .ok v → values v) :
    Moves plain returns values id stack log depth
      (ofResult result stack id ⟨memory, sink, log, depth⟩) := by
  rw [ofResult_eq]
  exact .orFail result fun v gives => .value (good v gives)

theorem abandon (call : Call) (argument : Span) (f : Failure) :
    Moves plain returns values id stack log depth
      (abandon call argument f stack id ⟨memory, sink, log, depth⟩) :=
  .tryAccess fun _ _ => .failing _

theorem leave {routine : Routine} {result : Option Ty} {callee caller : ScopeId}
    (isCall : frame = .invocation routine result callee caller)
    (leaves : ∀ memory sink log depth, Moves plain returns values caller stack log depth
      ⟨control, stack, caller, ⟨memory, sink, log, depth⟩⟩) :
    Moves plain returns values (frame.scopeAfter id) stack (frame.stateAfter settings state).log
      (frame.stateAfter settings state).depth
      (leave settings routine callee caller control stack state) := by
  subst isCall
  exact .tryAccess fun _ memory => leaves memory _ _ _

theorem beginCall (routine : Routine) {result : Option Ty} (arguments : List Expr)
    (ends : result.isNone = true → plain = true) :
    Moves plain returns values id stack log depth
      (beginCall settings routine result arguments stack id ⟨memory, sink, log, depth⟩) := by
  unfold Config.beginCall
  split
  · exact .failing _
  · split
    · exact .failing _
    · exact .tryAccess fun _ _ => .goes ends (by simp [Control.isReturning]) (by simp)

theorem optionalLiteral {kind : Kind} {result : Except Cause Value}
    (good : ∀ v, result = .ok v → settings.builtins.enabled kind = true → values v) :
    Moves plain returns values id stack log depth
      (Config.ofResult (optionalLiteral settings kind result) stack id
        ⟨memory, sink, log, depth⟩) := by
  apply ofResult
  intro v gives
  obtain ⟨enabled, gives⟩ := optionalLiteral_eq_ok_iff.mp gives
  exact good v gives enabled

theorem evaluate (e : Expr) :
    Moves false false (Source settings ⟨.eval e, stack, id, state⟩) id stack state.log state.depth
      (evaluate settings e stack id state) := by
  have basic (kind : Kind) (member : kind ∈ Builtins.always) {v : Value}
      (isKind : v.kind? = some kind) : Source settings ⟨.eval e, stack, id, state⟩ v :=
    .literal rfl isKind (Builtins.isData_always kind member)
      (settings.builtins.enabled_always member)
  cases e with
  | name x =>
    cases ran : (Memory.lookup id x.name).run state.memory with
    | error fault m =>
      rw [Config.evaluate, tryAccess_error ran]
      exact .failing _
    | ok v m =>
      rw [Config.evaluate, tryAccess_ok ran]
      exact .value (.name rfl ran)
  | integer n => exact .value (basic .integer (by decide) rfl)
  | real x => exact .value (basic .real (by decide) rfl)
  | boolean b => exact .value (basic .boolean (by decide) rfl)
  | string text =>
    apply optionalLiteral
    rintro _ ⟨⟩ enabled
    exact .literal rfl rfl rfl enabled
  | char text =>
    apply optionalLiteral
    intro v gives enabled
    exact .literal rfl (Value.ofCharText_kind gives) rfl enabled
  | date d =>
    apply optionalLiteral
    intro v gives enabled
    exact .literal rfl (Value.ofDate_kind gives) rfl enabled
  | hole => exact .failing _
  | unary | binary => exact .pushes rfl rfl rfl
  | call callee arguments =>
    refine .tryAccess fun v memory => ?_
    cases v with
    | function routine result => exact .beginCall routine arguments (by simp)
    | _ => exact .failing _

theorem execute (s : Stmt) :
    Moves true (Control.exec s).beginsReturn values id stack state.log state.depth
      (execute settings s stack id state) := by
  cases s with
  | call callee arguments =>
    refine .tryAccess fun v memory => ?_
    cases v with
    | procedure routine => exact .beginCall routine _ fun _ => rfl
    | function routine result => exact .beginCall routine _ fun _ => rfl
    | _ => exact .failing _
  | returning value =>
    cases value with
    | none => exact .goes (fun _ => rfl) (fun _ => rfl) (by simp)
    | some e => exact .waits rfl (fun _ => rfl) fun _ => rfl
  | procedure | function => exact .stays rfl rfl rfl
  | _ => exact .pushes rfl rfl rfl

theorem bindNext {call : Call} (more : call.isBound = false) :
    Moves call.result.isNone false values id stack state.log state.depth
      (bindNext settings call stack id state) := by
  unfold Config.bindNext
  split
  · split
    · split
      · exact access_each (fun _ _ => .stays rfl rfl rfl) fun _ _ => .abandon call ..
      · exact .abandon call ..
    · exact .pushes rfl rfl rfl
  case h_2 none =>
    obtain ⟨_, _, _, _, isParams, isArguments⟩ := Call.isBound_eq_false more
    exact (none _ _ _ _ isParams isArguments).elim

theorem defineNext (d : Definition) :
    Moves true returns values id stack state.log state.depth (defineNext d stack id state) := by
  unfold Config.defineNext
  split
  · exact .pushes rfl rfl rfl
  · exact .pushes rfl rfl rfl
  · exact .tryAccess_done

theorem iterate (p : Progression) :
    Moves true returns values id stack state.log state.depth (iterate p stack id state) := by
  unfold Config.iterate
  split
  · exact access_each (fun _ _ => .pushes rfl rfl rfl) fun _ _ => .failing _
  · exact .stays rfl rfl rfl

theorem beginLoop (loop : Loop) (first last step : Int64) :
    Moves true returns values id stack state.log state.depth
      (beginLoop loop first last step stack id state) := by
  unfold Config.beginLoop
  split
  · exact .failing _
  · exact .tryAccess fun _ _ => .stays rfl rfl rfl

/-- Among the frames only operators make a value of the one they are given. -/
theorem give {v : Value} (waiting : frame.waitsForEnd = false) :
    Moves frame.endsPlainly frame.isReturning
      (Source settings ⟨.value v, frame :: stack, id, state⟩) id stack state.log state.depth
      (give v frame stack id state) := by
  cases frame with
  | unary op => exact .ofResult _ fun _ => .unary rfl rfl
  | right op l => exact .ofResult _ fun _ => .binary rfl rfl
  | left => exact .pushes rfl rfl rfl
  | argument call =>
    unfold Config.give
    dsimp only
    split
    · exact access_each (fun _ _ => .stays rfl rfl rfl) fun _ _ => .abandon call ..
    · exact .stays rfl rfl rfl
  | declaredType | resultType =>
    rw [Config.give, withType_eq]
    exact .orFail _ fun _ _ => .tryAccess_done
  | constantType =>
    rw [Config.give, withType_eq]
    exact .orFail _ fun _ _ => .pushes rfl rfl rfl
  | constantValue | assign => exact .tryAccess_done
  | output =>
    unfold Config.give
    dsimp only
    split
    · exact .failing _
    · exact .stays rfl rfl rfl
  | returning => exact .goes (fun _ => rfl) (fun _ => rfl) (by simp)
  | branch =>
    rw [Config.give, withTruth_eq]
    exact .orFail _ fun _ _ => .stays rfl rfl rfl
  | loopFirst =>
    rw [Config.give, withInteger_eq]
    exact .orFail _ fun _ _ => .pushes rfl rfl rfl
  | loopLast loop first =>
    rw [Config.give, withInteger_eq]
    refine .orFail _ fun last _ => ?_
    split
    · exact .pushes rfl rfl rfl
    · exact .beginLoop loop first last 1
  | loopStep loop first last =>
    rw [Config.give, withInteger_eq]
    exact .orFail _ fun step _ => .beginLoop loop first last step
  | whileTest | doTest =>
    rw [Config.give, withTruth_eq]
    refine .orFail _ fun b _ => ?_
    split
    · exact .pushes rfl rfl rfl
    · exact .stays rfl rfl rfl
  | paramType d =>
    unfold Config.give
    dsimp only
    split
    · split
      · exact .stays rfl rfl rfl
      · exact .failing _
    · exact .stays rfl rfl rfl
  | loopBody | whileBody | doBody | block | invocation => cases waiting

/-- A frame that does not wait for an end takes one for the end of a statement. -/
theorem finish (frame : Frame) :
    Moves (!frame.waitsForEnd || frame.endsPlainly) returns values (frame.scopeAfter id) stack
      (frame.stateAfter settings state).log (frame.stateAfter settings state).depth
      (finish settings frame stack id state) := by
  cases frame with
  | loopBody p =>
    unfold Config.finish
    dsimp only
    split <;> exact .stays rfl rfl rfl
  | whileBody | doBody => exact .pushes rfl rfl rfl
  | invocation routine result callee caller =>
    cases result with
    | none => exact .leave rfl fun _ _ _ _ => .stays rfl rfl rfl
    | some t => exact .leave rfl fun _ _ _ _ => .failing _
  | _ => exact .stays rfl rfl rfl

/-- A function gives a member of its result type. -/
theorem unwind (v : Option Value) (span : Span) (frame : Frame) :
    Moves (!frame.waitsForEnd || frame.endsPlainly) (!frame.isInvocation)
      (Source settings ⟨.returning v span, frame :: stack, id, state⟩) (frame.scopeAfter id) stack
      (frame.stateAfter settings state).log (frame.stateAfter settings state).depth
      (unwind settings v span frame stack id state) := by
  cases frame with
  | invocation routine result callee caller =>
    cases result with
    | none => exact .leave rfl fun _ _ _ _ => .stays rfl rfl rfl
    | some t =>
      refine .leave rfl fun _ _ _ _ => ?_
      rcases returned_cases routine t v span with ⟨w, isSome, accepted, gives⟩ | ⟨f, fails⟩
      · rw [gives]
        subst isSome
        exact .value (.call rfl rfl accepted)
      · rw [fails]
        exact .failing f
  | _ => exact .goes (fun _ => rfl) (fun _ => rfl) (by simp)

theorem propagate (f : Failure) (frame : Frame) :
    Moves plain returns values (frame.scopeAfter id) stack
      (frame.stateAfter settings state).log (frame.stateAfter settings state).depth
      (propagate settings f frame stack id state) := by
  cases frame with
  | argument call => exact .abandon call ..
  | invocation => exact .leave rfl fun _ _ _ _ => .failing f
  | _ => exact .failing _

end Moves

/-- What the step from `c` can lead to. -/
inductive Move (settings : Settings) (c : Config) : Config → Prop where
  | halts : c.halted = true → Move settings c c
  /-- Something is begun. -/
  | begins {c'} : c.control.isOutcome = false →
      (∀ call, c.control = .bind call → call.isBound = false) →
      Moves c.control.endsPlainly c.control.beginsReturn (Source settings c) c.scope c.stack
        c.state.log c.state.depth c' → Move settings c c'
  /-- A routine is entered. -/
  | enters {call} : c.control = .bind call → call.isBound = true →
      Move settings c ⟨.run call.routine.body,
        .invocation call.routine call.result call.callee c.scope :: c.stack, call.callee,
        ({ c.state with depth := c.state.depth + 1 } : State).note settings
          (.enter call.routine.name (c.state.depth + 1) call.routine.params.length)⟩
  /-- What has come of something is handed to the innermost frame. -/
  | hands {frame rest plain returns c'} : c.stack = frame :: rest → c.control.isOutcome = true →
      (frame.isInvocation = true → c.control.isValue = false) →
      (plain = true → frame.endsPlainly = true ∨
        c.control.endsPlainly = true ∧ frame.waitsForEnd = false) →
      (returns = true → frame.isReturning = true ∨
        c.control.isReturning = true ∧ frame.isInvocation = false) →
      Moves plain returns (Source settings c) (frame.scopeAfter c.scope) rest
        (frame.stateAfter settings c.state).log (frame.stateAfter settings c.state).depth c' →
      Move settings c c'
  /-- A value is dropped by a frame that waits for an end. -/
  | drops {v frame rest} : c.control = .value v → c.stack = frame :: rest →
      frame.waitsForEnd = true → Move settings c ⟨.done, c.stack, c.scope, c.state⟩

namespace Move

theorem bindNext (call : Call) :
    Move settings ⟨.bind call, stack, id, state⟩ (bindNext settings call stack id state) := by
  cases bound : call.isBound with
  | false =>
    refine .begins rfl ?_ (.bindNext bound)
    rintro _ ⟨⟩
    exact bound
  | true =>
    have entered : Config.bindNext settings call stack id state = ⟨.run call.routine.body,
        .invocation call.routine call.result call.callee id :: stack, call.callee,
        ({ state with depth := state.depth + 1 } : State).note settings
          (.enter call.routine.name (state.depth + 1) call.routine.params.length)⟩ := by
      obtain ⟨routine, result, callee, params, arguments⟩ := call
      cases params with
      | nil => rfl
      | cons param params =>
        cases arguments with
        | nil => rfl
        | cons => cases bound
    rw [entered]
    exact .enters rfl bound

theorem give (v : Value) (frame : Frame) :
    Move settings ⟨.value v, frame :: stack, id, state⟩ (give v frame stack id state) := by
  cases waiting : frame.waitsForEnd with
  | false =>
    have moves : Moves _ _ (Source settings ⟨.value v, frame :: stack, id, state⟩) id stack
      state.log state.depth _ := .give waiting
    cases frame with
    | invocation => cases waiting
    | _ => exact .hands rfl rfl (fun none => by cases none) .inl .inl moves
  | true =>
    have dropped : Config.give v frame stack id state = ⟨.done, frame :: stack, id, state⟩ := by
      cases frame <;> first | rfl | cases waiting
    rw [dropped]
    exact .drops rfl rfl waiting

end Move

theorem step_move (settings : Settings) (c : Config) : Move settings c (c.step settings) := by
  obtain ⟨control, stack, id, state⟩ := c
  have ends {frame : Frame} (plainly : (!frame.waitsForEnd || frame.endsPlainly) = true) :
      frame.endsPlainly = true ∨ true = true ∧ frame.waitsForEnd = false := by
    cases waiting : frame.waitsForEnd <;> simp_all
  cases control with
  | eval e => exact .begins rfl (by simp) (.evaluate e)
  | exec s => exact .begins rfl (by simp) (.execute s)
  | run block =>
    cases block with
    | nil => exact .begins rfl (by simp) (.stays rfl rfl rfl)
    | cons s rest => exact .begins rfl (by simp) (.pushes rfl rfl rfl)
  | bind call => exact .bindNext call
  | define d => exact .begins rfl (by simp) (.defineNext d)
  | iterate p => exact .begins rfl (by simp) (.iterate p)
  | value v =>
    cases stack with
    | nil => exact .halts rfl
    | cons frame rest => exact .give v frame
  | done =>
    cases stack with
    | nil => exact .halts rfl
    | cons frame rest =>
      exact .hands rfl rfl (fun _ => rfl) ends (fun none : false = true => by cases none)
        (.finish frame)
  | returning v span =>
    cases stack with
    | nil => exact .halts rfl
    | cons frame rest =>
      exact .hands rfl rfl (fun _ => rfl) ends (fun other => .inr ⟨rfl, by simpa using other⟩)
        (.unwind v span frame)
  | failing f =>
    cases stack with
    | nil => exact .halts rfl
    | cons frame rest =>
      exact .hands rfl rfl (fun _ => rfl) (fun none : false = true => by cases none)
        (fun none : false = true => by cases none) (.propagate f frame)

end Config

end Pseudocode
