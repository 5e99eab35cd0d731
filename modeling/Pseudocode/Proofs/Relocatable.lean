import Pseudocode.Proofs.Preservation
import Pseudocode.Proofs.Unplaced

/-! # Runs do not depend on places

A configuration without places, and without a log, makes the same steps as the configuration with
them. So two programs that differ in their places only run alike, and two sessions that differ in
the places of the routines they hold, or in their logs, give the same answers. -/

namespace Pseudocode

def Settings.quiet (settings : Settings) : Settings :=
  { settings with logged := false }

/-! ## Configurations without places -/

def State.unplaced (s : State) : State :=
  { s with memory := s.memory.unplaced, log := #[] }

def Call.unplaced (call : Call) : Call :=
  { call with
    routine := call.routine.unplaced
    arguments := Expr.allMoved .nowhere call.arguments }

def Definition.unplaced (d : Definition) : Definition where
  id := d.id.moved .nowhere
  pending := d.pending.map (Param.moved .nowhere)
  resolved := d.resolved
  result := d.result.map Expr.unplaced
  body := Stmt.allMoved .nowhere d.body

def Loop.unplaced (loop : Loop) : Loop where
  counter := loop.counter.moved .nowhere
  last := loop.last.unplaced
  step := loop.step.map Expr.unplaced
  body := Stmt.allMoved .nowhere loop.body

def Progression.unplaced (p : Progression) : Progression :=
  { p with counter := p.counter.moved .nowhere, body := Stmt.allMoved .nowhere p.body }

def Frame.unplaced : Frame → Frame
  | .unary op => .unary op
  | .left op e => .left op e.unplaced
  | .right op v => .right op v.unplaced
  | .argument call => .argument call.unplaced
  | .declaredType name declared => .declaredType (name.moved .nowhere) declared.unplaced
  | .constantType name declared value =>
    .constantType (name.moved .nowhere) declared.unplaced value.unplaced
  | .constantValue name type => .constantValue (name.moved .nowhere) type
  | .assign target => .assign (target.moved .nowhere)
  | .output => .output
  | .returning _ => .returning .zero
  | .branch consequent alternate =>
    .branch (Stmt.allMoved .nowhere consequent) (Stmt.allMoved .nowhere alternate)
  | .loopFirst loop => .loopFirst loop.unplaced
  | .loopLast loop first => .loopLast loop.unplaced first
  | .loopStep loop first last => .loopStep loop.unplaced first last
  | .loopBody p => .loopBody p.unplaced
  | .whileTest condition body => .whileTest condition.unplaced (Stmt.allMoved .nowhere body)
  | .whileBody condition body => .whileBody condition.unplaced (Stmt.allMoved .nowhere body)
  | .doTest body condition => .doTest (Stmt.allMoved .nowhere body) condition.unplaced
  | .doBody body condition => .doBody (Stmt.allMoved .nowhere body) condition.unplaced
  | .paramType d => .paramType d.unplaced
  | .resultType d => .resultType d.unplaced
  | .block rest _ => .block (Stmt.allMoved .nowhere rest) .zero
  | .invocation routine result callee caller => .invocation routine.unplaced result callee caller

def Control.unplaced : Control → Control
  | .eval e => .eval e.unplaced
  | .exec s => .exec s.unplaced
  | .run block => .run (Stmt.allMoved .nowhere block)
  | .bind call => .bind call.unplaced
  | .define d => .define d.unplaced
  | .iterate p => .iterate p.unplaced
  | .value v => .value v.unplaced
  | .done => .done
  | .returning v _ => .returning (v.map Value.unplaced) .zero
  | .failing f => .failing f.unplaced

def Config.unplaced (c : Config) : Config :=
  ⟨c.control.unplaced, c.stack.map Frame.unplaced, c.scope, c.state.unplaced⟩

theorem State.note_unplaced (s : State) (settings : Settings) (entry : LogEntry) :
    (s.note settings entry).unplaced = s.unplaced := by
  unfold note
  split <;> rfl

theorem Call.span_unplaced (call : Call) : call.unplaced.span = .zero := by
  obtain ⟨routine, result, callee, params, arguments⟩ := call
  cases arguments with
  | nil => rfl
  | cons e rest => exact e.span_unplaced

theorem Call.rest_unplaced (call : Call) : call.rest.unplaced = call.unplaced.rest := by
  obtain ⟨routine, result, callee, params, arguments⟩ := call
  cases arguments <;> rfl

theorem Progression.next?_unplaced (p : Progression) :
    p.unplaced.next? = p.next?.map Progression.unplaced := by
  rw [next?, next?, apply_ite (Option.map unplaced)]
  rfl

namespace Config

variable {settings : Settings} {stack : List Frame} {id : ScopeId} {state : State}

/-! ## The parts of a step -/

theorem access_unplaced {α β : Type} {g : α → β} {action : Memory.Action α}
    {mirror : Memory.Action β} (mirrors : action.Mirrors g mirror) {onOk : α → State → Config}
    {onOk' : β → State → Config} {onFault onFault' : Fault → State → Config}
    (ok : ∀ a s, (onOk a s).unplaced = onOk' (g a) s.unplaced)
    (fault : ∀ f s, (onFault f s).unplaced = onFault' f.unplaced s.unplaced) :
    (access state action onOk onFault).unplaced = access state.unplaced mirror onOk' onFault' := by
  unfold access
  dsimp only [State.unplaced]
  rw [mirrors state.memory]
  cases action.run state.memory with
  | ok a m => exact ok a { state with memory := m }
  | error f m => exact fault f { state with memory := m }

theorem tryAccess_unplaced {α β : Type} {g : α → β} {action : Memory.Action α}
    {mirror : Memory.Action β} (mirrors : action.Mirrors g mirror) {onOk : α → State → Config}
    {onOk' : β → State → Config} (ok : ∀ a s, (onOk a s).unplaced = onOk' (g a) s.unplaced) :
    (tryAccess state action stack id onOk).unplaced =
      tryAccess state.unplaced mirror (stack.map Frame.unplaced) id onOk' :=
  access_unplaced mirrors ok fun _ _ => rfl

theorem orFail_unplaced {α : Type} (result : Except Cause α) {onOk onOk' : α → State → Config}
    (ok : ∀ a, (onOk a state).unplaced = onOk' a state.unplaced) :
    (orFail result stack id state onOk).unplaced =
      orFail result (stack.map Frame.unplaced) id state.unplaced onOk' := by
  cases result with
  | ok a => exact ok a
  | error cause => rfl

theorem ofResult_unplaced {result : Except Cause Value} (computed : Computed result) :
    (ofResult result stack id state).unplaced =
      ofResult result (stack.map Frame.unplaced) id state.unplaced := by
  cases result with
  | ok v => simp only [ofResult, unplaced, Control.unplaced, Value.Plain.unplaced computed]
  | error cause => rfl

theorem failing_unplaced (f : Failure) (span : Span) :
    unplaced ⟨.failing (f.withSpan span), stack, id, state⟩ =
      ⟨.failing (f.unplaced.withSpan .zero), stack.map Frame.unplaced, id, state.unplaced⟩ := by
  simp only [unplaced, Control.unplaced, Failure.withSpan_unplaced]

theorem asType_unplaced (e : Expr) (v : Value) : asType e.unplaced v.unplaced = asType e v := by
  cases e <;> cases v <;> rfl

theorem asTruth_unplaced (v : Value) : asTruth v.unplaced = asTruth v := by
  cases v <;> rfl

theorem asInteger_unplaced (part : LoopPart) (v : Value) :
    asInteger part v.unplaced = asInteger part v := by
  cases v <;> rfl

theorem beginCall_unplaced (routine : Routine) (result : Option Ty) (arguments : List Expr) :
    (beginCall settings routine result arguments stack id state).unplaced =
      beginCall settings.quiet routine.unplaced result (Expr.allMoved .nowhere arguments)
        (stack.map Frame.unplaced) id state.unplaced := by
  simp only [beginCall, Expr.length_allMoved, Settings.quiet, State.unplaced, Routine.unplaced]
  split
  · rfl
  · split
    · rfl
    · exact tryAccess_unplaced (Memory.child_mirrors _) fun _ _ => rfl

theorem evaluate_unplaced (e : Expr) :
    (evaluate settings e stack id state).unplaced =
      evaluate settings.quiet e.unplaced (stack.map Frame.unplaced) id state.unplaced := by
  cases e with
  | name x => exact tryAccess_unplaced Memory.lookup_mirrors fun _ _ => rfl
  | string s =>
    exact ofResult_unplaced (optionalLiteral_computed settings .string trivial)
  | char text =>
    exact ofResult_unplaced
      (optionalLiteral_computed settings .char (Value.ofCharText_computed text))
  | date d =>
    exact ofResult_unplaced (optionalLiteral_computed settings .date (Value.ofDate_computed d))
  | call callee arguments =>
    refine tryAccess_unplaced Memory.lookup_mirrors fun v s => ?_
    cases v with
    | function routine result => exact beginCall_unplaced routine (some result) arguments
    | _ => rfl
  | _ => rfl

theorem execute_unplaced (s : Stmt) :
    (execute settings s stack id state).unplaced =
      execute settings.quiet s.unplaced (stack.map Frame.unplaced) id state.unplaced := by
  cases s with
  | call callee arguments =>
    refine tryAccess_unplaced Memory.lookup_mirrors fun v s => ?_
    cases v with
    | procedure routine => cases arguments <;> exact beginCall_unplaced routine none _
    | function routine result =>
      cases arguments <;> exact beginCall_unplaced routine (some result) _
    | _ => rfl
  | returning value => cases value <;> rfl
  | _ => rfl

theorem abandon_unplaced (call : Call) (argument : Span) (f : Failure) :
    (abandon call argument f stack id state).unplaced =
      abandon call.unplaced .zero f.unplaced (stack.map Frame.unplaced) id state.unplaced := by
  exact tryAccess_unplaced Memory.close_mirrors fun _ _ => failing_unplaced f argument

theorem entered_unplaced (routine : Routine) (result : Option Ty) (callee : ScopeId) :
    unplaced ⟨.run routine.body, .invocation routine result callee id :: stack, callee,
      ({ state with depth := state.depth + 1 } : State).note settings
        (.enter routine.name (state.depth + 1) routine.params.length)⟩ =
    ⟨.run routine.unplaced.body,
      .invocation routine.unplaced result callee id :: stack.map Frame.unplaced, callee,
      ({ state.unplaced with depth := state.depth + 1 } : State).note settings.quiet
        (.enter routine.name (state.depth + 1) routine.params.length)⟩ := by
  simp only [unplaced, State.note_unplaced]
  rfl

theorem bindNext_unplaced (call : Call) :
    (bindNext settings call stack id state).unplaced =
      bindNext settings.quiet call.unplaced (stack.map Frame.unplaced) id state.unplaced := by
  obtain ⟨routine, result, callee, params, arguments⟩ := call
  -- Once a parameter or an argument is missing, the routine is entered.
  cases params with
  | nil => exact entered_unplaced ..
  | cons param params =>
    cases arguments with
    | nil => exact entered_unplaced ..
    | cons argument arguments =>
      simp only [bindNext, Call.unplaced, Expr.allMoved]
      split
      · cases argument with
        | name x =>
          refine access_unplaced (Memory.passReference_mirrors id x.name) (fun _ _ => rfl)
            fun _ _ => ?_
          exact abandon_unplaced ..
        | _ => exact abandon_unplaced ..
      · rfl

theorem leave_unplaced (routine : Routine) (callee caller : ScopeId) (control : Control) :
    (leave settings routine callee caller control stack state).unplaced =
      leave settings.quiet routine.unplaced callee caller control.unplaced
        (stack.map Frame.unplaced) state.unplaced := by
  have left (entry : LogEntry) :
      State.unplaced { state.note settings entry with
        depth := (state.note settings entry).depth - 1 } =
        { state.unplaced with depth := state.depth - 1 } := by
    unfold State.note
    split <;> rfl
  change _ = tryAccess { state.unplaced with depth := state.depth - 1 } (Memory.close callee)
    (stack.map Frame.unplaced) caller
    fun _ s => ⟨control.unplaced, stack.map Frame.unplaced, caller, s⟩
  rw [← left (.leave routine.name state.depth)]
  exact tryAccess_unplaced Memory.close_mirrors fun _ _ => rfl

theorem defineNext_unplaced (d : Definition) :
    (defineNext d stack id state).unplaced =
      defineNext d.unplaced (stack.map Frame.unplaced) id state.unplaced := by
  obtain ⟨name, pending, resolved, result, body⟩ := d
  cases pending with
  | cons param pending => rfl
  | nil =>
    cases result with
    | some result => rfl
    | none => exact tryAccess_unplaced (Memory.declareConstant_mirrors _) fun _ _ => rfl

theorem iterate_unplaced (p : Progression) :
    (iterate p stack id state).unplaced =
      iterate p.unplaced (stack.map Frame.unplaced) id state.unplaced := by
  have same : p.unplaced.continues = p.continues := rfl
  simp only [iterate, same]
  split
  · refine access_unplaced (Memory.writeAs_mirrors p.slot (.integer p.current)) (fun _ _ => rfl)
      fun f s => ?_
    exact congrArg (fun f => Config.mk (.failing (.fault f)) _ _ _) (f.withSpan_unplaced _)
  · rfl

theorem beginLoop_unplaced (loop : Loop) (first last step : Int64) :
    (beginLoop loop first last step stack id state).unplaced =
      beginLoop loop.unplaced first last step (stack.map Frame.unplaced) id state.unplaced := by
  unfold beginLoop
  split
  · rfl
  · exact tryAccess_unplaced Memory.lookupVariable_mirrors fun _ _ => rfl

theorem give_unplaced (v : Value) (frame : Frame) :
    (give v frame stack id state).unplaced =
      give v.unplaced frame.unplaced (stack.map Frame.unplaced) id state.unplaced := by
  cases frame with
  | unary op =>
    simp only [give, Frame.unplaced, UnaryOp.apply_unplaced]
    exact ofResult_unplaced (op.apply_computed v)
  | right op left =>
    simp only [give, Frame.unplaced, BinaryOp.apply_unplaced]
    exact ofResult_unplaced (op.apply_computed left v)
  | argument call =>
    obtain ⟨routine, result, callee, params, arguments⟩ := call
    cases params with
    | nil => rfl
    | cons param params =>
      refine access_unplaced (Memory.bindValue_mirrors v) (fun _ _ => ?_) fun _ _ => ?_
      · simp only [unplaced, Control.unplaced, Call.rest_unplaced]
      · rw [abandon_unplaced, ← Call.span_unplaced]
        rfl
  | declaredType name declared =>
    simp only [give, Frame.unplaced, withType_eq, asType_unplaced]
    exact orFail_unplaced _ fun _ =>
      tryAccess_unplaced Memory.declareVariable_mirrors fun _ _ => rfl
  | resultType d =>
    have hole : d.unplaced.result.getD .hole = (d.result.getD .hole).unplaced := by
      cases result : d.result <;> simp only [Definition.unplaced, result] <;> rfl
    simp only [give, Frame.unplaced, withType_eq, hole, asType_unplaced]
    exact orFail_unplaced _ fun t =>
      tryAccess_unplaced (Memory.declareConstant_mirrors (.function _ t)) fun _ _ => rfl
  | constantType name declared value =>
    simp only [give, Frame.unplaced, withType_eq, asType_unplaced]
    exact orFail_unplaced _ fun _ => rfl
  | constantValue => exact tryAccess_unplaced (Memory.declareConstant_mirrors v) fun _ _ => rfl
  | assign => exact tryAccess_unplaced (Memory.assign_mirrors v) fun _ _ => rfl
  | output =>
    simp only [give, Frame.unplaced, State.unplaced, Value.shown_unplaced]
    split <;> rfl
  | branch consequent alternate =>
    simp only [give, Frame.unplaced, withTruth_eq, asTruth_unplaced]
    refine orFail_unplaced _ fun b => ?_
    cases b <;> rfl
  | loopFirst loop =>
    simp only [give, Frame.unplaced, withInteger_eq, asInteger_unplaced]
    exact orFail_unplaced _ fun _ => rfl
  | loopLast loop first =>
    simp only [give, Frame.unplaced, withInteger_eq, asInteger_unplaced]
    refine orFail_unplaced _ fun last => ?_
    obtain ⟨counter, stop, step, body⟩ := loop
    cases step with
    | none => exact beginLoop_unplaced ..
    | some step => rfl
  | loopStep loop first last =>
    simp only [give, Frame.unplaced, withInteger_eq, asInteger_unplaced]
    exact orFail_unplaced _ fun step => beginLoop_unplaced loop first last step
  | whileTest | doTest =>
    simp only [give, Frame.unplaced, withTruth_eq, asTruth_unplaced]
    refine orFail_unplaced _ fun b => ?_
    cases b <;> rfl
  | paramType d =>
    obtain ⟨name, pending, resolved, result, body⟩ := d
    cases pending with
    | nil => rfl
    | cons param pending =>
      have same : asType (param.moved .nowhere).declared v.unplaced = asType param.declared v :=
        asType_unplaced param.declared v
      simp only [give, Frame.unplaced, Definition.unplaced, List.map_cons, same]
      cases asType param.declared v with
      | ok t => rfl
      | error cause => exact failing_unplaced ..
  | left | returning | loopBody | whileBody | doBody | block | invocation => rfl

theorem finish_unplaced (frame : Frame) :
    (finish settings frame stack id state).unplaced =
      finish settings.quiet frame.unplaced (stack.map Frame.unplaced) id state.unplaced := by
  cases frame with
  | loopBody p =>
    simp only [finish, Frame.unplaced, Progression.next?_unplaced]
    cases p.next? <;> rfl
  | invocation routine result callee caller => cases result <;> exact leave_unplaced ..
  | _ => rfl

theorem returned_unplaced (routine : Routine) (result : Ty) (v : Option Value) (span : Span) :
    (returned routine result v span).unplaced =
      returned routine.unplaced result (v.map Value.unplaced) .zero := by
  cases v with
  | none => exact congrArg Control.failing (Failure.withSpan_unplaced ..)
  | some v =>
    simp only [returned, Option.map_some, Value.accepts_unplaced, Value.described_unplaced]
    split
    · rfl
    · simp only [Control.unplaced, Failure.withSpan_unplaced, Failure.annotate_unplaced]
      rfl

theorem unwind_unplaced (v : Option Value) (span : Span) (frame : Frame) :
    (unwind settings v span frame stack id state).unplaced =
      unwind settings.quiet (v.map Value.unplaced) .zero frame.unplaced
        (stack.map Frame.unplaced) id state.unplaced := by
  cases frame with
  | invocation routine result callee caller =>
    cases result with
    | none => exact leave_unplaced ..
    | some result =>
      simp only [unwind, Frame.unplaced, leave_unplaced, returned_unplaced]
  | _ => rfl

theorem propagate_unplaced (f : Failure) (frame : Frame) :
    (propagate settings f frame stack id state).unplaced =
      propagate settings.quiet f.unplaced frame.unplaced (stack.map Frame.unplaced) id
        state.unplaced := by
  cases frame with
  | argument call =>
    simp only [propagate, Frame.unplaced, abandon_unplaced, Call.span_unplaced]
  | invocation => exact leave_unplaced ..
  | block rest span => exact failing_unplaced f span
  | paramType d =>
    obtain ⟨name, pending, resolved, result, body⟩ := d
    cases pending <;> exact failing_unplaced ..
  | _ => rfl

theorem step_unplaced (c : Config) :
    (c.step settings).unplaced = c.unplaced.step settings.quiet := by
  obtain ⟨control, stack, id, state⟩ := c
  cases control with
  | eval e => exact evaluate_unplaced e
  | exec s => exact execute_unplaced s
  | run block =>
    cases block with
    | nil => rfl
    | cons s rest =>
      simp only [step, unplaced, Control.unplaced, Stmt.allMoved, Stmt.span_unplaced]
      rfl
  | bind call => exact bindNext_unplaced call
  | define d => exact defineNext_unplaced d
  | iterate p => exact iterate_unplaced p
  | value v =>
    cases stack with
    | nil => rfl
    | cons frame rest => exact give_unplaced v frame
  | done =>
    cases stack with
    | nil => rfl
    | cons frame rest => exact finish_unplaced frame
  | returning v span =>
    cases stack with
    | nil => rfl
    | cons frame rest => exact unwind_unplaced v span frame
  | failing f =>
    cases stack with
    | nil => rfl
    | cons frame rest => exact propagate_unplaced f frame

theorem halted_unplaced (c : Config) : c.unplaced.halted = c.halted := by
  obtain ⟨control, stack, id, state⟩ := c
  cases stack <;> cases control <;> rfl

theorem advance_unplaced (c : Config) (n : Nat) :
    (c.advance settings n).unplaced = c.unplaced.advance settings.quiet n := by
  induction n generalizing c with
  | zero => rfl
  | succ n ih =>
    simp only [advance, halted_unplaced, apply_ite unplaced, ih, step_unplaced]

end Config

end Pseudocode
