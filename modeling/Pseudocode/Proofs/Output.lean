import Pseudocode.Proofs.Steps

/-! # What a step writes

Only `OUTPUT` writes, and only to a sink that is not closed. No other step asks for the sink: with
another sink it goes the same way. Nor does a step ask for the frames that wait below those on which
it works. -/

namespace Pseudocode

theorem Sink.closed_unlimited {s : Sink} (unlimited : s.limit = none) : s.closed = false := by
  rw [closed, unlimited, Option.any_none]

def State.withSink (s : State) (sink : Sink) : State :=
  { s with sink }

namespace Config

def withSink (c : Config) (sink : Sink) : Config :=
  { c with state := c.state.withSink sink }

/-- The configuration with more frames waiting below, and with another sink. -/
def elsewhere (c : Config) (base : List Frame) (sink : Sink) : Config :=
  ⟨c.control, c.stack ++ base, c.scope, c.state.withSink sink⟩

variable {settings : Settings} {stack base : List Frame} {id : ScopeId} {state : State}
  {sink : Sink} {c : Config} {α : Type}

theorem access_elsewhere {action : Memory.Action α} {onOk onOk' : α → State → Config}
    {onFault onFault' : Fault → State → Config}
    (ok : ∀ a s, onOk' a (s.withSink sink) = (onOk a s).elsewhere base sink)
    (fault : ∀ f s, onFault' f (s.withSink sink) = (onFault f s).elsewhere base sink) :
    access (state.withSink sink) action onOk' onFault' =
      (access state action onOk onFault).elsewhere base sink := by
  obtain ⟨memory, sink', log, depth⟩ := state
  simp only [access, State.withSink]
  split
  · exact ok _ ⟨_, sink', log, depth⟩
  · exact fault _ ⟨_, sink', log, depth⟩

theorem tryAccess_elsewhere {action : Memory.Action α} {onOk onOk' : α → State → Config}
    (ok : ∀ a s, onOk' a (s.withSink sink) = (onOk a s).elsewhere base sink) :
    tryAccess (state.withSink sink) action (stack ++ base) id onOk' =
      (tryAccess state action stack id onOk).elsewhere base sink :=
  access_elsewhere ok fun _ _ => rfl

theorem orFail_elsewhere (result : Except Cause α) {onOk onOk' : α → State → Config}
    (ok : ∀ a, onOk' a (state.withSink sink) = (onOk a state).elsewhere base sink) :
    orFail result (stack ++ base) id (state.withSink sink) onOk' =
      (orFail result stack id state onOk).elsewhere base sink := by
  cases result with
  | ok a => exact ok a
  | error cause => rfl

theorem ofResult_elsewhere (result : Except Cause Value) :
    ofResult result (stack ++ base) id (state.withSink sink) =
      (ofResult result stack id state).elsewhere base sink := by
  cases result <;> rfl

theorem note_withSink (state : State) (entry : LogEntry) :
    (state.withSink sink).note settings entry = (state.note settings entry).withSink sink := by
  unfold State.note
  split <;> rfl

theorem beginCall_elsewhere (routine : Routine) (result : Option Ty) (arguments : List Expr) :
    beginCall settings routine result arguments (stack ++ base) id (state.withSink sink) =
      (beginCall settings routine result arguments stack id state).elsewhere base sink := by
  have depth : (state.withSink sink).depth = state.depth := rfl
  unfold beginCall
  rw [depth]
  split
  · rfl
  · split
    · rfl
    · exact tryAccess_elsewhere fun _ _ => rfl

theorem evaluate_elsewhere (e : Expr) :
    evaluate settings e (stack ++ base) id (state.withSink sink) =
      (evaluate settings e stack id state).elsewhere base sink := by
  cases e with
  | name x => exact tryAccess_elsewhere fun _ _ => rfl
  | string | char | date => exact ofResult_elsewhere _
  | call callee arguments =>
    refine tryAccess_elsewhere fun v s => ?_
    cases v with
    | function routine result => exact beginCall_elsewhere routine (some result) arguments
    | _ => rfl
  | _ => rfl

theorem execute_elsewhere (s : Stmt) :
    execute settings s (stack ++ base) id (state.withSink sink) =
      (execute settings s stack id state).elsewhere base sink := by
  cases s with
  | call callee arguments =>
    refine tryAccess_elsewhere fun v s => ?_
    cases v with
    | procedure routine => exact beginCall_elsewhere routine none _
    | function routine result => exact beginCall_elsewhere routine (some result) _
    | _ => rfl
  | returning value => cases value <;> rfl
  | _ => rfl

theorem abandon_elsewhere (call : Call) (argument : Span) (f : Failure) :
    abandon call argument f (stack ++ base) id (state.withSink sink) =
      (abandon call argument f stack id state).elsewhere base sink :=
  tryAccess_elsewhere fun _ _ => rfl

theorem bindNext_elsewhere (call : Call) :
    bindNext settings call (stack ++ base) id (state.withSink sink) =
      (bindNext settings call stack id state).elsewhere base sink := by
  unfold bindNext
  split
  · split
    · split
      · exact access_elsewhere (fun _ _ => rfl) fun _ _ => abandon_elsewhere ..
      · exact abandon_elsewhere ..
    · rfl
  · have depth : (state.withSink sink).depth = state.depth := rfl
    simp only [depth]
    exact congrArg (Config.mk _ _ _) (note_withSink { state with depth := state.depth + 1 } _)

theorem leave_elsewhere (routine : Routine) (callee caller : ScopeId) (control : Control) :
    leave settings routine callee caller control (stack ++ base) (state.withSink sink) =
      (leave settings routine callee caller control stack state).elsewhere base sink := by
  have depth : (state.withSink sink).depth = state.depth := rfl
  unfold leave
  rw [depth, note_withSink]
  generalize state.note settings _ = noted
  change tryAccess (State.withSink { noted with depth := noted.depth - 1 } sink) _ _ _ _ = _
  exact tryAccess_elsewhere fun _ _ => rfl

theorem defineNext_elsewhere (d : Definition) :
    defineNext d (stack ++ base) id (state.withSink sink) =
      (defineNext d stack id state).elsewhere base sink := by
  unfold defineNext
  split
  · rfl
  · rfl
  · exact tryAccess_elsewhere fun _ _ => rfl

theorem iterate_elsewhere (p : Progression) :
    iterate p (stack ++ base) id (state.withSink sink) =
      (iterate p stack id state).elsewhere base sink := by
  unfold iterate
  split
  · exact access_elsewhere (fun _ _ => rfl) fun _ _ => rfl
  · rfl

theorem beginLoop_elsewhere (loop : Loop) (first last step : Int64) :
    beginLoop loop first last step (stack ++ base) id (state.withSink sink) =
      (beginLoop loop first last step stack id state).elsewhere base sink := by
  unfold beginLoop
  split
  · rfl
  · exact tryAccess_elsewhere fun _ _ => rfl

theorem give_elsewhere (v : Value) {frame : Frame} (silent : frame ≠ .output) :
    give v frame (stack ++ base) id (state.withSink sink) =
      (give v frame stack id state).elsewhere base sink := by
  cases frame with
  | output => exact absurd rfl silent
  | unary | right => exact ofResult_elsewhere _
  | argument call =>
    unfold give
    dsimp only
    split
    · exact access_elsewhere (fun _ _ => rfl) fun _ _ => abandon_elsewhere ..
    · rfl
  | declaredType | resultType =>
    simp only [give, withType_eq]
    exact orFail_elsewhere _ fun _ => tryAccess_elsewhere fun _ _ => rfl
  | constantType =>
    simp only [give, withType_eq]
    exact orFail_elsewhere _ fun _ => rfl
  | constantValue | assign => exact tryAccess_elsewhere fun _ _ => rfl
  | branch =>
    simp only [give, withTruth_eq]
    exact orFail_elsewhere _ fun _ => rfl
  | loopFirst =>
    simp only [give, withInteger_eq]
    exact orFail_elsewhere _ fun _ => rfl
  | loopLast loop first =>
    simp only [give, withInteger_eq]
    refine orFail_elsewhere _ fun last => ?_
    split
    · rfl
    · exact beginLoop_elsewhere loop first last 1
  | loopStep loop first last =>
    simp only [give, withInteger_eq]
    exact orFail_elsewhere _ fun step => beginLoop_elsewhere loop first last step
  | whileTest | doTest =>
    simp only [give, withTruth_eq]
    refine orFail_elsewhere _ fun b => ?_
    split <;> rfl
  | paramType d =>
    unfold give
    dsimp only
    split
    · split <;> rfl
    · rfl
  | left | returning | loopBody | whileBody | doBody | block | invocation => rfl

theorem finish_elsewhere (frame : Frame) :
    finish settings frame (stack ++ base) id (state.withSink sink) =
      (finish settings frame stack id state).elsewhere base sink := by
  cases frame with
  | loopBody p =>
    unfold finish
    dsimp only
    split <;> rfl
  | invocation routine result callee caller => cases result <;> exact leave_elsewhere ..
  | _ => rfl

theorem unwind_elsewhere (v : Option Value) (span : Span) (frame : Frame) :
    unwind settings v span frame (stack ++ base) id (state.withSink sink) =
      (unwind settings v span frame stack id state).elsewhere base sink := by
  cases frame with
  | invocation routine result callee caller => cases result <;> exact leave_elsewhere ..
  | _ => rfl

theorem propagate_elsewhere (f : Failure) (frame : Frame) :
    propagate settings f frame (stack ++ base) id (state.withSink sink) =
      (propagate settings f frame stack id state).elsewhere base sink := by
  cases frame with
  | argument => exact abandon_elsewhere ..
  | invocation => exact leave_elsewhere ..
  | _ => rfl

/-- A value waits for `OUTPUT` to write it. -/
def Writes (c : Config) (v : Value) : Prop :=
  ∃ rest, c.control = .value v ∧ c.stack = .output :: rest

/-- A step goes the same way above other frames and with another sink, unless it is that of
`OUTPUT`. -/
theorem step_elsewhere (silent : ∀ v, ¬ c.Writes v) (inner : c.halted = true → base = [])
    (sink : Sink) :
    (c.elsewhere base sink).step settings = (c.step settings).elsewhere base sink := by
  obtain ⟨control, stack, id, state⟩ := c
  cases control with
  | eval e => exact evaluate_elsewhere e
  | exec s => exact execute_elsewhere s
  | run block => cases block <;> rfl
  | bind call => exact bindNext_elsewhere call
  | define d => exact defineNext_elsewhere d
  | iterate p => exact iterate_elsewhere p
  | value v =>
    cases stack with
    | nil =>
      cases inner rfl
      rfl
    | cons frame rest =>
      refine give_elsewhere v fun isOutput => silent v ⟨rest, rfl, ?_⟩
      rw [isOutput]
  | done =>
    cases stack with
    | nil =>
      cases inner rfl
      rfl
    | cons frame rest => exact finish_elsewhere frame
  | returning v span =>
    cases stack with
    | nil =>
      cases inner rfl
      rfl
    | cons frame rest => exact unwind_elsewhere v span frame
  | failing f =>
    cases stack with
    | nil =>
      cases inner rfl
      rfl
    | cons frame rest => exact propagate_elsewhere f frame

theorem elsewhere_nil (c : Config) (sink : Sink) : c.elsewhere [] sink = c.withSink sink := by
  rw [elsewhere, List.append_nil]
  rfl

/-- A step goes the same way with another sink, unless it is that of `OUTPUT`. -/
theorem step_withSink (silent : ∀ v, ¬ c.Writes v) (sink : Sink) :
    (c.withSink sink).step settings = (c.step settings).withSink sink := by
  rw [← elsewhere_nil, ← elsewhere_nil, step_elsewhere silent fun _ => rfl]

theorem step_silent (silent : ∀ v, ¬ c.Writes v) : (c.step settings).state.sink = c.state.sink := by
  have same : c.step settings = (c.step settings).withSink c.state.sink :=
    step_withSink silent c.state.sink
  rw [same]
  rfl

/-- `OUTPUT` writes a value to a sink that takes it. -/
theorem step_taken (v : Value) (rest : List Frame) (taken : state.sink.closed = false) :
    step settings ⟨.value v, .output :: rest, id, state⟩ =
      ⟨.done, rest, id, state.withSink (state.sink.write (v.shown ++ "\n"))⟩ := by
  rw [step, give, taken]
  rfl

theorem step_closed (v : Value) (rest : List Frame) (closed : state.sink.closed = true) :
    step settings ⟨.value v, .output :: rest, id, state⟩ =
      ⟨.failing .output, rest, id, state⟩ := by
  rw [step, give, closed]
  rfl

/-- A step writes nothing, or it writes a value for `OUTPUT`. -/
theorem step_sink (c : Config) :
    (c.step settings).state.sink = c.state.sink ∨
      ∃ v rest, c.control = .value v ∧ c.stack = .output :: rest ∧ c.state.sink.closed = false ∧
        (c.step settings).state.sink = c.state.sink.write (v.shown ++ "\n") := by
  by_cases writes : ∃ v, c.Writes v
  case neg => exact .inl (step_silent (not_exists.mp writes))
  case pos =>
    obtain ⟨v, rest, isValue, isOutput⟩ := writes
    obtain ⟨control, stack, id, state⟩ := c
    cases isValue
    cases isOutput
    cases closed : state.sink.closed with
    | true =>
      left
      rw [step_closed v rest closed]
    | false =>
      refine .inr ⟨v, rest, rfl, rfl, rfl, ?_⟩
      rw [step_taken v rest closed]
      rfl

theorem note_sink (entry : LogEntry) : (state.note settings entry).sink = state.sink := by
  unfold State.note
  split <;> rfl

/-- How many texts the output takes does not change. -/
theorem advance_limit (c : Config) (n : Nat) :
    (c.advance settings n).state.sink.limit = c.state.sink.limit := by
  refine advance_induction (P := fun d => d.state.sink.limit = c.state.sink.limit) ?_ n rfl
  intro d same
  rcases step_sink d with kept | ⟨v, rest, -, -, -, written⟩
  · rw [kept, same]
  · rw [written, ← same, Sink.write]
    split <;> rfl

end Config

end Pseudocode
