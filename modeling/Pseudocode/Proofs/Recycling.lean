import Pseudocode.Proofs.Changes
import Pseudocode.Proofs.Renaming
import Pseudocode.Proofs.Sessions

/-! # Recycling of cells cannot be observed

Two sessions run side by side: one whose store gives released handles out again, and one whose store
never does. At every moment their configurations agree up to a renaming of the live handles. Handles
are not values of the language, so whatever a session shows is the same: what it has written, its
answers, its global names, its log and the number of its live cells. -/

namespace Pseudocode

/-! ## Configurations that differ in their handles only -/

def Progression.rename (f : Handle → Handle) (p : Progression) : Progression :=
  { p with slot := f p.slot }

/-- The frame with its handle replaced; only a `FOR` loop keeps one. -/
def Frame.rename (f : Handle → Handle) : Frame → Frame
  | .loopBody p => .loopBody (p.rename f)
  | frame => frame

def Control.rename (f : Handle → Handle) : Control → Control
  | .iterate p => .iterate (p.rename f)
  | control => control

/-- The states differ in their handles only. -/
structure State.Mirrors (f : Handle → Handle) (s s' : State) : Prop where
  memory : s.memory.Mirrors f s'.memory
  sink : s'.sink = s.sink
  log : s'.log = s.log
  depth : s'.depth = s.depth

/-- The configurations differ in their handles only. -/
structure Config.Mirrors (f : Handle → Handle) (c c' : Config) : Prop where
  control : c'.control = c.control.rename f
  stack : c'.stack = c.stack.map (Frame.rename f)
  scope : c'.scope = c.scope
  state : c.state.Mirrors f c'.state

namespace State.Mirrors

variable {f : Handle → Handle} {s s' : State}

theorem note (mirrors : s.Mirrors f s') (settings : Settings) (entry : LogEntry) :
    (s.note settings entry).Mirrors f (s'.note settings entry) := by
  unfold State.note
  split
  · exact ⟨mirrors.memory, mirrors.sink, congrArg (·.push entry) mirrors.log, mirrors.depth⟩
  · exact mirrors

theorem withMemory (mirrors : s.Mirrors f s') {g : Handle → Handle} {m m' : Memory}
    (memory : m.Mirrors g m') : State.Mirrors g { s with memory := m } { s' with memory := m' } :=
  ⟨memory, mirrors.sink, mirrors.log, mirrors.depth⟩

theorem withDepth (mirrors : s.Mirrors f s') (depth : Nat) :
    State.Mirrors f { s with depth } { s' with depth } :=
  ⟨mirrors.memory, mirrors.sink, mirrors.log, rfl⟩

end State.Mirrors

theorem Progression.next?_rename (f : Handle → Handle) (p : Progression) :
    (p.rename f).next? = p.next?.map (Progression.rename f) := by
  unfold next?
  rw [apply_ite (Option.map (rename f))]
  rfl

/-- The handles on a stack are live, and only those count. -/
theorem StackFits.rename_congr {limit : Nat} {m : Memory} (sound : m.Sound) {f g : Handle → Handle}
    (same : ∀ h, m.store.Live h → g h = f h) {stack : List Frame} {id : ScopeId} {size : Nat}
    (fits : StackFits limit m stack id size) :
    stack.map (Frame.rename g) = stack.map (Frame.rename f) := by
  induction stack generalizing id size with
  | nil => rfl
  | cons frame rest ih =>
    cases frame with
    | argument call => exact congrArg (_ :: ·) (ih fits.2.2.2)
    | invocation routine result callee caller => exact congrArg (_ :: ·) (ih fits.2.2.2.2)
    | loopBody p =>
      have slot := same p.slot (sound.live_of_sees fits.1)
      simp only [List.map_cons, Frame.rename, Progression.rename, slot, ih fits.2]
    | _ => exact congrArg (_ :: ·) (ih fits.2)

theorem StackFits.rename_extend {limit : Nat} {m : Memory} (sound : m.Sound)
    {stack : List Frame} {id : ScopeId} {size : Nat} (fits : StackFits limit m stack id size)
    (f : Handle → Handle) (m' : Memory) :
    stack.map (Frame.rename (Memory.Mirrors.extend f m m')) = stack.map (Frame.rename f) :=
  fits.rename_congr sound fun _ live => Memory.Mirrors.extend_live sound.store live

namespace Config

variable {settings : Settings} {limit : Nat} {f : Handle → Handle} {stack : List Frame}
  {id : ScopeId} {state state' : State}

/-- Two operations that do the same up to the handles lead to configurations that differ in their
handles only, if what follows does. -/
theorem access_mirrors {α : Type} {action action' : Memory.Action α} {g : Handle → Handle}
    {rel : α → α → Prop} {good good' : α → Memory → Prop} {bad bad' : Fault → Memory → Prop}
    {onOk onOk' : α → State → Config} {onFault onFault' : Fault → State → Config}
    (alike : Memory.Alike g rel (action.run state.memory) (action'.run state'.memory))
    (yields : Memory.Yields (action.run state.memory) good bad)
    (yields' : Memory.Yields (action'.run state'.memory) good' bad')
    (ok : ∀ a a' m m', rel a a' → m.Mirrors g m' →
      Mirrors g (onOk a { state with memory := m }) (onOk' a' { state' with memory := m' }))
    (fault : ∀ e m m', bad e m → bad' e m' → m.Mirrors g m' →
      Mirrors g (onFault e { state with memory := m }) (onFault' e { state' with memory := m' })) :
    Mirrors g (access state action onOk onFault) (access state' action' onOk' onFault') := by
  unfold access
  dsimp only
  cases result : action.run state.memory with
  | ok a m =>
    cases result' : action'.run state'.memory with
    | ok a' m' =>
      rw [result, result'] at alike
      exact ok a a' m m' alike.1 alike.2
    | error e' m' =>
      rw [result, result'] at alike
      exact alike.elim
  | error e m =>
    cases result' : action'.run state'.memory with
    | ok a' m' =>
      rw [result, result'] at alike
      exact alike.elim
    | error e' m' =>
      rw [result, result'] at alike
      obtain ⟨rfl, memory⟩ := alike
      rw [result] at yields
      rw [result'] at yields'
      exact fault e' m m' yields yields' memory

section

variable (mirrors : state.Mirrors f state')

include mirrors

theorem tryAccess_mirrors {α : Type} {action action' : Memory.Action α} {rel : α → α → Prop}
    {onOk onOk' : α → State → Config}
    (alike : Memory.Alike f rel (action.run state.memory) (action'.run state'.memory))
    (ok : ∀ a a' m m', rel a a' → m.Mirrors f m' →
      Mirrors f (onOk a { state with memory := m }) (onOk' a' { state' with memory := m' })) :
    Mirrors f (tryAccess state action stack id onOk)
      (tryAccess state' action' (stack.map (Frame.rename f)) id onOk') :=
  access_mirrors alike (.any _) (.any _) ok fun _ _ _ _ _ memory =>
    ⟨rfl, rfl, rfl, mirrors.withMemory memory⟩

theorem orFail_mirrors {α : Type} (result : Except Cause α) {onOk onOk' : α → State → Config}
    (ok : ∀ a, Mirrors f (onOk a state) (onOk' a state')) :
    Mirrors f (orFail result stack id state onOk)
      (orFail result (stack.map (Frame.rename f)) id state' onOk') := by
  cases result with
  | ok a => exact ok a
  | error cause => exact ⟨rfl, rfl, rfl, mirrors⟩

theorem ofResult_mirrors (result : Except Cause Value) :
    Mirrors f (ofResult result stack id state)
      (ofResult result (stack.map (Frame.rename f)) id state') := by
  cases result <;> exact ⟨rfl, rfl, rfl, mirrors⟩

theorem beginCall_mirrors (routine : Routine) (result : Option Ty) (arguments : List Expr) :
    Mirrors f (beginCall settings routine result arguments stack id state)
      (beginCall settings routine result arguments (stack.map (Frame.rename f)) id state') := by
  unfold beginCall
  rw [mirrors.depth]
  split
  · exact ⟨rfl, rfl, rfl, mirrors⟩
  · split
    · exact ⟨rfl, rfl, rfl, mirrors⟩
    · refine tryAccess_mirrors mirrors (mirrors.memory.child_alike routine.home routine.name) ?_
      rintro callee _ m m' rfl memory
      exact ⟨rfl, rfl, rfl, mirrors.withMemory memory⟩

section

variable (sound : state.memory.Sound)

include sound

theorem evaluate_mirrors (e : Expr) :
    Mirrors f (evaluate settings e stack id state)
      (evaluate settings e (stack.map (Frame.rename f)) id state') := by
  cases e with
  | name x =>
    refine tryAccess_mirrors mirrors (mirrors.memory.lookup_alike sound id x.name) ?_
    rintro v _ m m' rfl memory
    exact ⟨rfl, rfl, rfl, mirrors.withMemory memory⟩
  | string | char | date => exact ofResult_mirrors mirrors _
  | call callee arguments =>
    refine tryAccess_mirrors mirrors (mirrors.memory.lookup_alike sound id callee.name) ?_
    rintro _ v m m' rfl memory
    have after := mirrors.withMemory memory
    cases v with
    | function routine result => exact beginCall_mirrors after routine (some result) arguments
    | _ => exact ⟨rfl, rfl, rfl, after⟩
  | _ => exact ⟨rfl, rfl, rfl, mirrors⟩

theorem execute_mirrors (s : Stmt) :
    Mirrors f (execute settings s stack id state)
      (execute settings s (stack.map (Frame.rename f)) id state') := by
  cases s with
  | call callee arguments =>
    refine tryAccess_mirrors mirrors (mirrors.memory.lookup_alike sound id callee.name) ?_
    rintro _ v m m' rfl memory
    have after := mirrors.withMemory memory
    cases v with
    | procedure routine => exact beginCall_mirrors after routine none _
    | function routine result => exact beginCall_mirrors after routine (some result) _
    | _ => exact ⟨rfl, rfl, rfl, after⟩
  | returning value => cases value <;> exact ⟨rfl, rfl, rfl, mirrors⟩
  | _ => exact ⟨rfl, rfl, rfl, mirrors⟩

theorem abandon_mirrors (sound' : state'.memory.Sound) {call : Call}
    (last : state.memory.scopes.size = call.callee + 1) (argument : Span) (failure : Failure) :
    Mirrors f (abandon call argument failure stack id state)
      (abandon call argument failure (stack.map (Frame.rename f)) id state') := by
  refine tryAccess_mirrors mirrors (mirrors.memory.close_alike sound sound' last) ?_
  intro _ _ m m' _ memory
  exact ⟨rfl, rfl, rfl, mirrors.withMemory memory⟩

theorem leave_mirrors (sound' : state'.memory.Sound) (routine : Routine) {callee : ScopeId}
    (caller : ScopeId) {control : Control} (plain : control.rename f = control)
    (last : state.memory.scopes.size = callee + 1) :
    Mirrors f (leave settings routine callee caller control stack state)
      (leave settings routine callee caller control (stack.map (Frame.rename f)) state') := by
  have noted := mirrors.note settings (.leave routine.name state.depth)
  have same := State.note_memory state settings (.leave routine.name state.depth)
  have same' := State.note_memory state' settings (.leave routine.name state.depth)
  have depth := noted.depth
  unfold leave
  rw [mirrors.depth]
  dsimp only
  rw [depth]
  have before := noted.withDepth ((state.note settings (.leave routine.name state.depth)).depth - 1)
  refine tryAccess_mirrors before (before.memory.close_alike ?_ ?_ ?_) ?_
  · rw [← same] at sound
    exact sound
  · rw [← same'] at sound'
    exact sound'
  · rw [← same] at last
    exact last
  · intro _ _ m m' _ memory
    exact ⟨plain.symm, rfl, rfl, before.withMemory memory⟩

end

theorem bindNext_mirrors {call : Call} (settled : Settled limit (.argument call :: stack) id state)
    (settled' : Settled limit (.argument call :: stack.map (Frame.rename f)) id state') :
    Mirrors f (bindNext settings call stack id state)
      (bindNext settings call (stack.map (Frame.rename f)) id state') := by
  have last := settled.frames.1
  unfold bindNext
  split
  case h_1 param params argument arguments paramsEq argumentsEq =>
    split
    case isTrue =>
      split
      case h_1 x =>
        refine access_mirrors
          (mirrors.memory.passReference_alike settled.memory id x.name call.callee param.name
            param.type)
          (settled.passReference x.name param.name param.type)
          (settled'.passReference x.name param.name param.type) ?_ ?_
        · intro _ _ m m' _ memory
          exact ⟨rfl, rfl, rfl, mirrors.withMemory memory⟩
        · rintro e m m' ⟨rfl, -⟩ ⟨rfl, -⟩ memory
          exact abandon_mirrors mirrors settled.memory settled'.memory last _ _
      case h_2 => exact abandon_mirrors mirrors settled.memory settled'.memory last _ _
    case isFalse => exact ⟨rfl, rfl, rfl, mirrors⟩
  case h_2 =>
    dsimp only
    rw [mirrors.depth]
    exact ⟨rfl, rfl, rfl, (mirrors.withDepth _).note settings _⟩

theorem defineNext_mirrors (d : Definition) :
    Mirrors f (defineNext d stack id state)
      (defineNext d (stack.map (Frame.rename f)) id state') := by
  unfold defineNext
  split
  · exact ⟨rfl, rfl, rfl, mirrors⟩
  · exact ⟨rfl, rfl, rfl, mirrors⟩
  · refine tryAccess_mirrors mirrors (mirrors.memory.declareConstant_alike id _ _ _) ?_
    exact fun _ _ m m' _ memory => ⟨rfl, rfl, rfl, mirrors.withMemory memory⟩

theorem iterate_mirrors {p : Progression} (live : state.memory.store.Live p.slot) :
    Mirrors f (iterate p stack id state)
      (iterate (p.rename f) (stack.map (Frame.rename f)) id state') := by
  unfold iterate
  change Mirrors f _ (if p.continues then _ else _)
  split
  · refine access_mirrors (mirrors.memory.writeAs_alike p.counter.name live (.integer p.current))
      (.any _) (.any _) ?_ ?_
    · exact fun _ _ m m' _ memory => ⟨rfl, rfl, rfl, mirrors.withMemory memory⟩
    · exact fun _ m m' _ _ memory => ⟨rfl, rfl, rfl, mirrors.withMemory memory⟩
  · exact ⟨rfl, rfl, rfl, mirrors⟩

theorem beginLoop_mirrors (loop : Loop) (first last step : Int64) :
    Mirrors f (beginLoop loop first last step stack id state)
      (beginLoop loop first last step (stack.map (Frame.rename f)) id state') := by
  unfold beginLoop
  split
  · exact ⟨rfl, rfl, rfl, mirrors⟩
  · refine tryAccess_mirrors mirrors
      (mirrors.memory.lookupVariable_alike id loop.counter.name) ?_
    rintro h _ m m' ⟨rfl, -⟩ memory
    exact ⟨rfl, rfl, rfl, mirrors.withMemory memory⟩

theorem declaredType_mirrors (settled : Settled limit stack id state) (sound' : state'.memory.Sound)
    (v : Value) (name : Ident) (declared : Expr) :
    ∃ g, Mirrors g (give v (.declaredType name declared) stack id state)
      (give v (.declaredType name declared) (stack.map (Frame.rename f)) id state') := by
  have sound := settled.memory
  -- The handles on the stack are live, so the new handle is not among them.
  have same := settled.frames.rename_extend sound f state'.memory
  unfold give withType
  dsimp only
  cases asType declared v with
  | error cause => exact ⟨f, rfl, rfl, rfl, mirrors⟩
  | ok t =>
    refine ⟨Memory.Mirrors.extend f state.memory state'.memory, ?_⟩
    refine access_mirrors (mirrors.memory.declareVariable_alike sound sound' id name.name t)
      (.any _) (.any _) ?_ ?_
    · exact fun _ _ m m' _ memory => ⟨rfl, same.symm, rfl, mirrors.withMemory memory⟩
    · exact fun _ m m' _ _ memory => ⟨rfl, same.symm, rfl, mirrors.withMemory memory⟩

theorem argument_mirrors {call : Call} (settled : Settled limit (.argument call :: stack) id state)
    (settled' : Settled limit (.argument call :: stack.map (Frame.rename f)) id state') {v : Value}
    (fits : v.Fits state.memory id) (fits' : v.Fits state'.memory id) :
    ∃ g, Mirrors g (give v (.argument call) stack id state)
      (give v (.argument call) (stack.map (Frame.rename f)) id state') := by
  have sound := settled.memory
  obtain ⟨last, -, -, below⟩ := settled.frames
  have same := below.rename_extend sound f state'.memory
  unfold give
  dsimp only
  cases params : call.params with
  | nil => exact ⟨f, rfl, rfl, rfl, mirrors⟩
  | cons p rest =>
    refine ⟨Memory.Mirrors.extend f state.memory state'.memory, ?_⟩
    rw [← same]
    refine access_mirrors
      (mirrors.memory.bindValue_alike sound settled'.memory call.callee p.name p.type v)
      (settled.bindValue params fits) (settled'.bindValue params fits') ?_ ?_
    · exact fun _ _ m m' _ memory => ⟨rfl, rfl, rfl, mirrors.withMemory memory⟩
    · rintro e m m' ⟨next, -⟩ ⟨next', -⟩ memory
      exact abandon_mirrors (mirrors.withMemory memory) next.sound next'.sound
        (next.size.trans last) _ _

variable {frame : Frame}

theorem give_mirrors (settled : Settled limit (frame :: stack) id state)
    (settled' : Settled limit (frame.rename f :: stack.map (Frame.rename f)) id state') {v : Value}
    (fits : v.Fits state.memory id) (fits' : v.Fits state'.memory id) :
    ∃ g, Mirrors g (give v frame stack id state)
      (give v (frame.rename f) (stack.map (Frame.rename f)) id state') := by
  cases frame with
  | argument call => exact argument_mirrors mirrors settled settled' fits fits'
  | declaredType name declared =>
    exact declaredType_mirrors mirrors (settled.pop rfl) settled'.memory v name declared
  | unary op => exact ⟨f, ofResult_mirrors mirrors _⟩
  | right op left => exact ⟨f, ofResult_mirrors mirrors _⟩
  | constantType name declared value =>
    simp only [Frame.rename, give, withType_eq]
    exact ⟨f, orFail_mirrors mirrors _ fun _ => ⟨rfl, rfl, rfl, mirrors⟩⟩
  | constantValue name t =>
    refine ⟨f, tryAccess_mirrors mirrors
      (mirrors.memory.declareConstant_alike id name.name t v) ?_⟩
    exact fun _ _ m m' _ memory => ⟨rfl, rfl, rfl, mirrors.withMemory memory⟩
  | assign target =>
    refine ⟨f, tryAccess_mirrors mirrors
      (mirrors.memory.assign_alike settled.memory id target.name v) ?_⟩
    exact fun _ _ m m' _ memory => ⟨rfl, rfl, rfl, mirrors.withMemory memory⟩
  | output =>
    refine ⟨f, ?_⟩
    unfold give Frame.rename
    dsimp only
    rw [mirrors.sink]
    split
    · exact ⟨rfl, rfl, rfl, mirrors⟩
    · exact ⟨rfl, rfl, rfl, mirrors.memory, rfl, mirrors.log, mirrors.depth⟩
  | branch consequent alternate =>
    simp only [Frame.rename, give, withTruth_eq]
    exact ⟨f, orFail_mirrors mirrors _ fun _ => ⟨rfl, rfl, rfl, mirrors⟩⟩
  | loopFirst loop =>
    simp only [Frame.rename, give, withInteger_eq]
    exact ⟨f, orFail_mirrors mirrors _ fun _ => ⟨rfl, rfl, rfl, mirrors⟩⟩
  | loopLast loop first =>
    simp only [Frame.rename, give, withInteger_eq]
    refine ⟨f, orFail_mirrors mirrors _ fun last => ?_⟩
    cases loop.step with
    | some step => exact ⟨rfl, rfl, rfl, mirrors⟩
    | none => exact beginLoop_mirrors mirrors loop first last 1
  | loopStep loop first last =>
    simp only [Frame.rename, give, withInteger_eq]
    exact ⟨f, orFail_mirrors mirrors _ fun step =>
      beginLoop_mirrors mirrors loop first last step⟩
  | whileTest | doTest =>
    simp only [Frame.rename, give, withTruth_eq]
    refine ⟨f, orFail_mirrors mirrors _ fun b => ?_⟩
    cases b <;> exact ⟨rfl, rfl, rfl, mirrors⟩
  | paramType d =>
    refine ⟨f, ?_⟩
    unfold give Frame.rename
    dsimp only
    split
    · split <;> exact ⟨rfl, rfl, rfl, mirrors⟩
    · exact ⟨rfl, rfl, rfl, mirrors⟩
  | resultType d =>
    simp only [Frame.rename, give, withType_eq]
    refine ⟨f, orFail_mirrors mirrors _ fun t => ?_⟩
    refine tryAccess_mirrors mirrors (mirrors.memory.declareConstant_alike id _ _ _) ?_
    exact fun _ _ m m' _ memory => ⟨rfl, rfl, rfl, mirrors.withMemory memory⟩
  | left | returning | loopBody | whileBody | doBody | block | invocation =>
    exact ⟨f, rfl, rfl, rfl, mirrors⟩

omit mirrors in
theorem returned_rename (f : Handle → Handle) (routine : Routine) (result : Ty) (v : Option Value)
    (span : Span) : (returned routine result v span).rename f = returned routine result v span := by
  rcases returned_cases routine result v span with ⟨w, -, -, gives⟩ | ⟨failure, fails⟩
  · rw [gives]
    rfl
  · rw [fails]
    rfl

variable (settled : Settled limit (frame :: stack) id state) (sound' : state'.memory.Sound)

include settled sound'

theorem finish_mirrors :
    Mirrors f (finish settings frame stack id state)
      (finish settings (frame.rename f) (stack.map (Frame.rename f)) id state') := by
  cases frame with
  | loopBody p =>
    unfold finish Frame.rename
    dsimp only
    rw [Progression.next?_rename]
    cases p.next? <;> exact ⟨rfl, rfl, rfl, mirrors⟩
  | invocation routine result callee caller =>
    have last := settled.frames.2.1
    cases result <;> exact leave_mirrors mirrors settled.memory sound' routine caller rfl last
  | _ => exact ⟨rfl, rfl, rfl, mirrors⟩

theorem unwind_mirrors (v : Option Value) (span : Span) :
    Mirrors f (unwind settings v span frame stack id state)
      (unwind settings v span (frame.rename f) (stack.map (Frame.rename f)) id state') := by
  cases frame with
  | invocation routine result callee caller =>
    have last := settled.frames.2.1
    cases result with
    | none => exact leave_mirrors mirrors settled.memory sound' routine caller rfl last
    | some t =>
      exact leave_mirrors mirrors settled.memory sound' routine caller
        (returned_rename f routine t v span) last
  | _ => exact ⟨rfl, rfl, rfl, mirrors⟩

theorem propagate_mirrors (failure : Failure) :
    Mirrors f (propagate settings failure frame stack id state)
      (propagate settings failure (frame.rename f) (stack.map (Frame.rename f)) id state') := by
  cases frame with
  | argument call =>
    exact abandon_mirrors mirrors settled.memory sound' settled.frames.1 call.span failure
  | invocation routine result callee caller =>
    exact leave_mirrors mirrors settled.memory sound' routine caller rfl settled.frames.2.1
  | _ => exact ⟨rfl, rfl, rfl, mirrors⟩

end

theorem step_mirrors {c c' : Config} (mirrors : c.Mirrors f c') (sound : c.Sound limit)
    (sound' : c'.Sound limit) : ∃ g, Mirrors g (c.step settings) (c'.step settings) := by
  obtain ⟨control, stack, id, state⟩ := c
  obtain ⟨control', stack', id', state'⟩ := c'
  obtain ⟨isControl, isStack, isScope, mirrors⟩ := mirrors
  cases isControl
  cases isStack
  cases isScope
  obtain ⟨settled, fits⟩ := sound
  obtain ⟨settled', fits'⟩ := sound'
  cases control with
  | eval e => exact ⟨f, evaluate_mirrors mirrors settled.memory e⟩
  | exec s => exact ⟨f, execute_mirrors mirrors settled.memory s⟩
  | run block => cases block <;> exact ⟨f, rfl, rfl, rfl, mirrors⟩
  | bind call => exact ⟨f, bindNext_mirrors mirrors settled settled'⟩
  | define d => exact ⟨f, defineNext_mirrors mirrors d⟩
  | iterate p =>
    exact ⟨f, iterate_mirrors mirrors (settled.memory.live_of_sees (settled.top rfl))⟩
  | value v =>
    cases stack with
    | nil => exact ⟨f, rfl, rfl, rfl, mirrors⟩
    | cons frame rest => exact give_mirrors mirrors settled settled' fits fits'
  | done =>
    cases stack with
    | nil => exact ⟨f, rfl, rfl, rfl, mirrors⟩
    | cons frame rest => exact ⟨f, finish_mirrors mirrors settled settled'.memory⟩
  | returning v span =>
    cases stack with
    | nil => exact ⟨f, rfl, rfl, rfl, mirrors⟩
    | cons frame rest => exact ⟨f, unwind_mirrors mirrors settled settled'.memory v span⟩
  | failing failure =>
    cases stack with
    | nil => exact ⟨f, rfl, rfl, rfl, mirrors⟩
    | cons frame rest => exact ⟨f, propagate_mirrors mirrors settled settled'.memory failure⟩

theorem halted_mirrors {c c' : Config} (mirrors : c.Mirrors f c') : c'.halted = c.halted := by
  obtain ⟨control, stack, id, state⟩ := c
  obtain ⟨control', stack', id', state'⟩ := c'
  obtain ⟨isControl, isStack, -, -⟩ := mirrors
  cases isControl
  cases isStack
  cases stack <;> cases control <;> rfl

theorem advance_mirrors {c c' : Config} (mirrors : ∃ f, c.Mirrors f c') (nested : c.Nested)
    (nested' : c'.Nested) (sound : c.Sound settings.maxDepth) (sound' : c'.Sound settings.maxDepth)
    (n : Nat) : ∃ f, Mirrors f (c.advance settings n) (c'.advance settings n) := by
  induction n generalizing c c' with
  | zero => exact mirrors
  | succ n ih =>
    obtain ⟨f, mirrors⟩ := mirrors
    unfold advance
    rw [halted_mirrors mirrors]
    split
    · exact ⟨f, mirrors⟩
    · exact ih (step_mirrors mirrors sound sound') nested.step nested'.step
        (step_sound nested sound) (step_sound nested' sound')

end Config

/-! ## Sessions side by side -/

/-- What can be seen of a session. -/
structure Glimpse where
  /-- The answer to the latest request, if it has been served. -/
  answer : Option Answer
  /-- The texts written so far. -/
  written : Array String
  log : Array LogEntry
  globals : List (String × Global)
  /-- The number of live cells. -/
  live : Nat

namespace Session

def glimpse (s : Session) (answer : Option Answer) : Glimpse where
  answer := answer
  written := s.state.sink.written
  log := s.state.log
  globals := s.globals
  live := s.live

/-- The session in the middle of a request, after `fuel` steps. -/
def suspended (fuel : Nat) (s : Session) (request : Request) : Session :=
  match s.first? request with
  | none => s
  | some first => ⟨s.settings, (first.advance s.settings fuel).state⟩

/-- What can be seen of the session after each request. A request that is not served within its
steps is the last one, and what can be seen then is seen in the middle of it. -/
def transcript (s : Session) : List (Nat × Request) → List Glimpse
  | [] => []
  | (fuel, request) :: rest =>
    match s.serve fuel request with
    | some (answer, s') => s'.glimpse (some answer) :: s'.transcript rest
    | none => [(s.suspended fuel request).glimpse none]

/-- The session with a store that never gives a handle out twice. -/
def withoutRecycling (s : Session) : Session :=
  let store := { s.state.memory.store with recycles := false }
  { s with state := { s.state with memory := { s.state.memory with store } } }

/-- The sessions differ in their handles only. -/
structure Mirrors (f : Handle → Handle) (s s' : Session) : Prop where
  settings : s'.settings = s.settings
  state : s.state.Mirrors f s'.state

namespace Mirrors

variable {f : Handle → Handle} {s s' : Session}

theorem note (mirrors : s.Mirrors f s') (entry : LogEntry) :
    (s.note entry).Mirrors f (s'.note entry) := by
  refine ⟨mirrors.settings, ?_⟩
  rw [Session.note, Session.note, mirrors.settings]
  exact mirrors.state.note s.settings entry

theorem conclude {c c' : Config} (mirrors : c.Mirrors f c') (settings : Settings) :
    (conclude settings c').1 = (conclude settings c).1 ∧
      (conclude settings c).2.Mirrors f (conclude settings c').2 := by
  have ended : Mirrors f ⟨settings, c.state⟩ ⟨settings, c'.state⟩ := ⟨rfl, mirrors.state⟩
  have live : c'.state.memory.store.live = c.state.memory.store.live := mirrors.state.memory.count
  unfold Session.conclude
  dsimp only
  rw [mirrors.control, live]
  cases c.control with
  | failing failure => exact ⟨rfl, ended.note _⟩
  | returning v span => exact ⟨rfl, ended⟩
  | _ => exact ⟨rfl, ended.note _⟩

theorem answer {c c' : Config} (mirrors : c.Mirrors f c') (settings : Settings)
    (request : Request) :
    (answer settings c' request).1 = (answer settings c request).1 ∧
      (answer settings c request).2.Mirrors f (answer settings c' request).2 := by
  have ended : Mirrors f ⟨settings, c.state⟩ ⟨settings, c'.state⟩ := ⟨rfl, mirrors.state⟩
  cases request with
  | program program =>
    obtain ⟨same, after⟩ := conclude mirrors settings
    exact ⟨congrArg Answer.ran same, after⟩
  | expression e =>
    unfold Session.answer
    dsimp only
    rw [mirrors.control]
    cases c.control <;> exact ⟨rfl, ended⟩

section

variable (mirrors : s.Mirrors f s')

include mirrors

theorem globals (sound : s.state.memory.Sound) : s'.globals = s.globals := by
  have memory := mirrors.state.memory
  unfold Session.globals
  dsimp only
  rw [mirrors.settings, memory.keys]
  refine congrArg (List.filterMap · _) (funext fun name => ?_)
  rw [memory.resolve?, Option.map_map]
  cases resolved : s.state.memory.resolve? Memory.global name with
  | none => rfl
  | some b =>
    cases b with
    | constant v => rfl
    | slot h =>
      have live := sound.live_of_resolve? resolved
      simp only [Option.map_some, Function.comp, Binding.rename, globalOf, memory.typeOf live,
        memory.cells h live]

theorem glimpse (sound : s.state.memory.Sound) (answer : Option Answer) :
    s'.glimpse answer = s.glimpse answer := by
  unfold Session.glimpse Session.live
  rw [mirrors.globals sound, mirrors.state.sink, mirrors.state.log, mirrors.state.memory.count]

theorem first? (request : Request) :
    (s.first? request = none ∧ s'.first? request = none) ∨
      ∃ first first', s.first? request = some first ∧ s'.first? request = some first' ∧
        first.Mirrors f first' := by
  cases request with
  | program program =>
    cases program with
    | none => exact .inl ⟨rfl, rfl⟩
    | some program =>
      exact .inr ⟨_, _, rfl, rfl, rfl, rfl, rfl, (mirrors.note _).state⟩
  | expression e => exact .inr ⟨_, _, rfl, rfl, rfl, rfl, rfl, mirrors.state⟩

variable (idle : s.Idle) (idle' : s'.Idle)

include idle idle'

/-- At every moment of a request the sessions differ in their handles only. -/
theorem advance {request : Request} {first first' : Config}
    (isFirst : s.first? request = some first) (isFirst' : s'.first? request = some first')
    (firsts : first.Mirrors f first') (n : Nat) :
    ∃ g, (first.advance s.settings n).Mirrors g (first'.advance s.settings n) := by
  obtain ⟨nested, sound⟩ := first?_sound idle isFirst
  obtain ⟨nested', sound'⟩ := first?_sound idle' isFirst'
  rw [mirrors.settings] at sound'
  exact Config.advance_mirrors ⟨f, firsts⟩ nested nested' sound sound' n

theorem serve (fuel : Nat) (request : Request) :
    (s.serve fuel request = none ∧ s'.serve fuel request = none) ∨
      ∃ answered t t', s.serve fuel request = some (answered, t) ∧
        s'.serve fuel request = some (answered, t') ∧ ∃ g, t.Mirrors g t' := by
  rw [serve_eq, serve_eq]
  rcases mirrors.first? request with
    ⟨nothing, nothing'⟩ | ⟨first, first', isFirst, isFirst', firsts⟩
  · rw [nothing, nothing']
    exact .inr ⟨_, s, s', rfl, rfl, f, mirrors⟩
  · obtain ⟨g, after⟩ := mirrors.advance idle idle' isFirst isFirst' firsts fuel
    rw [isFirst, isFirst', mirrors.settings]
    dsimp only [Config.run]
    rw [Config.halted_mirrors after]
    split
    · obtain ⟨same, ended⟩ := answer after s.settings request
      refine .inr ⟨(Session.answer s.settings (first.advance s.settings fuel) request).1, _, _, rfl,
        ?_, g, ended⟩
      exact congrArg some (Prod.ext same rfl)
    · exact .inl ⟨rfl, rfl⟩

theorem suspended (fuel : Nat) (request : Request) :
    (∃ g, (s.suspended fuel request).Mirrors g (s'.suspended fuel request)) ∧
      (s.suspended fuel request).state.memory.Sound := by
  unfold Session.suspended
  rcases mirrors.first? request with
    ⟨nothing, nothing'⟩ | ⟨first, first', isFirst, isFirst', firsts⟩
  · rw [nothing, nothing']
    exact ⟨⟨f, mirrors⟩, idle.memory⟩
  · obtain ⟨g, after⟩ := mirrors.advance idle idle' isFirst isFirst' firsts fuel
    rw [isFirst, isFirst', mirrors.settings]
    exact ⟨⟨g, rfl, after.state⟩,
      (idle.passes ⟨request, first, fuel, isFirst, rfl⟩).2.settled.memory⟩

end

theorem transcript (mirrors : ∃ f, s.Mirrors f s') (idle : s.Idle) (idle' : s'.Idle)
    (requests : List (Nat × Request)) : s'.transcript requests = s.transcript requests := by
  induction requests generalizing s s' with
  | nil => rfl
  | cons entry rest ih =>
    obtain ⟨fuel, request⟩ := entry
    obtain ⟨f, mirrors⟩ := mirrors
    unfold Session.transcript
    rcases mirrors.serve idle idle' fuel request with
      ⟨endless, endless'⟩ | ⟨answered, t, t', isServed, isServed', g, after⟩
    · obtain ⟨⟨g, during⟩, sound⟩ := mirrors.suspended idle idle' fuel request
      rw [endless, endless']
      exact congrArg (· :: []) (during.glimpse sound none)
    · have idleAfter := (idle.serve isServed).2
      have idleAfter' := (idle'.serve isServed').2
      rw [isServed, isServed']
      dsimp only
      rw [after.glimpse idleAfter.memory (some answered), ih ⟨g, after⟩ idleAfter idleAfter']

end Mirrors

theorem withoutRecycling_idle {s : Session} (idle : s.Idle) : s.withoutRecycling.Idle where
  memory :=
    idle.memory.of_store ⟨idle.memory.store.distinct, idle.memory.store.released⟩ (fun _ => Iff.rfl)
      idle.memory.cells
  frames := idle.frames
  depth := idle.depth

theorem withoutRecycling_mirrors (s : Session) : s.Mirrors id s.withoutRecycling := by
  have same : Scope.rename id = id := by
    funext scope
    have bindings : (fun entry : String × Binding => (entry.1, entry.2.rename id)) = id := by
      funext ⟨name, b⟩
      cases b <;> rfl
    simp only [Scope.rename, bindings, List.map_id, id]
  refine ⟨rfl, ⟨?_, fun _ _ => rfl, fun _ _ _ _ equal => equal, rfl⟩, rfl, rfl, rfl⟩
  rw [same, Array.map_id]
  rfl

theorem Idle.recycles {s : Session} (idle : s.Idle) {c : Config} (passes : s.Passes c) :
    c.state.memory.store.recycles = s.state.memory.store.recycles := by
  obtain ⟨request, first, n, isFirst, rfl⟩ := passes
  obtain ⟨nested, sound⟩ := first?_sound idle isFirst
  have kept := Config.advance_induction
    (P := fun c => (c.Nested ∧ c.Sound s.settings.maxDepth) ∧
      c.state.memory.store.recycles = first.state.memory.store.recycles)
    (fun c ⟨⟨nested, sound⟩, same⟩ =>
      ⟨⟨nested.step, Config.step_sound nested sound⟩,
        (Config.step_change sound).recycles.trans same⟩)
    n ⟨⟨nested, sound⟩, rfl⟩
  exact kept.2.trans (congrArg (·.store.recycles) (first?_memory isFirst))

theorem Continues.recycles {s t : Session} (continues : s.Continues t) (idle : s.Idle) :
    t.state.memory.store.recycles = s.state.memory.store.recycles := by
  induction continues with
  | refl => rfl
  | @serve t t' fuel request answered continues isServed ih =>
    rcases served isServed with ⟨-, rfl, -⟩ | ⟨first, isFirst, halted, same⟩
    · exact ih
    · obtain ⟨-, memory, -⟩ := answer_session t.settings (first.advance t.settings fuel) request
      have idle := (continues.idle idle).2
      rw [same] at memory
      rw [memory, idle.recycles ⟨request, first, fuel, isFirst, rfl⟩]
      exact ih

/-- Whether or not the store recycles, everything that can be seen of a session is the same. -/
theorem transcript_withoutRecycling {options : Options} {s : Session}
    (started : start options = .ok s) :
    (∀ requests, s.withoutRecycling.transcript requests = s.transcript requests) ∧
      ∀ t c, s.withoutRecycling.Continues t → t.Passes c →
        c.state.memory.store.recycles = false := by
  have idle := (start_fresh started).1
  have idle' := withoutRecycling_idle idle
  constructor
  · exact Mirrors.transcript ⟨id, s.withoutRecycling_mirrors⟩ idle idle'
  · intro t c continues passes
    rw [(continues.idle idle').2.recycles passes, continues.recycles idle']
    rfl

/-- A program that fails, an expression, and the same expression cut short. The stores do differ. -/
theorem transcript_sample :
    let call := Request.expression (Sample.twice (.integer 21 .zero))
    let requests := [(200, .program (some Sample.program)), (100, call), (8, call)]
    Sample.fresh.withoutRecycling.transcript requests = Sample.fresh.transcript requests ∧
      (Sample.fresh.transcript requests).map Glimpse.live = [1, 1, 2] ∧
      [Sample.fresh, Sample.fresh.withoutRecycling].map (fun s =>
        (s.suspended 200 (.program (some Sample.program))).state.memory.store.cells.size) =
        [3, 4] := by
  refine ⟨(transcript_withoutRecycling Sample.started).1 _, ?_⟩
  decide +kernel

end Session

end Pseudocode
