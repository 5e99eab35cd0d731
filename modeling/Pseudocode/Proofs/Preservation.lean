import Pseudocode.Proofs.Configurations
import Pseudocode.Proofs.Nesting

/-! # Every step keeps the invariant

One lemma for each function that `Config.step` is made of, in the order of these functions. Calls
are where scopes come and go. A call makes its scope before the first argument is bound, and the
scope is closed when an argument cannot be bound, or when the routine is left in any of the three
ways: at its end, by a `RETURN`, by a failure. -/

namespace Pseudocode

namespace Config

variable {settings : Settings} {limit : Nat} {stack : List Frame} {id : ScopeId} {state : State}

/-! ## Beginning -/

theorem beginCall_sound (settled : Settled settings.maxDepth stack id state) {routine : Routine}
    {result : Option Ty} (fits : routine.Fits state.memory id)
    (data : ∀ t, result = some t → t.IsData) (arguments : List Expr) :
    (beginCall settings routine result arguments stack id state).Sound settings.maxDepth := by
  unfold beginCall
  split
  case isTrue => exact fail_sound settled nofun
  case isFalse shallow =>
    split
    case isTrue => exact fail_sound settled nofun
    case isFalse =>
      -- The routine's home is on the static chain of the caller, so there is such a scope.
      have opened := settled.memory.opened fits.home.lt_size routine.name
      have kept := Memory.Kept.opened state.memory routine.home routine.name
      have room : openCalls stack < settings.maxDepth := by
        rw [← settled.depth]
        omega
      refine ⟨⟨opened, ⟨?_, ?_, room, ?_⟩, settled.depth⟩, trivial⟩
      · exact Memory.size_opened ..
      · exact ⟨fits.kept settled.memory.ranked kept settled.inside, fits.params, data⟩
      · exact settled.frames.kept settled.memory.ranked kept

theorem optionalLiteral_computed (settings : Settings) (kind : Kind) {result : Except Cause Value}
    (computed : Computed result) : Computed (optionalLiteral settings kind result) := by
  unfold optionalLiteral
  split
  · exact computed
  · exact nofun

theorem evaluate_sound (settled : Settled settings.maxDepth stack id state) (e : Expr) :
    (evaluate settings e stack id state).Sound settings.maxDepth := by
  cases e with
  | hole => exact ⟨settled, .of_none rfl⟩
  | name x =>
    refine tryAccess_sound settled (settled.memory.lookup id x.name) ?_
    rintro v m ⟨rfl, fits⟩
    exact ⟨settled, fits⟩
  | integer | real | boolean => exact ⟨settled, trivial⟩
  | string s =>
    exact ofResult_sound settled (optionalLiteral_computed settings .string trivial)
  | char text =>
    exact ofResult_sound settled
      (optionalLiteral_computed settings .char (Value.ofCharText_computed text))
  | date d =>
    exact ofResult_sound settled
      (optionalLiteral_computed settings .date (Value.ofDate_computed d))
  | unary | binary => exact ⟨settled.push rfl trivial, trivial⟩
  | call callee arguments =>
    refine tryAccess_sound settled (settled.memory.lookup id callee.name) ?_
    rintro v m ⟨rfl, fits⟩
    cases v with
    | function routine result =>
      refine beginCall_sound settled fits.1 ?_ arguments
      rintro t ⟨⟩
      exact fits.2
    | _ => exact fail_sound settled nofun

theorem execute_sound (settled : Settled settings.maxDepth stack id state) (s : Stmt) :
    (execute settings s stack id state).Sound settings.maxDepth := by
  cases s with
  | declare | constant | assign | output | ifThen | ifElse | forLoop | whileLoop | doWhile =>
    exact ⟨settled.push rfl trivial, trivial⟩
  | call callee arguments =>
    refine tryAccess_sound settled (settled.memory.lookup id callee.name) ?_
    rintro v m ⟨rfl, fits⟩
    cases v with
    | procedure routine =>
      refine beginCall_sound settled fits ?_ _
      exact nofun
    | function routine result =>
      refine beginCall_sound settled fits.1 ?_ _
      rintro t ⟨⟩
      exact fits.2
    | _ => exact fail_sound settled nofun
  | returning value =>
    cases value with
    | none => exact ⟨settled, trivial⟩
    | some e => exact ⟨settled.push rfl trivial, trivial⟩
  | procedure | function => exact ⟨settled.push rfl (List.forall_mem_nil _), trivial⟩

/-! ## Calls -/

/-- Without the innermost scope and the call that made it, the rest is settled. -/
theorem closed_settled (sound : state.memory.Sound) {callee : ScopeId}
    (last : state.memory.scopes.size = callee + 1)
    (frames : StackFits limit state.memory stack id callee) {depth : Nat}
    (calls : depth = openCalls stack) :
    Settled limit stack id { state with memory := state.memory.closed, depth } where
  memory := sound.closed (by rw [last]; exact Nat.succ_lt_succ frames.pos)
  frames := by
    have size : state.memory.closed.scopes.size = callee := by
      rw [Memory.size_closed, last]
      rfl
    -- What waits below the call belongs to earlier scopes, which keep their bindings.
    have kept := Memory.Kept.closed state.memory
    rw [last, Nat.add_sub_cancel] at kept
    have fits := frames.kept sound.ranked kept
    rw [← size] at fits
    exact fits
  depth := calls

theorem abandon_sound {call : Call} (settled : Settled limit (.argument call :: stack) id state)
    (argument : Span) {f : Failure} (tame : f.Tame) :
    (abandon call argument f stack id state).Sound limit := by
  obtain ⟨memory, ⟨last, -, -, below⟩, depth⟩ := settled
  unfold abandon tryAccess
  refine access_of (close_yields last) ?_ fun _ _ impossible => impossible.elim
  rintro ⟨⟩ m rfl
  exact ⟨closed_settled memory last below depth, tame.withSpan argument⟩

theorem bindNext_sound {call : Call}
    (settled : Settled settings.maxDepth (.argument call :: stack) id state) :
    (bindNext settings call stack id state).Sound settings.maxDepth := by
  obtain ⟨last, callFits, room, below⟩ := settled.frames
  unfold bindNext
  split
  case h_1 param params argument arguments paramsEq argumentsEq =>
    split
    case isTrue byRef =>
      split
      case h_1 x =>
        refine access_of (settled.passReference x.name param.name param.type) ?_ ?_
        · intro _ m next
          exact ⟨(settled.next next).rest, trivial⟩
        · rintro fault m ⟨rfl, tame⟩
          exact abandon_sound settled _ (.fault tame)
      case h_2 =>
        exact abandon_sound settled _ (.fault nofun)
    case isFalse => exact ⟨settled, trivial⟩
  case h_2 =>
    refine ⟨⟨?_, ?_, ?_⟩, trivial⟩
    · rw [State.note_memory]
      exact settled.memory
    · rw [State.note_memory]
      exact ⟨rfl, last, callFits.result, room, below⟩
    · rw [State.note_depth]
      exact congrArg (· + 1) settled.depth

theorem leave_sound {routine : Routine} {result : Option Ty} {callee caller : ScopeId}
    (settled : Settled settings.maxDepth (.invocation routine result callee caller :: stack) id
      state) {control : Control} (idle : control.waiting = [])
    (fits : control.Fits state.memory.closed caller) :
    (leave settings routine callee caller control stack state).Sound settings.maxDepth := by
  obtain ⟨memory, ⟨rfl, last, -, -, below⟩, depth⟩ := settled
  -- The entry in the log changes neither the memory nor the depth.
  have noted := State.note_memory state settings (.leave routine.name state.depth)
  unfold leave tryAccess
  refine access_of (close_yields (by rw [← noted] at last; exact last)) ?_
    fun _ _ impossible => impossible.elim
  rintro ⟨⟩ m rfl
  have calls : (state.note settings (.leave routine.name state.depth)).depth - 1 =
      openCalls stack := by
    rw [State.note_depth, depth]
    rfl
  refine ⟨?_, ?_⟩
  · rw [idle]
    exact closed_settled (noted ▸ memory) (noted ▸ last) (noted ▸ below) calls
  · change control.Fits (state.note settings _).memory.closed caller
    rw [noted]
    exact fits

variable {v : Option Value} {frame : Frame}

/-- A function gives a member of its result type, which is tied to no scope, or it fails. -/
theorem returned_fits {m m' : Memory} {id' : ScopeId} (routine : Routine) {result : Ty}
    (data : result.IsData) (span : Span) (fits : ∀ w, v = some w → w.Fits m id) :
    (returned routine result v span).Fits m' id' := by
  cases v with
  | none => exact Failure.Tame.withSpan (.fault fun _ same => by cases same) span
  | some w =>
    unfold returned
    dsimp only
    split
    case isTrue accepted => exact ((fits w rfl).plain data accepted).fits _ _
    case isFalse =>
      refine Failure.Tame.withSpan (Failure.Tame.annotate (.fault ?_) _) span
      exact fun _ same => by cases same

theorem returning_fits {m : Memory} {span : Span} (fits : ∀ w, v = some w → w.Fits m id) :
    (Control.returning v span).Fits m id := by
  cases v with
  | none => trivial
  | some w => exact fits w rfl

theorem returned_idle (routine : Routine) (result : Ty) (v : Option Value) (span : Span) :
    (returned routine result v span).waiting = [] := by
  rcases returned_cases routine result v span with ⟨w, -, -, gives⟩ | ⟨f, fails⟩
  · rw [gives]
    rfl
  · rw [fails]
    rfl

/-! ## Definitions and loops -/

theorem defineNext_sound {d : Definition}
    (settled : Settled limit (.paramType d :: stack) id state) :
    (defineNext d stack id state).Sound limit := by
  have below := settled.pop rfl
  unfold defineNext
  split
  case h_1 => exact ⟨settled, trivial⟩
  case h_2 => exact ⟨below.push rfl (settled.top rfl), trivial⟩
  case h_3 =>
    have fits : (Value.procedure ⟨d.id.name, d.resolved.reverse, d.body, id⟩).Fits
        state.memory id :=
      ⟨.refl below.inside, fun p member => settled.top rfl p (List.mem_reverse.mp member)⟩
    refine tryAccess_sound below (below.memory.declareConstant below.inside _ _ fits) ?_
    intro _ m next
    exact ⟨below.next next, trivial⟩

theorem iterate_sound {p : Progression} (settled : Settled limit (.loopBody p :: stack) id state) :
    (iterate p stack id state).Sound limit := by
  have below := settled.pop rfl
  unfold iterate
  split
  case isTrue =>
    have live := settled.memory.live_of_sees (settled.top rfl)
    have fits : (Value.integer p.current).Fits state.memory id := trivial
    refine access_of (settled.memory.writeAs p.counter.name live fits) ?_ ?_
    · intro _ m next
      exact ⟨settled.next next, trivial⟩
    · rintro fault m ⟨rfl, tame⟩
      refine ⟨below, .fault ?_⟩
      rw [Fault.withSpan_cause]
      exact tame
  case isFalse => exact ⟨below, trivial⟩

theorem beginLoop_sound (settled : Settled limit stack id state) (loop : Loop)
    (first last step : Int64) : (beginLoop loop first last step stack id state).Sound limit := by
  unfold beginLoop
  split
  case isTrue => exact fail_sound settled nofun
  case isFalse =>
    refine tryAccess_sound settled (state.memory.lookupVariable_yields id loop.counter.name) ?_
    rintro h m ⟨rfl, sees⟩
    exact ⟨settled.push rfl sees, trivial⟩

/-! ## Values that have to be of one sort -/

theorem asType_ok {e : Expr} {v : Value} {t : Ty} {m : Memory} (fits : v.Fits m id)
    (found : asType e v = .ok t) : t.IsData := by
  unfold asType at found
  dsimp only at found
  split at found
  · cases found
  · cases found
    exact fits
  · cases found

theorem asType_error {e : Expr} {v : Value} {cause : Cause} (failed : asType e v = .error cause) :
    cause.Tame := by
  unfold asType at failed
  dsimp only at failed
  split at failed <;> cases failed
  all_goals exact nofun

section

variable (settled : Settled limit stack id state)

include settled

theorem withType_sound {v : Value} (fits : v.Fits state.memory id) (e : Expr)
    {onOk : Ty → State → Config} (ok : ∀ t, t.IsData → (onOk t state).Sound limit) :
    (withType e v stack id state onOk).Sound limit := by
  rw [withType_eq]
  exact orFail_sound settled (fun _ failed => asType_error failed) fun t found =>
    ok t (asType_ok fits found)

theorem withTruth_sound (v : Value) {onOk : Bool → State → Config}
    (ok : ∀ b, (onOk b state).Sound limit) : (withTruth v stack id state onOk).Sound limit := by
  rw [withTruth_eq]
  refine orFail_sound settled (fun cause failed => ?_) fun b _ => ok b
  cases v <;> cases failed <;> exact nofun

theorem withInteger_sound (part : LoopPart) (v : Value) {onOk : Int64 → State → Config}
    (ok : ∀ n, (onOk n state).Sound limit) :
    (withInteger part v stack id state onOk).Sound limit := by
  rw [withInteger_eq]
  refine orFail_sound settled (fun cause failed => ?_) fun n _ => ok n
  cases v <;> cases failed <;> exact nofun

end

/-! ## Handing on -/

theorem give_sound (settled : Settled limit (frame :: stack) id state) {v : Value}
    (fits : v.Fits state.memory id) : (give v frame stack id state).Sound limit := by
  cases frame with
  | unary op => exact ofResult_sound (settled.pop rfl) (op.apply_computed v)
  | left op right => exact ⟨(settled.pop rfl).push rfl fits, trivial⟩
  | right op left => exact ofResult_sound (settled.pop rfl) (op.apply_computed left v)
  | argument call =>
    unfold give
    dsimp only
    split
    case h_1 param params paramsEq =>
      refine access_of (settled.bindValue paramsEq fits) ?_ ?_
      · intro _ m next
        exact ⟨(settled.next next).rest, trivial⟩
      · -- The parameter is declared although it refuses its argument; it goes with its scope.
        rintro fault m ⟨next, tame⟩
        exact abandon_sound (settled.next next) _ (.fault tame)
    case h_2 => exact ⟨settled, trivial⟩
  | declaredType name declared =>
    have below := settled.pop rfl
    unfold give
    refine withType_sound below fits declared fun t data => ?_
    refine tryAccess_sound below
      (below.memory.declareVariable below.inside name.name data) ?_
    intro _ m next
    exact ⟨below.next next, trivial⟩
  | constantType name declared value =>
    have below := settled.pop rfl
    refine withType_sound below fits declared fun t data => ?_
    exact ⟨below.push rfl data, trivial⟩
  | constantValue name t =>
    have below := settled.pop rfl
    refine tryAccess_sound below
      (below.memory.declareConstant below.inside name.name t fits) ?_
    intro _ m next
    exact ⟨below.next next, trivial⟩
  | assign target =>
    have below := settled.pop rfl
    refine tryAccess_sound below (below.memory.assign target.name fits) ?_
    intro _ m next
    exact ⟨below.next next, trivial⟩
  | output =>
    have below := settled.pop rfl
    unfold give
    dsimp only
    split
    · exact ⟨below, .of_none rfl⟩
    · exact ⟨below.of_eq rfl rfl, trivial⟩
  | returning span => exact ⟨settled.pop rfl, fits⟩
  | branch consequent alternate =>
    have below := settled.pop rfl
    exact withTruth_sound below v fun b => ⟨below, trivial⟩
  | loopFirst loop =>
    have below := settled.pop rfl
    exact withInteger_sound below .start v fun n => ⟨below.push rfl trivial, trivial⟩
  | loopLast loop first =>
    have below := settled.pop rfl
    unfold give
    refine withInteger_sound below .stop v fun n => ?_
    cases loop.step with
    | some step => exact ⟨below.push rfl trivial, trivial⟩
    | none => exact beginLoop_sound below loop first n 1
  | loopStep loop first last =>
    have below := settled.pop rfl
    exact withInteger_sound below .step v fun n => beginLoop_sound below loop first last n
  | whileTest | doTest =>
    have below := settled.pop rfl
    unfold give
    refine withTruth_sound below v fun b => ?_
    cases b with
    | true => exact ⟨below.push rfl trivial, trivial⟩
    | false => exact ⟨below, trivial⟩
  | paramType d =>
    have below := settled.pop rfl
    unfold give
    dsimp only
    split
    case h_1 param rest pending =>
      split
      case h_1 t found =>
        refine ⟨below.push rfl ?_, trivial⟩
        intro p member
        rcases List.mem_cons.mp member with rfl | earlier
        · exact asType_ok fits found
        · exact settled.top rfl p earlier
      case h_2 cause failed =>
        exact ⟨below, Failure.Tame.withSpan (.fault (asType_error failed)) _⟩
    case h_2 => exact ⟨settled, trivial⟩
  | resultType d =>
    have below := settled.pop rfl
    unfold give
    refine withType_sound below fits (d.result.getD .hole) fun t data => ?_
    have routine : (Value.function ⟨d.id.name, d.resolved.reverse, d.body, id⟩ t).Fits
        state.memory id :=
      ⟨⟨.refl below.inside, fun p member => settled.top rfl p (List.mem_reverse.mp member)⟩, data⟩
    refine tryAccess_sound below (below.memory.declareConstant below.inside _ _ routine) ?_
    intro _ m next
    exact ⟨below.next next, trivial⟩
  | loopBody | whileBody | doBody | block | invocation => exact ⟨settled, trivial⟩

section

variable (settled : Settled settings.maxDepth (frame :: stack) id state)

include settled

theorem finish_sound (waits : frame.waitsForEnd = true) :
    (finish settings frame stack id state).Sound settings.maxDepth := by
  cases frame with
  | block => exact ⟨settled.pop rfl, trivial⟩
  | loopBody p =>
    have below := settled.pop rfl
    unfold finish
    dsimp only
    split
    case h_1 next found =>
      obtain rfl := Progression.eq_of_next? found
      have sees : state.memory.Sees id p.slot := settled.top rfl
      exact ⟨below.push rfl sees, trivial⟩
    case h_2 => exact ⟨below, trivial⟩
  | whileBody | doBody => exact ⟨(settled.pop rfl).push rfl trivial, trivial⟩
  | invocation routine result callee caller =>
    cases result with
    | none => exact leave_sound settled rfl trivial
    | some t => exact leave_sound settled rfl (.fault fun _ same => by cases same)
  | _ => cases waits

theorem unwind_sound (waits : frame.waitsForEnd = true)
    (fits : ∀ w, v = some w → w.Fits state.memory id) (span : Span) :
    (unwind settings v span frame stack id state).Sound settings.maxDepth := by
  cases frame with
  | invocation routine result callee caller =>
    cases result with
    | none => exact leave_sound settled rfl trivial
    | some t =>
      have data : t.IsData := settled.frames.2.2.1 t rfl
      exact leave_sound settled (returned_idle routine t v span)
        (returned_fits routine data span fits)
  | block | loopBody | whileBody | doBody => exact ⟨settled.pop rfl, returning_fits fits⟩
  | _ => cases waits

theorem propagate_sound {f : Failure} (tame : f.Tame) :
    (propagate settings f frame stack id state).Sound settings.maxDepth := by
  cases frame with
  | block | paramType => exact ⟨settled.pop rfl, tame.withSpan _⟩
  | argument call => exact abandon_sound settled call.span tame
  | invocation routine result callee caller => exact leave_sound settled rfl tame
  | _ => exact ⟨settled.pop rfl, tame⟩

end

/-! ## Steps and runs -/

theorem step_sound {c : Config} (nested : c.Nested) (sound : c.Sound settings.maxDepth) :
    (c.step settings).Sound settings.maxDepth := by
  obtain ⟨control, stack, id, state⟩ := c
  obtain ⟨settled, fits⟩ := sound
  cases control with
  | eval e => exact evaluate_sound settled e
  | exec s => exact execute_sound settled s
  | run block =>
    cases block with
    | nil => exact ⟨settled, trivial⟩
    | cons s rest => exact ⟨settled.push rfl trivial, trivial⟩
  | bind call => exact bindNext_sound settled
  | define d => exact defineNext_sound settled
  | iterate p => exact iterate_sound settled
  | value v =>
    cases stack with
    | nil => exact ⟨settled, fits⟩
    | cons frame rest => exact give_sound settled fits
  | done =>
    cases stack with
    | nil => exact ⟨settled, trivial⟩
    -- The end of a statement never reaches a call whose arguments are being bound.
    | cons frame rest => exact finish_sound settled (nested.control rfl)
  | returning v span =>
    cases stack with
    | nil => exact ⟨settled, fits⟩
    | cons frame rest =>
      refine unwind_sound settled (nested.control rfl) ?_ span
      rintro w rfl
      exact fits
  | failing f =>
    cases stack with
    | nil => exact ⟨settled, fits⟩
    | cons frame rest => exact propagate_sound settled fits

theorem advance_sound {c : Config} (nested : c.Nested) (sound : c.Sound settings.maxDepth)
    (n : Nat) :
    (c.advance settings n).Nested ∧ (c.advance settings n).Sound settings.maxDepth :=
  advance_induction (P := fun c => c.Nested ∧ c.Sound settings.maxDepth)
    (fun _ both => ⟨both.1.step, step_sound both.1 both.2⟩) n ⟨nested, sound⟩

end Config

end Pseudocode
