import Pseudocode.Proofs.Policies
import Pseudocode.Proofs.Tracing

/-! # Programs without condition loops end

A program in which no `WHILE` and no `DO..WHILE` can run comes to its end, whatever its routines
call and whatever its `FOR` loops do to their counters. What is done above a stack of frames
settles: after some steps these frames are next. That is shown by induction on the number of calls
that may still be opened; for a fixed number of them by recursion on the tree; and for a `FOR` loop
by induction on the way that its counter still has before it. -/

namespace Pseudocode

/-! ## Programs without condition loops -/

def TreeNode.isConditionLoop : TreeNode → Bool
  | .stmt (.whileLoop _ _ _) | .stmt (.doWhile _ _ _) => true
  | _ => false

/-- Whether there is no `WHILE` and no `DO..WHILE` in the statement, also not in a routine that it
defines. -/
def Stmt.loopless (s : Stmt) : Bool :=
  s.nodes.all (!·.isConditionLoop)

def Routine.loopless (r : Routine) : Bool :=
  r.body.all Stmt.loopless

def Value.routine? : Value → Option Routine
  | .procedure r | .function r _ => some r
  | _ => none

def Binding.routine? : Binding → Option Routine
  | .constant v => v.routine?
  | .slot _ => none

/-- The routines that are defined in some scope or held by some cell. -/
def Memory.routines (m : Memory) : List Routine :=
  (m.scopes.toList.flatMap fun scope => scope.bindings.filterMap (·.2.routine?)) ++
    m.store.cells.toList.filterMap fun cell => (cell.bind (·.value)).bind Value.routine?

/-- No condition loop runs; values are free. -/
def Policy.loopless : Policy where
  runs s := s.loopless = true
  computes _ := True
  keeps _ := True

theorem Policy.loopless_closed (settings : Settings) : Policy.loopless.Closed settings where
  blocks := by
    intro s loopless block member inner belongs
    change s.nodes.all _ = true at loopless
    rw [Stmt.nodes_eq, List.all_append, Bool.and_eq_true] at loopless
    apply List.all_eq_true.mpr
    intro n inside
    have within : n ∈ s.blocks.flatten.flatMap Stmt.nodes :=
      List.mem_flatMap.mpr ⟨inner, List.mem_flatten.mpr ⟨block, member, belongs⟩, inside⟩
    exact List.all_eq_true.mp loopless.2 n within
  kept _ _ := trivial
  enabled _ _ := trivial
  procedure := trivial
  function := trivial
  joined _ := trivial

theorem Stmt.not_isConditionLoop {s : Stmt} (loopless : s.loopless = true) :
    (TreeNode.stmt s).isConditionLoop = false := by
  have own := List.all_eq_true.mp loopless _ s.mem_nodes
  exact Bool.not_eq_true' _ ▸ own

/-- The policy constrains nothing but the routines of the memory. -/
theorem Memory.obeys_loopless {m : Memory}
    (defined : ∀ r ∈ m.routines, r.loopless = true) : m.Obeys .loopless := by
  have keeps (v : Value) (each : ∀ r, v.routine? = some r → r ∈ m.routines) :
      Policy.loopless.Keeps v := by
    have trusts (r : Routine) (isRoutine : v.routine? = some r) : Policy.loopless.Trusts r :=
      ⟨fun _ _ _ _ => trivial, List.all_eq_true.mp (defined r (each r isRoutine))⟩
    constructor
    · exact fun _ _ => trivial
    · cases v with
      | procedure r => exact trusts r rfl
      | function r result => exact ⟨trusts r rfl, fun _ _ => trivial⟩
      | type t => exact fun _ _ => trivial
      | _ => trivial
  constructor
  · rintro id name v ⟨scope, found, member⟩
    apply keeps
    intro r isRoutine
    apply List.mem_append_left
    have inside : scope ∈ m.scopes.toList := Array.mem_toList_iff.mpr (Array.mem_of_getElem? found)
    exact List.mem_flatMap.mpr ⟨scope, inside, List.mem_filterMap.mpr ⟨_, member, isRoutine⟩⟩
  · exact fun _ _ _ _ _ => trivial
  · intro h cell v found isValue
    apply keeps
    intro r isRoutine
    apply List.mem_append_right
    apply List.mem_filterMap.mpr
    cases h with
    | negSucc i => cases found
    | ofNat i =>
      have inside : some cell ∈ m.store.cells.toList :=
        Array.mem_toList_iff.mpr (Array.mem_of_getElem? (Option.join_eq_some_iff.mp found))
      refine ⟨some cell, inside, ?_⟩
      rw [Option.bind_some, isValue, Option.bind_some, isRoutine]

/-! ## Rounds of a `FOR` loop -/

namespace Progression

theorem toInt_add_up {m n : Int64} (up : 0 < n.toInt) (fits : ¬ Int64.maxValue - n < m) :
    (m + n).toInt = m.toInt + n.toInt := by
  have upper := n.toInt_lt
  have lower := m.le_toInt
  rw [Int64.lt_iff_toInt_lt, Int64.toInt_sub, Int64.toInt_maxValue] at fits
  rw [Int.bmod_eq_of_le (by omega) (by omega)] at fits
  rw [Int64.toInt_add, Int.bmod_eq_of_le (by omega) (by omega)]

theorem toInt_add_down {m n : Int64} (down : n.toInt < 0) (fits : ¬ m < Int64.minValue - n) :
    (m + n).toInt = m.toInt + n.toInt := by
  have upper := m.toInt_lt
  have lower := n.le_toInt
  rw [Int64.lt_iff_toInt_lt, Int64.toInt_sub, Int64.toInt_minValue] at fits
  rw [Int.bmod_eq_of_le (by omega) (by omega)] at fits
  rw [Int64.toInt_add, Int.bmod_eq_of_le (by omega) (by omega)]

theorem toInt_next {p next : Progression} (continues : p.continues = true)
    (found : p.next? = some next) :
    ∃ current, next = { p with current } ∧ current.toInt = p.current.toInt + p.step.toInt := by
  simp only [Progression.continues, Bool.or_eq_true, Bool.and_eq_true, decide_eq_true_eq] at continues
  unfold next? at found
  split at found
  case isTrue => cases found
  case isFalse fits =>
    cases found
    simp only [Bool.or_eq_true, Bool.and_eq_true, decide_eq_true_eq, not_or, not_and] at fits
    refine ⟨p.current + p.step, rfl, ?_⟩
    rcases continues with ⟨up, -⟩ | ⟨down, -⟩
    · exact toInt_add_up (Int64.lt_iff_toInt_lt.mp up) (fits.1 up)
    · exact toInt_add_down (Int64.lt_iff_toInt_lt.mp down) (fits.2 down)

/-- How far the counter is from the end of its way. A step has a size of at least one, so no more
rounds than that are left. -/
def distance (p : Progression) : Nat :=
  if 0 < p.step.toInt then (p.last.toInt + 1 - p.current.toInt).toNat
  else (p.current.toInt + 1 - p.last.toInt).toNat

/-- The counter never wraps around, so every round brings it nearer to its end. -/
theorem distance_next {p next : Progression} (continues : p.continues = true)
    (found : p.next? = some next) : next.distance < p.distance := by
  have zero : (0 : Int64).toInt = 0 := rfl
  obtain ⟨current, rfl, sum⟩ := toInt_next continues found
  simp only [Progression.continues, Bool.or_eq_true, Bool.and_eq_true, decide_eq_true_eq,
    Int64.lt_iff_toInt_lt, Int64.le_iff_toInt_le, zero] at continues
  unfold distance
  dsimp only
  rcases continues with ⟨up, before⟩ | ⟨down, before⟩
  · rw [if_pos up, if_pos up]
    omega
  · rw [if_neg (by omega), if_neg (by omega)]
    omega

end Progression

namespace Config

/-- No condition loop can run, and the depth counts the open calls. -/
structure Bounded (outer : Nat) (c : Config) : Prop where
  obeys : c.Obeys .loopless
  counts : c.Counts outer

/-- After some steps the frames of `base` are next. -/
def Settles (settings : Settings) (outer : Nat) (base : List Frame) (c : Config) : Prop :=
  c.Bounded outer → ∃ n, Left base (c.advance settings n)

variable {settings : Settings} {outer : Nat} {base : List Frame} {frame : Frame} {c : Config}
  {id : ScopeId} {state : State}

theorem Bounded.step (bounded : c.Bounded outer) : (c.step settings).Bounded outer :=
  ⟨bounded.obeys.step (Policy.loopless_closed settings), bounded.counts.step⟩

theorem Bounded.advance (bounded : c.Bounded outer) (n : Nat) :
    (c.advance settings n).Bounded outer :=
  advance_induction (P := Bounded outer) (fun _ => Bounded.step) n bounded

namespace Settles

theorem here (left : Left base c) : Settles settings outer base c :=
  fun _ => ⟨0, left⟩

theorem of_step (next : Settles settings outer base (c.step settings)) :
    Settles settings outer base c := by
  intro bounded
  obtain ⟨n, left⟩ := next bounded.step
  exact ⟨n + 1, (advance_step c n).symm ▸ left⟩

/-- What is done above a frame settles, and then the frame is next. -/
theorem above (inner : Settles settings outer (frame :: base) c)
    (resume : ∀ d, Left (frame :: base) d → Settles settings outer base d) :
    Settles settings outer base c := by
  intro bounded
  obtain ⟨m, left⟩ := inner bounded
  obtain ⟨n, ended⟩ := resume _ left (bounded.advance m)
  exact ⟨m + n, (advance_add c m n).symm ▸ ended⟩

theorem access {α : Type} {action : Memory.Action α} {onOk : α → State → Config}
    {onFault : Fault → State → Config} (ok : ∀ a state, Settles settings outer base (onOk a state))
    (fault : ∀ f state, Settles settings outer base (onFault f state)) :
    Settles settings outer base (access state action onOk onFault) :=
  access_all (P := Settles settings outer base) ok fault

theorem tryAccess {α : Type} {action : Memory.Action α} {onOk : α → State → Config}
    (ok : ∀ a state, Settles settings outer base (onOk a state)) :
    Settles settings outer base (tryAccess state action base id onOk) :=
  access ok fun _ _ => here ⟨rfl, rfl⟩

theorem orFail {α : Type} (result : Except Cause α) {onOk : α → State → Config}
    (ok : ∀ a, Settles settings outer base (onOk a state)) :
    Settles settings outer base (orFail result base id state onOk) := by
  cases result with
  | ok a => exact ok a
  | error cause => exact here ⟨rfl, rfl⟩

theorem ofResult (result : Except Cause Value) :
    Settles settings outer base (ofResult result base id state) := by
  cases result <;> exact here ⟨rfl, rfl⟩

/-- A frame that waits for a value hands on whatever else comes. -/
theorem forValue (waits : frame.waitsForEnd = false)
    (inner : Settles settings outer (frame :: base) c)
    (value : ∀ v id state, Settles settings outer base (give v frame base id state)) :
    Settles settings outer base c := by
  apply inner.above
  rintro ⟨control, stack, id, state⟩ ⟨rfl, isOutcome⟩
  apply of_step
  cases control with
  | value v => exact value v id state
  | done =>
    cases frame with
    | loopBody | whileBody | doBody | block | invocation => cases waits
    | _ => exact here ⟨rfl, rfl⟩
  | returning v span =>
    cases frame with
    | invocation => cases waits
    | _ => exact here ⟨rfl, rfl⟩
  | failing f =>
    cases frame with
    | invocation => cases waits
    | argument call => exact here (.abandon ..)
    | _ => exact here ⟨rfl, rfl⟩
  | _ => cases isOutcome

/-- A frame that waits for the end of a block goes on only after such an end. -/
theorem forEnd (waits : frame.waitsForEnd = true)
    (inner : Settles settings outer (frame :: base) c)
    (end_ : ∀ id state, Settles settings outer base (finish settings frame base id state)) :
    Settles settings outer base c := by
  apply inner.above
  rintro ⟨control, stack, id, state⟩ ⟨rfl, isOutcome⟩
  apply of_step
  cases control with
  | value v =>
    cases frame with
    | loopBody | whileBody | doBody | block | invocation => exact of_step (end_ id state)
    | _ => cases waits
  | done => exact end_ id state
  | returning v span =>
    cases frame with
    | invocation routine result callee caller =>
      cases result with
      | none => exact here (.leave rfl)
      | some t => exact here (.leave (returned_accepted routine t v span).1)
    | _ => exact here ⟨rfl, rfl⟩
  | failing f =>
    cases frame with
    | invocation => exact here (.leave rfl)
    | argument => cases waits
    | _ => exact here ⟨rfl, rfl⟩
  | _ => cases isOutcome

end Settles

/-! ## Calls -/

/-- No more than `room` calls can be opened above these frames. -/
def Room (settings : Settings) (outer room : Nat) (base : List Frame) : Prop :=
  settings.maxDepth ≤ outer + openCalls base + room

/-- Whatever block is run above frames with this room, it settles. -/
def BlocksSettle (settings : Settings) (outer room : Nat) : Prop :=
  ∀ base, Room settings outer room base → ∀ block id state,
    Settles settings outer base ⟨.run block, base, id, state⟩

/-- Blocks settle once one more call is open. -/
def DeeperSettle (settings : Settings) (outer room : Nat) : Prop :=
  ∀ less, room = less + 1 → BlocksSettle settings outer less

/-- The expression settles wherever it is evaluated with this room. -/
def ExprSettles (settings : Settings) (outer room : Nat) (e : Expr) : Prop :=
  ∀ base, Room settings outer room base → ∀ id state,
    Settles settings outer base ⟨.eval e, base, id, state⟩

variable {room : Nat}

/-- The expression is evaluated for a frame that waits for its value. -/
theorem ExprSettles.under {e : Expr} (settles : ExprSettles settings outer room e)
    (free : Room settings outer room base) (waits : frame.waitsForEnd = false)
    (value : ∀ v id state, Settles settings outer base (give v frame base id state)) :
    Settles settings outer base ⟨.eval e, frame :: base, id, state⟩ := by
  have above : Room settings outer room (frame :: base) := by
    cases frame with
    | invocation => cases waits
    | _ => exact free
  exact .forValue waits (settles (frame :: base) above id state) value

theorem enter_settles (deeper : BlocksSettle settings outer room)
    (free : Room settings outer (room + 1) base) (routine : Routine) (result : Option Ty)
    (callee caller : ScopeId) (state : State) :
    Settles settings outer base
      ⟨.run routine.body, .invocation routine result callee caller :: base, callee, state⟩ := by
  -- The frame of the call counts as one more open call, so there is less room above it.
  have less : Room settings outer room (.invocation routine result callee caller :: base) := by
    unfold Room at free ⊢
    rw [openCalls]
    omega
  apply Settles.forEnd rfl (deeper _ less routine.body callee state)
  intro id state
  cases result <;> exact .here (.leave rfl)

theorem bind_settles (deeper : BlocksSettle settings outer room)
    (free : Room settings outer (room + 1) base) {arguments : List Expr}
    (settle : ∀ e ∈ arguments, ExprSettles settings outer (room + 1) e) (call : Call)
    (isArguments : call.arguments = arguments) (id : ScopeId) (state : State) :
    Settles settings outer base ⟨.bind call, base, id, state⟩ := by
  induction arguments generalizing call id state with
  | nil =>
    apply Settles.of_step
    change Settles settings outer base (bindNext settings call base id state)
    unfold bindNext
    split
    case h_1 argumentsEq =>
      rw [isArguments] at argumentsEq
      cases argumentsEq
    case h_2 => exact enter_settles deeper free _ _ _ _ _
  | cons argument rest ih =>
    obtain ⟨first, later⟩ := List.forall_mem_cons.mp settle
    have next : ∀ id state, Settles settings outer base ⟨.bind call.rest, base, id, state⟩ :=
      ih later call.rest (congrArg (List.drop 1) isArguments)
    apply Settles.of_step
    change Settles settings outer base (bindNext settings call base id state)
    unfold bindNext
    split
    case h_1 param params argument' rest' paramsEq argumentsEq =>
      cases isArguments.symm.trans argumentsEq
      split
      · split
        · exact .access (fun _ => next id) fun _ _ => .here (.abandon ..)
        · exact .here (.abandon ..)
      · refine first.under free rfl fun v id state => ?_
        simp only [give, paramsEq]
        exact .access (fun _ => next id) fun _ _ => .here (.abandon ..)
    case h_2 => exact enter_settles deeper free _ _ _ _ _

theorem beginCall_settles (deeper : DeeperSettle settings outer room)
    (free : Room settings outer room base) (routine : Routine) (result : Option Ty)
    {arguments : List Expr} (settle : ∀ e ∈ arguments, ExprSettles settings outer room e)
    (id : ScopeId) (state : State) :
    Settles settings outer base (beginCall settings routine result arguments base id state) := by
  unfold beginCall
  split
  case isTrue => exact .here ⟨rfl, rfl⟩
  case isFalse allowed =>
    split
    · exact .here ⟨rfl, rfl⟩
    · intro bounded
      -- The depth is below the limit and counts the calls of `base`, so there is room for one more.
      have depth : state.depth = outer + openCalls base := bounded.counts
      unfold Room at free
      obtain ⟨less, rfl⟩ : ∃ less, room = less + 1 := ⟨room - 1, by omega⟩
      exact bind_settles (deeper less rfl) free settle _ rfl id _ bounded

/-! ## Expressions -/

mutual

theorem eval_settles (deeper : DeeperSettle settings outer room) (e : Expr) :
    ExprSettles settings outer room e := by
  intro base free id state
  apply Settles.of_step
  change Settles settings outer base (evaluate settings e base id state)
  cases e with
  | hole | integer | real | boolean => exact .here ⟨rfl, rfl⟩
  | name x => exact .tryAccess fun _ _ => .here ⟨rfl, rfl⟩
  | string | char | date => exact .ofResult _
  | unary op operand =>
    exact (eval_settles deeper operand).under free rfl fun _ _ _ => .ofResult _
  | binary op left right =>
    refine (eval_settles deeper left).under free rfl fun v id state => ?_
    exact (eval_settles deeper right).under free rfl fun _ _ _ => .ofResult _
  | call callee arguments =>
    refine .tryAccess fun v state => ?_
    cases v with
    | function routine result =>
      exact beginCall_settles deeper free routine (some result) (all_settle deeper arguments) id
        state
    | _ => exact .here ⟨rfl, rfl⟩

theorem all_settle (deeper : DeeperSettle settings outer room) (es : List Expr) :
    ∀ e ∈ es, ExprSettles settings outer room e := by
  cases es with
  | nil => exact List.forall_mem_nil _
  | cons e rest => exact List.forall_mem_cons.mpr ⟨eval_settles deeper e, all_settle deeper rest⟩

end

/-! ## Statements -/

/-- Every type of the definition is resolved once. -/
theorem define_settles (deeper : DeeperSettle settings outer room)
    (free : Room settings outer room base) {pending : List Param} (d : Definition)
    (isPending : d.pending = pending) (id : ScopeId) (state : State) :
    Settles settings outer base ⟨.define d, base, id, state⟩ := by
  induction pending generalizing d id state with
  | nil =>
    apply Settles.of_step
    change Settles settings outer base (defineNext d base id state)
    unfold defineNext
    rw [isPending]
    cases isResult : d.result with
    | none => exact .tryAccess fun _ _ => .here ⟨rfl, rfl⟩
    | some result =>
      refine (eval_settles deeper result).under free rfl fun v id state => ?_
      rw [give, withType_eq]
      exact .orFail _ fun _ => .tryAccess fun _ _ => .here ⟨rfl, rfl⟩
  | cons param rest ih =>
    apply Settles.of_step
    change Settles settings outer base (defineNext d base id state)
    unfold defineNext
    rw [isPending]
    refine (eval_settles deeper param.declared).under free rfl fun v id state => ?_
    simp only [give, isPending]
    split
    · exact ih _ rfl id state
    · exact .here ⟨rfl, rfl⟩

/-- The counter of the loop comes nearer to its end with every round, whatever the body writes to
the variable. -/
theorem iterate_settles (free : Room settings outer room base) {body : List Stmt}
    (settle : ∀ base, Room settings outer room base → ∀ id state,
      Settles settings outer base ⟨.run body, base, id, state⟩)
    (p : Progression) (isBody : p.body = body) (id : ScopeId) (state : State) :
    Settles settings outer base ⟨.iterate p, base, id, state⟩ := by
  induction near : p.distance using Nat.strongRecOn generalizing p id state with
  | ind distance ih =>
    subst near
    apply Settles.of_step
    change Settles settings outer base (iterate p base id state)
    unfold iterate
    split
    case isFalse => exact .here ⟨rfl, rfl⟩
    case isTrue continues =>
      refine .access (fun _ state => ?_) fun _ _ => .here ⟨rfl, rfl⟩
      rw [isBody]
      apply Settles.forEnd rfl (settle (.loopBody p :: base) free id state)
      intro id state
      unfold finish
      dsimp only
      split
      case h_1 next found =>
        have nearer := Progression.distance_next continues found
        have body : next.body = p.body := by rw [Progression.eq_of_next? found]
        exact ih _ nearer next (body.trans isBody) id state rfl
      case h_2 => exact .here ⟨rfl, rfl⟩

theorem beginLoop_settles (free : Room settings outer room base) (loop : Loop)
    (settle : ∀ base, Room settings outer room base → ∀ id state,
      Settles settings outer base ⟨.run loop.body, base, id, state⟩)
    (first last step : Int64) (id : ScopeId) (state : State) :
    Settles settings outer base (beginLoop loop first last step base id state) := by
  unfold beginLoop
  split
  · exact .here ⟨rfl, rfl⟩
  · exact .tryAccess fun _ state => iterate_settles free settle _ rfl id state

mutual

theorem exec_settles (deeper : DeeperSettle settings outer room) (s : Stmt) (base : List Frame)
    (free : Room settings outer room base) (id : ScopeId) (state : State) :
    Settles settings outer base ⟨.exec s, base, id, state⟩ := by
  have evaluates (e : Expr) : ExprSettles settings outer room e := eval_settles deeper e
  -- The two cases of condition loops are ruled out by what the run may do, so that comes first.
  intro bounded
  have loopless : s.loopless = true := bounded.obeys.control
  revert bounded
  apply Settles.of_step
  change Settles settings outer base (execute settings s base id state)
  cases s with
  | declare name declared =>
    refine (evaluates declared).under free rfl fun v id state => ?_
    rw [give, withType_eq]
    exact .orFail _ fun _ => .tryAccess fun _ _ => .here ⟨rfl, rfl⟩
  | constant name declared value =>
    refine (evaluates declared).under free rfl fun v id state => ?_
    rw [give, withType_eq]
    refine .orFail _ fun t => ?_
    exact (evaluates value).under free rfl fun _ _ _ => .tryAccess fun _ _ => .here ⟨rfl, rfl⟩
  | assign target value =>
    exact (evaluates value).under free rfl fun _ _ _ => .tryAccess fun _ _ => .here ⟨rfl, rfl⟩
  | output value =>
    refine (evaluates value).under free rfl fun v id state => ?_
    unfold give
    dsimp only
    split <;> exact .here ⟨rfl, rfl⟩
  | call callee arguments =>
    refine .tryAccess fun v state => ?_
    have settle := all_settle deeper (arguments.getD [])
    cases v with
    | procedure routine => exact beginCall_settles deeper free routine none settle id state
    | function routine result =>
      exact beginCall_settles deeper free routine (some result) settle id state
    | _ => exact .here ⟨rfl, rfl⟩
  | returning value span =>
    cases value with
    | none => exact .here ⟨rfl, rfl⟩
    | some e =>
      exact (evaluates e).under free rfl fun _ _ _ => .here ⟨rfl, rfl⟩
  | ifThen condition consequent =>
    refine (evaluates condition).under free rfl fun v id state => ?_
    rw [give, withTruth_eq]
    refine .orFail _ fun b => ?_
    cases b with
    | true => exact run_settles deeper consequent base free id state
    | false => exact .of_step (.here ⟨rfl, rfl⟩)
  | ifElse condition consequent alternate =>
    refine (evaluates condition).under free rfl fun v id state => ?_
    rw [give, withTruth_eq]
    refine .orFail _ fun b => ?_
    cases b with
    | true => exact run_settles deeper consequent base free id state
    | false => exact run_settles deeper alternate base free id state
  | forLoop counter first last more body =>
    let loop : Loop := ⟨counter, last, more, body⟩
    have begins := beginLoop_settles free loop (run_settles deeper body)
    refine (evaluates first).under free rfl fun v id state => ?_
    rw [give, withInteger_eq]
    refine .orFail _ fun m => ?_
    refine (evaluates last).under free rfl fun v id state => ?_
    rw [give, withInteger_eq]
    refine .orFail _ fun n => ?_
    cases more with
    | none => exact begins m n 1 id state
    | some step =>
      refine (evaluates step).under free rfl fun v id state => ?_
      rw [give, withInteger_eq]
      exact .orFail _ fun k => begins m n k id state
  | whileLoop | doWhile => cases Stmt.not_isConditionLoop loopless
  | procedure | function => exact define_settles deeper free _ rfl id state

theorem run_settles (deeper : DeeperSettle settings outer room) (block : List Stmt)
    (base : List Frame) (free : Room settings outer room base) (id : ScopeId) (state : State) :
    Settles settings outer base ⟨.run block, base, id, state⟩ := by
  apply Settles.of_step
  cases block with
  | nil => exact .here ⟨rfl, rfl⟩
  | cons s rest =>
    apply Settles.forEnd rfl (exec_settles deeper s (.block rest s.span :: base) free id state)
    exact run_settles deeper rest base free

end

/-- By induction on the number of calls that may still be opened. -/
theorem blocks_settle (room : Nat) : BlocksSettle settings outer room := by
  induction room using Nat.strongRecOn with
  | ind room ih =>
    have deeper : DeeperSettle settings outer room := fun less isNext => ih less (by omega)
    exact fun base free block => run_settles deeper block base free

end Config

namespace Session

/-- If no routine and no statement has a condition loop, the program comes to its end. -/
theorem execute_terminates (s : Session) (program : Program)
    (defined : ∀ r ∈ s.state.memory.routines, r.loopless = true)
    (loopless : ∀ statement ∈ program.body, statement.loopless = true) :
    ∃ fuel result s', s.execute fuel (some program) = some (result, s') := by
  have memory : (s.begin program).state.memory = s.state.memory := State.note_memory ..
  have bounded : (s.begin program).Bounded (s.begin program).state.depth := by
    refine ⟨⟨loopless, List.forall_mem_nil _, ?_⟩, rfl⟩
    rw [memory]
    exact Memory.obeys_loopless defined
  have free : Config.Room s.settings (s.begin program).state.depth s.settings.maxDepth [] :=
    Nat.le_add_left _ _
  obtain ⟨fuel, lowest, isOutcome⟩ :=
    Config.blocks_settle s.settings.maxDepth [] free program.body _ _ bounded
  have halted := Config.halted_iff.mpr ⟨lowest, isOutcome⟩
  exact ⟨fuel, _, _, execute_iff.mpr ⟨halted, rfl⟩⟩

end Session

namespace Sample

def dig (argument : Expr) : Expr := .call (word "dig") [argument] .zero

/-- A function that calls itself in its own argument, and two procedures that call each other. -/
def definitions : Program where
  span := .zero
  body := [
    .function (word "dig") [param "n" false] (named "INTEGER")
      [.returning (some (dig (dig (named "n")))) .zero] .zero,
    .procedure (word "ping") [] [.call (word "pong") none .zero] .zero,
    .procedure (word "pong") [] [.call (word "ping") none .zero] .zero]

/-- A loop sets its counter back in every round and ends at the last INTEGER; then the calls go as
deep as they may. -/
def descent : Program where
  span := .zero
  body := [
    .declare (word "i") (named "INTEGER") .zero,
    .forLoop (word "i") (.integer 9223372036854775800 .zero) (.integer 9223372036854775807 .zero)
      (some (.integer 3 .zero)) [.assign (word "i") (.integer 0 .zero) .zero] .zero,
    .call (word "ping") none .zero,
    .output (dig (.integer 1 .zero)) .zero]

theorem definitions_end : (fresh.execute 50 (some definitions)).isSome = true := by decide +kernel

def tangled : Session :=
  ((fresh.execute 50 (some definitions)).get definitions_end).2

end Sample

theorem Session.execute_terminates_sample :
    Sample.tangled.state.memory.routines.map (·.name) = ["pong", "ping", "dig"] ∧
      (∀ r ∈ Sample.tangled.state.memory.routines, r.loopless = true) ∧
      (∀ statement ∈ Sample.descent.body, statement.loopless = true) ∧
      ∃ fuel result s', Sample.tangled.execute fuel (some Sample.descent) = some (result, s') := by
  have defined : ∀ r ∈ Sample.tangled.state.memory.routines, r.loopless = true :=
    List.all_eq_true.mp (by decide +kernel)
  have loopless : ∀ statement ∈ Sample.descent.body, statement.loopless = true :=
    List.all_eq_true.mp (by decide +kernel)
  exact ⟨by decide +kernel, defined, loopless,
    Session.execute_terminates Sample.tangled Sample.descent defined loopless⟩

end Pseudocode
