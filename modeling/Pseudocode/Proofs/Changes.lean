import Pseudocode.Proofs.Configurations
import Pseudocode.Proofs.Nesting

/-! # What a step does to the memory

A step leaves the memory alone or makes one change, and the configuration before it tells how far the
change can reach. A scope that is opened hangs on the static chain of the current one, a cell that is
written is seen from there, and a constant is bound in the current scope. If the step binds a
variable, `Config.declares?` reads off the scope, the name and the declared type of the variable or
parameter, and for a parameter passed by reference the variable that is passed. -/

namespace Pseudocode

structure Declaration where
  scope : ScopeId
  name : String
  type : Ty
  /-- The scope and name of the variable that was passed, for a parameter passed by reference. -/
  source : Option (ScopeId × String)

namespace Memory

/-- The nearest scope that binds the name, from the scope `id` up. -/
def binder? (m : Memory) (id : ScopeId) (name : String) : Option ScopeId :=
  match m.scopes[id]? with
  | none => none
  | some scope =>
    match scope.find? name with
    | some _ => some id
    | none =>
      match scope.parent with
      | none => none
      | some parent => if parent < id then m.binder? parent name else none
termination_by id

/-- A name stands for what the nearest scope that binds it binds it to. -/
theorem binder?_of_resolve? {m : Memory} {id : ScopeId} {name : String} {b : Binding}
    (resolved : m.resolve? id name = some b) :
    ∃ a, m.binder? id name = some a ∧ m.OnChain a id ∧ m.Binds a name b := by
  fun_induction m.resolve? id name with
  | case1 => cases resolved
  | case2 id scope found b' named =>
    cases resolved
    refine ⟨id, ?_, .here found, scope, found, mem_of_find? named⟩
    simp only [binder?, found, named]
  | case3 => cases resolved
  | case4 id scope found unnamed parent isParent below ih =>
    obtain ⟨a, binder, chain, binds⟩ := ih resolved
    refine ⟨a, ?_, .up found isParent chain, binds⟩
    rw [binder?]
    simp only [found, unnamed, isParent, if_pos below, binder]
  | case5 => cases resolved

end Memory

namespace Config

/-- The variable or parameter that the next step declares, unless something is in the way. -/
def declares? : Config → Option Declaration
  | ⟨.value v, .declaredType name declared :: _, id, _⟩ =>
    match asType declared v with
    | .ok t => some ⟨id, name.name, t, none⟩
    | .error _ => none
  | ⟨.value _, .argument call :: _, _, _⟩ =>
    match call.params with
    | p :: _ => some ⟨call.callee, p.name, p.type, none⟩
    | [] => none
  | ⟨.bind call, _, id, state⟩ =>
    match call.params, call.arguments with
    | p :: _, .name x :: _ =>
      if p.byRef then
        (state.memory.binder? id x.name).map fun a =>
          ⟨call.callee, p.name, p.type, some (a, x.name)⟩
      else none
    | _, _ => none
  | _ => none

/-- Whether the next step may bind a constant or a routine in the current scope. -/
def names : Config → Bool
  | ⟨.value _, .constantValue _ _ :: _, _, _⟩ | ⟨.value _, .resultType _ :: _, _, _⟩
  | ⟨.define _, _, _, _⟩ => true
  | _ => false

variable {call : Call} {c : Config}

theorem declares?_of_names (naming : c.names = true) : c.declares? = none := by
  unfold names at naming
  split at naming
  · rfl
  · rfl
  · rfl
  · cases naming

/-- The first frame that waits belongs to a statement in the current scope. -/
def InStatement (c : Config) : Prop :=
  ∃ frame rest, c.control.waiting ++ c.stack = frame :: rest ∧ frame.isCall = false ∧
    frame.endsPlainly = true

theorem inStatement_of_names (naming : c.names = true) : c.InStatement := by
  unfold names at naming
  split at naming
  · exact ⟨_, _, rfl, rfl, rfl⟩
  · exact ⟨_, _, rfl, rfl, rfl⟩
  · exact ⟨_, _, rfl, rfl, rfl⟩
  · cases naming

/-- A variable is declared by a statement in the current scope, and a parameter in the scope of the
call whose arguments are being bound. -/
theorem declares?_cases {d : Declaration} (declares : c.declares? = some d) :
    c.InStatement ∧ d.scope = c.scope ∧ d.source = none ∨
      ∃ call rest, c.control.waiting ++ c.stack = .argument call :: rest ∧
        d.scope = call.callee ∧ (c.control.isOutcome = true ∨ c.control.waiting ≠ []) ∧
        (d.source.isSome = true → ∃ p ∈ call.params, p.byRef = true ∧ p.name = d.name) := by
  unfold declares? at declares
  split at declares
  case h_1 =>
    split at declares <;> cases declares
    exact .inl ⟨⟨_, _, rfl, rfl, rfl⟩, rfl, rfl⟩
  case h_2 call _ _ _ =>
    split at declares <;> cases declares
    exact .inr ⟨call, _, rfl, rfl, .inl rfl, nofun⟩
  case h_3 call _ _ _ =>
    split at declares
    case h_1 p _ x _ isParams _ =>
      split at declares
      case isTrue byRef =>
        obtain ⟨a, -, rfl⟩ := Option.map_eq_some_iff.mp declares
        refine .inr ⟨call, _, rfl, rfl, .inr (List.cons_ne_nil _ _), fun _ => ⟨p, ?_, byRef, rfl⟩⟩
        rw [isParams]
        exact List.mem_cons_self
      case isFalse => cases declares
    case h_2 => cases declares
  case h_4 => cases declares

/-- What a step may do to the memory. -/
inductive Change (c : Config) : Memory → Prop where
  | keeping : Change c c.state.memory
  | opening {parent : ScopeId} (label : String) : c.state.memory.OnChain parent c.scope →
      Change c (c.state.memory.opened parent label)
  | closing : Change c c.state.memory.closed
  | writing {h : Handle} (v : Value) : c.state.memory.Sees c.scope h →
      Change c (c.state.memory.written h v)
  | naming {name : String} (v : Value) : c.names = true → c.scope < c.state.memory.scopes.size →
      c.state.memory.has c.scope name = false →
      Change c (c.state.memory.bound c.scope name (.constant v))
  | declaring {d : Declaration} : c.declares? = some d → d.scope < c.state.memory.scopes.size →
      c.state.memory.has d.scope d.name = false → d.source = none →
      Change c (c.state.memory.declared d.scope d.name d.type)
  /-- A parameter is declared and holds its argument. -/
  | filling {d : Declaration} (v : Value) : c.declares? = some d →
      d.scope < c.state.memory.scopes.size → c.state.memory.has d.scope d.name = false →
      d.source = none →
      Change c ((c.state.memory.declared d.scope d.name d.type).written c.state.memory.store.next v)
  /-- A parameter refuses its argument, and its scope is closed again. -/
  | refusing {d : Declaration} : c.declares? = some d →
      c.state.memory.scopes.size = d.scope + 1 → c.state.memory.has d.scope d.name = false →
      Change c (c.state.memory.declared d.scope d.name d.type).closed
  | referring {d : Declaration} {a : ScopeId} {x : String} {h : Handle} : c.declares? = some d →
      d.scope < c.state.memory.scopes.size → c.state.memory.has d.scope d.name = false →
      d.source = some (a, x) → a < d.scope → c.state.memory.OnChain a c.scope →
      c.state.memory.Binds a x (.slot h) → c.state.memory.store.typeOf h = d.type →
      Change c (c.state.memory.bound d.scope d.name (.slot h))

/-- No change turns recycling on or off. -/
theorem Change.recycles {m : Memory} (change : c.Change m) :
    m.store.recycles = c.state.memory.store.recycles := by
  cases change with
  | closing => exact Store.releaseAll_recycles ..
  | declaring | filling => exact Store.allocate_recycles ..
  | refusing => exact (Store.releaseAll_recycles ..).trans (Store.allocate_recycles ..)
  | _ => rfl

/-- At most one scope is closed. -/
theorem Change.size_le {m : Memory} (change : c.Change m) :
    c.state.memory.scopes.size - 1 ≤ m.scopes.size := by
  cases change with
  | opening =>
    rw [Memory.size_opened]
    omega
  | closing | refusing | naming | referring | declaring => simp
  | filling => simp [Memory.written]
  | keeping | writing => exact Nat.sub_le ..

variable {settings : Settings} {limit : Nat} {stack : List Frame} {id : ScopeId} {state : State}
  {c : Config}

/-! ## Operations -/

theorem declareConstant_change (naming : c.names = true)
    (inside : c.scope < c.state.memory.scopes.size) (name : String) (type : Ty) (v : Value) :
    Memory.Yields ((Memory.declareConstant c.scope name type v).run c.state.memory)
      (fun _ => c.Change) (fun _ => c.Change) := by
  rw [Memory.declareConstant_run]
  split
  case isTrue => exact .keeping
  case isFalse free =>
    split
    · exact .naming v naming inside (Bool.eq_false_iff.mpr free)
    · exact .keeping

theorem writeAs_change (name : String) {h : Handle} (sees : c.state.memory.Sees c.scope h)
    (v : Value) :
    Memory.Yields ((Memory.writeAs name h v).run c.state.memory) (fun _ => c.Change)
      (fun _ => c.Change) := by
  rw [Memory.writeAs_run]
  split
  · exact .keeping
  · exact .writing v sees

theorem assign_change (c : Config) (name : String) (v : Value) :
    Memory.Yields ((Memory.assign c.scope name v).run c.state.memory) (fun _ => c.Change)
      (fun _ => c.Change) := by
  rw [Memory.assign_run]
  split
  case h_1 => exact .keeping
  case h_2 => exact .keeping
  case h_3 h resolved => exact writeAs_change name (Memory.resolve?_sees resolved) v

variable {callee : ScopeId} {frame : Frame}

/-- Passing a variable by reference links the parameter to the variable. -/
theorem passReference_change (ranked : c.state.memory.Ranked)
    (inside : callee < c.state.memory.scopes.size) (later : c.scope < callee) (x name : String)
    (type : Ty)
    (declares : ∀ a, c.state.memory.binder? c.scope x = some a →
      c.declares? = some ⟨callee, name, type, some (a, x)⟩) :
    Memory.Yields ((Memory.passReference c.scope x callee name type).run c.state.memory)
      (fun _ => c.Change) (fun _ m => m = c.state.memory) := by
  rw [Memory.passReference_run]
  cases resolved : c.state.memory.resolve? c.scope x with
  | none => rfl
  | some b =>
    cases b with
    | constant v => rfl
    | slot h =>
      obtain ⟨a, binder, chain, binds⟩ := Memory.binder?_of_resolve? resolved
      dsimp only
      rw [Memory.bindReference_run]
      split
      case isTrue => rfl
      case isFalse free =>
        split
        case isTrue same =>
          have earlier : a < callee := Nat.lt_of_le_of_lt (chain.le ranked) later
          exact .referring (declares a binder) inside (Bool.eq_false_iff.mpr free) rfl earlier
            chain binds same
        case isFalse => rfl

/-! ## Steps -/

/-- What an operation does to the memory whether or not it succeeds, a step that goes on with the
memory as it is does to the memory. -/
theorem access_memory {α : Type} {Q : Memory → Prop} {action : Memory.Action α}
    {onOk : α → State → Config} {onFault : Fault → State → Config}
    (yields : Memory.Yields (action.run state.memory) (fun _ => Q) (fun _ => Q))
    (ok : ∀ a state, Q state.memory → Q (onOk a state).state.memory)
    (fault : ∀ f state, Q state.memory → Q (onFault f state).state.memory) :
    Q (access state action onOk onFault).state.memory :=
  access_of (P := fun c => Q c.state.memory) yields (fun a m => ok a { state with memory := m })
    fun f m => fault f { state with memory := m }

theorem orFail_change {α : Type} (result : Except Cause α) {onOk : α → State → Config}
    (failed : c.Change state.memory) (ok : ∀ a, c.Change (onOk a state).state.memory) :
    c.Change (orFail result stack id state onOk).state.memory := by
  cases result with
  | ok a => exact ok a
  | error cause => exact failed

theorem lookup_change (sound : c.state.memory.Sound) (name : String)
    {onOk : Value → State → Config}
    (ok : ∀ v, v.Fits c.state.memory c.scope → c.Change (onOk v c.state).state.memory) :
    c.Change (tryAccess c.state (Memory.lookup c.scope name) stack c.scope onOk).state.memory := by
  refine access_of (P := fun next => c.Change next.state.memory) (sound.lookup c.scope name) ?_ ?_
  · rintro v m ⟨rfl, fits⟩
    exact ok v fits
  · rintro f m ⟨rfl, -⟩
    exact .keeping

theorem beginCall_change {routine : Routine} (fits : routine.Fits c.state.memory c.scope)
    (result : Option Ty) (arguments : List Expr) :
    c.Change
      (beginCall settings routine result arguments stack c.scope c.state).state.memory := by
  unfold beginCall
  split
  · exact .keeping
  · split
    · exact .keeping
    · exact .opening routine.name fits.home

theorem evaluate_change (sound : state.memory.Sound) (e : Expr) :
    Change ⟨.eval e, stack, id, state⟩ (evaluate settings e stack id state).state.memory := by
  cases e with
  | name x => exact lookup_change sound x.name fun _ _ => .keeping
  | string | char | date =>
    rw [evaluate, ofResult_eq]
    exact orFail_change _ .keeping fun _ => .keeping
  | call callee arguments =>
    refine lookup_change sound callee.name fun v fits => ?_
    cases v with
    | function routine result => exact beginCall_change fits.1 (some result) arguments
    | _ => exact .keeping
  | _ => exact .keeping

theorem execute_change (sound : state.memory.Sound) (s : Stmt) :
    Change ⟨.exec s, stack, id, state⟩ (execute settings s stack id state).state.memory := by
  cases s with
  | call callee arguments =>
    refine lookup_change sound callee.name fun v fits => ?_
    cases v with
    | procedure routine => exact beginCall_change fits none _
    | function routine result => exact beginCall_change fits.1 (some result) _
    | _ => exact .keeping
  | returning value => cases value <;> exact .keeping
  | _ => exact .keeping

theorem abandon_memory (last : state.memory.scopes.size = call.callee + 1) (argument : Span)
    (f : Failure) :
    (abandon call argument f stack id state).state.memory = state.memory.closed := by
  unfold abandon tryAccess
  refine access_of (P := fun c => c.state.memory = state.memory.closed) (close_yields last) ?_
    fun _ _ impossible => impossible.elim
  exact fun _ _ closed => closed

theorem leave_memory (routine : Routine) (caller : ScopeId) (control : Control)
    (last : state.memory.scopes.size = callee + 1) :
    (leave settings routine callee caller control stack state).state.memory =
      state.memory.closed := by
  have noted := State.note_memory state settings (.leave routine.name state.depth)
  unfold leave tryAccess
  refine access_of (P := fun c => c.state.memory = state.memory.closed)
    (close_yields (by rw [← noted] at last; exact last)) ?_ fun _ _ impossible => impossible.elim
  rintro _ _ rfl
  change (state.note settings _).memory.closed = _
  rw [noted]

theorem bindNext_change (settled : Settled limit (.argument call :: stack) id state) :
    Change ⟨.bind call, stack, id, state⟩
      (bindNext settings call stack id state).state.memory := by
  obtain ⟨last, -, -, below⟩ := settled.frames
  unfold bindNext
  split
  case h_1 p params argument arguments paramsEq argumentsEq =>
    split
    case isTrue byRef =>
      split
      case h_1 x =>
        have yields := passReference_change (c := ⟨.bind call, stack, id, state⟩)
          settled.memory.ranked settled.callee_inside below.lt x.name p.name p.type
          fun a binder => by
            simp only [declares?, paramsEq, argumentsEq, byRef, if_true, binder, Option.map_some]
        refine access_of (P := fun next => Change ⟨.bind call, stack, id, state⟩ next.state.memory)
          yields (fun _ _ change => change) ?_
        rintro fault m rfl
        rw [abandon_memory last]
        exact .closing
      case h_2 =>
        rw [abandon_memory last]
        exact .closing
    case isFalse => exact .keeping
  case h_2 =>
    rw [State.note_memory]
    exact .keeping

theorem defineNext_change (inside : id < state.memory.scopes.size) (d : Definition) :
    Change ⟨.define d, stack, id, state⟩ (defineNext d stack id state).state.memory := by
  unfold defineNext
  split
  · exact .keeping
  · exact .keeping
  · exact access_memory (declareConstant_change (c := ⟨.define d, stack, id, state⟩) rfl inside ..)
      (fun _ _ q => q) fun _ _ q => q

theorem iterate_change {p : Progression} (sees : state.memory.Sees id p.slot) :
    Change ⟨.iterate p, stack, id, state⟩ (iterate p stack id state).state.memory := by
  unfold iterate
  split
  · exact access_memory (writeAs_change (c := ⟨.iterate p, stack, id, state⟩) _ sees _)
      (fun _ _ q => q) fun _ _ q => q
  · exact .keeping

theorem beginLoop_change (loop : Loop) (first last step : Int64) :
    c.Change (beginLoop loop first last step stack c.scope c.state).state.memory := by
  unfold beginLoop
  split
  · exact .keeping
  · refine access_of (P := fun next => c.Change next.state.memory)
      (c.state.memory.lookupVariable_yields c.scope loop.counter.name) ?_ ?_
    · rintro h m ⟨rfl, -⟩
      exact .keeping
    · rintro f m ⟨rfl, -⟩
      exact .keeping

theorem declaredType_change (inside : id < state.memory.scopes.size) (v : Value) (name : Ident)
    (declared : Expr) :
    Change ⟨.value v, .declaredType name declared :: stack, id, state⟩
      (give v (.declaredType name declared) stack id state).state.memory := by
  simp only [give, withType]
  cases typed : asType declared v with
  | error cause => exact .keeping
  | ok t =>
    have declares : declares? ⟨.value v, .declaredType name declared :: stack, id, state⟩ =
        some ⟨id, name.name, t, none⟩ := by
      simp only [declares?, typed]
    have yields : Memory.Yields ((Memory.declareVariable id name.name t).run state.memory)
        (fun _ => Change ⟨.value v, .declaredType name declared :: stack, id, state⟩)
        (fun _ => Change ⟨.value v, .declaredType name declared :: stack, id, state⟩) := by
      rw [Memory.declareVariable_run]
      split
      case isTrue => exact .keeping
      case isFalse free => exact .declaring declares inside (Bool.eq_false_iff.mpr free) rfl
    exact access_memory yields (fun _ _ q => q) fun _ _ q => q

theorem argument_change (settled : Settled limit (.argument call :: stack) id state) (v : Value) :
    Change ⟨.value v, .argument call :: stack, id, state⟩
      (give v (.argument call) stack id state).state.memory := by
  obtain ⟨last, -, -, below⟩ := settled.frames
  simp only [give]
  cases params : call.params with
  | nil => exact .keeping
  | cons p rest =>
    have declares : declares? ⟨.value v, .argument call :: stack, id, state⟩ =
        some ⟨call.callee, p.name, p.type, none⟩ := by
      simp only [declares?, params]
    -- A refused argument leaves the parameter behind, but not beyond the end of the step.
    have yields : Memory.Yields
        ((Memory.bindValue call.callee p.name p.type v).run state.memory)
        (fun _ => Change ⟨.value v, .argument call :: stack, id, state⟩)
        (fun _ m => m.scopes.size = call.callee + 1 ∧
          Change ⟨.value v, .argument call :: stack, id, state⟩ m.closed) := by
      rw [Memory.bindValue_run]
      split
      case isTrue => exact ⟨last, .closing⟩
      case isFalse free =>
        rw [Memory.writeAs_run]
        split
        · exact ⟨(Memory.size_declared ..).trans last,
            .refusing declares last (Bool.eq_false_iff.mpr free)⟩
        · exact .filling v declares settled.callee_inside (Bool.eq_false_iff.mpr free) rfl
    refine access_of (P := fun next => Change ⟨_, _, _, state⟩ next.state.memory) yields
      (fun _ _ change => change) ?_
    rintro f m ⟨last, change⟩
    rw [abandon_memory last]
    exact change

section

variable (settled : Settled limit (frame :: stack) id state)

include settled

theorem give_change (v : Value) :
    Change ⟨.value v, frame :: stack, id, state⟩ (give v frame stack id state).state.memory := by
  have inside := settled.inside
  cases frame with
  | unary | right =>
    rw [give, ofResult_eq]
    exact orFail_change _ .keeping fun _ => .keeping
  | argument call => exact argument_change settled v
  | declaredType name declared => exact declaredType_change inside v name declared
  | constantType =>
    rw [give, withType_eq]
    exact orFail_change _ .keeping fun _ => .keeping
  | branch =>
    rw [give, withTruth_eq]
    exact orFail_change _ .keeping fun _ => .keeping
  | loopFirst =>
    rw [give, withInteger_eq]
    exact orFail_change _ .keeping fun _ => .keeping
  | constantValue name t =>
    exact access_memory
      (declareConstant_change (c := ⟨.value v, .constantValue name t :: stack, id, state⟩) rfl
        inside name.name t v) (fun _ _ q => q) fun _ _ q => q
  | assign target =>
    exact access_memory
      (assign_change ⟨.value v, .assign target :: stack, id, state⟩ target.name v)
      (fun _ _ q => q) fun _ _ q => q
  | output =>
    unfold give
    dsimp only
    split <;> exact .keeping
  | loopLast loop first =>
    rw [give, withInteger_eq]
    refine orFail_change _ .keeping fun last => ?_
    split
    · exact .keeping
    · exact beginLoop_change loop first last 1
  | loopStep loop first last =>
    rw [give, withInteger_eq]
    exact orFail_change _ .keeping fun step => beginLoop_change loop first last step
  | whileTest | doTest =>
    rw [give, withTruth_eq]
    refine orFail_change _ .keeping fun b => ?_
    split <;> exact .keeping
  | paramType d =>
    unfold give
    dsimp only
    split
    · split <;> exact .keeping
    · exact .keeping
  | resultType d =>
    rw [give, withType_eq]
    refine orFail_change _ .keeping fun t => ?_
    exact access_memory
      (declareConstant_change (c := ⟨.value v, .resultType d :: stack, id, state⟩) rfl inside ..)
      (fun _ _ q => q) fun _ _ q => q
  | left | returning | loopBody | whileBody | doBody | block | invocation => exact .keeping

omit settled in
theorem leave_change {routine : Routine} {result : Option Ty} {caller : ScopeId}
    (settled : Settled limit (.invocation routine result callee caller :: stack) id c.state)
    (control : Control) :
    c.Change (leave settings routine callee caller control stack c.state).state.memory := by
  rw [leave_memory routine caller control settled.frames.2.1]
  exact .closing

theorem finish_change :
    Change ⟨.done, frame :: stack, id, state⟩
      (finish settings frame stack id state).state.memory := by
  cases frame with
  | loopBody p =>
    unfold finish
    dsimp only
    split <;> exact .keeping
  | invocation routine result callee caller =>
    cases result <;> exact leave_change settled _
  | _ => exact .keeping

theorem unwind_change (v : Option Value) (span : Span) :
    Change ⟨.returning v span, frame :: stack, id, state⟩
      (unwind settings v span frame stack id state).state.memory := by
  cases frame with
  | invocation routine result callee caller =>
    cases result <;> exact leave_change settled _
  | _ => exact .keeping

theorem propagate_change (f : Failure) :
    Change ⟨.failing f, frame :: stack, id, state⟩
      (propagate settings f frame stack id state).state.memory := by
  cases frame with
  | argument call =>
    unfold propagate
    rw [abandon_memory settled.frames.1]
    exact .closing
  | invocation routine result callee caller => exact leave_change settled _
  | _ => exact .keeping

end

theorem step_change (sound : c.Sound limit) : c.Change (c.step settings).state.memory := by
  obtain ⟨control, stack, id, state⟩ := c
  obtain ⟨settled, fits⟩ := sound
  cases control with
  | eval e => exact evaluate_change settled.memory e
  | exec s => exact execute_change settled.memory s
  | run block => cases block <;> exact .keeping
  | bind call => exact bindNext_change settled
  | define d => exact defineNext_change settled.inside d
  | iterate p => exact iterate_change (settled.top rfl)
  | value v =>
    cases stack with
    | nil => exact .keeping
    | cons frame rest => exact give_change settled v
  | done =>
    cases stack with
    | nil => exact .keeping
    | cons frame rest => exact finish_change settled
  | returning v span =>
    cases stack with
    | nil => exact .keeping
    | cons frame rest => exact unwind_change settled v span
  | failing f =>
    cases stack with
    | nil => exact .keeping
    | cons frame rest => exact propagate_change settled f

end Config

end Pseudocode
