import Pseudocode.Proofs.Arguments

/-! # How arguments become parameters

The arguments of a call are bound from left to right, each in the state that the one before it left.
`Config.Hands` says what binding one argument takes: a parameter passed by reference needs a name
that leads to a variable of its type, and a parameter passed by value needs an argument whose value
is a member of its type. `Config.Refuses` says in which ways that fails.

A call comes to what follows from its arguments one after the other, and then from its body. What
was bound stays as it was bound while later arguments are evaluated, so that in the end the scope of
the call holds the parameters and nothing else. -/

namespace Pseudocode

def State.entered (state : State) (settings : Settings) (routine : Routine) : State :=
  let depth := state.depth + 1
  { state with depth }.note settings (.enter routine.name depth routine.params.length)

def State.dropped (state : State) : State :=
  { state with memory := state.memory.closed }

def State.exited (state : State) (settings : Settings) (routine : Routine) : State :=
  let noted := state.note settings (.leave routine.name state.depth)
  State.dropped { noted with depth := noted.depth - 1 }

/-- What an argument passes: a cell that the caller can name, or a value. -/
inductive Passed where
  | reference (h : Handle)
  | value (v : Value)

namespace Memory

variable {m m' : Memory} {caller callee : ScopeId} {x name : String} {type : Ty} {h : Handle}

theorem passReference_ok (resolved : m.resolve? caller x = some (.slot h))
    (ran : (bindReference callee name type h).run m = .ok () m') :
    (passReference caller x callee name type).run m = .ok () m' := by
  rw [passReference_run, resolved]
  exact ran

theorem exists_of_passReference (ran : (passReference caller x callee name type).run m = .ok () m') :
    ∃ h, m.resolve? caller x = some (.slot h) ∧
      (bindReference callee name type h).run m = .ok () m' := by
  rw [passReference_run] at ran
  split at ran
  · cases ran
  · cases ran
  · exact ⟨_, by assumption, ran⟩

end Memory

namespace Config

/-! ## One argument -/

/-- The argument `a` becomes the parameter `p` of the scope `callee`. -/
inductive Hands (settings : Settings) (caller callee : ScopeId) (p : Formal) (a : Expr)
    (state : State) : Passed → State → Prop where
  | reference {x h m} : p.byRef = true → a = .name x →
      state.memory.resolve? caller x.name = some (.slot h) →
      (Memory.bindReference callee p.name p.type h).run state.memory = .ok () m →
      Hands settings caller callee p a state (.reference h) { state with memory := m }
  | value {v between m} : p.byRef = false →
      Comes settings (.eval a) caller state (.value v) between →
      (Memory.bindValue callee p.name p.type v).run between.memory = .ok () m →
      Hands settings caller callee p a state (.value v) { between with memory := m }

/-- The argument `a` cannot become the parameter `p`, with this failure. -/
inductive Refuses (settings : Settings) (caller callee : ScopeId) (p : Formal) (a : Expr)
    (state : State) : Failure → State → Prop where
  | notVariable : p.byRef = true → (∀ x, a ≠ .name x) →
      Refuses settings caller callee p a state (.of (.referenceArgument p.name)) state
  | reference {x fault m} : p.byRef = true → a = .name x →
      (Memory.passReference caller x.name callee p.name p.type).run state.memory = .error fault m →
      Refuses settings caller callee p a state (.fault fault) { state with memory := m }
  | fails {f between} : p.byRef = false →
      Comes settings (.eval a) caller state (.failing f) between →
      Refuses settings caller callee p a state f between
  | value {v between fault m} : p.byRef = false →
      Comes settings (.eval a) caller state (.value v) between →
      (Memory.bindValue callee p.name p.type v).run between.memory = .error fault m →
      Refuses settings caller callee p a state (.fault fault) { between with memory := m }

/-- The arguments become the parameters, from left to right. -/
inductive HandsOver (settings : Settings) (caller callee : ScopeId) :
    List Formal → List Expr → State → List Passed → State → Prop where
  | nil {state} : HandsOver settings caller callee [] [] state [] state
  | cons {p ps a as state w between ws bound} :
      Hands settings caller callee p a state w between →
      HandsOver settings caller callee ps as between ws bound →
      HandsOver settings caller callee (p :: ps) (a :: as) state (w :: ws) bound

/-- The arguments become the parameters up to the argument `a`, which cannot. -/
inductive Balks (settings : Settings) (caller callee : ScopeId) :
    List Formal → List Expr → State → Expr → Failure → State → Prop where
  | here {p ps a as state f broken} : Refuses settings caller callee p a state f broken →
      Balks settings caller callee (p :: ps) (a :: as) state a f broken
  | later {p ps a as state w between a' f broken} :
      Hands settings caller callee p a state w between →
      Balks settings caller callee ps as between a' f broken →
      Balks settings caller callee (p :: ps) (a :: as) state a' f broken

/-- What the routine gives when its body ends in this way. -/
def concluded (routine : Routine) (result : Option Ty) : Control → Control
  | .failing f => .failing f
  | .returning v span =>
    match result with
    | none => .done
    | some t => returned routine t v span
  | _ =>
    match result with
    | none => .done
    | some _ => .failing (.of (.noReturn routine.name))

/-- What comes of a call whose arguments are still to be bound: either its body runs, or one of the
arguments cannot be bound. -/
inductive Concludes (settings : Settings) (caller : ScopeId) (call : Call) (state : State) :
    Control → State → Prop where
  | runs {passed bound flow left} :
      HandsOver settings caller call.callee call.params call.arguments state passed bound →
      Comes settings (.run call.routine.body) call.callee (bound.entered settings call.routine) flow
        left →
      Concludes settings caller call state (concluded call.routine call.result flow)
        (left.exited settings call.routine)
  | balks {a f broken} :
      Balks settings caller call.callee call.params call.arguments state a f broken →
      Concludes settings caller call state (.failing (f.withSpan a.span)) broken.dropped

/-! ## The steps of a call -/

variable {settings : Settings} {caller callee id : ScopeId} {stack : List Frame}
  {state between broken after left : State} {outcome flow : Control} {f : Failure} {v : Value}
  {w : Passed}

theorem abandon_eq {call : Call} (last : state.memory.scopes.size = call.callee + 1) (span : Span)
    (f : Failure) :
    abandon call span f stack id state = ⟨.failing (f.withSpan span), stack, id, state.dropped⟩ :=
  tryAccess_ok (Memory.close_run state.memory call.callee last) ..

theorem leave_eq (last : state.memory.scopes.size = callee + 1) (routine : Routine)
    (control : Control) :
    leave settings routine callee caller control stack state =
      ⟨control, stack, caller, state.exited settings routine⟩ := by
  refine tryAccess_ok (Memory.close_run _ callee ?_) ..
  rw [← last]
  exact congrArg (·.scopes.size) (state.note_memory settings _)

section Steps

variable {call : Call} {p : Formal} {ps : List Formal} {a : Expr} {as : List Expr} {x : Ident}
  (isParams : call.params = p :: ps) (isArguments : call.arguments = a :: as)

include isParams isArguments

theorem step_bind_value (byValue : p.byRef = false) :
    step settings ⟨.bind call, stack, id, state⟩ = ⟨.eval a, .argument call :: stack, id, state⟩ := by
  simp [step, bindNext, isParams, isArguments, byValue]

theorem step_bind_name (byRef : p.byRef = true) (isName : a = .name x) :
    step settings ⟨.bind call, stack, id, state⟩ =
      access state (Memory.passReference id x.name call.callee p.name p.type)
        (fun _ state => ⟨.bind call.rest, stack, id, state⟩)
        fun fault state => abandon call a.span (.fault fault) stack id state := by
  subst isName
  simp only [step, bindNext, isParams, isArguments, byRef, if_true]
  rfl

theorem step_bind_notVariable (byRef : p.byRef = true) (notName : ∀ x, a ≠ .name x) :
    step settings ⟨.bind call, stack, id, state⟩ =
      abandon call a.span (.of (.referenceArgument p.name)) stack id state := by
  simp only [step, bindNext, isParams, isArguments, byRef, if_true]

theorem step_argument :
    step settings ⟨.value v, .argument call :: stack, id, state⟩ =
      access state (Memory.bindValue call.callee p.name p.type v)
        (fun _ state => ⟨.bind call.rest, stack, id, state⟩)
        fun fault state => abandon call a.span (.fault fault) stack id state := by
  simp [step, give, isParams, isArguments, Call.span]

omit isParams in
theorem step_argument_failing (f : Failure) :
    step settings ⟨.failing f, .argument call :: stack, id, state⟩ =
      abandon call a.span f stack id state := by
  simp [step, propagate, isArguments, Call.span]

end Steps

theorem step_bind_nil {call : Call} (isParams : call.params = []) :
    step settings ⟨.bind call, stack, id, state⟩ =
      ⟨.run call.routine.body, .invocation call.routine call.result call.callee id :: stack,
        call.callee, state.entered settings call.routine⟩ := by
  simp only [step, bindNext, isParams]
  rfl

theorem step_invocation (last : left.memory.scopes.size = callee + 1) (routine : Routine)
    (result : Option Ty) (isOutcome : flow.isOutcome = true)
    (ends : flow = .done ∨ flow.succeeds = false) :
    step settings ⟨flow, .invocation routine result callee caller :: stack, id, left⟩ =
      ⟨concluded routine result flow, stack, caller, left.exited settings routine⟩ := by
  cases flow with
  | value v => exact absurd ends (by simp [Control.succeeds])
  | done => cases result <;> exact leave_eq last ..
  | returning v span => cases result <;> exact leave_eq last ..
  | failing f => exact leave_eq last ..
  | _ => cases isOutcome

theorem concluded_isOutcome (routine : Routine) (result : Option Ty) (flow : Control) :
    (concluded routine result flow).isOutcome = true := by
  unfold concluded returned
  repeat' split
  all_goals rfl

/-! ## What comes of one argument -/

/-- The invariants of runs. -/
structure Regular (settings : Settings) (c : Config) : Prop where
  nested : c.Nested
  sound : c.Sound settings.maxDepth

theorem Regular.reaches {c d : Config} (regular : c.Regular settings)
    (reaches : c.Reaches settings d) : d.Regular settings := by
  obtain ⟨n, rfl⟩ := reaches
  obtain ⟨nested, sound⟩ := advance_sound regular.nested regular.sound n
  exact ⟨nested, sound⟩

theorem Regular.step {c : Config} (regular : c.Regular settings) :
    (c.step settings).Regular settings :=
  regular.reaches (.step (.refl _))

theorem Regular.comes {control : Control} (regular : Regular settings ⟨control, stack, id, state⟩)
    (comes : Comes settings control id state outcome after) :
    Regular settings ⟨outcome, stack, id, after⟩ :=
  regular.reaches (comes.reaches stack)

/-- The call above `base` is being passed its arguments. -/
inductive Passing (base : List Frame) (c : Config) : Prop where
  | next {call} : c.control = .bind call → c.stack = base → Passing base c
  | argument {upper call} : c.stack = upper ++ .argument call :: base → Passing base c

/-- While an argument is evaluated, the call that it is for waits below it. -/
theorem Comes.passing {call : Call} {a : Expr}
    (comes : Comes settings (.eval a) id state outcome after) (stack : List Frame) :
    Through settings (Passing stack) ⟨.eval a, .argument call :: stack, id, state⟩
      ⟨outcome, .argument call :: stack, id, after⟩ := by
  refine (comes.through _).mono ?_
  rintro _ ⟨_, above⟩
  exact .argument above

section Argument

variable {call : Call} {p : Formal} {ps : List Formal} {a : Expr} {as : List Expr}
  (isParams : call.params = p :: ps) (isArguments : call.arguments = a :: as)

include isParams isArguments

theorem Hands.through (hands : Hands settings id call.callee p a state w between)
    (stack : List Frame) :
    Through settings (Passing stack) ⟨.bind call, stack, id, state⟩
      ⟨.bind call.rest, stack, id, between⟩ := by
  apply Through.step (.next rfl rfl)
  cases hands with
  | reference byRef isName resolved ran =>
    rw [step_bind_name isParams isArguments byRef isName,
      access_ok (Memory.passReference_ok resolved ran)]
    exact .refl _
  | value byValue comes ran =>
    rw [step_bind_value isParams isArguments byValue]
    apply (comes.passing stack).trans
    apply Through.step (.argument (List.nil_append _).symm)
    rw [step_argument isParams isArguments, access_ok ran]
    exact .refl _

/-- The scope of the call is still the last one when an argument cannot be bound. -/
theorem Refuses.last (refuses : Refuses settings id call.callee p a state f broken)
    (regular : Regular settings ⟨.bind call, stack, id, state⟩) :
    broken.memory.scopes.size = call.callee + 1 := by
  have settled : Settled settings.maxDepth (.argument call :: stack) id state :=
    regular.sound.settled
  have next := regular.step
  cases refuses with
  | notVariable => exact settled.frames.1
  | @reference x fault m byRef isName ran =>
    have unchanged := settled.passReference x.name p.name p.type
    rw [ran] at unchanged
    obtain ⟨rfl, -⟩ := unchanged
    exact settled.frames.1
  | fails byValue comes =>
    rw [step_bind_value isParams isArguments byValue] at next
    exact (next.comes comes).sound.settled.frames.1
  | value byValue comes ran =>
    rw [step_bind_value isParams isArguments byValue] at next
    obtain ⟨evaluated, fits⟩ := (next.comes comes).sound
    have grown := Settled.bindValue evaluated isParams fits
    rw [ran] at grown
    exact grown.1.size.trans evaluated.frames.1

theorem Refuses.through (refuses : Refuses settings id call.callee p a state f broken)
    (last : broken.memory.scopes.size = call.callee + 1) (stack : List Frame) :
    Through settings (Passing stack) ⟨.bind call, stack, id, state⟩
      ⟨.failing (f.withSpan a.span), stack, id, broken.dropped⟩ := by
  rw [← abandon_eq last]
  apply Through.step (.next rfl rfl)
  cases refuses with
  | notVariable byRef notName =>
    rw [step_bind_notVariable isParams isArguments byRef notName]
    exact .refl _
  | reference byRef isName ran =>
    rw [step_bind_name isParams isArguments byRef isName, access_error ran]
    exact .refl _
  | fails byValue comes =>
    rw [step_bind_value isParams isArguments byValue]
    apply (comes.passing stack).trans
    apply Through.step (.argument (List.nil_append _).symm)
    rw [step_argument_failing isArguments]
    exact .refl _
  | value byValue comes ran =>
    rw [step_bind_value isParams isArguments byValue]
    apply (comes.passing stack).trans
    apply Through.step (.argument (List.nil_append _).symm)
    rw [step_argument isParams isArguments, access_error ran]
    exact .refl _

/-- If a call comes to an end, its next argument was bound or refused. -/
theorem Comes.hands_or_refuses (comes : Comes settings (.bind call) id state outcome after)
    (regular : Regular settings ⟨.bind call, stack, id, state⟩) :
    (∃ w between, Hands settings id call.callee p a state w between) ∨
      ∃ f broken, Refuses settings id call.callee p a state f broken := by
  cases byRef : p.byRef with
  | true =>
    by_cases isName : ∃ x, a = .name x
    · obtain ⟨x, isName⟩ := isName
      cases ran : (Memory.passReference id x.name call.callee p.name p.type).run state.memory with
      | ok done m =>
        obtain ⟨h, resolved, bound⟩ := Memory.exists_of_passReference ran
        exact .inl ⟨_, _, .reference byRef isName resolved bound⟩
      | error fault m => exact .inr ⟨_, _, .reference byRef isName ran⟩
    · exact .inr ⟨_, _, .notVariable byRef fun x same => isName ⟨x, same⟩⟩
  | false =>
    rw [← comes_step, step_bind_value isParams isArguments byRef, halts_above] at comes
    obtain ⟨found, between, evaluated, -⟩ := comes
    have next := regular.step
    rw [step_bind_value isParams isArguments byRef] at next
    have nested := (next.comes evaluated).nested
    have isOutcome := evaluated.isOutcome
    cases found with
    | value v =>
      cases ran : (Memory.bindValue call.callee p.name p.type v).run between.memory with
      | ok done m => exact .inl ⟨_, _, .value byRef evaluated ran⟩
      | error fault m => exact .inr ⟨_, _, .value byRef evaluated ran⟩
    | failing f => exact .inr ⟨_, _, .fails byRef evaluated⟩
    -- An expression neither ends without a value nor returns.
    | done => cases nested.control rfl
    | returning v span => cases nested.control rfl
    | _ => cases isOutcome

end Argument

/-- A call that balks at an argument fails there, with nothing done in the meantime but the passing of
arguments. -/
theorem Balks.through {call : Call} {a : Expr} {f : Failure} {broken : State}
    (balks : Balks settings id call.callee call.params call.arguments state a f broken)
    (regular : Regular settings ⟨.bind call, stack, id, state⟩) :
    Through settings (Passing stack) ⟨.bind call, stack, id, state⟩
      ⟨.failing (f.withSpan a.span), stack, id, broken.dropped⟩ := by
  obtain ⟨routine, result, callee, params, arguments⟩ := call
  dsimp only at balks
  induction balks with
  | here refuses => exact refuses.through rfl rfl (refuses.last rfl rfl regular) stack
  | @later p ps a as state w between _ _ _ hands _ ih =>
    have bound : Through settings (Passing stack)
        ⟨.bind ⟨routine, result, callee, p :: ps, a :: as⟩, stack, id, state⟩
        ⟨.bind ⟨routine, result, callee, ps, as⟩, stack, id, between⟩ := hands.through rfl rfl stack
    exact bound.trans (ih (regular.reaches bound.reaches))

/-! ## What comes of a call -/

theorem comes_bind_nil {call : Call} (isParams : call.params = [])
    (regular : Regular settings ⟨.bind call, stack, id, state⟩) :
    Comes settings (.bind call) id state outcome after ↔
      ∃ flow left, Comes settings (.run call.routine.body) call.callee
          (state.entered settings call.routine) flow left ∧
        outcome = concluded call.routine call.result flow ∧
          after = left.exited settings call.routine := by
  rw [← comes_step, step_bind_nil isParams, halts_above]
  refine exists_congr fun flow => exists_congr fun left => and_congr_right fun comes => ?_
  have entered := regular.step
  rw [step_bind_nil isParams] at entered
  have frames := (entered.comes comes).sound.settled.frames
  have idle : flow.waiting = [] := (List.append_eq_nil_iff.mp (waiting_of_halted comes.1)).1
  rw [idle] at frames
  rw [← halts_step, step_invocation frames.2.1 _ _ comes.isOutcome comes.block,
    halts_outcome_iff (concluded_isOutcome ..)]

/-- A call comes to what its arguments and its body come to, one after the other. -/
theorem comes_bind_iff {call : Call} (lengths : call.arguments.length = call.params.length)
    (regular : Regular settings ⟨.bind call, stack, id, state⟩) :
    Comes settings (.bind call) id state outcome after ↔
      Concludes settings id call state outcome after := by
  obtain ⟨routine, result, callee, params, arguments⟩ := call
  induction params generalizing arguments state with
  | nil =>
    obtain rfl : arguments = [] := List.length_eq_zero_iff.mp lengths
    rw [comes_bind_nil rfl regular]
    constructor
    · rintro ⟨flow, left, comes, rfl, rfl⟩
      exact .runs .nil comes
    · intro concludes
      cases concludes with
      | runs handed comes =>
        cases handed
        exact ⟨_, _, comes, rfl, rfl⟩
      | balks balks => cases balks
  | cons p ps ih =>
    obtain ⟨a, as, rfl⟩ := List.exists_cons_of_length_eq_add_one lengths
    have lengths : as.length = ps.length := Nat.succ.inj lengths
    let call : Call := ⟨routine, result, callee, p :: ps, a :: as⟩
    have bound {w between} (hands : Hands settings id callee p a state w between) :
        Comes settings (.bind call) id state outcome after ↔
          Concludes settings id call.rest between outcome after := by
      have reaches (stack : List Frame) : Reaches settings ⟨.bind call, stack, id, state⟩
          ⟨.bind call.rest, stack, id, between⟩ := (hands.through rfl rfl stack).reaches
      have later := ih as lengths (regular.reaches (reaches stack))
      exact (reaches []).halts_iff.trans later
    have refused {f broken} (refuses : Refuses settings id callee p a state f broken) :
        Comes settings (.bind call) id state outcome after ↔
          outcome = .failing (f.withSpan a.span) ∧ after = broken.dropped := by
      have last : broken.memory.scopes.size = call.callee + 1 := refuses.last rfl rfl regular
      have reaches : Reaches settings ⟨.bind call, [], id, state⟩ _ :=
        (refuses.through rfl rfl last []).reaches
      exact reaches.halts_iff.trans (halts_outcome_iff rfl)
    constructor
    · intro comes
      rcases comes.hands_or_refuses rfl rfl regular with ⟨w, between, hands⟩ | ⟨f, broken, refuses⟩
      · cases (bound hands).mp comes with
        | runs handed body => exact .runs (.cons hands handed) body
        | balks balks => exact .balks (.later hands balks)
      · obtain ⟨rfl, rfl⟩ := (refused refuses).mp comes
        exact .balks (.here refuses)
    · intro concludes
      cases concludes with
      | runs handed body =>
        cases handed with
        | cons hands handed => exact (bound hands).mpr (.runs handed body)
      | balks balks =>
        cases balks with
        | here refuses => exact (refused refuses).mpr ⟨rfl, rfl⟩
        | later hands balks => exact (bound hands).mpr (.balks balks)

end Config

/-! ## What the parameters are bound to -/

namespace Memory

variable {m m' m'' : Memory} {caller callee id : ScopeId} {name : String} {names : List String}
  {type : Ty} {h : Handle} {v : Value}

theorem bindReference_ok (ran : (bindReference callee name type h).run m = .ok () m') :
    m.has callee name = false ∧ m.store.typeOf h = type ∧ m' = m.bound callee name (.slot h) := by
  rw [bindReference_run] at ran
  split at ran
  case isTrue => cases ran
  case isFalse free =>
    split at ran
    case isTrue same =>
      cases ran
      exact ⟨Bool.eq_false_iff.mpr free, same, rfl⟩
    case isFalse => cases ran

theorem bindValue_ok (ran : (bindValue callee name type v).run m = .ok () m') :
    m.has callee name = false ∧ m' = (m.declared callee name type).written m.store.next v := by
  rw [bindValue_run] at ran
  split at ran
  case isTrue => cases ran
  case isFalse free =>
    rw [writeAs_run] at ran
    split at ran
    · cases ran
    · cases ran
      exact ⟨Bool.eq_false_iff.mpr free, rfl⟩

/-- A name resolves to the same binding if the scopes up to its own are the same. -/
theorem resolve?_of_scopes {size : Nat}
    (same : ∀ id : Nat, id < size → m'.scopes[id]? = m.scopes[id]?) (inside : id < size)
    (name : String) : m'.resolve? id name = m.resolve? id name := by
  fun_induction m.resolve? id name with
  | case1 id missing =>
    rw [resolve?]
    simp only [same id inside, missing]
  | case2 id scope found b named =>
    rw [resolve?]
    simp only [same id inside, found, named]
  | case3 id scope found unnamed orphan =>
    rw [resolve?]
    simp only [same id inside, found, unnamed, orphan]
  | case4 id scope found unnamed parent isParent below ih =>
    rw [resolve?]
    simp only [same id inside, found, unnamed, isParent, if_pos below]
    exact ih (Nat.lt_trans below inside)
  | case5 id scope found unnamed parent isParent notBelow =>
    rw [resolve?]
    simp only [same id inside, found, unnamed, isParent, if_neg notBelow]

/-- The scope `callee` is given the names. What it binds and owns already stays, and so do the other
scopes and the types of all cells. -/
structure Supplies (callee : ScopeId) (names : List String) (m m' : Memory) : Prop where
  others : ∀ id : Nat, id ≠ callee → m'.scopes[id]? = m.scopes[id]?
  has : ∀ name, m'.has callee name = true ↔ name ∈ names ∨ m.has callee name = true
  free : ∀ name ∈ names, m.has callee name = false
  distinct : names.Nodup
  binds : ∀ name b, m.Binds callee name b → m'.Binds callee name b
  own : ∀ h, m.Owns callee h → m'.Owns callee h ∧ m'.store.cell? h = m.store.cell? h
  types : ∀ h, m.store.Live h → m'.store.Live h ∧ m'.store.typeOf h = m.store.typeOf h

theorem Undisturbed.supplies (undisturbed : Undisturbed callee m m') : Supplies callee [] m m' where
  others id _ := by rw [undisturbed.scopes]
  has name := by simp [Memory.has, undisturbed.scopes]
  free name member := by cases member
  distinct := List.nodup_nil
  binds name b binds := by rwa [Binds, undisturbed.scopes]
  own h owns := ⟨by rwa [Owns, undisturbed.scopes], undisturbed.own h owns⟩
  types := undisturbed.types

theorem Supplies.refl (callee : ScopeId) (m : Memory) : Supplies callee [] m m :=
  Undisturbed.supplies ⟨rfl, fun _ _ => rfl, fun _ live => ⟨live, rfl⟩⟩

theorem Supplies.trans {names' : List String} (first : Supplies callee names m m')
    (second : Supplies callee names' m' m'') : Supplies callee (names ++ names') m m'' := by
  -- A name of the second list was not yet bound when the first list was.
  have apart {name : String} (later : name ∈ names') : m.has callee name = false ∧ name ∉ names := by
    have free := Bool.eq_false_iff.mp (second.free name later)
    rw [Ne, first.has, not_or, Bool.not_eq_true] at free
    exact free.symm
  refine ⟨fun id other => ?_, fun name => ?_, fun name member => ?_, ?_, fun name b binds => ?_,
    fun h owns => ?_, fun h live => ?_⟩
  · rw [second.others id other, first.others id other]
  · rw [second.has, first.has, List.mem_append, ← or_assoc, or_comm (a := name ∈ names')]
  · rcases List.mem_append.mp member with early | later
    · exact first.free name early
    · exact (apart later).1
  · refine List.nodup_append.mpr ⟨first.distinct, second.distinct, fun x early y later same => ?_⟩
    exact (apart later).2 (same ▸ early)
  · exact second.binds name b (first.binds name b binds)
  · obtain ⟨owns', same⟩ := first.own h owns
    obtain ⟨owns'', same'⟩ := second.own h owns'
    exact ⟨owns'', same'.trans same⟩
  · obtain ⟨live', same⟩ := first.types h live
    obtain ⟨live'', same'⟩ := second.types h live'
    exact ⟨live'', same'.trans same⟩

theorem Supplies.extended {cells : List Handle} {store : Store} {b : Binding} (sound : m.Sound)
    (inside : callee < m.scopes.size) (free : m.has callee name = false)
    (same : ∀ h, m.store.Live h → store.cell? h = m.store.cell? h) :
    Supplies callee [name] m (m.extended callee name b cells store) where
  others id other := by rw [scopes_extended, if_neg (Ne.symm other)]
  has x := by
    simp only [has_iff, binds_extended inside, List.mem_singleton, exists_or]
    simp [or_comm]
  free x member := List.mem_singleton.mp member ▸ free
  distinct := by simp
  binds x b' binds := (binds_extended inside).mpr (.inl binds)
  own h owns := ⟨(owns_extended inside).mpr (.inl owns), same h ((sound.live h).mpr ⟨_, owns⟩)⟩
  types h live := by
    have cell := same h live
    exact ⟨by rwa [Memory.extended, Store.Live, cell], by simp only [Memory.extended, Store.typeOf, cell]⟩

/-- The parameter `p` of the scope `callee` is what the argument `a` passes: the variable that the
argument named before the call, or a variable of its own that holds the argument's value. -/
def Receives (before now : Memory) (caller callee : ScopeId) (p : Formal) (a : Expr) :
    Passed → Prop
  | .reference h =>
    p.byRef = true ∧ (∃ x, a = .name x ∧ before.resolve? caller x.name = some (.slot h)) ∧
      now.Binds callee p.name (.slot h) ∧ now.store.Live h ∧ now.store.typeOf h = p.type
  | .value v =>
    p.byRef = false ∧ ∃ h, now.Binds callee p.name (.slot h) ∧ now.Owns callee h ∧
      now.store.cell? h = some { type := p.type, value := some v } ∧
      ∀ id name, now.Binds id name (.slot h) → id = callee

variable {before : Memory} {p : Formal} {a : Expr} {w : Passed}

theorem Receives.kept (receives : Receives before m caller callee p a w)
    (supplies : Supplies callee names m m') : Receives before m' caller callee p a w := by
  cases w with
  | reference h =>
    obtain ⟨byRef, named, binds, live, type⟩ := receives
    obtain ⟨live', same⟩ := supplies.types h live
    exact ⟨byRef, named, supplies.binds _ _ binds, live', same.trans type⟩
  | value v =>
    obtain ⟨byValue, h, binds, owns, holds, alone⟩ := receives
    obtain ⟨owns', same⟩ := supplies.own h owns
    refine ⟨byValue, h, supplies.binds _ _ binds, owns', same.trans holds, ?_⟩
    intro id name binds'
    by_contra other
    rw [Binds, supplies.others id other] at binds'
    exact other (alone id name binds')

theorem Receives.earlier {before' : Memory} (receives : Receives before m caller callee p a w)
    (same : ∀ id : Nat, id < callee → before'.scopes[id]? = before.scopes[id]?)
    (inside : caller < callee) : Receives before' m caller callee p a w := by
  cases w with
  | reference h =>
    obtain ⟨byRef, ⟨x, isName, resolved⟩, bound⟩ := receives
    exact ⟨byRef, ⟨x, isName, (resolve?_of_scopes same inside x.name).trans resolved⟩, bound⟩
  | value v => exact receives

end Memory

namespace Config

variable {settings : Settings} {id : ScopeId} {stack : List Frame} {state between bound : State}
  {w : Passed} {passed : List Passed}

open Memory (Supplies Receives)

theorem Hands.receives {call : Call} {p : Formal} {ps : List Formal} {a : Expr} {as : List Expr}
    (isParams : call.params = p :: ps) (isArguments : call.arguments = a :: as)
    (hands : Hands settings id call.callee p a state w between)
    (regular : Regular settings ⟨.bind call, stack, id, state⟩) :
    Supplies call.callee [p.name] state.memory between.memory ∧
      Receives state.memory between.memory id call.callee p a w := by
  have settled : Settled settings.maxDepth (.argument call :: stack) id state :=
    regular.sound.settled
  cases hands with
  | @reference x h m byRef isName resolved ran =>
    obtain ⟨free, type, rfl⟩ := Memory.bindReference_ok ran
    have inside := settled.callee_inside
    refine ⟨.extended settled.memory inside free fun _ _ => rfl, byRef, ⟨x, isName, resolved⟩, ?_,
      settled.memory.live_of_resolve? resolved, type⟩
    exact (Memory.binds_extended inside).mpr (.inr ⟨rfl, rfl, rfl⟩)
  | @value v evaluated m byValue comes ran =>
    obtain ⟨free, rfl⟩ := Memory.bindValue_ok ran
    have next := regular.step
    rw [step_bind_value isParams isArguments byValue] at next
    have undisturbed := comes.undisturbed next.nested next.sound
    have settled : Settled settings.maxDepth (.argument call :: stack) id evaluated :=
      (next.comes comes).sound.settled
    have memory := settled.memory
    have inside := settled.callee_inside
    let fresh : Handle := evaluated.memory.store.next
    have live := Memory.live_declared memory.store call.callee p.name p.type
    have cell? (h : Handle) := Memory.cell?_written live v h
    simp only [Memory.cell?_declared memory.store] at cell?
    have others (h : Handle) (live : evaluated.memory.store.Live h) :
        ((evaluated.memory.declared call.callee p.name p.type).written fresh v).store.cell? h =
          evaluated.memory.store.cell? h := by
      have old := memory.store.ne_next live
      rw [cell?, if_neg old, if_neg old]
    refine ⟨undisturbed.supplies.trans (.extended memory inside free others), byValue, fresh, ?_,
      ?_, ?_, ?_⟩
    · exact (Memory.binds_extended inside).mpr (.inr ⟨rfl, rfl, rfl⟩)
    · exact (Memory.owns_extended inside).mpr (.inr ⟨rfl, List.mem_singleton_self _⟩)
    · simp [cell?, fresh]
    · intro other name binds
      rcases (Memory.binds_extended inside).mp binds with old | ⟨same, -, -⟩
      · exact absurd rfl (memory.store.ne_next (memory.live_of_binds old))
      · exact same

/-- When all arguments are bound, the scope of the call has been given the names of the parameters,
and each of them is what its argument passes. -/
theorem HandsOver.receives {call : Call}
    (handed : HandsOver settings id call.callee call.params call.arguments state passed bound)
    (regular : Regular settings ⟨.bind call, stack, id, state⟩) :
    Supplies call.callee (call.params.map Formal.name) state.memory bound.memory ∧
      ∀ (i : Nat) p a, call.params[i]? = some p → call.arguments[i]? = some a →
        ∃ w, passed[i]? = some w ∧ Receives state.memory bound.memory id call.callee p a w := by
  obtain ⟨routine, result, callee, params, arguments⟩ := call
  dsimp only at handed ⊢
  induction handed with
  | nil => exact ⟨.refl _ _, fun i p a isParam => by cases isParam⟩
  | @cons p ps a as state w between ws bound hands later ih =>
    obtain ⟨supplies, receives⟩ := hands.receives rfl rfl regular
    obtain ⟨supplies', receives'⟩ := ih (regular.reaches (hands.through rfl rfl stack).reaches)
    have inside : id < callee := regular.sound.settled.frames.2.2.2.lt
    refine ⟨supplies.trans supplies', fun i p' a' isParam isArgument => ?_⟩
    cases i with
    | zero =>
      cases isParam
      cases isArgument
      exact ⟨w, rfl, receives.kept supplies'⟩
    | succ i =>
      obtain ⟨w', isPassed, received⟩ := receives' i p' a' isParam isArgument
      refine ⟨w', isPassed, received.earlier (fun id below => ?_) inside⟩
      exact (supplies.others id (Nat.ne_of_lt below)).symm

end Config

end Pseudocode
