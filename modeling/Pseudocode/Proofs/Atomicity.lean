import Pseudocode.Proofs.Families
import Pseudocode.Proofs.FiniteMap
import Pseudocode.Proofs.Kinds
import Pseudocode.Proofs.Outcomes

/-! # What is left behind by a failure

An operation on scopes and cells that fails leaves everything as it was: every scope, every cell, the
free list and the number of live cells. The one exception is a variable that is declared for a value
of the wrong type. It stays declared, without a value, and is released with its scope.

Statements inherit this. Declaring, assigning and defining are one such operation after some
expressions were evaluated, and expressions without calls change nothing. -/

namespace Pseudocode

namespace Memory

/-- The scope `id` of `m` has one more variable in `m'`, with a cell of its own under the handle `h`
that has no value yet. Nothing else differs. -/
structure LeavesUnset (m m' : Memory) (id : ScopeId) (name : String) (type : Ty) (h : Handle) :
    Prop where
  fresh : m.store.cell? h = none
  cells : ∀ h', m'.store.cell? h' = if h' = h then some { type } else m.store.cell? h'
  live : m'.store.live = m.store.live + 1
  scopes : ∀ id', m'.scopes[id']? =
    if id = id' then
      m.scopes[id']?.map fun scope =>
        { scope with bindings := (name, .slot h) :: scope.bindings, owned := h :: scope.owned }
    else m.scopes[id']?

section Leaves

variable {m m' : Memory} {id : ScopeId} {name : String} {type : Ty} {v : Value} {fault : Fault}

theorem Orderly.declared_leaves (orderly : m.Orderly) (id : ScopeId) (name : String) (type : Ty) :
    m.LeavesUnset (m.declared id name type) id name type m.store.next where
  fresh := orderly.store.fresh
  cells := cell?_declared orderly.store id name type
  live := orderly.store.live_allocate type
  scopes := fun id' => scopes_extended m id id' name _ _ _

/-- A name that is taken is refused at once; a value that the type does not accept is refused when
the variable is there. -/
theorem Orderly.bindValue_error (orderly : m.Orderly)
    (failed : (bindValue id name type v).run m = .error fault m') :
    (m.has id name = true ∧ fault.cause.kind = .duplicateDeclaration ∧ m' = m) ∨
      (m.has id name = false ∧ type.accepts v = false ∧ fault.cause.kind = .typeMismatch ∧
        m' = m.declared id name type) := by
  rw [bindValue_run] at failed
  cases taken : m.has id name with
  | true =>
    simp only [taken, if_true] at failed
    cases failed
    exact .inl ⟨rfl, rfl, rfl⟩
  | false =>
    have cell := cell?_declared orderly.store id name type m.store.next
    simp only [taken, Bool.false_eq_true, if_false, writeAs_run, Store.refusal?, cell,
      if_true] at failed
    cases accepted : type.accepts v with
    | true =>
      simp only [accepted, if_true] at failed
      cases failed
    | false =>
      simp only [accepted, Bool.false_eq_true, if_false] at failed
      cases failed
      exact .inr ⟨rfl, rfl, by rw [Fault.annotate_cause]; rfl, rfl⟩

/-- Two stores with the same cells have the same number of them. -/
theorem live_eq_of_cells {s s' : Store} (sound : s.Sound) (sound' : s'.Sound)
    (same : ∀ h, s.cell? h = s'.cell? h) : s.live = s'.live := by
  have shared : s.Mirrors (s'.tableOf (List.range s'.cells.size)) := by
    intro h
    rw [same h]
    exact Store.mirrors_tableOf s' h
  rw [← shared.card_keys sound, (Store.mirrors_tableOf s').card_keys sound']

/-- Releasing the scope takes the unset variable along, and leaves the cells that releasing it would
have left before. -/
theorem LeavesUnset.released {h : Handle} (leaves : m.LeavesUnset m' id name type h)
    (inside : id < m.scopes.size) (h' : Handle) :
    (m'.released id).store.cell? h' = (m.released id).store.cell? h' := by
  obtain ⟨scope, found⟩ := exists_scope inside
  have owner := leaves.scopes id
  simp only [found, if_true, Option.map_some] at owner
  simp only [Memory.released, found, owner, Option.map_some, Option.getD_some,
    Store.cell?_releaseAll, List.mem_cons, leaves.cells]
  by_cases same : h' = h
  · subst same
    simp [leaves.fresh]
  · simp [same]

end Leaves

end Memory

/-! ## Runs that end in one way -/

namespace Config

/-- If the run of the configuration ends, it ends like this. -/
def Ensures (settings : Settings) (Q : Config → Prop) (c : Config) : Prop :=
  ∀ d, c.Halts settings d → Q d

namespace Ensures

variable {settings : Settings} {Q R : Config → Prop} {c : Config} {control : Control}
  {frame : Frame} {id : ScopeId} {state : State}

theorem of_step (ensures : (c.step settings).Ensures settings Q) : c.Ensures settings Q :=
  fun d halts => ensures d (halts_step.mpr halts)

theorem of_halted (halted : c.halted = true) (holds : Q c) : c.Ensures settings Q := by
  intro d halts
  rw [(halts_of_halted halted).mp halts]
  exact holds

/-- What waits for something goes on from what comes of it. -/
theorem above (first : Ensures settings R ⟨control, [], id, state⟩)
    (later : ∀ outcome after, R ⟨outcome, [], id, after⟩ →
      Ensures settings Q ⟨outcome, [frame], id, after⟩) :
    Ensures settings Q ⟨control, [frame], id, state⟩ := by
  intro d halts
  obtain ⟨outcome, after, comes, halts⟩ := halts_above.mp halts
  exact later outcome after (first _ comes) d halts

end Ensures

/-! ## Expressions -/

/-- An expression was evaluated, with a value or not, and nothing has changed. -/
def Evaluated (state : State) (d : Config) : Prop :=
  d.state = state ∧ ((∃ v, d.control = .value v) ∨ ∃ f, d.control = .failing f)

section Expressions

variable {settings : Settings} {Q : Config → Prop} {id : ScopeId} {state : State}

theorem ensures_ofResult (result : Except Cause Value) :
    (ofResult result [] id state).Ensures settings (Evaluated state) := by
  cases result with
  | ok v => exact .of_halted rfl ⟨rfl, .inl ⟨v, rfl⟩⟩
  | error cause => exact .of_halted rfl ⟨rfl, .inr ⟨_, rfl⟩⟩

/-- A frame that waits for an expression gets its value or its failure, in the same state. -/
theorem ensures_operand {e : Expr} {frame : Frame}
    (operand : Ensures settings (Evaluated state) ⟨.eval e, [], id, state⟩)
    (value : ∀ v, (give v frame [] id state).Ensures settings Q)
    (failing : ∀ f, (propagate settings f frame [] id state).Ensures settings Q) :
    Ensures settings Q ⟨.eval e, [frame], id, state⟩ := by
  refine Ensures.above operand ?_
  intro outcome after evaluated
  obtain ⟨same, ended⟩ := evaluated
  dsimp only at same ended
  rw [same]
  apply Ensures.of_step
  cases ended with
  | inl isValue =>
    obtain ⟨v, rfl⟩ := isValue
    exact value v
  | inr isFailing =>
    obtain ⟨f, rfl⟩ := isFailing
    exact failing f

theorem ensures_eval {e : Expr} (callFree : e.isCallFree = true) :
    Ensures settings (Evaluated state) ⟨.eval e, [], id, state⟩ := by
  apply Ensures.of_step
  change Ensures settings (Evaluated state) (evaluate settings e [] id state)
  have fails (f : Failure) : Ensures settings (Evaluated state) ⟨.failing f, [], id, state⟩ :=
    .of_halted rfl ⟨rfl, .inr ⟨f, rfl⟩⟩
  cases e with
  | hole => exact fails _
  | integer | real | boolean => exact .of_halted rfl ⟨rfl, .inl ⟨_, rfl⟩⟩
  | string | char | date => exact ensures_ofResult _
  | name x =>
    have same := Memory.lookup_same state.memory id x.name
    change Ensures settings (Evaluated state)
      (tryAccess state (Memory.lookup id x.name) [] id fun v state => ⟨.value v, [], id, state⟩)
    cases ran : (Memory.lookup id x.name).run state.memory with
    | ok v m =>
      rw [ran] at same
      cases same
      rw [tryAccess_ok ran]
      exact .of_halted rfl ⟨rfl, .inl ⟨v, rfl⟩⟩
    | error fault m =>
      rw [ran] at same
      cases same
      rw [tryAccess_error ran]
      exact fails _
  | unary op operand =>
    have first := ensures_eval (e := operand) callFree
    exact ensures_operand first (fun v => ensures_ofResult _) fails
  | binary op left right =>
    obtain ⟨leftFree, rightFree⟩ := Bool.and_eq_true_iff.mp callFree
    have first := ensures_eval leftFree
    have second := ensures_eval rightFree
    refine ensures_operand first (fun l => ?_) fails
    exact ensures_operand second (fun r => ensures_ofResult _) fails
  | call => cases callFree

end Expressions

end Config

/-! ## Statements -/

/-- The statement declares, assigns or defines something, and no expression of it calls a
function. -/
def Stmt.isSimple : Stmt → Bool
  | .declare _ declared _ => declared.isCallFree
  | .constant _ declared value _ => declared.isCallFree && value.isCallFree
  | .assign _ value _ => value.isCallFree
  | .procedure _ params _ _ => params.all (·.declared.isCallFree)
  | .function _ params result _ _ => params.all (·.declared.isCallFree) && result.isCallFree
  | _ => false

namespace Config

def Undone (state : State) (d : Config) : Prop :=
  ∀ f, d.control = .failing f → d.state = state

section Statements

variable {settings : Settings} {id : ScopeId} {state : State}

theorem ensures_failing (f : Failure) :
    Ensures settings (Undone state) ⟨.failing f, [], id, state⟩ :=
  .of_halted rfl fun _ _ => rfl

/-- An operation on memory that is atomic makes a statement that ends with it so. -/
theorem ensures_tryAccess {α : Type} {action : Memory.Action α} (operation : Memory.Operation)
    (attempted : operation.perform state.memory = Memory.attempt action state.memory)
    (valueless : operation.isBindValue = false) :
    (tryAccess state action [] id fun _ state => ⟨.done, [], id, state⟩).Ensures settings
      (Undone state) := by
  cases ran : action.run state.memory with
  | ok a m =>
    rw [tryAccess_ok ran]
    exact .of_halted rfl fun _ isFailing => by cases isFailing
  | error fault m =>
    have failed : operation.perform state.memory = (some fault, m) := by
      rw [attempted, Memory.attempt, ran]
    rw [tryAccess_error ran, Memory.Operation.unchanged failed valueless]
    exact ensures_failing _

theorem ensures_withType {e : Expr} {v : Value} {onOk : Ty → State → Config}
    (ok : ∀ t, (onOk t state).Ensures settings (Undone state)) :
    (withType e v [] id state onOk).Ensures settings (Undone state) := by
  rw [withType_eq]
  cases asType e v with
  | ok t => exact ok t
  | error cause => exact ensures_failing _

/-- The types of a definition are resolved one after the other, and only then is it declared. -/
theorem ensures_define {d : Definition}
    (params : d.pending.all (·.declared.isCallFree) = true)
    (result : ∀ e, d.result = some e → e.isCallFree = true) :
    Ensures settings (Undone state) ⟨.define d, [], id, state⟩ := by
  generalize isPending : d.pending = pending
  induction pending generalizing d with
  | nil =>
    apply Ensures.of_step
    change (defineNext d [] id state).Ensures settings (Undone state)
    unfold defineNext
    rw [isPending]
    cases isResult : d.result with
    | none =>
      exact ensures_tryAccess (.declareConstant ..) rfl rfl
    | some e =>
      refine ensures_operand (ensures_eval (result e isResult)) (fun v => ?_) ensures_failing
      rw [give]
      refine ensures_withType fun t => ?_
      exact ensures_tryAccess (.declareConstant ..) rfl rfl
  | cons param rest ih =>
    rw [isPending, List.all_cons, Bool.and_eq_true] at params
    apply Ensures.of_step
    change (defineNext d [] id state).Ensures settings (Undone state)
    unfold defineNext
    rw [isPending]
    refine ensures_operand (ensures_eval params.1) (fun v => ?_) fun f => ensures_failing _
    unfold give
    simp only [isPending]
    cases asType param.declared v with
    | ok t => exact ih params.2 result rfl
    | error cause => exact ensures_failing _

theorem ensures_exec {s : Stmt} (simple : s.isSimple = true) :
    Ensures settings (Undone state) ⟨.exec s, [], id, state⟩ := by
  apply Ensures.of_step
  change (execute settings s [] id state).Ensures settings (Undone state)
  cases s with
  | declare name declared =>
    refine ensures_operand (ensures_eval simple) (fun v => ?_) ensures_failing
    rw [give]
    refine ensures_withType fun t => ?_
    exact ensures_tryAccess (.declareVariable ..) rfl rfl
  | constant name declared value =>
    obtain ⟨typeFree, valueFree⟩ := Bool.and_eq_true_iff.mp simple
    refine ensures_operand (ensures_eval typeFree) (fun v => ?_) ensures_failing
    refine ensures_withType fun t => ?_
    refine ensures_operand (ensures_eval valueFree) (fun v => ?_) ensures_failing
    exact ensures_tryAccess (.declareConstant ..) rfl rfl
  | assign target value =>
    refine ensures_operand (ensures_eval simple) (fun v => ?_) ensures_failing
    exact ensures_tryAccess (.assign ..) rfl rfl
  | procedure name params body => exact ensures_define simple fun e same => by cases same
  | function name params result body =>
    obtain ⟨paramsFree, resultFree⟩ := Bool.and_eq_true_iff.mp simple
    exact ensures_define paramsFree fun e same => by cases same; exact resultFree
  | _ => cases simple

end Statements

end Config

/-- Whatever was done to a family of scopes before, an operation that fails changes nothing, unless
it declares a variable for a value. Of those, one that fails because the name is taken changes
nothing, and one that fails because of the type leaves one new unset cell, bound to the name and owned
by the scope; releasing the scope gives it back. So a statement that declares, assigns or defines
without calling a function and fails leaves the state as it was. -/
theorem Memory.Built.failures_atomic {m : Memory} (built : m.Built) :
    (∀ (operation : Operation) (fault : Fault) (m' : Memory),
      operation.perform m = (some fault, m') → operation.isBindValue = false → m' = m) ∧
    (∀ (id : ScopeId) (name : String) (type : Ty) (v : Value) (fault : Fault) (m' : Memory),
      id < m.scopes.size → (bindValue id name type v).run m = .error fault m' →
        (m.has id name = true ∧ fault.cause.kind = .duplicateDeclaration ∧ m' = m) ∨
        (m.has id name = false ∧ type.accepts v = false ∧ fault.cause.kind = .typeMismatch ∧
          ∃ h, m.LeavesUnset m' id name type h ∧
            ∃ before after, (release id).run m = .ok () before ∧
              (release id).run m' = .ok () after ∧ after.store.cell? h = none ∧
              (∀ h', after.store.cell? h' = before.store.cell? h') ∧
              after.store.live = before.store.live)) ∧
    ∀ (settings : Settings) (c : Config) (s : Stmt) (n : Nat) (f : Failure),
      c.control = .exec s → s.isSimple = true → c.Ends settings n (.failing f) →
        (c.advance settings n).state = c.state := by
  have orderly := built.orderly
  refine ⟨fun operation fault m' failed => Operation.unchanged failed, ?_, ?_⟩
  · intro id name type v fault m' inside failed
    refine (orderly.bindValue_error failed).imp_right ?_
    rintro ⟨free, refused, kind, rfl⟩
    have leaves := orderly.declared_leaves id name type
    have same := leaves.released inside
    have released := orderly.released id
    have released' := (orderly.declared free type).released id
    refine ⟨free, refused, kind, _, leaves, m.released id, (m.declared id name type).released id,
      release_run .., release_run .., ?_, same, live_eq_of_cells released'.store released.store same⟩
    rw [same, Memory.released, Store.cell?_releaseAll, leaves.fresh, ite_self]
  · intro settings c s n f isExec simple ends
    have comes := ends.comes
    rw [isExec] at comes
    have undone := Config.ensures_exec simple _ comes
    exact undone f rfl

/-- A truth value is refused for an INTEGER variable, which stays declared. -/
theorem Memory.Built.failures_atomic_sample :
    Sample.family.Built ∧ ∃ fault m',
      (bindValue 0 "z" (.of .integer) (.boolean true)).run Sample.family = .error fault m' ∧
        fault.cause.kind = .typeMismatch ∧
        ∃ h, Sample.family.LeavesUnset m' 0 "z" (.of .integer) h := by
  refine ⟨Sample.family_built, _, _, rfl, ?_⟩
  have inside : 0 < Sample.family.scopes.size := by decide +kernel
  have outcome := Sample.family_built.failures_atomic.2.1 0 "z" (.of .integer) (.boolean true) _ _
    inside rfl
  obtain ⟨taken, -⟩ | ⟨-, -, kind, h, leaves, -⟩ := outcome
  · have free : Sample.family.has 0 "z" = false := by decide +kernel
    rw [free] at taken
    cases taken
  · exact ⟨kind, h, leaves⟩

end Pseudocode
