import Pseudocode.Proofs.Ownership

/-! # Families of scopes

The operations on memory may be used in any order and with any handles, not only as a run of a
program uses them. A name may come to stand for a cell that was released, and a cell may be released
while names stand for it. `Memory.Built` says that a memory came about like this, with failed
operations among the others, and `Memory.Orderly` is what still holds of it. -/

namespace Pseudocode

namespace Memory

/-- The memory after a scope's own cells are released. Its names stay bound. -/
def released (m : Memory) (id : ScopeId) : Memory where
  store := m.store.releaseAll (((m.scopes[id]?).map (·.owned)).getD [])
  scopes := m.scopes.modify id fun scope => { scope with owned := [] }

theorem release_run (m : Memory) (id : ScopeId) : (release id).run m = .ok () (m.released id) :=
  rfl

inductive Operation where
  | child (parent : ScopeId) (label : String)
  | declareVariable (id : ScopeId) (name : String) (type : Ty)
  | declareConstant (id : ScopeId) (name : String) (type : Ty) (v : Value)
  | bindReference (id : ScopeId) (name : String) (type : Ty) (h : Handle)
  | bindValue (id : ScopeId) (name : String) (type : Ty) (v : Value)
  | assign (id : ScopeId) (name : String) (v : Value)
  | release (id : ScopeId)
  | lookup (id : ScopeId) (name : String)
  | lookupVariable (id : ScopeId) (name : String)
  | allocate (type : Ty)
  | free (h : Handle)
  | write (h : Handle) (v : Value)
  | read (h : Handle)

/-- The fault of an action, if it fails, and the memory it leaves. -/
def attempt {α : Type} (action : Action α) (m : Memory) : Option Fault × Memory :=
  match action.run m with
  | .ok _ m' => (none, m')
  | .error fault m' => (some fault, m')

namespace Operation

def perform : Operation → Memory → Option Fault × Memory
  | child parent label => attempt (Memory.child parent label)
  | declareVariable id name type => attempt (Memory.declareVariable id name type)
  | declareConstant id name type v => attempt (Memory.declareConstant id name type v)
  | bindReference id name type h => attempt (Memory.bindReference id name type h)
  | bindValue id name type v => attempt (Memory.bindValue id name type v)
  | assign id name v => attempt (Memory.assign id name v)
  | release id => attempt (Memory.release id)
  | lookup id name => attempt (Memory.lookup id name)
  | lookupVariable id name => attempt (Memory.lookupVariable id name)
  | allocate type => attempt (Memory.allocate type)
  | free h => attempt (Memory.free h)
  | write h v => attempt (Memory.write h v)
  | read h => attempt (Memory.read h)

def scope? : Operation → Option ScopeId
  | child id _ | declareVariable id _ _ | declareConstant id _ _ _ | bindReference id _ _ _
  | bindValue id _ _ _ | assign id _ _ | release id | lookup id _ | lookupVariable id _ => some id
  | allocate _ | free _ | write _ _ | read _ => none

def isBindValue : Operation → Bool
  | bindValue _ _ _ _ => true
  | _ => false

end Operation

/-- The memory that operations make of the one a run starts with. Each is about a scope that exists,
and each may fail. -/
inductive Built : Memory → Prop where
  | start : Built {}
  | perform {m : Memory} (operation : Operation) : Built m →
      (∀ id ∈ operation.scope?, id < m.scopes.size) → Built (operation.perform m).2

/-! ## What operations make of memory -/

theorem write_run (m : Memory) (h : Handle) (v : Value) :
    (write h v).run m =
      match m.store.refusal? h v with
      | some cause => .error (.of cause) m
      | none => .ok () (m.written h v) := by
  simp only [write, EStateM.run_bind, EStateM.run_get]
  cases m.store.refusal? h v <;> rfl

theorem read_run (m : Memory) (h : Handle) :
    (read h).run m =
      match m.store.get h with
      | .ok v => .ok v m
      | .error cause => .error (.of cause) m := by
  simp only [read, EStateM.run_bind, EStateM.run_get]
  cases m.store.get h <;> rfl

namespace Operation

/-- What an operation does, by whether it fails. Only one that declares a variable for a value can
fail and leave something behind. -/
inductive Effect (m : Memory) : Operation → Option Fault → Memory → Prop where
  | refuses {operation fault} : Effect m operation (some fault) m
  | reads {operation} : Effect m operation none m
  | opens {parent label} : Effect m (.child parent label) none (m.opened parent label)
  | binds {operation id name b} : m.has id name = false →
      Effect m operation none (m.bound id name b)
  | declares {operation id name type} : m.has id name = false →
      Effect m operation none (m.declared id name type)
  | spoils {id name type v fault} : m.has id name = false →
      Effect m (.bindValue id name type v) (some fault) (m.declared id name type)
  | fills {id name type v} : m.has id name = false →
      Effect m (.bindValue id name type v) none ((m.declared id name type).written m.store.next v)
  | writes {operation h v} : Effect m operation none (m.written h v)
  | allocates {type} :
      Effect m (.allocate type) none { m with store := (m.store.allocate type).2 }
  | frees {h} : Effect m (.free h) none { m with store := m.store.release h }
  | releases {id} : Effect m (.release id) none (m.released id)

theorem effect (operation : Operation) (m : Memory) :
    Effect m operation (operation.perform m).1 (operation.perform m).2 := by
  cases operation with
  | child parent label => exact .opens
  | declareVariable id name type =>
    rw [perform, attempt, declareVariable_run]
    cases free : m.has id name with
    | true => exact .refuses
    | false => exact .declares free
  | declareConstant id name type v =>
    rw [perform, attempt, declareConstant_run]
    cases free : m.has id name with
    | true => exact .refuses
    | false =>
      cases type.accepts v with
      | true => exact .binds free
      | false => exact .refuses
  | bindReference id name type h =>
    rw [perform, attempt, bindReference_run]
    cases free : m.has id name with
    | true => exact .refuses
    | false =>
      simp only [Bool.false_eq_true, if_false]
      by_cases same : m.store.typeOf h = type
      · rw [if_pos same]
        exact .binds free
      · rw [if_neg same]
        exact .refuses
  | bindValue id name type v =>
    rw [perform, attempt, bindValue_run, writeAs_run]
    cases free : m.has id name with
    | true => exact .refuses
    | false =>
      cases (m.declared id name type).store.refusal? m.store.next v with
      | some cause => exact .spoils free
      | none => exact .fills free
  | assign id name v =>
    rw [perform, attempt, assign_run]
    cases m.resolve? id name with
    | none => exact .refuses
    | some b =>
      cases b with
      | constant c => exact .refuses
      | slot h =>
        simp only [writeAs_run]
        cases m.store.refusal? h v with
        | some cause => exact .refuses
        | none => exact .writes
  | release id => exact .releases
  | lookup id name =>
    rw [perform, attempt, lookup_run]
    cases m.resolve? id name with
    | none => exact .refuses
    | some b =>
      cases b with
      | constant c => exact .reads
      | slot h =>
        dsimp only
        cases m.store.get h with
        | ok v => exact .reads
        | error cause => exact .refuses
  | lookupVariable id name =>
    rw [perform, attempt, lookupVariable_run]
    cases m.resolve? id name with
    | none => exact .refuses
    | some b =>
      cases b with
      | constant c => exact .refuses
      | slot h => exact .reads
  | allocate type => exact .allocates
  | free h => exact .frees
  | write h v =>
    rw [perform, attempt, write_run]
    cases m.store.refusal? h v with
    | some cause => exact .refuses
    | none => exact .writes
  | read h =>
    rw [perform, attempt, read_run]
    cases m.store.get h with
    | ok v => exact .reads
    | error cause => exact .refuses

/-- What fails changes nothing, unless it declares a variable for a value. -/
theorem unchanged {operation : Operation} {m m' : Memory} {fault : Fault}
    (failed : operation.perform m = (some fault, m'))
    (valueless : operation.isBindValue = false) : m' = m := by
  have effect := operation.effect m
  rw [failed] at effect
  cases effect with
  | refuses => rfl
  | spoils => cases valueless

end Operation

/-! ## What holds of every family -/

/-- What holds of a memory however its operations are used. -/
structure Orderly (m : Memory) : Prop where
  store : m.store.Sound
  ranked : m.Ranked
  names : ∀ (id : Nat) (scope : Scope), m.scopes[id]? = some scope →
    (scope.bindings.map Prod.fst).Nodup

namespace Orderly

variable {m : Memory} {id : ScopeId} {name : String}

theorem start : Orderly {} := by
  refine ⟨⟨List.nodup_nil, fun i => by simp⟩, fun id scope parent found isParent => ?_,
    fun id scope found => ?_⟩
  all_goals
    obtain ⟨inside, rfl⟩ := Array.getElem?_eq_some_iff.mp found
    have first : id = 0 := by simpa using inside
    subst first
  · cases isParent
  · exact List.nodup_nil

variable (orderly : m.Orderly)

include orderly

theorem of_store {store : Store} (sound : store.Sound) : Orderly { m with store } :=
  ⟨sound, orderly.ranked, orderly.names⟩

theorem opened {parent : ScopeId} (inside : parent < m.scopes.size) (label : String) :
    (m.opened parent label).Orderly := by
  refine ⟨orderly.store, fun id scope above found isParent => ?_, fun id scope found => ?_⟩
  all_goals
    rw [scopes_opened] at found
    split at found
  case refine_1.isTrue last =>
    cases found
    cases isParent
    exact last ▸ inside
  case refine_1.isFalse => exact orderly.ranked id scope above found isParent
  case refine_2.isTrue =>
    cases found
    exact List.nodup_nil
  case refine_2.isFalse => exact orderly.names id scope found

theorem extended (free : m.has id name = false) (b : Binding) (cells : List Handle) {store : Store}
    (sound : store.Sound) : (m.extended id name b cells store).Orderly := by
  refine ⟨sound, fun id' scope' parent found isParent => ?_, fun id' scope' found => ?_⟩
  · obtain ⟨scope, before, rfl | ⟨-, rfl⟩⟩ := scope_of_extended found <;>
      exact orderly.ranked id' scope parent before isParent
  · obtain ⟨scope, before, rfl | ⟨rfl, rfl⟩⟩ := scope_of_extended found
    · exact orderly.names id' scope before
    · exact List.nodup_cons.mpr ⟨has_eq_false free before, orderly.names id scope before⟩

theorem declared (free : m.has id name = false) (type : Ty) : (m.declared id name type).Orderly :=
  orderly.extended free _ _ (orderly.store.allocate type)

theorem released (id : ScopeId) : (m.released id).Orderly := by
  have found_before {id' : ScopeId} {scope' : Scope}
      (found : (m.released id).scopes[id']? = some scope') :
      ∃ scope, m.scopes[id']? = some scope ∧ scope'.parent = scope.parent ∧
        scope'.bindings = scope.bindings := by
    rw [Memory.released, Array.getElem?_modify] at found
    split at found
    · obtain ⟨scope, before, rfl⟩ := Option.map_eq_some_iff.mp found
      exact ⟨scope, before, rfl, rfl⟩
    · exact ⟨scope', found, rfl, rfl⟩
  refine ⟨orderly.store.releaseAll _, fun id' scope' parent found isParent => ?_,
    fun id' scope' found => ?_⟩
  · obtain ⟨scope, found, parents, -⟩ := found_before found
    exact orderly.ranked id' scope parent found (parents ▸ isParent)
  · obtain ⟨scope, found, -, bindings⟩ := found_before found
    exact bindings ▸ orderly.names id' scope found

theorem perform (operation : Operation) (inside : ∀ id ∈ operation.scope?, id < m.scopes.size) :
    (operation.perform m).2.Orderly := by
  have effect := operation.effect m
  generalize (operation.perform m).1 = fault at effect
  generalize (operation.perform m).2 = m' at effect ⊢
  cases effect with
  | refuses => exact orderly
  | reads => exact orderly
  | opens => exact orderly.opened (inside _ rfl) _
  | binds free => exact orderly.extended free _ _ orderly.store
  | declares free => exact orderly.declared free _
  | spoils free => exact orderly.declared free _
  | fills free =>
    exact (orderly.declared free _).of_store ((orderly.declared free _).store.write _ _)
  | writes => exact orderly.of_store (orderly.store.write _ _)
  | allocates => exact orderly.of_store (orderly.store.allocate _)
  | frees => exact orderly.of_store (orderly.store.release _)
  | releases => exact orderly.released _

end Orderly

theorem Built.orderly {m : Memory} (built : m.Built) : m.Orderly := by
  induction built with
  | start => exact .start
  | perform operation _ inside ih => exact ih.perform operation inside

end Memory

/-! ## A family -/

namespace Sample

/-- A variable, a scope that refers to it by another name, and the variable's cell released. -/
def operations : List Memory.Operation :=
  [.declareVariable 0 "x" (.of .integer), .child 0 "f", .bindReference 1 "y" (.of .integer) 0,
    .release 0]

def family : Memory :=
  operations.foldl (fun m operation => (operation.perform m).2) {}

theorem family_built : family.Built := by
  refine .perform (.release 0) (.perform (.bindReference 1 "y" (.of .integer) 0) (.perform
    (.child 0 "f") (.perform (.declareVariable 0 "x" (.of .integer)) .start ?_) ?_) ?_) ?_
  all_goals
    rintro id ⟨⟩
    decide +kernel

end Sample

end Pseudocode
