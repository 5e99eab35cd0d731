import Pseudocode.Memory
import Pseudocode.Proofs.Store

/-! # What the operations on memory do

Each operation either leaves the memory alone and fails, or makes one of four changes: it opens a
scope, closes the scope made last, extends a scope by a binding, perhaps with a cell of its own, or
writes to a cell. The changes are functions of their own here, and each operation is an equation
about them, so that later proofs need not open the operations again. -/

namespace Pseudocode

theorem map_modify_of_comm {α β : Type} {g : α → β} {f : α → α} {f' : β → β}
    (comm : ∀ a, g (f a) = f' (g a)) (as : Array α) (i : Nat) :
    (as.modify i f).map g = (as.map g).modify i f' := by
  apply Array.ext_getElem?
  intro j
  simp only [Array.getElem?_map, Array.getElem?_modify]
  split <;> simp [Function.comp_def, comm]

theorem Scope.lookup_map (g : Binding → Binding) (bindings : List (String × Binding))
    (name : String) :
    (bindings.map fun entry => (entry.1, g entry.2)).lookup name =
      (bindings.lookup name).map g := by
  induction bindings with
  | nil => rfl
  | cons entry rest ih =>
    obtain ⟨key, b⟩ := entry
    simp only [List.map_cons, List.lookup_cons]
    cases name == key with
    | true => rfl
    | false => exact ih

namespace Memory

/-! ## Changes -/

def opened (m : Memory) (parent : ScopeId) (label : String) : Memory :=
  { m with scopes := m.scopes.push { label, parent := some parent } }

def lastOwned (m : Memory) : List Handle :=
  ((m.scopes[m.scopes.size - 1]?).map (·.owned)).getD []

def closed (m : Memory) : Memory where
  store := m.store.releaseAll m.lastOwned
  scopes := m.scopes.pop

/-- The memory with one more binding in a scope, and with cells that the scope owns for it. -/
def extended (m : Memory) (id : ScopeId) (name : String) (b : Binding) (cells : List Handle)
    (store : Store) : Memory where
  store := store
  scopes := m.scopes.modify id fun scope =>
    { scope.bind name b with owned := cells ++ scope.owned }

def bound (m : Memory) (id : ScopeId) (name : String) (b : Binding) : Memory :=
  m.extended id name b [] m.store

def declared (m : Memory) (id : ScopeId) (name : String) (type : Ty) : Memory :=
  m.extended id name (.slot m.store.next) [(m.store.next : Handle)] (m.store.allocate type).2

def written (m : Memory) (h : Handle) (v : Value) : Memory :=
  { m with store := m.store.write h v }

section Scopes

variable (m : Memory) (id id' : ScopeId) (name : String)

theorem scopes_opened (parent : ScopeId) (label : String) :
    (m.opened parent label).scopes[id]? =
      if id = m.scopes.size then some { label, parent := some parent } else m.scopes[id]? :=
  Array.getElem?_push

theorem scopes_closed :
    m.closed.scopes[id]? = if id < m.scopes.size - 1 then m.scopes[id]? else none :=
  Array.getElem?_pop

theorem scopes_extended (b : Binding) (cells : List Handle) (store : Store) :
    (m.extended id name b cells store).scopes[id']? =
      if id = id' then
        m.scopes[id']?.map fun scope => { scope.bind name b with owned := cells ++ scope.owned }
      else m.scopes[id']? :=
  Array.getElem?_modify

@[simp] theorem size_opened (parent : ScopeId) (label : String) :
    (m.opened parent label).scopes.size = m.scopes.size + 1 :=
  Array.size_push _

@[simp] theorem size_closed : m.closed.scopes.size = m.scopes.size - 1 :=
  Array.size_pop

@[simp] theorem size_bound (b : Binding) : (m.bound id name b).scopes.size = m.scopes.size :=
  Array.size_modify

@[simp] theorem size_declared (type : Ty) :
    (m.declared id name type).scopes.size = m.scopes.size :=
  Array.size_modify

end Scopes

section Cells

variable {m : Memory} {h : Handle}

theorem cell?_closed (m : Memory) (h : Handle) :
    m.closed.store.cell? h = if h ∈ m.lastOwned then none else m.store.cell? h :=
  Store.cell?_releaseAll m.store m.lastOwned h

theorem cell?_declared (sound : m.store.Sound) (id : ScopeId) (name : String) (type : Ty)
    (h : Handle) :
    (m.declared id name type).store.cell? h =
      if h = m.store.next then some { type } else m.store.cell? h := by
  rw [declared, extended, sound.cell?_allocate, Store.allocate_fst]

theorem live_declared (sound : m.store.Sound) (id : ScopeId) (name : String) (type : Ty) :
    (m.declared id name type).store.Live m.store.next := by
  rw [Store.Live, cell?_declared sound, if_pos rfl]
  rfl

theorem cell?_written (live : m.store.Live h) (v : Value) (h' : Handle) :
    (m.written h v).store.cell? h' =
      if h' = h then (m.store.cell? h).map (fun cell => { cell with value := some v })
      else m.store.cell? h' :=
  Store.cell?_write live v h'

theorem live_written (live : m.store.Live h) (v : Value) (h' : Handle) :
    (m.written h v).store.Live h' ↔ m.store.Live h' := by
  rw [Store.Live, cell?_written live]
  split
  case isTrue same =>
    rw [same, Option.isSome_map]
    rfl
  case isFalse => rfl

end Cells

/-! ## Scopes changed all alike -/

section Alike

variable {m m' : Memory} {change : Scope → Scope} {g : Binding → Binding}
  (scopes : ∀ id : ScopeId, m'.scopes[id]? = m.scopes[id]?.map change)
  (find? : ∀ scope name, (change scope).find? name = (scope.find? name).map g)

include scopes find?

theorem has_of_map (id : ScopeId) (name : String) : m'.has id name = m.has id name := by
  rw [has, has, scopes]
  cases m.scopes[id]? with
  | none => rfl
  | some scope => simp only [Option.map_some, find?, Option.isSome_map]

/-- A change of bindings that keeps the names and the parents of scopes changes what a name
resolves to and nothing else. -/
theorem resolve?_of_map (parent : ∀ scope, (change scope).parent = scope.parent) (id : ScopeId)
    (name : String) : m'.resolve? id name = (m.resolve? id name).map g := by
  fun_induction m.resolve? id name with
  | case1 id missing =>
    rw [resolve?]
    simp only [scopes, missing, Option.map_none]
  | case2 id scope found b named =>
    rw [resolve?]
    simp only [scopes, found, Option.map_some, find?, named]
  | case3 id scope found unnamed orphan =>
    rw [resolve?]
    simp only [scopes, found, Option.map_some, find?, unnamed, Option.map_none, parent, orphan]
  | case4 id scope found unnamed above isParent below ih =>
    rw [resolve?]
    simp only [scopes, found, Option.map_some, find?, unnamed, Option.map_none, parent, isParent,
      if_pos below, ih]
  | case5 id scope found unnamed above isParent notBelow =>
    rw [resolve?]
    simp only [scopes, found, Option.map_some, find?, unnamed, Option.map_none, parent, isParent,
      if_neg notBelow]

end Alike

/-! ## Operations -/

section Runs

variable (m : Memory) (id : ScopeId) (name : String) (type : Ty)

theorem checkFree_run :
    (checkFree id name).run m =
      if m.has id name then .error (.of (.alreadyDeclared name)) m else .ok () m := by
  simp only [checkFree, EStateM.run_bind, EStateM.run_get]
  split <;> rfl

theorem child_run (label : String) :
    (child id label).run m = .ok m.scopes.size (m.opened id label) := rfl

theorem lookup_run :
    (lookup id name).run m =
      match m.resolve? id name with
      | none => .error (.of (.undefinedIdentifier name)) m
      | some (.constant v) => .ok v m
      | some (.slot h) =>
        match m.store.get h with
        | .ok v => .ok v m
        | .error cause => .error ((Fault.of cause).annotate name) m := by
  simp only [lookup, EStateM.run_bind, EStateM.run_get]
  cases m.resolve? id name with
  | none => rfl
  | some b =>
    cases b with
    | constant v => rfl
    | slot h =>
      simp only [EStateM.run_bind, EStateM.run_get]
      cases m.store.get h <;> rfl

theorem lookupVariable_run :
    (lookupVariable id name).run m =
      match m.resolve? id name with
      | none => .error (.of (.undefinedVariable name)) m
      | some (.constant _) => .error (.of (.isConstant name)) m
      | some (.slot h) => .ok h m := by
  simp only [lookupVariable, EStateM.run_bind, EStateM.run_get]
  cases m.resolve? id name with
  | none => rfl
  | some b => cases b <;> rfl

theorem declareVariable_run :
    (declareVariable id name type).run m =
      if m.has id name then .error (.of (.alreadyDeclared name)) m
      else .ok (m.store.next : Handle) (m.declared id name type) := by
  simp only [declareVariable, EStateM.run_bind, checkFree_run, EStateM.run_modifyGet,
    Store.allocate_fst]
  cases m.has id name <;> rfl

theorem declareConstant_run (v : Value) :
    (declareConstant id name type v).run m =
      if m.has id name then .error (.of (.alreadyDeclared name)) m
      else if type.accepts v then .ok () (m.bound id name (.constant v))
      else .error ((Fault.of (.notMember type v.described)).annotate name) m := by
  simp only [declareConstant, EStateM.run_bind, checkFree_run]
  cases m.has id name with
  | true => rfl
  | false =>
    simp only [Bool.false_eq_true, if_false]
    split <;> rfl

theorem bindReference_run (h : Handle) :
    (bindReference id name type h).run m =
      if m.has id name then .error (.of (.alreadyDeclared name)) m
      else if m.store.typeOf h = type then .ok () (m.bound id name (.slot h))
      else .error (.of (.referenceType name type (m.store.typeOf h))) m := by
  simp only [bindReference, EStateM.run_bind, checkFree_run]
  cases m.has id name with
  | true => rfl
  | false =>
    simp only [Bool.false_eq_true, if_false, EStateM.run_get]
    split <;> rfl

theorem writeAs_run (h : Handle) (v : Value) :
    (writeAs name h v).run m =
      match m.store.refusal? h v with
      | some cause => .error ((Fault.of cause).annotate name) m
      | none => .ok () (m.written h v) := by
  simp only [writeAs, EStateM.run_bind, EStateM.run_get]
  cases m.store.refusal? h v <;> rfl

theorem bindValue_run (v : Value) :
    (bindValue id name type v).run m =
      if m.has id name then .error (.of (.alreadyDeclared name)) m
      else (writeAs name (m.store.next : Handle) v).run (m.declared id name type) := by
  simp only [bindValue, EStateM.run_bind, declareVariable_run]
  cases m.has id name <;> rfl

theorem assign_run (v : Value) :
    (assign id name v).run m =
      match m.resolve? id name with
      | none => .error (.of (.undefinedVariable name)) m
      | some (.constant _) => .error (.of (.isConstant name)) m
      | some (.slot h) => (writeAs name h v).run m := by
  simp only [assign, EStateM.run_bind, lookupVariable_run]
  cases m.resolve? id name with
  | none => rfl
  | some b => cases b <;> rfl

def passReference (caller : ScopeId) (x : String) (callee : ScopeId) (name : String) (type : Ty) :
    Action Unit := do
  let slot ← lookupVariable caller x
  bindReference callee name type slot

theorem passReference_run (caller : ScopeId) (x : String) :
    (passReference caller x id name type).run m =
      match m.resolve? caller x with
      | none => .error (.of (.undefinedVariable x)) m
      | some (.constant _) => .error (.of (.isConstant x)) m
      | some (.slot h) => (bindReference id name type h).run m := by
  simp only [passReference, EStateM.run_bind, lookupVariable_run]
  cases m.resolve? caller x with
  | none => rfl
  | some b => cases b <;> rfl

def close (id : ScopeId) : Action Unit := do
  release id
  dropScope

theorem close_run (last : m.scopes.size = id + 1) : (close id).run m = .ok () m.closed := by
  simp only [close, EStateM.run_bind, release, dropScope, EStateM.run_modify]
  have position : id = m.scopes.size - 1 := Nat.eq_sub_of_add_eq last.symm
  have forgotten (f : Scope → Scope) : (m.scopes.modify id f).pop = m.scopes.pop := by
    apply Array.ext_getElem?
    intro i
    rw [Array.getElem?_pop, Array.getElem?_pop, Array.size_modify, Array.getElem?_modify]
    split
    case isTrue inside => rw [if_neg (position ▸ Nat.ne_of_gt inside)]
    case isFalse => rfl
  rw [forgotten]
  simp only [closed, lastOwned, ← position, Store.releaseAll]

end Runs

end Memory

end Pseudocode
