import Pseudocode.Proofs.Memory

/-! # Names, scopes and the values that belong to them

A scope sees the bindings of its static chain: its own, its parent's, and so on. A value may hold a
routine, and a routine is tied to the scope it was defined in; `Value.Fits` says that a value may be
used in a scope, because every routine in it was defined on the scope's static chain. Values of the
types that programs can declare variables with are tied to no scope at all. -/

namespace Pseudocode

/-! ## Values that are tied to no scope -/

/-- What is true of the three numbers of a date of the language. -/
def Date.Valid (d : Date) : Prop :=
  1973 < d.year ∧ (1 ≤ d.month ∧ d.month ≤ 12) ∧ (1 ≤ d.day ∧ d.day ≤ 31)

theorem Date.flaw?_eq_none {d : Date} : d.flaw? = none ↔ d.Valid := by
  unfold Date.flaw? Date.Valid
  repeat' split
  all_goals simp
  all_goals omega

/-- Whether programs can declare variables of the kind. -/
def Kind.isData : Kind → Bool
  | procedure | function | type => false
  | _ => true

/-- The types that programs can declare variables with. -/
def Ty.IsData : Ty → Prop
  | of kind => kind.isData
  | _ => False

/-- A value of a data type; a date among them is one of the language. -/
def Value.Plain : Value → Prop
  | integer _ | real _ | string _ | char _ | boolean _ => True
  | date d => d.Valid
  | _ => False

/-! ## Static chains -/

namespace Memory

def Binds (m : Memory) (id : ScopeId) (name : String) (b : Binding) : Prop :=
  ∃ scope, m.scopes[id]? = some scope ∧ (name, b) ∈ scope.bindings

/-- The cell was allocated for a variable of the scope. -/
def Owns (m : Memory) (id : ScopeId) (h : Handle) : Prop :=
  ∃ scope, m.scopes[id]? = some scope ∧ h ∈ scope.owned

/-- `OnChain m a id`: the scope `a` is `id`, its parent, the parent of that, and so on. -/
inductive OnChain (m : Memory) : ScopeId → ScopeId → Prop where
  | here {id scope} : m.scopes[id]? = some scope → OnChain m id id
  | up {a id parent scope} : m.scopes[id]? = some scope → scope.parent = some parent →
      OnChain m a parent → OnChain m a id

/-- The slot belongs to a variable that can be seen from the scope. -/
def Sees (m : Memory) (id : ScopeId) (h : Handle) : Prop :=
  ∃ a name, m.OnChain a id ∧ m.Binds a name (.slot h)

/-- Parents were made before their children. -/
def Ranked (m : Memory) : Prop :=
  ∀ (id : Nat) (scope : Scope) (parent : Nat), m.scopes[id]? = some scope →
    scope.parent = some parent → parent < id

variable {m : Memory} {id : ScopeId} {name : String}

theorem Binds.lt_size {b : Binding} (binds : m.Binds id name b) : id < m.scopes.size := by
  obtain ⟨scope, found, -⟩ := binds
  exact (Array.getElem?_eq_some_iff.mp found).1

theorem Owns.lt_size {h : Handle} (owns : m.Owns id h) : id < m.scopes.size := by
  obtain ⟨scope, found, -⟩ := owns
  exact (Array.getElem?_eq_some_iff.mp found).1

theorem exists_scope (inside : id < m.scopes.size) : ∃ scope, m.scopes[id]? = some scope :=
  ⟨m.scopes[id], Array.getElem?_eq_getElem inside⟩

theorem OnChain.refl (inside : id < m.scopes.size) : m.OnChain id id := by
  obtain ⟨scope, found⟩ := exists_scope inside
  exact .here found

theorem OnChain.trans {a b c : ScopeId} (first : m.OnChain a b) (second : m.OnChain b c) :
    m.OnChain a c := by
  induction second with
  | here => exact first
  | up found parent _ ih => exact .up found parent ih

theorem OnChain.le (ranked : m.Ranked) {a : ScopeId} (chain : m.OnChain a id) : a ≤ id := by
  induction chain with
  | here => exact Nat.le_refl _
  | up found parent _ ih => exact Nat.le_trans ih (Nat.le_of_lt (ranked _ _ _ found parent))

theorem OnChain.lt_size {a : ScopeId} (chain : m.OnChain a id) : a < m.scopes.size := by
  induction chain with
  | here found => exact (Array.getElem?_eq_some_iff.mp found).1
  | up _ _ _ ih => exact ih

theorem mem_of_find? {scope : Scope} {b : Binding} (found : scope.find? name = some b) :
    (name, b) ∈ scope.bindings := by
  obtain ⟨before, after, same, -⟩ := List.lookup_eq_some_iff.mp found
  rw [same]
  exact List.mem_append_right _ List.mem_cons_self

/-- A name resolves to a binding of a scope on the static chain. -/
theorem resolve?_onChain {b : Binding} (resolved : m.resolve? id name = some b) :
    ∃ a, m.OnChain a id ∧ m.Binds a name b := by
  fun_induction m.resolve? id name with
  | case1 => cases resolved
  | case2 id scope found b' named =>
    cases resolved
    exact ⟨id, .here found, scope, found, mem_of_find? named⟩
  | case3 => cases resolved
  | case4 id scope found _ parent isParent _ ih =>
    obtain ⟨a, chain, binds⟩ := ih resolved
    exact ⟨a, .up found isParent chain, binds⟩
  | case5 => cases resolved

theorem resolve?_sees {h : Handle} (resolved : m.resolve? id name = some (.slot h)) :
    m.Sees id h := by
  obtain ⟨a, chain, binds⟩ := resolve?_onChain resolved
  exact ⟨a, name, chain, binds⟩

/-! ## Bindings and owners after a change -/

section Changes

variable {m : Memory} {id id' : ScopeId} {name name' : String} {b b' : Binding} {h : Handle}

variable {parent : ScopeId} {cells : List Handle} {label : String} {store : Store}

/-- What is not true of an empty scope is true of the same scopes after one more is made. -/
theorem exists_opened {P : Scope → Prop} (empty : ¬ P { label, parent := some parent }) :
    (∃ scope, (m.opened parent label).scopes[id]? = some scope ∧ P scope) ↔
      ∃ scope, m.scopes[id]? = some scope ∧ P scope := by
  simp only [scopes_opened]
  constructor
  · rintro ⟨scope, found, holds⟩
    split at found
    · cases found
      exact (empty holds).elim
    · exact ⟨scope, found, holds⟩
  · rintro ⟨scope, found, holds⟩
    have inside := (Array.getElem?_eq_some_iff.mp found).1
    exact ⟨scope, (if_neg (Nat.ne_of_lt inside)).trans found, holds⟩

theorem exists_closed {P : Scope → Prop} :
    (∃ scope, m.closed.scopes[id]? = some scope ∧ P scope) ↔
      (∃ scope, m.scopes[id]? = some scope ∧ P scope) ∧ id < m.scopes.size - 1 := by
  simp only [scopes_closed]
  constructor
  · rintro ⟨scope, found, holds⟩
    split at found
    case isTrue inside => exact ⟨⟨scope, found, holds⟩, inside⟩
    case isFalse => cases found
  · rintro ⟨⟨scope, found, holds⟩, inside⟩
    exact ⟨scope, (if_pos inside).trans found, holds⟩

theorem binds_opened : (m.opened parent label).Binds id name b ↔ m.Binds id name b :=
  exists_opened List.not_mem_nil

theorem owns_opened : (m.opened parent label).Owns id h ↔ m.Owns id h :=
  exists_opened List.not_mem_nil

theorem binds_closed :
    m.closed.Binds id name b ↔ m.Binds id name b ∧ id < m.scopes.size - 1 :=
  exists_closed

theorem owns_closed : m.closed.Owns id h ↔ m.Owns id h ∧ id < m.scopes.size - 1 :=
  exists_closed

theorem binds_extended (inside : id < m.scopes.size) :
    (m.extended id name b cells store).Binds id' name' b' ↔
      m.Binds id' name' b' ∨ (id' = id ∧ name' = name ∧ b' = b) := by
  simp only [Binds, scopes_extended]
  obtain ⟨scope, found⟩ := exists_scope inside
  by_cases same : id = id'
  · subst same
    simp [found, Scope.bind, or_comm]
  · simp [same, Ne.symm same]

/-- A scope of the new memory is an old one, or an old one with the binding put in front. -/
theorem scope_of_extended {scope : Scope}
    (found : (m.extended id name b cells store).scopes[id']? = some scope) :
    ∃ before, m.scopes[id']? = some before ∧ (before = scope ∨
      (id = id' ∧ { before.bind name b with owned := cells ++ before.owned } = scope)) := by
  rw [scopes_extended] at found
  split at found
  case isTrue same =>
    obtain ⟨before, foundBefore, put⟩ := Option.map_eq_some_iff.mp found
    exact ⟨before, foundBefore, .inr ⟨same, put⟩⟩
  case isFalse => exact ⟨scope, found, .inl rfl⟩

theorem of_binds_extended (binds : (m.extended id name b cells store).Binds id' name' b') :
    m.Binds id' name' b' ∨ b' = b := by
  obtain ⟨scope, found, member⟩ := binds
  obtain ⟨before, foundBefore, rfl | ⟨-, rfl⟩⟩ := scope_of_extended found
  · exact .inl ⟨before, foundBefore, member⟩
  · rcases List.mem_cons.mp member with same | earlier
    · exact .inr (Prod.mk.inj same).2
    · exact .inl ⟨before, foundBefore, earlier⟩

/-- The scope made last goes; the others keep their bindings. -/
theorem of_binds_close {m' : Memory} (ran : (close id).run m = .ok () m')
    (binds : m'.Binds id' name b) : m.Binds id' name b := by
  cases ran
  obtain ⟨scope, found, member⟩ := binds
  change (m.scopes.modify id fun scope => { scope with owned := [] }).pop[id']? = some scope
    at found
  rw [Array.getElem?_pop, Array.getElem?_modify] at found
  split at found
  · split at found
    · obtain ⟨before, foundBefore, rfl⟩ := Option.map_eq_some_iff.mp found
      exact ⟨before, foundBefore, member⟩
    · exact ⟨scope, found, member⟩
  · cases found

theorem owns_extended (inside : id < m.scopes.size) :
    (m.extended id name b cells store).Owns id' h ↔ m.Owns id' h ∨ (id' = id ∧ h ∈ cells) := by
  simp only [Owns, scopes_extended]
  obtain ⟨scope, found⟩ := exists_scope inside
  by_cases same : id = id'
  · subst same
    simp [found, or_comm]
  · simp [same, Ne.symm same]

end Changes

/-! ## What stays when the memory changes -/

/-- The first `size` scopes keep their parents and their bindings. -/
def Kept (size : Nat) (m m' : Memory) : Prop :=
  ∀ id scope, id < size → m.scopes[id]? = some scope →
    ∃ scope', m'.scopes[id]? = some scope' ∧ scope'.parent = scope.parent ∧
      scope.bindings ⊆ scope'.bindings

namespace Kept

variable {m m' : Memory} {size : Nat}

theorem refl (size : Nat) (m : Memory) : Kept size m m :=
  fun _ scope _ found => ⟨scope, found, rfl, fun _ member => member⟩

theorem trans {m'' : Memory} (first : Kept size m m') (second : Kept size m' m'') :
    Kept size m m'' := by
  intro id scope inside found
  obtain ⟨scope', found', parent', bindings'⟩ := first id scope inside found
  obtain ⟨scope'', found'', parent'', bindings''⟩ := second id scope' inside found'
  exact ⟨scope'', found'', parent''.trans parent', List.Subset.trans bindings' bindings''⟩

theorem mono {small : Nat} (kept : Kept size m m') (le : small ≤ size) : Kept small m m' :=
  fun id scope inside found => kept id scope (Nat.lt_of_lt_of_le inside le) found

theorem of_scopes_eq (same : m'.scopes = m.scopes) : Kept size m m' := by
  intro id scope _ found
  exact ⟨scope, same ▸ found, rfl, fun _ member => member⟩

theorem opened (m : Memory) (parent : ScopeId) (label : String) :
    Kept m.scopes.size m (m.opened parent label) := by
  intro id scope inside found
  refine ⟨scope, ?_, rfl, fun _ member => member⟩
  rw [scopes_opened, if_neg (Nat.ne_of_lt inside)]
  exact found

theorem closed (m : Memory) : Kept (m.scopes.size - 1) m m.closed := by
  intro id scope inside found
  refine ⟨scope, ?_, rfl, fun _ member => member⟩
  rw [scopes_closed, if_pos inside]
  exact found

theorem extended (size : Nat) (m : Memory) (id : ScopeId) (name : String) (b : Binding)
    (cells : List Handle) (store : Store) : Kept size m (m.extended id name b cells store) := by
  intro id' scope _ found
  rw [scopes_extended, found]
  split
  · exact ⟨_, rfl, rfl, List.subset_cons_self _ _⟩
  · exact ⟨scope, rfl, rfl, fun _ member => member⟩

theorem binds {id : ScopeId} {name : String} {b : Binding} (kept : Kept size m m')
    (inside : id < size) (binds : m.Binds id name b) : m'.Binds id name b := by
  obtain ⟨scope, found, member⟩ := binds
  obtain ⟨scope', found', -, bindings⟩ := kept id scope inside found
  exact ⟨scope', found', bindings member⟩

theorem onChain {a id : ScopeId} (kept : Kept size m m') (ranked : m.Ranked)
    (chain : m.OnChain a id) (inside : id < size) : m'.OnChain a id := by
  induction chain with
  | here found =>
    obtain ⟨scope', found', -, -⟩ := kept _ _ inside found
    exact .here found'
  | up found parent _ ih =>
    obtain ⟨scope', found', parent', -⟩ := kept _ _ inside found
    have below := Nat.lt_trans (ranked _ _ _ found parent) inside
    exact .up found' (parent'.trans parent) (ih below)

theorem sees {id : ScopeId} {h : Handle} (kept : Kept size m m') (ranked : m.Ranked)
    (sees : m.Sees id h) (inside : id < size) : m'.Sees id h := by
  obtain ⟨a, name, chain, binds⟩ := sees
  have below := Nat.lt_of_le_of_lt (chain.le ranked) inside
  exact ⟨a, name, kept.onChain ranked chain inside, kept.binds below binds⟩

end Kept

end Memory

/-! ## Values that fit a scope -/

/-- The routine was defined on the static chain of the scope, and its parameters have data types. -/
structure Routine.Fits (m : Memory) (id : ScopeId) (r : Routine) : Prop where
  home : m.OnChain r.home id
  params : ∀ p ∈ r.params, p.type.IsData

/-- The value may be used in the scope. -/
def Value.Fits (m : Memory) (id : ScopeId) : Value → Prop
  | nothing => False
  | date d => d.Valid
  | procedure r => r.Fits m id
  | function r result => r.Fits m id ∧ result.IsData
  | type t => t.IsData
  | _ => True

variable {v : Value} {m : Memory} {id : ScopeId}

theorem Value.Plain.fits (plain : v.Plain) (m : Memory) (id : ScopeId) : v.Fits m id := by
  cases v with
  | integer | real | string | char | boolean => trivial
  | date d => exact plain
  | nothing | procedure | function | type => exact plain.elim

theorem Value.kind?_of_accepts {t : Ty} (accepted : t.accepts v = true) :
    ∃ kind, t = .of kind ∧ v.kind? = some kind := by
  cases t with
  | of kind => exact ⟨kind, rfl, of_decide_eq_true accepted⟩
  | bare | absent => cases accepted

/-- What fits a scope and is accepted by a data type is tied to no scope. -/
theorem Value.Fits.plain {type : Ty} (fits : v.Fits m id) (data : type.IsData)
    (accepted : type.accepts v) : v.Plain := by
  cases type with
  | bare | absent => exact data.elim
  | of kind =>
    have sort : v.kind? = some kind := by simpa [Ty.accepts] using accepted
    cases v with
    | integer | real | string | char | boolean => trivial
    | date d => exact fits
    | nothing => cases sort
    | procedure | function | type =>
      cases sort
      cases data

theorem Routine.Fits.onChain {a : ScopeId} {r : Routine} (fits : r.Fits m a)
    (chain : m.OnChain a id) : r.Fits m id :=
  ⟨fits.home.trans chain, fits.params⟩

theorem Value.Fits.onChain {a : ScopeId} (fits : v.Fits m a) (chain : m.OnChain a id) :
    v.Fits m id := by
  cases v with
  | integer | real | string | char | boolean => trivial
  | nothing | date | type => exact fits
  | procedure r => exact Routine.Fits.onChain fits chain
  | function r result => exact ⟨fits.1.onChain chain, fits.2⟩

theorem Routine.Fits.kept {m' : Memory} {size : Nat} {r : Routine} (fits : r.Fits m id)
    (ranked : m.Ranked) (kept : Memory.Kept size m m') (inside : id < size) : r.Fits m' id :=
  ⟨kept.onChain ranked fits.home inside, fits.params⟩

theorem Value.Fits.kept {m' : Memory} {size : Nat} (fits : v.Fits m id) (ranked : m.Ranked)
    (kept : Memory.Kept size m m') (inside : id < size) : v.Fits m' id := by
  cases v with
  | integer | real | string | char | boolean => trivial
  | nothing | date | type => exact fits
  | procedure r => exact Routine.Fits.kept fits ranked kept inside
  | function r result => exact ⟨fits.1.kept ranked kept inside, fits.2⟩

end Pseudocode
