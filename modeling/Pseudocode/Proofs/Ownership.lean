import Mathlib.Data.List.Pairwise
import Pseudocode.Proofs.Scoping

/-! # Who owns the cells

`Memory.Sound` is what holds of the memory at every moment of a run. Every live cell is owned by one
scope, a variable is bound to a cell that its own scope or an earlier one owns, and what is stored
is of the declared type. It is enough that it holds for scopes and cells: what the rest of a
configuration needs, above all that no handle dangles, follows from it.

Each of the changes of the memory keeps it. Closing the scope made last is the delicate one. No
other scope may use its cells, which is so because a scope uses cells of earlier scopes and of
itself only. -/

namespace Pseudocode

/-- The cell that a binding stands for, if it is a variable. -/
def Binding.slot? : Binding → Option Handle
  | slot h => some h
  | constant _ => none

namespace Scope

def slots (scope : Scope) : List Handle :=
  scope.bindings.filterMap fun entry => entry.2.slot?

/-- Names are bound once, and the owned cells are those of variables that the scope itself declared,
in the order of their declaration. -/
structure Tidy (scope : Scope) : Prop where
  names : (scope.bindings.map Prod.fst).Nodup
  own : scope.owned = scope.slots.filter (· ∈ scope.owned)
  distinct : scope.owned.Nodup

theorem mem_slots {scope : Scope} {h : Handle} :
    h ∈ scope.slots ↔ ∃ name, (name, .slot h) ∈ scope.bindings := by
  simp only [slots, List.mem_filterMap]
  constructor
  · rintro ⟨⟨name, b⟩, member, isSlot⟩
    cases b with
    | constant v => cases isSlot
    | slot h' =>
      cases isSlot
      exact ⟨name, member⟩
  · rintro ⟨name, member⟩
    exact ⟨_, member, rfl⟩

theorem slots_bind (scope : Scope) (name : String) (b : Binding) :
    (scope.bind name b).slots = b.slot?.toList ++ scope.slots := by
  cases b <;> rfl

namespace Tidy

variable {scope : Scope} {name : String}

theorem empty (label : String) (parent : Option ScopeId) : Tidy { label, parent } :=
  ⟨List.nodup_nil, rfl, List.nodup_nil⟩

variable (tidy : scope.Tidy)

include tidy

theorem owned_subset : scope.owned ⊆ scope.slots := by
  intro h member
  rw [tidy.own] at member
  exact (List.mem_filter.mp member).1

section

variable (free : name ∉ scope.bindings.map Prod.fst)

include free

theorem names_bind (b : Binding) : ((scope.bind name b).bindings.map Prod.fst).Nodup :=
  List.nodup_cons.mpr ⟨free, tidy.names⟩

theorem bindConstant (v : Value) : (scope.bind name (.constant v)).Tidy :=
  ⟨tidy.names_bind free _, tidy.own, tidy.distinct⟩

theorem bindReference {h : Handle} (foreign : h ∉ scope.owned) :
    (scope.bind name (.slot h)).Tidy := by
  refine ⟨tidy.names_bind free _, ?_, tidy.distinct⟩
  rw [slots_bind]
  change scope.owned = (h :: scope.slots).filter (· ∈ scope.owned)
  rw [List.filter_cons_of_neg (by simpa using foreign)]
  exact tidy.own

theorem declare {h : Handle} (fresh : h ∉ scope.slots) :
    Tidy { scope.bind name (.slot h) with owned := h :: scope.owned } := by
  have absent : h ∉ scope.owned := fun member => fresh (tidy.owned_subset member)
  refine ⟨tidy.names_bind free _, ?_, List.nodup_cons.mpr ⟨absent, tidy.distinct⟩⟩
  change h :: scope.owned = (h :: scope.slots).filter (· ∈ h :: scope.owned)
  rw [List.filter_cons_of_pos (by simp)]
  congr 1
  refine tidy.own.trans (List.filter_congr fun other member => ?_)
  have different : other ≠ h := fun same => fresh (same ▸ member)
  simp [different]

end

/-- The variable that owns a cell is the only one of its scope with that cell. -/
theorem unique {x y : String} {h : Handle} (owned : h ∈ scope.owned)
    (first : (x, .slot h) ∈ scope.bindings) (second : (y, .slot h) ∈ scope.bindings) : x = y := by
  -- Among the slots an owned cell is listed once, so it cannot stand at two names.
  have distinct := tidy.distinct
  rw [tidy.own, slots, List.filter_filterMap, List.Nodup, List.pairwise_filterMap] at distinct
  by_contra different
  have : Std.Symm fun e e' : String × Binding =>
      ∀ b, e.2.slot?.filter (· ∈ scope.owned) = some b →
        ∀ b', e'.2.slot?.filter (· ∈ scope.owned) = some b' → b ≠ b' :=
    ⟨fun _ _ apart b hb b' hb' same => apart b' hb' b hb same.symm⟩
  have apart := distinct.forall first second (by simpa using different)
  have kept : (Binding.slot h).slot?.filter (· ∈ scope.owned) = some h := by
    simp [Binding.slot?, Option.filter, owned]
  exact apart h kept h kept rfl

end Tidy

end Scope

namespace Memory

/-- What holds of the memory at every moment of a run. -/
structure Sound (m : Memory) : Prop where
  store : m.store.Sound
  root : ∃ scope, m.scopes[0]? = some scope ∧ scope.parent = none
  ranked : m.Ranked
  tidy : ∀ (id : Nat) (scope : Scope), m.scopes[id]? = some scope → scope.Tidy
  constants : ∀ id name v, m.Binds id name (.constant v) → v.Fits m id
  slots : ∀ id name h, m.Binds id name (.slot h) → ∃ owner ≤ id, m.Owns owner h
  owner : ∀ id id' h, m.Owns id h → m.Owns id' h → id = id'
  live : ∀ h, m.store.Live h ↔ ∃ id, m.Owns id h
  cells : ∀ h cell, m.store.cell? h = some cell →
    cell.type.IsData ∧ ∀ v, cell.value = some v → cell.type.accepts v ∧ v.Plain

theorem has_eq_false {m : Memory} {id : ScopeId} {name : String} {scope : Scope}
    (free : m.has id name = false) (found : m.scopes[id]? = some scope) :
    name ∉ scope.bindings.map Prod.fst := by
  rw [has, found] at free
  intro member
  obtain ⟨⟨name', b⟩, inside, rfl⟩ := List.mem_map.mp member
  have missing : scope.bindings.lookup name' = none := by
    simpa [Scope.find?] using free
  have differs := List.lookup_eq_none_iff.mp missing _ inside
  simp at differs

theorem has_iff {m : Memory} {id : ScopeId} {name : String} :
    m.has id name = true ↔ ∃ b, m.Binds id name b := by
  constructor
  · intro present
    unfold has at present
    split at present
    case h_1 => cases present
    case h_2 scope found =>
      obtain ⟨b, named⟩ := Option.isSome_iff_exists.mp present
      exact ⟨b, scope, found, mem_of_find? named⟩
  · rintro ⟨b, scope, found, member⟩
    by_contra absent
    exact has_eq_false (Bool.eq_false_iff.mpr absent) found
      (List.mem_map.mpr ⟨_, member, rfl⟩)

namespace Sound

variable {m : Memory} {id : ScopeId} {name : String}

theorem size_pos (sound : m.Sound) : 0 < m.scopes.size := by
  obtain ⟨scope, found, -⟩ := sound.root
  exact (Array.getElem?_eq_some_iff.mp found).1

variable {h : Handle}

variable (sound : m.Sound)

include sound

/-- No variable dangles. -/
theorem live_of_binds (binds : m.Binds id name (.slot h)) : m.store.Live h := by
  obtain ⟨owner, -, owns⟩ := sound.slots id name h binds
  exact (sound.live h).mpr ⟨owner, owns⟩

theorem live_of_sees (sees : m.Sees id h) : m.store.Live h := by
  obtain ⟨a, name, -, binds⟩ := sees
  exact sound.live_of_binds binds

theorem live_of_resolve? (resolved : m.resolve? id name = some (.slot h)) : m.store.Live h :=
  sound.live_of_sees (resolve?_sees resolved)

/-- Cells do not show which scopes there are. -/
theorem of_store {store : Store} (tidy : store.Sound) (live : ∀ h, store.Live h ↔ m.store.Live h)
    (cells : ∀ h cell, store.cell? h = some cell →
      cell.type.IsData ∧ ∀ v, cell.value = some v → cell.type.accepts v ∧ v.Plain) :
    Sound { m with store } where
  store := tidy
  root := sound.root
  ranked := sound.ranked
  tidy := sound.tidy
  constants id name v binds :=
    (sound.constants id name v binds).kept sound.ranked (Kept.of_scopes_eq rfl) binds.lt_size
  slots := sound.slots
  owner := sound.owner
  live h := (live h).trans (sound.live h)
  cells := cells

theorem written {cell : Cell} {v : Value} (found : m.store.cell? h = some cell)
    (accepted : cell.type.accepts v) (plain : v.Plain) : (m.written h v).Sound := by
  have alive : m.store.Live h := Store.live_iff.mpr ⟨cell, found⟩
  apply sound.of_store (sound.store.write h v) (live_written alive v)
  · intro h' cell' found'
    rw [Store.cell?_write alive] at found'
    split at found'
    · rw [found] at found'
      cases found'
      refine ⟨(sound.cells h cell found).1, fun w written => ?_⟩
      cases written
      exact ⟨accepted, plain⟩
    · exact sound.cells h' cell' found'

theorem opened {parent : ScopeId} (inside : parent < m.scopes.size) (label : String) :
    (m.opened parent label).Sound := by
  have kept := Kept.opened m parent label
  refine ⟨sound.store, ?root, ?ranked, ?tidy, ?constants, ?slots, ?owner, ?live, sound.cells⟩
  case root =>
    obtain ⟨scope, found, orphan⟩ := sound.root
    refine ⟨scope, ?_, orphan⟩
    rw [scopes_opened, if_neg (Nat.ne_of_lt sound.size_pos)]
    exact found
  case ranked =>
    intro id scope parent' found isParent
    rw [scopes_opened] at found
    split at found
    case isTrue last =>
      cases found
      cases isParent
      exact last ▸ inside
    case isFalse => exact sound.ranked id scope parent' found isParent
  case tidy =>
    intro id scope found
    rw [scopes_opened] at found
    split at found
    · cases found
      exact .empty _ _
    · exact sound.tidy id scope found
  case constants =>
    intro id name v binds
    have old := binds_opened.mp binds
    exact (sound.constants id name v old).kept sound.ranked kept old.lt_size
  case slots =>
    intro id name h binds
    simp only [owns_opened]
    exact sound.slots id name h (binds_opened.mp binds)
  case owner =>
    intro id id' h first second
    exact sound.owner id id' h (owns_opened.mp first) (owns_opened.mp second)
  case live =>
    intro h
    simp only [owns_opened]
    exact sound.live h

/-- The cells of the scope made last are the ones that `lastOwned` lists. -/
theorem mem_lastOwned : h ∈ m.lastOwned ↔ m.Owns (m.scopes.size - 1) h := by
  have inside : m.scopes.size - 1 < m.scopes.size := Nat.sub_one_lt_of_lt sound.size_pos
  obtain ⟨scope, found⟩ := exists_scope inside
  simp [lastOwned, Owns, found]

theorem live_of_lastOwned (owned : h ∈ m.lastOwned) : m.store.Live h :=
  (sound.live h).mpr ⟨_, sound.mem_lastOwned.mp owned⟩

theorem nodup_lastOwned : m.lastOwned.Nodup := by
  have inside : m.scopes.size - 1 < m.scopes.size := Nat.sub_one_lt_of_lt sound.size_pos
  obtain ⟨scope, found⟩ := exists_scope inside
  have owned : m.lastOwned = scope.owned := by simp [lastOwned, found]
  rw [owned]
  exact (sound.tidy _ scope found).distinct

theorem closed (nested : 1 < m.scopes.size) : m.closed.Sound := by
  have kept := Kept.closed m
  have store : m.closed.store.Sound := sound.store.releaseAll m.lastOwned
  refine ⟨store, ?root, ?ranked, ?tidy, ?constants, ?slots, ?owner, ?live, ?cells⟩
  case root =>
    obtain ⟨scope, found, orphan⟩ := sound.root
    refine ⟨scope, ?_, orphan⟩
    rw [scopes_closed, if_pos (Nat.sub_pos_of_lt nested)]
    exact found
  case ranked =>
    intro id scope parent found isParent
    rw [scopes_closed] at found
    split at found
    · exact sound.ranked id scope parent found isParent
    · cases found
  case tidy =>
    intro id scope found
    rw [scopes_closed] at found
    split at found
    · exact sound.tidy id scope found
    · cases found
  case constants =>
    intro id name v binds
    obtain ⟨old, below⟩ := binds_closed.mp binds
    exact (sound.constants id name v old).kept sound.ranked kept below
  case slots =>
    -- An earlier scope uses cells of even earlier ones, which stay.
    intro id name h binds
    obtain ⟨old, below⟩ := binds_closed.mp binds
    obtain ⟨owner, le, owns⟩ := sound.slots id name h old
    exact ⟨owner, le, owns_closed.mpr ⟨owns, Nat.lt_of_le_of_lt le below⟩⟩
  case owner =>
    intro id id' h first second
    exact sound.owner id id' h (owns_closed.mp first).1 (owns_closed.mp second).1
  case live =>
    intro h
    rw [Store.Live, cell?_closed]
    split
    case isTrue released =>
      have last := sound.mem_lastOwned.mp released
      simp only [Option.isSome_none, Bool.false_eq_true, false_iff, not_exists]
      intro id owns
      obtain ⟨old, below⟩ := owns_closed.mp owns
      exact Nat.ne_of_lt below (sound.owner _ _ h old last)
    case isFalse other =>
      refine (sound.live h).trans (exists_congr fun id => ?_)
      refine ⟨fun owns => owns_closed.mpr ⟨owns, ?_⟩, fun owns => (owns_closed.mp owns).1⟩
      have notLast : id ≠ m.scopes.size - 1 := by
        rintro rfl
        exact other (sound.mem_lastOwned.mpr owns)
      exact Nat.lt_of_le_of_ne (Nat.le_sub_one_of_lt owns.lt_size) notLast
  case cells =>
    intro h cell found
    rw [cell?_closed] at found
    split at found
    · cases found
    · exact sound.cells h cell found

variable (inside : id < m.scopes.size)

include inside

/-- One more binding keeps the memory sound if its scope stays tidy, a constant fits the scope, a
variable has one of the new cells or one that can be referred to, and the new cells are new. -/
theorem extended {b : Binding} {cells : List Handle} {store : Store}
    (tidy : ∀ scope, m.scopes[id]? = some scope →
      Scope.Tidy { scope.bind name b with owned := cells ++ scope.owned })
    (constant : ∀ v, b = .constant v → v.Fits m id)
    (slot : ∀ h, b = .slot h → h ∈ cells ∨ ∃ owner ≤ id, m.Owns owner h)
    (fresh : ∀ h ∈ cells, ¬ m.store.Live h) (storeSound : store.Sound)
    (live : ∀ h, store.Live h ↔ m.store.Live h ∨ h ∈ cells)
    (typed : ∀ h cell, store.cell? h = some cell →
      cell.type.IsData ∧ ∀ v, cell.value = some v → cell.type.accepts v ∧ v.Plain) :
    (m.extended id name b cells store).Sound := by
  have kept := Kept.extended m.scopes.size m id name b cells store
  refine ⟨storeSound, ?root, ?ranked, ?tidy, ?constants, ?slots, ?owner, ?live, typed⟩
  case root =>
    obtain ⟨scope, found, orphan⟩ := sound.root
    obtain ⟨scope', found', parent', -⟩ := kept 0 scope sound.size_pos found
    exact ⟨scope', found', parent'.trans orphan⟩
  case ranked =>
    intro id' scope parent found isParent
    obtain ⟨before, foundBefore, rfl | ⟨-, rfl⟩⟩ := scope_of_extended found <;>
      exact sound.ranked id' before parent foundBefore isParent
  case tidy =>
    intro id' scope found
    obtain ⟨before, foundBefore, rfl | ⟨rfl, rfl⟩⟩ := scope_of_extended found
    · exact sound.tidy id' before foundBefore
    · exact tidy before foundBefore
  case constants =>
    intro id' name' v binds
    rcases (binds_extended inside).mp binds with before | ⟨rfl, -, same⟩
    · exact (sound.constants id' name' v before).kept sound.ranked kept before.lt_size
    · exact (constant v same.symm).kept sound.ranked kept inside
  case slots =>
    intro id' name' h binds
    simp only [owns_extended inside]
    rcases (binds_extended inside).mp binds with before | ⟨rfl, -, same⟩
    · obtain ⟨owner, le, owns⟩ := sound.slots id' name' h before
      exact ⟨owner, le, .inl owns⟩
    · rcases slot h same.symm with new | ⟨owner, le, owns⟩
      · exact ⟨id', Nat.le_refl _, .inr ⟨rfl, new⟩⟩
      · exact ⟨owner, le, .inl owns⟩
  case owner =>
    intro i j h first second
    rcases (owns_extended inside).mp first with owns | ⟨rfl, new⟩ <;>
      rcases (owns_extended inside).mp second with owns' | ⟨rfl, new'⟩
    · exact sound.owner i j h owns owns'
    · exact absurd ((sound.live h).mpr ⟨i, owns⟩) (fresh h new')
    · exact absurd ((sound.live h).mpr ⟨j, owns'⟩) (fresh h new)
    · rfl
  case live =>
    intro h
    change store.Live h ↔ _
    simp only [live, sound.live, owns_extended inside, exists_or, exists_eq_left]

variable (free : m.has id name = false)

include free

theorem boundConstant {v : Value} (fits : v.Fits m id) : (m.bound id name (.constant v)).Sound := by
  apply sound.extended inside
  · intro scope found
    exact (sound.tidy id scope found).bindConstant (has_eq_false free found) v
  · intro v' same
    cases same
    exact fits
  · intro h same
    cases same
  · simp
  · exact sound.store
  · simp
  · exact sound.cells

/-- A reference is bound in a later scope than the one that owns the cell. -/
theorem boundReference {owner : ScopeId} (owns : m.Owns owner h) (earlier : owner < id) :
    (m.bound id name (.slot h)).Sound := by
  apply sound.extended inside
  · intro scope found
    have foreign : h ∉ scope.owned := fun member =>
      Nat.ne_of_lt earlier (sound.owner _ _ h owns ⟨scope, found, member⟩)
    exact (sound.tidy id scope found).bindReference (has_eq_false free found) foreign
  · intro v same
    cases same
  · intro h' same
    cases same
    exact .inr ⟨owner, Nat.le_of_lt earlier, owns⟩
  · simp
  · exact sound.store
  · simp
  · exact sound.cells

theorem declared {type : Ty} (data : type.IsData) : (m.declared id name type).Sound := by
  have cell? := cell?_declared sound.store id name type
  have unused : ¬ m.store.Live m.store.next := fun live => sound.store.ne_next live rfl
  apply sound.extended inside
  · intro scope found
    apply (sound.tidy id scope found).declare (has_eq_false free found)
    intro member
    obtain ⟨name', bound⟩ := Scope.mem_slots.mp member
    exact unused (sound.live_of_binds ⟨scope, found, bound⟩)
  · intro v same
    cases same
  · intro h same
    cases same
    exact .inl List.mem_cons_self
  · intro h member
    rw [List.mem_singleton.mp member]
    exact unused
  · exact sound.store.allocate type
  · intro h
    change (m.declared id name type).store.Live h ↔ _
    rw [Store.Live, cell?, List.mem_singleton, Store.Live]
    split
    case isTrue same => simp [same]
    case isFalse different => simp [different]
  · intro h cell found
    replace found := (cell? h).symm.trans found
    split at found
    · cases found
      exact ⟨data, by simp⟩
    · exact sound.cells h cell found

end Sound

end Memory

end Pseudocode
