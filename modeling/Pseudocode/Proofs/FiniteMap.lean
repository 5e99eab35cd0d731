import Mathlib.Data.Finmap
import Pseudocode.Proofs.Store

/-! # The store as a finite map

Nothing of the free list or of the order of places can be seen from outside. Whatever is asked of the
store, with whatever handles, it answers as a finite map from handles to cells would, one that
chooses the handle of a new cell among those it does not hold. The exchange is described on the side
of the map alone: which answers it may give, and which map it is afterwards.

The converse holds as well. A store that recycles handles and answers as a map does, to all
questions that can follow, has each released place on its free list once and nothing else there. -/

namespace Pseudocode

namespace Store

inductive Operation where
  | allocate (type : Ty)
  | release (h : Handle)
  | set (h : Handle) (v : Value)
  | get (h : Handle)
  | typeOf (h : Handle)
  | isSet (h : Handle)
  | live

inductive Response where
  | handle (h : Handle)
  | done
  | refused (cause : Cause)
  | value (v : Value)
  | type (t : Ty)
  | truth (b : Bool)
  | count (n : Nat)

def perform (s : Store) : Operation → Response × Store
  | .allocate type => (.handle (s.allocate type).1, (s.allocate type).2)
  | .release h => (.done, s.release h)
  | .set h v =>
    match s.set h v with
    | .ok s' => (.done, s')
    | .error cause => (.refused cause, s)
  | .get h =>
    match s.get h with
    | .ok v => (.value v, s)
    | .error cause => (.refused cause, s)
  | .typeOf h => (.type (s.typeOf h), s)
  | .isSet h => (.truth (s.isSet h), s)
  | .live => (.count s.live, s)

def after (s : Store) : List Operation → Store
  | [] => s
  | operation :: rest => after (s.perform operation).2 rest

def dialogue (s : Store) : List Operation → List (Operation × Response)
  | [] => []
  | operation :: rest =>
    (operation, (s.perform operation).1) :: dialogue (s.perform operation).2 rest

/-- The free list names the places without a cell, each of them once, and nothing else. -/
def ListsReleased (s : Store) : Prop :=
  s.free.Nodup ∧ ∀ i, i ∈ s.free ↔ i < s.cells.size ∧ ¬s.Live (i : Handle)

theorem listsReleased_iff {s : Store} : s.ListsReleased ↔ s.Sound := by
  have hole (i : Nat) : i < s.cells.size ∧ ¬s.Live (i : Handle) ↔ s.cells[i]? = some none := by
    rw [Live, cell?_natCast, Option.not_isSome_iff_eq_none]
    by_cases inside : i < s.cells.size
    · simp [inside]
    · simp [inside]
  constructor
  · intro lists
    exact ⟨lists.1, fun i => (lists.2 i).trans (hole i)⟩
  · intro sound
    exact ⟨sound.distinct, fun i => (sound.released i).trans (hole i).symm⟩

end Store

/-! ## The map -/

/-- A finite map from handles to cells. -/
abbrev Table := Finmap fun _ : Handle => Cell

namespace Table

open Store (Operation Response)

/-- Whether the map may give this answer. Only the handle of a new cell is a choice. -/
def Permits (t : Table) : Operation → Response → Prop
  | .allocate _, response => ∃ h, h ∉ t ∧ response = .handle h
  | .release _, response => response = .done
  | .set h v, response =>
    match t.lookup h with
    | none => response = .refused (.notLive h)
    | some cell =>
      response =
        if cell.type.accepts v then .done else .refused (.notMember cell.type v.described)
  | .get h, response =>
    match t.lookup h with
    | none => response = .refused (.notLive h)
    | some cell => response = cell.value.elim (.refused (.unassigned cell.type)) .value
  | .typeOf h, response => response = .type ((t.lookup h).elim .absent Cell.type)
  | .isSet h, response => response = .truth ((t.lookup h).any (·.value.isSome))
  | .live, response => response = .count t.keys.card

def next (t : Table) : Operation → Response → Table
  | .allocate type, .handle h => t.insert h { type }
  | .release h, _ => t.erase h
  | .set h v, _ =>
    match t.lookup h with
    | none => t
    | some cell => if cell.type.accepts v then t.insert h { cell with value := some v } else t
  | _, _ => t

/-- Whether the answers are those of the map. -/
def Explains (t : Table) : List (Operation × Response) → Prop
  | [] => True
  | (operation, response) :: rest =>
    t.Permits operation response ∧ Explains (t.next operation response) rest

end Table

namespace Store

/-- The store answers as the map does, whatever it is asked. -/
def Follows (s : Store) (t : Table) : Prop :=
  ∀ operations, t.Explains (s.dialogue operations)

/-- The map holds the cells of the store. -/
def Mirrors (s : Store) (t : Table) : Prop :=
  ∀ h, t.lookup h = s.cell? h

theorem Mirrors.mem_iff {s : Store} {t : Table} (mirrors : s.Mirrors t) (h : Handle) :
    h ∈ t ↔ s.Live h := by
  rw [← Finmap.lookup_isSome, mirrors h, Live]

/-! ## One answer -/

section Answer

variable {s : Store} {t : Table}

theorem Sound.perform (sound : s.Sound) (operation : Operation) :
    (s.perform operation).2.Sound := by
  cases operation with
  | allocate type => exact sound.allocate type
  | release h => exact sound.release h
  | set h v =>
    rw [Store.perform, Store.set]
    cases s.refusal? h v with
    | none => exact sound.write h v
    | some cause => exact sound
  | get h =>
    rw [Store.perform]
    cases s.get h <;> exact sound
  | typeOf h => exact sound
  | isSet h => exact sound
  | live => exact sound

theorem Mirrors.card_keys (sound : s.Sound) (mirrors : s.Mirrors t) : t.keys.card = s.live := by
  rw [← Finset.length_toList]
  refine (sound.live_eq_length (Finset.nodup_toList _) fun h => ?_).symm
  rw [Finset.mem_toList, Finmap.mem_keys, mirrors.mem_iff]

theorem Mirrors.permits (sound : s.Sound) (mirrors : s.Mirrors t) (operation : Operation) :
    t.Permits operation (s.perform operation).1 := by
  cases operation with
  | allocate type =>
    refine ⟨(s.allocate type).1, ?_, rfl⟩
    rw [mirrors.mem_iff, Live, allocate_fst, sound.fresh]
    exact Bool.false_ne_true
  | release h => rfl
  | set h v =>
    simp only [Table.Permits, mirrors h, perform, Store.set, refusal?]
    cases s.cell? h with
    | none => rfl
    | some cell => cases accepted : cell.type.accepts v <;> simp [accepted]
  | get h =>
    simp only [Table.Permits, mirrors h, perform, Store.get]
    cases s.cell? h with
    | none => rfl
    | some cell =>
      obtain ⟨type, value⟩ := cell
      cases value <;> rfl
  | typeOf h =>
    simp only [Table.Permits, mirrors h, perform, Store.typeOf]
    cases s.cell? h <;> rfl
  | isSet h => simp only [Table.Permits, mirrors h, perform, Store.isSet]
  | live => simp only [Table.Permits, perform, mirrors.card_keys sound]

theorem Mirrors.perform (sound : s.Sound) (mirrors : s.Mirrors t) (operation : Operation) :
    (s.perform operation).2.Mirrors (t.next operation (s.perform operation).1) := by
  intro h'
  cases operation with
  | allocate type =>
    rw [Store.perform, Table.next, sound.cell?_allocate, ← mirrors h']
    split
    case isTrue same => rw [same, Finmap.lookup_insert]
    case isFalse other => rw [Finmap.lookup_insert_of_ne _ other]
  | release h =>
    rw [Store.perform, Table.next, cell?_release, ← mirrors h']
    split
    case isTrue same => rw [same, Finmap.lookup_erase]
    case isFalse other => rw [Finmap.lookup_erase_ne other]
  | set h v =>
    simp only [Store.perform, Store.set, refusal?, Table.next, mirrors h]
    cases found : s.cell? h with
    | none => exact mirrors h'
    | some cell =>
      cases accepted : cell.type.accepts v with
      | false => simpa [accepted] using mirrors h'
      | true =>
        have live : s.Live h := live_iff.mpr ⟨cell, found⟩
        simp only [accepted, if_true, cell?_write live v, found]
        split
        case isTrue same => rw [same, Finmap.lookup_insert, Option.map_some]
        case isFalse other => rw [Finmap.lookup_insert_of_ne _ other, mirrors h']
  | get h =>
    rw [Store.perform]
    cases s.get h <;> exact mirrors h'
  | typeOf h => exact mirrors h'
  | isSet h => exact mirrors h'
  | live => exact mirrors h'

end Answer

/-! ## All answers -/

theorem Sound.after {s : Store} (sound : s.Sound) (operations : List Operation) :
    (s.after operations).Sound := by
  induction operations generalizing s with
  | nil => exact sound
  | cons operation rest ih => exact ih (sound.perform operation)

theorem Mirrors.follows {s : Store} {t : Table} (sound : s.Sound) (mirrors : s.Mirrors t) :
    s.Follows t := by
  intro operations
  induction operations generalizing s t with
  | nil => trivial
  | cons operation rest ih =>
    exact ⟨mirrors.permits sound operation,
      ih (sound.perform operation) (mirrors.perform sound operation)⟩

def tableOf (s : Store) : List Nat → Table
  | [] => ∅
  | i :: rest => (s.cell? i).elim (tableOf s rest) fun cell => (tableOf s rest).insert i cell

theorem lookup_tableOf (s : Store) (places : List Nat) (h : Handle) :
    (s.tableOf places).lookup h =
      if ∃ i : Nat, i ∈ places ∧ h = (i : Handle) then s.cell? h else none := by
  induction places with
  | nil => simp [tableOf]
  | cons i rest ih =>
    rw [tableOf]
    by_cases same : h = (i : Handle)
    · subst same
      cases found : s.cell? (i : Handle) with
      | none => simp [ih, found]
      | some cell => simp
    · cases s.cell? (i : Handle) with
      | none => simp [ih, same]
      | some cell => simp [ih, same]

theorem mirrors_tableOf (s : Store) : s.Mirrors (s.tableOf (List.range s.cells.size)) := by
  intro h
  rw [lookup_tableOf]
  split
  case isTrue => rfl
  case isFalse outside =>
    refine (Option.not_isSome_iff_eq_none.mp fun live => outside ?_).symm
    obtain ⟨i, rfl⟩ := Live.place live
    obtain ⟨cell, found⟩ := live_iff.mp live
    have place := (cell?_eq_some.mp found).2
    exact ⟨i, List.mem_range.mpr (Array.getElem?_eq_some_iff.mp place).1, rfl⟩

/-! ## What the answers tell of the store -/

namespace Follows

variable {s : Store} {t : Table}

variable (follows : s.Follows t)

include follows

theorem permits (operation : Operation) : t.Permits operation (s.perform operation).1 :=
  (follows [operation]).1

theorem perform (operation : Operation) :
    (s.perform operation).2.Follows (t.next operation (s.perform operation).1) :=
  fun rest => (follows (operation :: rest)).2

/-- The type and the value of every cell can be asked for. -/
theorem mirrors : s.Mirrors t := by
  intro h
  have value := follows.permits (.get h)
  have type := follows.permits (.typeOf h)
  simp only [Table.Permits, Store.perform, Store.get, Store.typeOf] at value type
  cases held : t.lookup h with
  | none =>
    cases found : s.cell? h with
    | none => rfl
    | some cell =>
      obtain ⟨kind, content⟩ := cell
      cases content <;> simp [held, found] at value
  | some cell =>
    cases found : s.cell? h with
    | none =>
      obtain ⟨kind, content⟩ := cell
      cases content <;> simp [held, found] at value
    | some cell' =>
      obtain ⟨kind, content⟩ := cell
      obtain ⟨kind', content'⟩ := cell'
      cases content <;> cases content' <;> simp_all

/-- The places on the free list are given out one after the other, so each of them is without a cell
and comes once. -/
theorem free_released (recycles : s.recycles = true) :
    s.free.Nodup ∧ ∀ i ∈ s.free, s.cells[i]? = some none := by
  generalize places : s.free = free
  induction free generalizing s t with
  | nil => simp
  | cons i rest ih =>
    have given : s.allocate .absent =
        ((i : Handle), { s with
          cells := s.cells.setIfInBounds i (some { type := .absent }), free := rest }) := by
      simp only [allocate, recycles, places]
    obtain ⟨h, absent, answered⟩ := follows.permits (.allocate .absent)
    have later := follows.perform (.allocate .absent)
    simp only [Store.perform, given, Response.handle.injEq] at answered later
    subst answered
    have inside : i < s.cells.size := by
      have held := later.mirrors (i : Handle)
      rw [Table.next, Finmap.lookup_insert, cell?_natCast, Array.getElem?_setIfInBounds,
        if_pos rfl] at held
      by_contra outside
      rw [if_neg outside] at held
      cases held
    have released : s.cells[i]? = some none := by
      rw [follows.mirrors.mem_iff, Live, Option.not_isSome_iff_eq_none, cell?_natCast] at absent
      rw [Array.getElem?_eq_getElem inside] at absent ⊢
      exact congrArg some absent
    obtain ⟨distinct, others⟩ := ih later recycles rfl
    have elsewhere : ∀ j ∈ rest, i ≠ j ∧ s.cells[j]? = some none := by
      intro j member
      have released := others j member
      rw [Array.getElem?_setIfInBounds] at released
      split at released
      case isTrue => simp at released
      case isFalse other => exact ⟨other, released⟩
    refine ⟨List.nodup_cons.mpr ⟨fun member => (elsewhere i member).1 rfl, distinct⟩, ?_⟩
    intro j member
    cases List.mem_cons.mp member with
    | inl same => exact same ▸ released
    | inr member => exact (elsewhere j member).2

/-- The number of live cells leaves no released place off the free list. -/
theorem sound (recycles : s.recycles = true) : s.Sound := by
  obtain ⟨distinct, released⟩ := follows.free_released recycles
  let holes := (List.range s.cells.size).filter fun (i : Nat) => (s.cell? (i : Handle)).isNone
  have mended : ({ s with free := holes } : Store).Sound := by
    apply listsReleased_iff.mp
    refine ⟨List.nodup_range.filter _, fun i => ?_⟩
    rw [Live, Option.not_isSome_iff_eq_none, ← Option.isNone_iff_eq_none, List.mem_filter,
      List.mem_range]
    rfl
  have within : s.free ⊆ holes := fun i member => (mended.released i).mpr (released i member)
  have counted : s.live = ({ s with free := holes } : Store).live := by
    have answered := follows.permits .live
    simp only [Table.Permits, Store.perform, Response.count.injEq] at answered
    rw [answered]
    exact Mirrors.card_keys mended fun h => follows.mirrors h
  have few := mended.free_length_le
  have fewer := (distinct.subperm within).length_le
  simp only [live] at counted few
  have all : s.free.Perm holes := (distinct.subperm within).perm_of_length_le (by omega)
  exact ⟨distinct, fun i => all.mem_iff.trans (mended.released i)⟩

end Follows

/-- A store that starts out empty answers every sequence of operations as a finite map does that
starts out empty, and its free list names each place without a cell once and nothing else. The two
say the same: a store answers as some map does exactly if its free list is like this. -/
theorem follows_map_iff_listsReleased :
    (∀ operations, (∅ : Table).Explains (dialogue {} operations)) ∧
      (∀ operations, (after {} operations).ListsReleased) ∧
      ∀ (cells : Array (Option Cell)) (free : List Nat),
        (∃ t, Follows { cells, free } t) ↔ ListsReleased { cells, free } := by
  have empty : Sound {} := ⟨List.nodup_nil, fun i => by simp⟩
  have nothing : Mirrors {} ∅ := by
    intro h
    cases h <;> rfl
  refine ⟨nothing.follows empty, fun operations => listsReleased_iff.mpr (empty.after operations),
    fun cells free => ?_⟩
  rw [listsReleased_iff]
  constructor
  · rintro ⟨t, follows⟩
    exact follows.sound rfl
  · intro sound
    exact ⟨_, (mirrors_tableOf { cells, free }).follows sound⟩

end Store

end Pseudocode
