import Pseudocode.Store

/-! # What the store keeps

The store is a finite map from handles to cells, and `Store.cell?` is the map. Allocating, releasing
and writing are described by what they do to it, for the store that recycles handles and for the one
that does not. Only well-formed stores are of interest: those whose free list names every released
place once. -/

namespace Pseudocode

namespace Store

/-- The free list holds the released places, each of them once. -/
structure Sound (s : Store) : Prop where
  distinct : s.free.Nodup
  released : ∀ i, i ∈ s.free ↔ s.cells[i]? = some none

def Live (s : Store) (h : Handle) : Prop :=
  (s.cell? h).isSome

variable {s : Store} {h : Handle}

theorem live_iff : s.Live h ↔ ∃ cell, s.cell? h = some cell :=
  Option.isSome_iff_exists

theorem cell?_natCast (s : Store) (i : Nat) : s.cell? (i : Handle) = s.cells[i]?.join := rfl

theorem cell?_of_place {s' : Store} {i : Nat} {place : Option Cell}
    (here : s'.cells[i]?.join = place) (others : ∀ j, j ≠ i → s'.cells[j]? = s.cells[j]?)
    (h : Handle) : s'.cell? h = if h = i then place else s.cell? h := by
  split
  case isTrue same => rw [same, cell?_natCast, here]
  case isFalse other =>
    cases h with
    | negSucc j => rfl
    | ofNat j => exact congrArg Option.join (others j fun same => other (congrArg _ same))

theorem cell?_eq_some {cell : Cell} :
    s.cell? h = some cell ↔ 0 ≤ h ∧ s.cells[h.toNat]? = some (some cell) := by
  cases h with
  | ofNat i => simp [cell?, Option.join_eq_some_iff]
  | negSucc i => simp [cell?]

/-- A live handle is the number of a place. -/
theorem Live.place (live : s.Live h) : ∃ i : Nat, h = (i : Handle) := by
  cases h with
  | ofNat i => exact ⟨i, rfl⟩
  | negSucc i => cases live

namespace Sound

theorem free_lt {s : Store} (sound : s.Sound) {i : Nat} (member : i ∈ s.free) :
    i < s.cells.size := by
  have place := (sound.released i).mp member
  exact (Array.getElem?_eq_some_iff.mp place).1

theorem free_length_le {s : Store} (sound : s.Sound) : s.free.length ≤ s.cells.size := by
  have subset : s.free ⊆ List.range s.cells.size := by
    intro i member
    exact List.mem_range.mpr (sound.free_lt member)
  simpa using List.Nodup.length_le_of_subset sound.distinct subset

theorem not_live_of_free {s : Store} (sound : s.Sound) {i : Nat} (member : i ∈ s.free) :
    s.cell? (i : Handle) = none := by
  rw [cell?_natCast, (sound.released i).mp member]
  rfl

end Sound

/-! ## Allocating -/

def next (s : Store) : Nat :=
  match s.recycles, s.free with
  | true, i :: _ => i
  | _, _ => s.cells.size

theorem allocate_fst (s : Store) (type : Ty) : (s.allocate type).1 = (s.next : Handle) := by
  unfold allocate next
  cases s.recycles with
  | false => cases s.free <;> rfl
  | true => cases s.free <;> rfl

theorem allocate_recycles (s : Store) (type : Ty) :
    (s.allocate type).2.recycles = s.recycles := by
  unfold allocate
  split <;> rfl

theorem Sound.fresh (sound : s.Sound) : s.cell? (s.next : Handle) = none := by
  unfold next
  split
  case h_1 i rest recycling free =>
    exact sound.not_live_of_free (by rw [free]; exact List.mem_cons_self)
  case h_2 =>
    rw [cell?_natCast, Array.getElem?_eq_none (Nat.le_refl _)]
    rfl

theorem Sound.ne_next (sound : s.Sound) (live : s.Live h) : h ≠ s.next := by
  rintro rfl
  rw [Live, sound.fresh] at live
  cases live

theorem Sound.cell?_allocate (sound : s.Sound) (type : Ty) (h : Handle) :
    (s.allocate type).2.cell? h =
      if h = (s.allocate type).1 then some { type } else s.cell? h := by
  unfold allocate
  split
  case h_1 i rest recycling free =>
    have inside : i < s.cells.size := sound.free_lt (by rw [free]; exact List.mem_cons_self)
    apply cell?_of_place
    · simp [inside]
    · exact fun j other => Array.getElem?_setIfInBounds_ne (Ne.symm other)
  case h_2 =>
    apply cell?_of_place
    · simp
    · exact fun j other => by simp [Array.getElem?_push, other]

theorem Sound.allocate (sound : s.Sound) (type : Ty) : (s.allocate type).2.Sound := by
  unfold Store.allocate
  split
  case h_1 i rest recycling free =>
    have distinct := sound.distinct
    rw [free, List.nodup_cons] at distinct
    refine ⟨distinct.2, fun j => ?_⟩
    have inside : i < s.cells.size := sound.free_lt (by rw [free]; exact List.mem_cons_self)
    have before := sound.released j
    rw [free, List.mem_cons] at before
    simp only [Array.getElem?_setIfInBounds, inside, if_true]
    by_cases same : i = j
    · subst same
      simpa using distinct.1
    · rw [if_neg same, ← before]
      exact ⟨Or.inr, fun member => member.resolve_left (Ne.symm same)⟩
  case h_2 =>
    refine ⟨sound.distinct, fun j => ?_⟩
    simp only [Array.getElem?_push]
    split
    · subst j
      simp only [reduceCtorEq, iff_false, Option.some.injEq]
      exact fun member => Nat.lt_irrefl _ (sound.free_lt member)
    · exact sound.released j

theorem Sound.live_allocate (sound : s.Sound) (type : Ty) :
    (s.allocate type).2.live = s.live + 1 := by
  have bounded := sound.free_length_le
  unfold Store.allocate Store.live
  split
  case h_1 i rest recycling free =>
    simp only [free, List.length_cons, Array.size_setIfInBounds] at bounded ⊢
    omega
  case h_2 =>
    simp only [Array.size_push]
    omega

/-! ## Releasing -/

theorem cell?_release (s : Store) (h h' : Handle) :
    (s.release h).cell? h' = if h' = h then none else s.cell? h' := by
  unfold release
  split
  case isTrue live =>
    obtain ⟨i, rfl⟩ := Live.place live
    apply cell?_of_place
    · rw [Int.toNat_natCast, Array.getElem?_setIfInBounds_self]
      split <;> rfl
    · exact fun j other => Array.getElem?_setIfInBounds_ne (Ne.symm other)
  case isFalse dead =>
    split
    · subst h'
      simpa using dead
    · rfl

theorem release_recycles (s : Store) (h : Handle) : (s.release h).recycles = s.recycles := by
  unfold release
  split <;> rfl

theorem Sound.release (sound : s.Sound) (h : Handle) : (s.release h).Sound := by
  unfold Store.release
  split
  case isTrue live =>
    obtain ⟨cell, found⟩ := Option.isSome_iff_exists.mp live
    obtain ⟨nonneg, place⟩ := cell?_eq_some.mp found
    have inside : h.toNat < s.cells.size := (Array.getElem?_eq_some_iff.mp place).1
    have absent : h.toNat ∉ s.free := by
      intro member
      have hole := (sound.released _).mp member
      rw [place] at hole
      cases hole
    refine ⟨List.nodup_cons.mpr ⟨absent, sound.distinct⟩, fun j => ?_⟩
    simp only [List.mem_cons, Array.getElem?_setIfInBounds, inside, if_true]
    by_cases same : h.toNat = j
    · simp [same]
    · rw [if_neg same, ← sound.released j]
      exact ⟨fun member => member.resolve_left (Ne.symm same), Or.inr⟩
  case isFalse => exact sound

theorem Sound.live_release (sound : s.Sound) (live : s.Live h) :
    (s.release h).live + 1 = s.live := by
  have bounded := (sound.release h).free_length_le
  rw [Live] at live
  simp only [Store.release, live, if_true, Store.live, List.length_cons,
    Array.size_setIfInBounds] at bounded ⊢
  omega

def releaseAll (s : Store) (handles : List Handle) : Store :=
  handles.foldr (fun h store => store.release h) s

theorem cell?_releaseAll (s : Store) (handles : List Handle) (h : Handle) :
    (s.releaseAll handles).cell? h = if h ∈ handles then none else s.cell? h := by
  induction handles with
  | nil => simp [releaseAll]
  | cons first rest ih =>
    change ((s.releaseAll rest).release first).cell? h = _
    rw [cell?_release, ih]
    by_cases same : h = first
    · simp [same]
    · simp [same]

theorem releaseAll_recycles (s : Store) (handles : List Handle) :
    (s.releaseAll handles).recycles = s.recycles := by
  induction handles with
  | nil => rfl
  | cons first rest ih => exact (release_recycles _ first).trans ih

theorem Sound.releaseAll (sound : s.Sound) (handles : List Handle) :
    (s.releaseAll handles).Sound := by
  induction handles with
  | nil => exact sound
  | cons first rest ih => exact ih.release first

theorem Sound.live_releaseAll (sound : s.Sound) {handles : List Handle} (distinct : handles.Nodup)
    (live : ∀ h ∈ handles, s.Live h) : (s.releaseAll handles).live + handles.length = s.live := by
  induction handles with
  | nil => rfl
  | cons first rest ih =>
    obtain ⟨absent, distinct⟩ := List.nodup_cons.mp distinct
    have before := ih distinct fun h member => live h (List.mem_cons_of_mem _ member)
    have alive : (s.releaseAll rest).Live first := by
      rw [Live, cell?_releaseAll, if_neg absent]
      exact live first List.mem_cons_self
    have last := (sound.releaseAll rest).live_release alive
    simp only [List.length_cons]
    change ((s.releaseAll rest).release first).live + (rest.length + 1) = s.live
    omega

/-! ## Writing -/

theorem cell?_write (live : s.Live h) (v : Value) (h' : Handle) :
    (s.write h v).cell? h' =
      if h' = h then (s.cell? h).map (fun cell => { cell with value := some v })
      else s.cell? h' := by
  obtain ⟨i, rfl⟩ := live.place
  apply cell?_of_place
  · rw [write, cell?_natCast, Int.toNat_natCast, Array.getElem?_modify, if_pos rfl]
    cases s.cells[i]? with
    | none => rfl
    | some cell => cases cell <;> rfl
  · exact fun j other => by simp [write, Array.getElem?_modify, Ne.symm other]

theorem Sound.write (sound : s.Sound) (h : Handle) (v : Value) : (s.write h v).Sound := by
  refine ⟨sound.distinct, fun i => ?_⟩
  rw [Store.write, sound.released i, Array.getElem?_modify]
  split
  · cases s.cells[i]? with
    | none => simp
    | some cell => cases cell <;> simp
  · rfl

theorem live_write (s : Store) (h : Handle) (v : Value) : (s.write h v).live = s.live := by
  simp only [write, live, Array.size_modify]

theorem get_eq_ok_iff {v : Value} :
    s.get h = .ok v ↔ ∃ cell, s.cell? h = some cell ∧ cell.value = some v := by
  rw [get]
  cases s.cell? h with
  | none => simp
  | some cell => cases isValue : cell.value <;> simp [isValue]

/-- Reading fails without a cell, or without a value in it. -/
theorem get_eq_error {cause : Cause} (failed : s.get h = .error cause) :
    s.cell? h = none ∧ cause = .notLive h ∨ ∃ type, cause = .unassigned type := by
  unfold get at failed
  split at failed
  case h_1 none =>
    cases failed
    exact .inl ⟨none, rfl⟩
  case h_2 cell found =>
    split at failed <;> cases failed
    exact .inr ⟨cell.type, rfl⟩

/-- Writing is refused without a cell, or by the type of the cell. -/
theorem refusal?_eq_some {v : Value} {cause : Cause} (refused : s.refusal? h v = some cause) :
    s.cell? h = none ∧ cause = .notLive h ∨ ∃ type, cause = .notMember type v.described := by
  unfold refusal? at refused
  split at refused
  case h_1 none =>
    cases refused
    exact .inl ⟨none, rfl⟩
  case h_2 cell found =>
    split at refused <;> cases refused
    exact .inr ⟨cell.type, rfl⟩

theorem refusal?_eq_none_iff {v : Value} :
    s.refusal? h v = none ↔ ∃ cell, s.cell? h = some cell ∧ cell.type.accepts v = true := by
  rw [refusal?]
  cases s.cell? h with
  | none => simp
  | some cell => cases accepted : cell.type.accepts v <;> simp [accepted]

/-! ## Counting -/

/-- The live cells are as many as there are live handles. -/
theorem Sound.live_eq_length (sound : s.Sound) {handles : List Handle} (distinct : handles.Nodup)
    (all : ∀ h, h ∈ handles ↔ s.Live h) : s.live = handles.length := by
  have emptied := sound.live_releaseAll distinct fun h member => (all h).mp member
  -- Once every live handle is released, each place is on the free list.
  have places : (s.releaseAll handles).free.Perm
      (List.range (s.releaseAll handles).cells.size) := by
    have rest := sound.releaseAll handles
    apply (List.perm_ext_iff_of_nodup rest.distinct List.nodup_range).mpr
    intro i
    rw [List.mem_range]
    refine ⟨rest.free_lt, fun inside => (rest.released i).mpr ?_⟩
    have dead : (s.releaseAll handles).cell? (i : Handle) = none := by
      rw [cell?_releaseAll]
      split
      · rfl
      · rename_i absent
        exact Option.not_isSome_iff_eq_none.mp fun live => absent ((all i).mpr live)
    rw [cell?_natCast, Array.getElem?_eq_getElem inside] at dead
    rw [Array.getElem?_eq_getElem inside]
    exact congrArg some dead
  have none_left : (s.releaseAll handles).live = 0 := by
    have length := places.length_eq
    rw [List.length_range] at length
    rw [Store.live, length, Nat.sub_self]
  omega

end Store

end Pseudocode
