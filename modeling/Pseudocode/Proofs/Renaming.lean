import Pseudocode.Proofs.Actions

/-! # Memories that differ in their handles only

`Mirrors f m m'` says that the memory `m'` is `m` with every live handle `h` replaced by `f h`.
Which handle a cell gets is up to the store, so a store that recycles and one that does not drift
apart; but each operation does the same to both memories, up to the handles. Only an allocation
changes `f`, and only at the handle that is given out, which was not live before. -/

namespace Pseudocode

def Binding.rename (f : Handle → Handle) : Binding → Binding
  | constant v => constant v
  | slot h => slot (f h)

def Scope.rename (f : Handle → Handle) (scope : Scope) : Scope :=
  { scope with
    bindings := scope.bindings.map fun entry => (entry.1, entry.2.rename f)
    owned := scope.owned.map f }

namespace Scope

theorem find?_rename (f : Handle → Handle) (scope : Scope) (name : String) :
    (scope.rename f).find? name = (scope.find? name).map (Binding.rename f) :=
  lookup_map (Binding.rename f) scope.bindings name

theorem parent_rename (f : Handle → Handle) (scope : Scope) :
    (scope.rename f).parent = scope.parent := rfl

theorem keys_rename (f : Handle → Handle) (scope : Scope) : (scope.rename f).keys = scope.keys := by
  simp only [keys, rename, List.map_map, Function.comp_def]

/-- Only the handles in a scope count. -/
theorem rename_congr {f g : Handle → Handle} {scope : Scope}
    (slots : ∀ h ∈ scope.slots, g h = f h) (owned : ∀ h ∈ scope.owned, g h = f h) :
    scope.rename g = scope.rename f := by
  unfold rename
  congr 1
  · refine List.map_congr_left fun entry member => ?_
    obtain ⟨name, b⟩ := entry
    cases b with
    | constant v => rfl
    | slot h =>
      rw [Binding.rename, Binding.rename, slots h (mem_slots.mpr ⟨name, member⟩)]
  · exact List.map_congr_left owned

end Scope

namespace Memory

/-- The second memory is the first with every live handle `h` replaced by `f h`. -/
structure Mirrors (f : Handle → Handle) (m m' : Memory) : Prop where
  scopes : m'.scopes = m.scopes.map (Scope.rename f)
  cells : ∀ h, m.store.Live h → m'.store.cell? (f h) = m.store.cell? h
  injective : ∀ h k, m.store.Live h → m.store.Live k → f h = f k → h = k
  count : m'.store.live = m.store.live

namespace Mirrors

variable {f g : Handle → Handle} {m m' : Memory} {id : ScopeId} {name : String} {h : Handle}

section

variable (mirrors : Mirrors f m m')

include mirrors

theorem getElem? (id : ScopeId) : m'.scopes[id]? = m.scopes[id]?.map (Scope.rename f) := by
  rw [mirrors.scopes, Array.getElem?_map]

theorem size : m'.scopes.size = m.scopes.size := by
  rw [mirrors.scopes, Array.size_map]

theorem live (live : m.store.Live h) : m'.store.Live (f h) := by
  rw [Store.Live, mirrors.cells h live]
  exact live

theorem get (live : m.store.Live h) : m'.store.get (f h) = m.store.get h := by
  obtain ⟨cell, found⟩ := Store.live_iff.mp live
  simp only [Store.get, mirrors.cells h live, found]

theorem typeOf (live : m.store.Live h) : m'.store.typeOf (f h) = m.store.typeOf h := by
  rw [Store.typeOf, mirrors.cells h live, Store.typeOf]

theorem refusal? (live : m.store.Live h) (v : Value) :
    m'.store.refusal? (f h) v = m.store.refusal? h v := by
  obtain ⟨cell, found⟩ := Store.live_iff.mp live
  simp only [Store.refusal?, mirrors.cells h live, found]

theorem has (id : ScopeId) (name : String) : m'.has id name = m.has id name :=
  has_of_map mirrors.getElem? (Scope.find?_rename f) id name

theorem resolve? (id : ScopeId) (name : String) :
    m'.resolve? id name = (m.resolve? id name).map (Binding.rename f) :=
  resolve?_of_map mirrors.getElem? (Scope.find?_rename f) (Scope.parent_rename f) id name

theorem keys (id : ScopeId) : m'.keys id = m.keys id := by
  rw [Memory.keys, Memory.keys, mirrors.getElem?]
  cases m.scopes[id]? with
  | none => rfl
  | some scope => exact Scope.keys_rename f scope

theorem lastOwned : m'.lastOwned = m.lastOwned.map f := by
  rw [Memory.lastOwned, Memory.lastOwned, mirrors.size, mirrors.getElem?]
  cases m.scopes[m.scopes.size - 1]? <;> rfl

/-- Only the live handles count. -/
theorem congr (sound : m.Sound) (same : ∀ h, m.store.Live h → g h = f h) : Mirrors g m m' where
  scopes := by
    rw [mirrors.scopes]
    apply Array.ext_getElem?
    intro i
    rw [Array.getElem?_map, Array.getElem?_map]
    cases found : m.scopes[i]? with
    | none => rfl
    | some scope =>
      refine congrArg some (Scope.rename_congr ?_ ?_).symm
      · intro h member
        obtain ⟨name, bound⟩ := Scope.mem_slots.mp member
        exact same h (sound.live_of_binds ⟨scope, found, bound⟩)
      · intro h member
        exact same h ((sound.live h).mpr ⟨i, scope, found, member⟩)
  cells h live := by rw [same h live, mirrors.cells h live]
  injective h k liveH liveK equal := by
    rw [same h liveH, same k liveK] at equal
    exact mirrors.injective h k liveH liveK equal
  count := mirrors.count

/-! ## Changes -/

theorem opened (parent : ScopeId) (label : String) :
    Mirrors f (m.opened parent label) (m'.opened parent label) where
  scopes := by
    simp only [Memory.opened, mirrors.scopes, Array.map_push]
    rfl
  cells := mirrors.cells
  injective := mirrors.injective
  count := mirrors.count

theorem scopes_extended (id : ScopeId) (name : String) (b : Binding) (cells : List Handle)
    (store store' : Store) :
    (m'.extended id name (b.rename f) (cells.map f) store').scopes =
      (m.extended id name b cells store).scopes.map (Scope.rename f) := by
  simp only [Memory.extended, mirrors.scopes]
  refine (map_modify_of_comm (fun scope => ?_) m.scopes id).symm
  simp only [Scope.rename, Scope.bind, List.map_cons, List.map_append]

theorem bound (id : ScopeId) (name : String) (b : Binding) :
    Mirrors f (m.bound id name b) (m'.bound id name (b.rename f)) where
  scopes := mirrors.scopes_extended id name b [] m.store m'.store
  cells := mirrors.cells
  injective := mirrors.injective
  count := mirrors.count

theorem written (live : m.store.Live h) (v : Value) :
    Mirrors f (m.written h v) (m'.written (f h) v) := by
  have count : (m'.written (f h) v).store.live = (m.written h v).store.live := by
    rw [Memory.written, Memory.written, Store.live_write, Store.live_write, mirrors.count]
  refine ⟨mirrors.scopes, ?_, ?_, count⟩
  · intro k alive
    rw [live_written live] at alive
    simp only [cell?_written live, cell?_written (mirrors.live live)]
    by_cases same : k = h
    · subst same
      rw [if_pos rfl, if_pos rfl, mirrors.cells k alive]
    · have different : f k ≠ f h := fun equal => same (mirrors.injective k h alive live equal)
      rw [if_neg same, if_neg different, mirrors.cells k alive]
  · intro k l aliveK aliveL
    rw [live_written live] at aliveK aliveL
    exact mirrors.injective k l aliveK aliveL

theorem declared (sound : m.Sound) (sound' : m'.Sound) (next : f m.store.next = m'.store.next)
    (id : ScopeId) (name : String) (type : Ty) :
    Mirrors f (m.declared id name type) (m'.declared id name type) := by
  have cell? := cell?_declared sound.store id name type
  have cell?' := cell?_declared sound'.store id name type
  -- A handle that was live is given out by neither store.
  have apart {h : Handle} (live : m.store.Live h) : f h ≠ m'.store.next :=
    sound'.store.ne_next (mirrors.live live)
  refine ⟨?_, ?_, ?_, ?_⟩
  · have scopes := mirrors.scopes_extended id name (.slot m.store.next)
      [(m.store.next : Handle)] (m.store.allocate type).2 (m'.store.allocate type).2
    rw [List.map_singleton, Binding.rename, next] at scopes
    exact scopes
  · intro h live
    rw [cell?, cell?']
    rw [Store.Live, cell?] at live
    split at live
    case isTrue same =>
      subst same
      rw [if_pos next, if_pos rfl]
    case isFalse other => rw [if_neg (apart live), if_neg other, mirrors.cells h live]
  · intro h k liveH liveK equal
    rw [Store.Live, cell?] at liveH liveK
    split at liveH <;> split at liveK
    case isTrue.isTrue sameH sameK => rw [sameH, sameK]
    case isTrue.isFalse sameH _ =>
      rw [sameH, next] at equal
      exact (apart liveK equal.symm).elim
    case isFalse.isTrue _ sameK =>
      rw [sameK, next] at equal
      exact (apart liveH equal).elim
    case isFalse.isFalse => exact mirrors.injective h k liveH liveK equal
  · rw [Memory.declared, Memory.declared, Memory.extended, Memory.extended,
      sound.store.live_allocate, sound'.store.live_allocate, mirrors.count]

end

theorem closed (mirrors : Mirrors f m m') (sound : m.Sound) (sound' : m'.Sound) :
    Mirrors f m.closed m'.closed := by
  -- What is live after the scope is closed was live before, and the scope did not own it.
  have remains {h : Handle} (live : m.closed.store.Live h) :
      h ∉ m.lastOwned ∧ m.store.Live h := by
    rw [Store.Live, cell?_closed] at live
    split at live
    · cases live
    case isFalse kept => exact ⟨kept, live⟩
  refine ⟨?_, ?_, ?_, ?_⟩
  · simp only [Memory.closed, mirrors.scopes, Array.map_pop]
  · intro h live
    obtain ⟨kept, live⟩ := remains live
    have kept' : f h ∉ m'.lastOwned := by
      rw [mirrors.lastOwned]
      intro member
      obtain ⟨k, owned, equal⟩ := List.mem_map.mp member
      have same := mirrors.injective k h (sound.live_of_lastOwned owned) live equal
      exact kept (same ▸ owned)
    rw [cell?_closed, cell?_closed, if_neg kept, if_neg kept', mirrors.cells h live]
  · intro h k liveH liveK
    exact mirrors.injective h k (remains liveH).2 (remains liveK).2
  · have before := sound.store.live_releaseAll sound.nodup_lastOwned
      fun _ owned => sound.live_of_lastOwned owned
    have after := sound'.store.live_releaseAll sound'.nodup_lastOwned
      fun _ owned => sound'.live_of_lastOwned owned
    rw [mirrors.count, mirrors.lastOwned, List.length_map] at after
    simp only [Memory.closed, mirrors.lastOwned]
    omega

end Mirrors

/-! ## Operations -/

/-- Both operations succeed with results that correspond, or both fail with the same fault. -/
def Alike {α : Type} (f : Handle → Handle) (rel : α → α → Prop)
    (r r' : EStateM.Result Fault Memory α) : Prop :=
  match r, r' with
  | .ok a m, .ok a' m' => rel a a' ∧ Mirrors f m m'
  | .error fault m, .error fault' m' => fault' = fault ∧ Mirrors f m m'
  | _, _ => False

namespace Mirrors

variable {f : Handle → Handle} {m m' : Memory} {h : Handle}

section

variable (mirrors : Mirrors f m m')

include mirrors

theorem lookup_alike (sound : m.Sound) (id : ScopeId) (name : String) :
    Alike f (fun v v' => v' = v) ((lookup id name).run m) ((lookup id name).run m') := by
  rw [lookup_run, lookup_run, mirrors.resolve?]
  cases resolved : m.resolve? id name with
  | none => exact ⟨rfl, mirrors⟩
  | some b =>
    cases b with
    | constant v => exact ⟨rfl, mirrors⟩
    | slot h =>
      simp only [Option.map_some, Binding.rename, mirrors.get (sound.live_of_resolve? resolved)]
      cases m.store.get h <;> exact ⟨rfl, mirrors⟩

theorem lookupVariable_alike (id : ScopeId) (name : String) :
    Alike f (fun h h' => h' = f h ∧ m.Sees id h) ((lookupVariable id name).run m)
      ((lookupVariable id name).run m') := by
  rw [lookupVariable_run, lookupVariable_run, mirrors.resolve?]
  cases resolved : m.resolve? id name with
  | none => exact ⟨rfl, mirrors⟩
  | some b =>
    cases b with
    | constant v => exact ⟨rfl, mirrors⟩
    | slot h => exact ⟨⟨rfl, resolve?_sees resolved⟩, mirrors⟩

theorem child_alike (parent : ScopeId) (label : String) :
    Alike f (fun id id' => id' = id) ((child parent label).run m)
      ((child parent label).run m') := by
  rw [child_run, child_run]
  exact ⟨mirrors.size, mirrors.opened parent label⟩

theorem close_alike (sound : m.Sound) (sound' : m'.Sound) {id : ScopeId}
    (last : m.scopes.size = id + 1) :
    Alike f (fun _ _ => True) ((close id).run m) ((close id).run m') := by
  rw [close_run m id last, close_run m' id (mirrors.size.trans last)]
  exact ⟨trivial, mirrors.closed sound sound'⟩

theorem declareConstant_alike (id : ScopeId) (name : String) (type : Ty) (v : Value) :
    Alike f (fun _ _ => True) ((declareConstant id name type v).run m)
      ((declareConstant id name type v).run m') := by
  rw [declareConstant_run, declareConstant_run, mirrors.has]
  split
  · exact ⟨rfl, mirrors⟩
  · split
    · exact ⟨trivial, mirrors.bound id name (.constant v)⟩
    · exact ⟨rfl, mirrors⟩

theorem bindReference_alike (id : ScopeId) (name : String) (type : Ty) (live : m.store.Live h) :
    Alike f (fun _ _ => True) ((bindReference id name type h).run m)
      ((bindReference id name type (f h)).run m') := by
  rw [bindReference_run, bindReference_run, mirrors.has, mirrors.typeOf live]
  split
  · exact ⟨rfl, mirrors⟩
  · split
    · exact ⟨trivial, mirrors.bound id name (.slot h)⟩
    · exact ⟨rfl, mirrors⟩

theorem writeAs_alike (name : String) (live : m.store.Live h) (v : Value) :
    Alike f (fun _ _ => True) ((writeAs name h v).run m) ((writeAs name (f h) v).run m') := by
  rw [writeAs_run, writeAs_run, mirrors.refusal? live]
  split
  · exact ⟨rfl, mirrors⟩
  · exact ⟨trivial, mirrors.written live v⟩

theorem assign_alike (sound : m.Sound) (id : ScopeId) (name : String) (v : Value) :
    Alike f (fun _ _ => True) ((assign id name v).run m) ((assign id name v).run m') := by
  rw [assign_run, assign_run, mirrors.resolve?]
  cases resolved : m.resolve? id name with
  | none => exact ⟨rfl, mirrors⟩
  | some b =>
    cases b with
    | constant w => exact ⟨rfl, mirrors⟩
    | slot h => exact mirrors.writeAs_alike name (sound.live_of_resolve? resolved) v

theorem passReference_alike (sound : m.Sound) (caller : ScopeId) (x : String) (callee : ScopeId)
    (name : String) (type : Ty) :
    Alike f (fun _ _ => True) ((passReference caller x callee name type).run m)
      ((passReference caller x callee name type).run m') := by
  rw [passReference_run, passReference_run, mirrors.resolve?]
  cases resolved : m.resolve? caller x with
  | none => exact ⟨rfl, mirrors⟩
  | some b =>
    cases b with
    | constant w => exact ⟨rfl, mirrors⟩
    | slot h =>
      exact mirrors.bindReference_alike callee name type (sound.live_of_resolve? resolved)

end

/-- The renaming after an allocation: the handle given out by one store goes to the one given out by
the other. -/
def extend (f : Handle → Handle) (m m' : Memory) (h : Handle) : Handle :=
  if h = m.store.next then m'.store.next else f h

theorem extend_live {m m' : Memory} (sound : m.store.Sound) (live : m.store.Live h) :
    extend f m m' h = f h :=
  if_neg (sound.ne_next live)

theorem declared_extend (mirrors : Mirrors f m m') (sound : m.Sound) (sound' : m'.Sound)
    (id : ScopeId) (name : String) (type : Ty) :
    Mirrors (extend f m m') (m.declared id name type) (m'.declared id name type) :=
  (mirrors.congr sound fun _ live => extend_live sound.store live).declared sound sound'
    (if_pos rfl) id name type

theorem declareVariable_alike (mirrors : Mirrors f m m') (sound : m.Sound) (sound' : m'.Sound)
    (id : ScopeId) (name : String) (type : Ty) :
    Alike (extend f m m') (fun _ _ => True) ((declareVariable id name type).run m)
      ((declareVariable id name type).run m') := by
  rw [declareVariable_run, declareVariable_run, mirrors.has]
  split
  · exact ⟨rfl, mirrors.congr sound fun _ live => extend_live sound.store live⟩
  · exact ⟨trivial, mirrors.declared_extend sound sound' id name type⟩

theorem bindValue_alike (mirrors : Mirrors f m m') (sound : m.Sound) (sound' : m'.Sound)
    (id : ScopeId) (name : String) (type : Ty) (v : Value) :
    Alike (extend f m m') (fun _ _ => True) ((bindValue id name type v).run m)
      ((bindValue id name type v).run m') := by
  rw [bindValue_run, bindValue_run, mirrors.has]
  split
  · exact ⟨rfl, mirrors.congr sound fun _ live => extend_live sound.store live⟩
  · have live := live_declared sound.store id name type
    have wrote := (mirrors.declared_extend sound sound' id name type).writeAs_alike name live v
    rw [extend, if_pos rfl] at wrote
    exact wrote

end Mirrors

end Memory

end Pseudocode
