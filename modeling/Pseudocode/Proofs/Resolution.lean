import Mathlib.Data.List.Nodup
import Pseudocode.Proofs.Encoding
import Pseudocode.Proofs.Families

/-! # How names resolve

A name means what the nearest scope of the static chain binds it to. `Memory.Nearest` says which
scope that is without following the chain, and the two lookups and the assignment are described by
it: they agree on the scope, and they differ in what they do with a constant and with a cell.

This holds of every family of scopes, however its operations were used. Names may stand for cells
that were released in the meantime, and reading such a variable fails as reading the cell does. -/

namespace Pseudocode

namespace Memory

/-- The scope `a` is the nearest one of the static chain of `id` that binds the name: every other
one that does is further up, on the chain of `a`. -/
def Nearest (m : Memory) (id : ScopeId) (name : String) (a : ScopeId) : Prop :=
  m.OnChain a id ∧ m.has a name = true ∧
    ∀ a', m.OnChain a' id → m.has a' name = true → m.OnChain a' a

/-! ## The nearest scope -/

section Nearest

variable {m : Memory} {id a : ScopeId} {name : String} {b : Binding}

theorem has_of_find? {scope : Scope} (found : m.scopes[id]? = some scope) :
    m.has id name = (scope.find? name).isSome := by
  simp only [has, found]

theorem OnChain.cases_up {scope : Scope} (found : m.scopes[id]? = some scope)
    (chain : m.OnChain a id) :
    a = id ∨ ∃ parent, scope.parent = some parent ∧ m.OnChain a parent := by
  cases chain with
  | here => exact .inl rfl
  | up found' isParent chain =>
    cases found.symm.trans found'
    exact .inr ⟨_, isParent, chain⟩

theorem resolve?_nearest (resolved : m.resolve? id name = some b) :
    ∃ a, m.Nearest id name a ∧ m.Binds a name b := by
  fun_induction m.resolve? id name with
  | case1 => cases resolved
  | case2 id scope found b' named =>
    cases resolved
    refine ⟨id, ⟨.here found, ?_, fun a' chain _ => chain⟩, scope, found, mem_of_find? named⟩
    simp [has_of_find? found, named]
  | case3 => cases resolved
  | case4 id scope found unnamed parent isParent _ ih =>
    obtain ⟨a, ⟨chain, binds, nearest⟩, bound⟩ := ih resolved
    refine ⟨a, ⟨.up found isParent chain, binds, ?_⟩, bound⟩
    intro a' chain' binds'
    cases chain'.cases_up found with
    | inl same => simp [same, has_of_find? found, unnamed] at binds'
    | inr above =>
      obtain ⟨parent', isParent', chain'⟩ := above
      cases isParent.symm.trans isParent'
      exact nearest a' chain' binds'
  | case5 => cases resolved

theorem resolve?_eq_none (ranked : m.Ranked) (resolved : m.resolve? id name = none)
    (chain : m.OnChain a id) : m.has a name = false := by
  fun_induction m.resolve? id name with
  | case1 id missing =>
    cases chain with
    | here found => cases missing.symm.trans found
    | up found => cases missing.symm.trans found
  | case2 => cases resolved
  | case3 id scope found unnamed orphan =>
    cases chain.cases_up found with
    | inl same => simp [same, has_of_find? found, unnamed]
    | inr above =>
      obtain ⟨parent, isParent, -⟩ := above
      cases orphan.symm.trans isParent
  | case4 id scope found unnamed parent isParent _ ih =>
    cases chain.cases_up found with
    | inl same => simp [same, has_of_find? found, unnamed]
    | inr above =>
      obtain ⟨parent', isParent', chain⟩ := above
      cases isParent.symm.trans isParent'
      exact ih resolved chain
  | case5 id scope found _ parent isParent notBelow =>
    exact (notBelow (ranked id scope parent found isParent)).elim

theorem Orderly.binds_unique (orderly : m.Orderly) {b' : Binding} (first : m.Binds id name b)
    (second : m.Binds id name b') : b = b' := by
  obtain ⟨scope, found, member⟩ := first
  obtain ⟨scope', found', member'⟩ := second
  cases found.symm.trans found'
  have names := orderly.names id scope found
  exact congrArg Prod.snd (List.inj_on_of_nodup_map names member member' rfl)

theorem Nearest.unique (ranked : m.Ranked) {a' : ScopeId} (first : m.Nearest id name a)
    (second : m.Nearest id name a') : a = a' := by
  have below := (first.2.2 a' second.1 second.2.1).le ranked
  have above := (second.2.2 a first.1 first.2.1).le ranked
  exact Nat.le_antisymm above below

/-- A name resolves to what the nearest scope that binds it says. -/
theorem Orderly.resolve?_iff (orderly : m.Orderly) :
    m.resolve? id name = some b ↔ ∃ a, m.Nearest id name a ∧ m.Binds a name b := by
  constructor
  · exact resolve?_nearest
  · rintro ⟨a, nearest, binds⟩
    cases resolved : m.resolve? id name with
    | none =>
      have unbound := resolve?_eq_none orderly.ranked resolved nearest.1
      rw [nearest.2.1] at unbound
      cases unbound
    | some b' =>
      obtain ⟨a', nearest', binds'⟩ := resolve?_nearest resolved
      cases nearest.unique orderly.ranked nearest'
      rw [orderly.binds_unique binds binds']

theorem Orderly.resolve?_eq_none_iff (orderly : m.Orderly) :
    m.resolve? id name = none ↔ ∀ a, m.OnChain a id → m.has a name = false := by
  constructor
  · intro resolved a chain
    exact resolve?_eq_none orderly.ranked resolved chain
  · intro unbound
    cases resolved : m.resolve? id name with
    | none => rfl
    | some b =>
      obtain ⟨a, nearest, -⟩ := resolve?_nearest resolved
      have bound := unbound a nearest.1
      rw [nearest.2.1] at bound
      cases bound

end Nearest

/-! ## The names of a scope -/

theorem mem_keys {m : Memory} {id : ScopeId} {name : String} :
    name ∈ m.keys id ↔ ∃ b, m.Binds id name b := by
  cases found : m.scopes[id]? with
  | none => simp [keys, Binds, found]
  | some scope => simp [keys, Binds, found, Scope.keys, List.mem_mergeSort]

/-- The names come in the order of their bytes, each of them once. -/
theorem Orderly.keys_increasing {m : Memory} (orderly : m.Orderly) (id : ScopeId) :
    (m.keys id).Pairwise fun a b => a.toUTF8.toList < b.toUTF8.toList := by
  cases found : m.scopes[id]? with
  | none => simp [keys, found]
  | some scope =>
    have ordered := @List.pairwise_mergeSort _ (fun a b : String => decide (a ≤ b))
      (by simpa using fun a b c => String.le_trans) (by simpa using String.le_total)
      (scope.bindings.map Prod.fst)
    have distinct := (List.mergeSort_perm (scope.bindings.map Prod.fst)
      (fun a b : String => decide (a ≤ b))).nodup_iff.mpr (orderly.names id scope found)
    simp only [keys, found, Option.map_some, Option.getD_some, Scope.keys]
    refine (ordered.and distinct).imp ?_
    rintro a b ⟨le, ne⟩
    apply Text.toUTF8_lt
    exact String.not_le.mp fun ge => ne (String.le_antisymm (of_decide_eq_true le) ge)

/-! ## Lookups and assignments -/

section Lookups

variable {m : Memory} {n a : ScopeId} {x : String}

theorem Orderly.lookups_of_constant (orderly : m.Orderly) (nearest : m.Nearest n x a) {c : Value}
    (binds : m.Binds a x (.constant c)) :
    (lookup n x).run m = .ok c m ∧
      (lookupVariable n x).run m = .error (.of (.isConstant x)) m := by
  have resolved := orderly.resolve?_iff.mpr ⟨a, nearest, binds⟩
  rw [lookup_run, lookupVariable_run, resolved]
  exact ⟨rfl, rfl⟩

theorem Orderly.lookups_of_slot (orderly : m.Orderly) (nearest : m.Nearest n x a) {h : Handle}
    (binds : m.Binds a x (.slot h)) :
    (lookupVariable n x).run m = .ok h m ∧
      (lookup n x).run m =
        match m.store.get h with
        | .ok v => .ok v m
        | .error cause => .error { Fault.of cause with identifier := x, labels := [x] } m := by
  have resolved := orderly.resolve?_iff.mpr ⟨a, nearest, binds⟩
  rw [lookup_run, lookupVariable_run, resolved]
  refine ⟨rfl, ?_⟩
  simp only [Store.get]
  -- The two causes do not know the name, so it is noted.
  cases m.store.cell? h with
  | none => rfl
  | some cell =>
    dsimp only
    cases cell.value <;> rfl

theorem Orderly.lookups_of_unbound (orderly : m.Orderly)
    (unbound : ∀ a, m.OnChain a n → m.has a x = false) :
    (lookup n x).run m = .error (.of (.undefinedIdentifier x)) m ∧
      (lookupVariable n x).run m = .error (.of (.undefinedVariable x)) m := by
  have resolved := orderly.resolve?_eq_none_iff.mpr unbound
  rw [lookup_run, lookupVariable_run, resolved]
  exact ⟨rfl, rfl⟩

theorem lookupVariable_ok_iff {h : Handle} :
    (lookupVariable n x).run m = .ok h m ↔ m.resolve? n x = some (.slot h) := by
  rw [lookupVariable_run]
  cases m.resolve? n x with
  | none => simp
  | some b => cases b <;> simp

/-- An assignment succeeds if the name leads to a live cell whose type accepts the value, and it
writes to this cell. -/
theorem assign_ok_iff {v : Value} {m' : Memory} :
    (assign n x v).run m = .ok () m' ↔
      ∃ h cell, (lookupVariable n x).run m = .ok h m ∧ m.store.cell? h = some cell ∧
        cell.type.accepts v = true ∧ m' = m.written h v := by
  simp only [lookupVariable_ok_iff]
  constructor
  · intro ran
    rw [assign_run] at ran
    split at ran
    case h_1 => cases ran
    case h_2 => cases ran
    case h_3 h resolved =>
      rw [writeAs_run] at ran
      cases allowed : m.store.refusal? h v with
      | some cause =>
        rw [allowed] at ran
        cases ran
      | none =>
        rw [allowed] at ran
        cases ran
        obtain ⟨cell, found, accepted⟩ := Store.refusal?_eq_none_iff.mp allowed
        exact ⟨h, cell, resolved, found, accepted, rfl⟩
  · rintro ⟨h, cell, resolved, found, accepted, rfl⟩
    rw [assign_run, resolved]
    simp only [writeAs_run, Store.refusal?_eq_none_iff.mpr ⟨cell, found, accepted⟩]

end Lookups

/-- Names resolve lexically in every family of scopes. A scope binds a name once, and its names are
listed in the order of their bytes. The nearest scope that binds a name decides what it means: a
constant can be read and is no variable, a variable leads to its cell, and reading it reads the cell.
An assignment succeeds exactly if the variable's cell is live and its type accepts the value, and the
value of this cell is all that it changes. -/
theorem Built.resolves_lexically {m : Memory} (built : m.Built) (n : ScopeId) (x : String) :
    ((∀ name c h, m.Binds n name (.constant c) → ¬m.Binds n name (.slot h)) ∧
      (∀ name, name ∈ m.keys n ↔ ∃ b, m.Binds n name b) ∧
      (m.keys n).Pairwise fun a b => a.toUTF8.toList < b.toUTF8.toList) ∧
    ((∃ a c, m.Nearest n x a ∧ m.Binds a x (.constant c)) ∨
      (∃ a h, m.Nearest n x a ∧ m.Binds a x (.slot h)) ∨
      ∀ a, m.OnChain a n → m.has a x = false) ∧
    (∀ a c, m.Nearest n x a → m.Binds a x (.constant c) →
      (lookup n x).run m = .ok c m ∧
        ∃ fault, (lookupVariable n x).run m = .error fault m ∧
          fault.cause.kind = .notAVariable) ∧
    (∀ a h, m.Nearest n x a → m.Binds a x (.slot h) →
      (lookupVariable n x).run m = .ok h m ∧
        (∀ v, m.store.get h = .ok v → (lookup n x).run m = .ok v m) ∧
        ∀ cause, m.store.get h = .error cause →
          ∃ fault, (lookup n x).run m = .error fault m ∧ fault.cause = cause ∧
            fault.identifier = x) ∧
    ((∀ a, m.OnChain a n → m.has a x = false) →
      ∃ fault fault', (lookup n x).run m = .error fault m ∧
        (lookupVariable n x).run m = .error fault' m ∧
        fault.cause.kind = .undefinedIdentifier ∧ fault'.cause.kind = .undefinedIdentifier) ∧
    ∀ v,
      ((∃ m', (assign n x v).run m = .ok () m') ↔
        ∃ h cell, (lookupVariable n x).run m = .ok h m ∧ m.store.cell? h = some cell ∧
          cell.type.accepts v = true) ∧
      ∀ m', (assign n x v).run m = .ok () m' →
        ∃ h cell, (lookupVariable n x).run m = .ok h m ∧ m.store.cell? h = some cell ∧
          m'.scopes = m.scopes ∧ m'.store.free = m.store.free ∧ m'.store.live = m.store.live ∧
          ∀ h', m'.store.cell? h' =
            if h' = h then some { cell with value := some v } else m.store.cell? h' := by
  have orderly := built.orderly
  refine ⟨⟨?_, fun name => mem_keys, orderly.keys_increasing n⟩, ?_, ?_, ?_, ?_, ?_⟩
  · intro name c h constant slot
    cases orderly.binds_unique constant slot
  · cases resolved : m.resolve? n x with
    | none => exact .inr (.inr (orderly.resolve?_eq_none_iff.mp resolved))
    | some b =>
      obtain ⟨a, nearest, binds⟩ := orderly.resolve?_iff.mp resolved
      cases b with
      | constant c => exact .inl ⟨a, c, nearest, binds⟩
      | slot h => exact .inr (.inl ⟨a, h, nearest, binds⟩)
  · intro a c nearest binds
    obtain ⟨value, refused⟩ := orderly.lookups_of_constant nearest binds
    exact ⟨value, _, refused, rfl⟩
  · intro a h nearest binds
    obtain ⟨handle, value⟩ := orderly.lookups_of_slot nearest binds
    refine ⟨handle, fun v read => ?_, fun cause failed => ?_⟩
    · rw [value, read]
    · rw [value, failed]
      exact ⟨_, rfl, rfl, rfl⟩
  · intro unbound
    obtain ⟨value, handle⟩ := orderly.lookups_of_unbound unbound
    exact ⟨_, _, value, handle, rfl, rfl⟩
  · intro v
    simp only [assign_ok_iff]
    constructor
    · constructor
      · rintro ⟨m', h, cell, found, live, accepted, -⟩
        exact ⟨h, cell, found, live, accepted⟩
      · rintro ⟨h, cell, found, live, accepted⟩
        exact ⟨m.written h v, h, cell, found, live, accepted, rfl⟩
    · rintro m' ⟨h, cell, found, live, -, rfl⟩
      refine ⟨h, cell, found, live, rfl, rfl, Store.live_write m.store h v, fun h' => ?_⟩
      rw [cell?_written (Store.live_iff.mpr ⟨cell, live⟩), live]
      rfl

/-- A name that stands for a released cell still resolves, and reading it is blamed on it. -/
theorem Built.resolves_lexically_sample :
    Sample.family.Built ∧ (lookupVariable 1 "y").run Sample.family = .ok 0 Sample.family ∧
      ∃ fault, (lookup 1 "y").run Sample.family = .error fault Sample.family ∧
        fault.cause = .notLive 0 ∧ fault.identifier = "y" := by
  have nearest : Sample.family.Nearest 1 "y" 1 :=
    ⟨.here rfl, by decide +kernel, fun a chain _ => chain⟩
  have binds : Sample.family.Binds 1 "y" (.slot 0) := ⟨_, rfl, List.mem_cons_self⟩
  obtain ⟨-, -, -, ofSlot, -, -⟩ := Sample.family_built.resolves_lexically 1 "y"
  obtain ⟨handle, -, failed⟩ := ofSlot 1 0 nearest binds
  exact ⟨Sample.family_built, handle, failed (.notLive 0) rfl⟩

end Memory

end Pseudocode
