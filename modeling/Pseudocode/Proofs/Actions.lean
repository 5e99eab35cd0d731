import Pseudocode.Proofs.Ownership

/-! # What may come of an operation on a sound memory

One lemma for each operation: what it gives, what it leaves behind when it succeeds, and what it
leaves behind when it fails. A fault is never that a handle is not live. -/

namespace Pseudocode

def Cause.Tame (cause : Cause) : Prop :=
  ∀ h, cause ≠ .notLive h

/-- If there is a fault inside, its cause is not that a handle has no cell. -/
def Failure.Tame (f : Failure) : Prop :=
  ∀ fault, f.fault? = some fault → fault.cause.Tame

theorem Fault.annotate_cause (f : Fault) (name : String) : (f.annotate name).cause = f.cause := by
  unfold Fault.annotate
  split <;> rfl

theorem Fault.withSpan_cause (f : Fault) (span : Span) : (f.withSpan span).cause = f.cause := by
  unfold Fault.withSpan
  split <;> rfl

theorem Failure.fault?_mapFault (f : Failure) (change : Fault → Fault) :
    (f.mapFault change).fault? = f.fault?.map change := by
  induction f with
  | fault f => rfl
  | plain text => rfl
  | wrapped text inner ih => exact ih

theorem Failure.kind?_mapFault (f : Failure) {change : Fault → Fault}
    (same : ∀ fault, (change fault).cause = fault.cause) : (f.mapFault change).kind? = f.kind? := by
  unfold kind?
  rw [fault?_mapFault, Option.map_map]
  simp only [Function.comp_def, same]

@[simp] theorem Failure.kind?_withSpan (f : Failure) (span : Span) :
    (f.withSpan span).kind? = f.kind? :=
  f.kind?_mapFault fun fault => fault.withSpan_cause span

@[simp] theorem Failure.kind?_annotate (f : Failure) (name : String) :
    (f.annotate name).kind? = f.kind? :=
  f.kind?_mapFault fun fault => fault.annotate_cause name

@[simp] theorem Failure.kind?_of (cause : Cause) : (Failure.of cause).kind? = some cause.kind := rfl

theorem Failure.Tame.fault {f : Fault} (tame : f.cause.Tame) : (Failure.fault f).Tame := by
  intro fault inside
  cases inside
  exact tame

variable {f : Failure}

theorem Failure.Tame.of_none (none : f.fault? = none) : f.Tame := by
  intro fault inside
  rw [none] at inside
  cases inside

theorem Failure.Tame.mapFault (tame : f.Tame) {change : Fault → Fault}
    (same : ∀ fault, (change fault).cause = fault.cause) : (f.mapFault change).Tame := by
  intro fault inside
  rw [Failure.fault?_mapFault] at inside
  obtain ⟨before, insideBefore, rfl⟩ := Option.map_eq_some_iff.mp inside
  rw [same]
  exact tame before insideBefore

theorem Failure.Tame.withSpan (tame : f.Tame) (span : Span) : (f.withSpan span).Tame :=
  tame.mapFault fun fault => fault.withSpan_cause span

theorem Failure.Tame.annotate (tame : f.Tame) (name : String) : (f.annotate name).Tame :=
  tame.mapFault fun fault => fault.annotate_cause name

namespace Memory

/-- The operation gives a result and a memory of one kind, or a fault and a memory of another. -/
def Yields {α : Type} (r : EStateM.Result Fault Memory α) (onOk : α → Memory → Prop)
    (onFault : Fault → Memory → Prop) : Prop :=
  match r with
  | .ok a m => onOk a m
  | .error fault m => onFault fault m

/-- A sound memory with the same scopes, which have kept their parents and their bindings. -/
structure Next (m m' : Memory) : Prop where
  sound : m'.Sound
  size : m'.scopes.size = m.scopes.size
  kept : Kept m.scopes.size m m'

/-- The memory is as it was, and the fault is tame. -/
def Unchanged (m : Memory) (fault : Fault) (m' : Memory) : Prop :=
  m' = m ∧ fault.cause.Tame

variable {bad : Fault → Memory → Prop} {bad' : Fault → Memory → Prop} {α : Type}

theorem Yields.bind {β : Type} {x : Action α} {f : α → Action β} {m : Memory}
    {good : α → Memory → Prop} {good' : β → Memory → Prop} (first : Yields (x.run m) good bad)
    (second : ∀ a m', good a m' → Yields ((f a).run m') good' bad) :
    Yields ((x >>= f).run m) good' bad := by
  rw [EStateM.run_bind]
  cases result : x.run m with
  | ok a m' =>
    rw [result] at first
    exact second a m' first
  | error fault m' =>
    rw [result] at first
    exact first

theorem Yields.mono {r : EStateM.Result Fault Memory α} {good good' : α → Memory → Prop}
    (yields : Yields r good bad) (ok : ∀ a m, good a m → good' a m)
    (fault : ∀ f m, bad f m → bad' f m) : Yields r good' bad' := by
  cases r with
  | ok a m => exact ok a m yields
  | error f m => exact fault f m yields

theorem Yields.any (r : EStateM.Result Fault Memory α) :
    Yields r (fun _ _ => True) (fun _ _ => True) := by
  cases r <;> trivial

theorem Yields.and {r : EStateM.Result Fault Memory α} {good good' : α → Memory → Prop}
    (first : Yields r good bad) (second : Yields r good' bad') :
    Yields r (fun a m => good a m ∧ good' a m) (fun f m => bad f m ∧ bad' f m) := by
  cases r with
  | ok a m => exact ⟨first, second⟩
  | error f m => exact ⟨first, second⟩

theorem Next.trans {m m' m'' : Memory} (first : m.Next m') (second : m'.Next m'') : m.Next m'' :=
  ⟨second.sound, second.size.trans first.size, first.kept.trans (first.size ▸ second.kept)⟩

theorem get_tame {m : Memory} {h : Handle} (live : m.store.Live h) {cause : Cause}
    (failed : m.store.get h = .error cause) : cause.Tame := by
  rcases Store.get_eq_error failed with ⟨none, -⟩ | ⟨type, rfl⟩
  · rw [Store.Live, none] at live
    cases live
  · exact fun h same => by cases same

theorem lookup_same (m : Memory) (id : ScopeId) (name : String) :
    Yields ((lookup id name).run m) (fun _ m' => m' = m) (fun _ m' => m' = m) := by
  rw [lookup_run]
  repeat' split
  all_goals rfl

theorem declareConstant_store (m : Memory) (id : ScopeId) (name : String) (type : Ty) (v : Value) :
    Yields ((declareConstant id name type v).run m) (fun _ m' => m'.store = m.store)
      (fun _ _ => True) := by
  rw [declareConstant_run]
  repeat' split
  all_goals trivial

theorem lookupVariable_yields (m : Memory) (id : ScopeId) (name : String) :
    Yields ((lookupVariable id name).run m) (fun h m' => m' = m ∧ m.Sees id h) m.Unchanged := by
  rw [lookupVariable_run]
  split
  case h_1 => exact ⟨rfl, nofun⟩
  case h_2 => exact ⟨rfl, nofun⟩
  case h_3 h resolved => exact ⟨rfl, resolve?_sees resolved⟩

namespace Sound

variable {m : Memory} {id : ScopeId} {name : String} {type : Ty}

theorem next_refl (sound : m.Sound) : m.Next m :=
  ⟨sound, rfl, .refl _ _⟩

variable {v : Value} {caller : ScopeId}

variable (sound : m.Sound)

include sound

theorem get_plain {h : Handle} (read : m.store.get h = .ok v) : v.Plain := by
  obtain ⟨cell, found, value⟩ := Store.get_eq_ok_iff.mp read
  exact ((sound.cells h cell found).2 v value).2

theorem lookup (id : ScopeId) (name : String) :
    Yields ((Memory.lookup id name).run m) (fun v m' => m' = m ∧ v.Fits m id) m.Unchanged := by
  rw [lookup_run]
  split
  case h_1 => exact ⟨rfl, nofun⟩
  case h_2 v resolved =>
    obtain ⟨a, chain, binds⟩ := resolve?_onChain resolved
    exact ⟨rfl, (sound.constants a name v binds).onChain chain⟩
  case h_3 h resolved =>
    split
    case h_1 v read => exact ⟨rfl, (sound.get_plain read).fits m id⟩
    case h_2 cause failed =>
      refine ⟨rfl, ?_⟩
      rw [Fault.annotate_cause]
      exact get_tame (sound.live_of_resolve? resolved) failed

theorem writeAs (name : String) {h : Handle} (live : m.store.Live h) (fits : v.Fits m id) :
    Yields ((Memory.writeAs name h v).run m) (fun _ m' => m.Next m') m.Unchanged := by
  rw [writeAs_run]
  split
  case h_1 cause refused =>
    refine ⟨rfl, ?_⟩
    rw [Fault.annotate_cause]
    rcases Store.refusal?_eq_some refused with ⟨none, -⟩ | ⟨type, rfl⟩
    · rw [Store.Live, none] at live
      cases live
    · exact fun h same => by cases same
  case h_2 allowed =>
    obtain ⟨cell, found, accepted⟩ := Store.refusal?_eq_none_iff.mp allowed
    have plain := fits.plain (sound.cells h cell found).1 accepted
    exact ⟨sound.written found accepted plain, rfl, .of_scopes_eq rfl⟩

theorem assign (name : String) (fits : v.Fits m id) :
    Yields ((Memory.assign id name v).run m) (fun _ m' => m.Next m') m.Unchanged := by
  rw [assign_run]
  split
  case h_1 => exact ⟨rfl, nofun⟩
  case h_2 => exact ⟨rfl, nofun⟩
  case h_3 h resolved => exact sound.writeAs name (sound.live_of_resolve? resolved) fits

theorem declareVariable (inside : id < m.scopes.size) (name : String) (data : type.IsData) :
    Yields ((Memory.declareVariable id name type).run m) (fun _ m' => m.Next m') m.Unchanged := by
  rw [declareVariable_run]
  split
  case isTrue => exact ⟨rfl, nofun⟩
  case isFalse free =>
    have sound' := sound.declared inside (Bool.eq_false_iff.mpr free) data
    exact ⟨sound', size_declared .., .extended _ _ _ _ _ _ _⟩

theorem declareConstant (inside : id < m.scopes.size) (name : String) (type : Ty)
    (fits : v.Fits m id) :
    Yields ((Memory.declareConstant id name type v).run m) (fun _ m' => m.Next m')
      m.Unchanged := by
  rw [declareConstant_run]
  split
  case isTrue => exact ⟨rfl, nofun⟩
  case isFalse free =>
    split
    case isTrue =>
      have sound' := sound.boundConstant inside (Bool.eq_false_iff.mpr free) fits
      exact ⟨sound', size_bound .., .extended _ _ _ _ _ _ _⟩
    case isFalse =>
      refine ⟨rfl, ?_⟩
      rw [Fault.annotate_cause]
      exact nofun

/-- A variable that is seen from one scope can be referred to from a later one. -/
theorem bindReference {callee : ScopeId} (inside : callee < m.scopes.size) (later : caller < callee)
    (name : String) (type : Ty) {h : Handle} (sees : m.Sees caller h) :
    Yields ((Memory.bindReference callee name type h).run m) (fun _ m' => m.Next m')
      m.Unchanged := by
  rw [bindReference_run]
  split
  case isTrue => exact ⟨rfl, nofun⟩
  case isFalse free =>
    split
    case isTrue =>
      obtain ⟨a, variable_, chain, binds⟩ := sees
      obtain ⟨owner, le, owns⟩ := sound.slots a variable_ h binds
      have earlier : owner < callee :=
        Nat.lt_of_le_of_lt (Nat.le_trans le (chain.le sound.ranked)) later
      have sound' := sound.boundReference inside (Bool.eq_false_iff.mpr free) owns earlier
      exact ⟨sound', size_bound .., .extended _ _ _ _ _ _ _⟩
    case isFalse => exact ⟨rfl, nofun⟩

theorem passReference {callee : ScopeId} (inside : callee < m.scopes.size) (later : caller < callee)
    (x name : String) (type : Ty) :
    Yields ((Memory.passReference caller x callee name type).run m) (fun _ m' => m.Next m')
      m.Unchanged := by
  refine (m.lookupVariable_yields caller x).bind ?_
  rintro h m' ⟨rfl, sees⟩
  exact sound.bindReference inside later name type sees

/-- When the value is refused, the variable stays declared. -/
theorem bindValue (inside : id < m.scopes.size) (name : String) (data : type.IsData)
    (seen : caller < m.scopes.size) (fits : v.Fits m caller) :
    Yields ((Memory.bindValue id name type v).run m) (fun _ m' => m.Next m')
      (fun fault m' => m.Next m' ∧ fault.cause.Tame) := by
  rw [bindValue_run]
  split
  case isTrue => exact ⟨sound.next_refl, nofun⟩
  case isFalse free =>
    have sound' := sound.declared inside (Bool.eq_false_iff.mpr free) data
    have kept : Kept m.scopes.size m (m.declared id name type) := .extended _ _ _ _ _ _ _
    have live := live_declared sound.store id name type
    have next : m.Next (m.declared id name type) := ⟨sound', size_declared .., kept⟩
    refine (sound'.writeAs name live (fits.kept sound.ranked kept seen)).mono ?_ ?_
    · exact fun _ _ wrote => next.trans wrote
    · rintro fault m' ⟨rfl, tame⟩
      exact ⟨next, tame⟩

end Sound

end Memory

end Pseudocode
