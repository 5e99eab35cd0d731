import Pseudocode.Proofs.Aliasing

/-! # Bindings are permanent

As long as a scope is there, what it binds stays bound in the same way. A constant is its value, so it
keeps it. A variable is a cell, which keeps its type and is never emptied; other scopes come and go
with cells of their own. The global scope is always there, so this holds of it from one request to
any later one, whatever comes of them. -/

namespace Pseudocode

/-- The cell has kept its type, and it is set if it was. -/
def Cell.Lasts (cell cell' : Cell) : Prop :=
  cell'.type = cell.type ∧ (cell.value.isSome = true → cell'.value.isSome = true)

theorem Cell.Lasts.refl (cell : Cell) : cell.Lasts cell :=
  ⟨rfl, fun isSet => isSet⟩

theorem Cell.Lasts.trans {first second third : Cell} (before : first.Lasts second)
    (after : second.Lasts third) : first.Lasts third :=
  ⟨after.1.trans before.1, fun isSet => after.2 (before.2 isSet)⟩

namespace Memory

theorem binds_slot_iff {m : Memory} {id : ScopeId} {name : String} {h : Handle} :
    (m.scopes[id]?.any fun scope => scope.bindings.any fun entry =>
      entry.1 == name && entry.2.slot? == some h) = true ↔ m.Binds id name (.slot h) := by
  simp only [Option.any_eq_true, List.any_eq_true, Bool.and_eq_true, beq_iff_eq, Binds]
  constructor
  · rintro ⟨scope, found, ⟨name', b⟩, member, rfl, isSlot⟩
    cases b with
    | constant v => cases isSlot
    | slot h' =>
      cases isSlot
      exact ⟨scope, found, member⟩
  · rintro ⟨scope, found, member⟩
    exact ⟨scope, found, _, member, rfl, rfl⟩

instance (m : Memory) (id : ScopeId) (name : String) (h : Handle) :
    Decidable (m.Binds id name (.slot h)) :=
  decidable_of_iff _ binds_slot_iff

/-- Since the memory was `m`, the scope `id` has kept its bindings, and the cells of its variables
have lasted. -/
structure Retains (id : ScopeId) (m now : Memory) : Prop where
  binds : ∀ name b, m.Binds id name b → now.Binds id name b
  cells : ∀ name h, m.Binds id name (.slot h) →
    ∃ cell cell', m.store.cell? h = some cell ∧ now.store.cell? h = some cell' ∧ cell.Lasts cell'

namespace Retains

variable {id : ScopeId} {m now later : Memory}

theorem refl (sound : m.Sound) : Retains id m m where
  binds _ _ bound := bound
  cells name h bound := by
    obtain ⟨cell, found⟩ := Store.live_iff.mp (sound.live_of_binds bound)
    exact ⟨cell, cell, found, found, .refl cell⟩

section

variable (retains : Retains id m now)

include retains

theorem mono (binds : ∀ name b, now.Binds id name b → later.Binds id name b)
    (cells : ∀ name h cell, later.Binds id name (.slot h) → now.store.cell? h = some cell →
      ∃ cell', later.store.cell? h = some cell' ∧ cell.Lasts cell') :
    Retains id m later where
  binds name b bound := binds name b (retains.binds name b bound)
  cells name h bound := by
    obtain ⟨cell, cell', found, found', lasts⟩ := retains.cells name h bound
    have bound' := binds name _ (retains.binds name _ bound)
    obtain ⟨cell'', found'', lasts'⟩ := cells name h cell' bound' found'
    exact ⟨cell, cell'', found, found'', lasts.trans lasts'⟩

/-! ## Changes -/

theorem opened (parent : ScopeId) (label : String) : Retains id m (now.opened parent label) :=
  retains.mono (fun _ _ => binds_opened.mpr) fun _ _ cell _ found => ⟨cell, found, .refl cell⟩

/-- Another scope is closed. Its cells are not among those that are bound here. -/
theorem closed (sound : now.closed.Sound) (below : id < now.closed.scopes.size) :
    Retains id m now.closed := by
  rw [size_closed] at below
  refine retains.mono (fun _ _ bound => binds_closed.mpr ⟨bound, below⟩) ?_
  intro name h cell bound found
  have live := sound.live_of_binds bound
  rw [Store.Live, cell?_closed] at live
  rw [cell?_closed]
  split at live
  · cases live
  case isFalse kept => exact ⟨cell, (if_neg kept).trans found, .refl cell⟩

theorem written {h : Handle} (live : now.store.Live h) (v : Value) :
    Retains id m (now.written h v) := by
  refine retains.mono (fun _ _ bound => bound) fun name h' cell _ found => ?_
  rw [cell?_written live]
  split
  case isTrue same =>
    subst same
    exact ⟨{ cell with value := some v }, by rw [found]; rfl, rfl, fun _ => rfl⟩
  case isFalse => exact ⟨cell, found, .refl cell⟩

theorem bound {id' : ScopeId} (inside : id' < now.scopes.size) (name : String) (b : Binding) :
    Retains id m (now.bound id' name b) :=
  retains.mono (fun _ _ bound => (binds_extended inside).mpr (.inl bound))
    fun _ _ cell _ found => ⟨cell, found, .refl cell⟩

theorem declared (sound : now.store.Sound) {id' : ScopeId} (inside : id' < now.scopes.size)
    (name : String) (type : Ty) : Retains id m (now.declared id' name type) := by
  refine retains.mono (fun _ _ bound => (binds_extended inside).mpr (.inl bound)) ?_
  intro _ h cell _ found
  rw [cell?_declared sound, if_neg (sound.ne_next (Store.live_iff.mpr ⟨cell, found⟩))]
  exact ⟨cell, found, .refl cell⟩

end

theorem change {c : Config} (retains : Retains id m c.state.memory) (change : c.Change later)
    (sound : c.state.memory.Sound) (sound' : later.Sound) (inside : id < later.scopes.size) :
    Retains id m later := by
  cases change with
  | keeping => exact retains
  | opening label _ => exact retains.opened _ label
  | closing => exact retains.closed sound' inside
  | writing v sees => exact retains.written (sound.live_of_sees sees) v
  | naming v _ isScope _ => exact retains.bound isScope _ _
  | declaring _ isScope _ _ => exact retains.declared sound.store isScope _ _
  | filling v _ isScope _ _ =>
    exact (retains.declared sound.store isScope _ _).written (live_declared sound.store ..) v
  | @refusing d _ last _ =>
    have isScope : d.scope < c.state.memory.scopes.size := by
      rw [last]
      exact Nat.lt_succ_self _
    exact (retains.declared sound.store isScope _ _).closed sound' inside
  | referring _ isScope _ _ _ _ _ _ => exact retains.bound isScope _ _

end Retains

end Memory

/-! ## Runs and sessions -/

namespace Config

variable {settings : Settings} {c : Config} {m : Memory}

theorem step_retains (nested : c.Nested) (sound : c.Sound settings.maxDepth)
    (retains : Memory.Retains Memory.global m c.state.memory) :
    Memory.Retains Memory.global m (c.step settings).state.memory := by
  have sound' := (step_sound nested sound).settled.memory
  exact retains.change (step_change sound) sound.settled.memory sound' sound'.size_pos

theorem advance_retains (nested : c.Nested) (sound : c.Sound settings.maxDepth)
    (retains : Memory.Retains Memory.global m c.state.memory) (n : Nat) :
    Memory.Retains Memory.global m (c.advance settings n).state.memory := by
  refine (advance_induction (P := fun d => d.Nested ∧ d.Sound settings.maxDepth ∧
    Memory.Retains Memory.global m d.state.memory) ?_ n ⟨nested, sound, retains⟩).2.2
  rintro d ⟨nested, sound, retains⟩
  exact ⟨nested.step, step_sound nested sound, step_retains nested sound retains⟩

end Config

namespace Session

variable {s t : Session}

theorem Idle.retains (idle : t.Idle)
    {m : Memory} (retains : Memory.Retains Memory.global m t.state.memory) {c : Config}
    (passes : t.Passes c) : Memory.Retains Memory.global m c.state.memory := by
  obtain ⟨request, first, n, isFirst, rfl⟩ := passes
  obtain ⟨nested, sound⟩ := first?_sound idle isFirst
  exact Config.advance_retains nested sound (first?_memory isFirst ▸ retains) n

theorem Continues.retains (continues : s.Continues t) (idle : s.Idle) :
    Memory.Retains Memory.global s.state.memory t.state.memory := by
  induction continues with
  | refl => exact .refl idle.memory
  | @serve t t' fuel request answered before isServed ih =>
    rcases served isServed with ⟨-, rfl, -⟩ | ⟨first, isFirst, -, same⟩
    · exact ih
    · obtain ⟨-, memory, -⟩ := answer_session t.settings (first.advance t.settings fuel) request
      rw [same] at memory
      rw [memory]
      exact (before.idle idle).2.retains ih ⟨request, first, fuel, isFirst, rfl⟩

/-- From one request to a later one, and at every moment of what follows, the global names stay
bound in the same way: a constant keeps its value, and a variable its cell, which keeps its type and
stays set once it is. In no scope does a name have two bindings. -/
theorem Reached.bindings_permanent {options : Options} (reached : Reached options s)
    (continues : s.Continues t) :
    Memory.Retains Memory.global s.state.memory t.state.memory ∧
      ∀ c, t.Passes c → Memory.Retains Memory.global s.state.memory c.state.memory ∧
        ∀ id name b b', c.state.memory.Binds id name b → c.state.memory.Binds id name b' →
          b = b' := by
  have retains := continues.retains reached.idle
  have idle := (continues.idle reached.idle).2
  refine ⟨retains, fun c passes => ⟨idle.retains retains passes, ?_⟩⟩
  intro id name b b' first second
  exact (idle.passes passes).2.settled.memory.binds_unique first second

end Session

namespace Sample

def clashing : Program where
  span := .zero
  body := [
    .assign (word "x") (.integer 7 .zero) .zero,
    .constant (word "x") (named "INTEGER") (.integer 1 .zero) .zero]

theorem clashing_ends : (finished.serve 50 (.program (some clashing))).isSome = true := by
  decide +kernel

def clashed : Session :=
  ((finished.serve 50 (.program (some clashing))).get clashing_ends).2

theorem clashed_continues : finished.Continues clashed :=
  .serve 50 (.program (some clashing)) _ .refl (Option.some_get clashing_ends).symm

end Sample

/-- The variable `x` lasts. -/
theorem Session.Reached.bindings_permanent_sample :
    Reached {} Sample.finished ∧ Sample.finished.Continues Sample.clashed ∧
      Sample.finished.state.memory.Binds Memory.global "x" (.slot 0) ∧
      Sample.clashed.state.memory.Binds Memory.global "x" (.slot 0) ∧
      ∃ cell cell', Sample.finished.state.memory.store.cell? 0 = some cell ∧
        Sample.clashed.state.memory.store.cell? 0 = some cell' ∧ cell.Lasts cell' := by
  have bound : Sample.finished.state.memory.Binds Memory.global "x" (.slot 0) := by decide +kernel
  obtain ⟨retains, -⟩ := Reached.bindings_permanent Sample.reached Sample.clashed_continues
  exact ⟨Sample.reached, Sample.clashed_continues, bound, retains.binds "x" _ bound,
    retains.cells "x" 0 bound⟩

end Pseudocode
