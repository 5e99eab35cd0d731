import Pseudocode.Proofs.Calls

/-! # The frame of a call

What a call leaves as it found it. The scopes before its own are not touched, and of their cells it
changes those only that the home of its routine sees and those that were passed by reference.

Lookup goes up the static chain, so everything that a call reaches outside is on the chain of the
home or bound in the scope of the call. `Memory.Framed` says this for all scopes opened since the
call began and not only for its own. For that reason it lasts through inner calls, which hang on the
same chain and can pass on no more than they see. -/

namespace Pseudocode

namespace Memory

/-- Scopes closed under going up, and cells, among them those that the scopes bind. -/
structure Reach (m : Memory) where
  scope : ScopeId → Prop
  cell : Handle → Prop
  up : ∀ (id : ScopeId) found parent, scope id → m.scopes[id]? = some found →
    found.parent = some parent → scope parent
  binds : ∀ id name h, scope id → m.Binds id name (.slot h) → cell h

def Reach.all (m : Memory) : Reach m :=
  ⟨fun _ => True, fun _ => True, fun _ _ _ _ _ _ => trivial, fun _ _ _ _ _ => trivial⟩

/-- What the home sees, and what has been passed to the call. -/
def Reach.ofCall {m : Memory} (ranked : m.Ranked) (home callee : ScopeId) : Reach m where
  scope a := m.OnChain a home
  cell h := m.Sees home h ∨ ∃ name, m.Binds callee name (.slot h)
  up id found parent chain isFound isParent := by
    have below := ranked id found parent isFound isParent
    have inside : parent < m.scopes.size := Nat.lt_trans below chain.lt_size
    exact OnChain.trans (.up isFound isParent (.refl inside)) chain
  binds id name h chain bound := .inl ⟨id, name, chain, bound⟩

def Foreign (m : Memory) (callee : ScopeId) (h : Handle) : Prop :=
  ∃ owner < callee, m.Owns owner h

/-- The cell has kept its type, and its content unless it may have been written. -/
def KeepsCell (m now : Memory) (mayWrite : Prop) (h : Handle) : Prop :=
  ∃ cell cell', m.store.cell? h = some cell ∧ now.store.cell? h = some cell' ∧
    cell'.type = cell.type ∧ (cell'.value = cell.value ∨ mayWrite)

theorem Foreign.keepsCell {m : Memory} {callee : ScopeId} {h : Handle} {mayWrite : Prop}
    (foreign : m.Foreign callee h) (sound : m.Sound) : m.KeepsCell m mayWrite h := by
  obtain ⟨owner, -, owns⟩ := foreign
  obtain ⟨cell, found⟩ := Store.live_iff.mp ((sound.live h).mpr ⟨owner, owns⟩)
  exact ⟨cell, cell, found, found, rfl, .inl rfl⟩

/-- Since the memory was `m`, the scopes before `callee` have been kept, and the later ones have used
of them what is in reach. -/
structure Framed (m : Memory) (callee : ScopeId) (reach : Reach m) (now : Memory) : Prop where
  scopes : ∀ id < callee, now.scopes[id]? = m.scopes[id]?
  parents : ∀ (id : ScopeId) scope parent, callee ≤ id → now.scopes[id]? = some scope →
    scope.parent = some parent → parent < callee → reach.scope parent
  slots : ∀ id name h, callee ≤ id → now.Binds id name (.slot h) → m.Foreign callee h →
    reach.cell h
  cells : ∀ h, m.Foreign callee h → m.KeepsCell now (reach.cell h) h

theorem mem_lastOwned_declared {m : Memory} {id : ScopeId} {name : String} {type : Ty} {h : Handle}
    (member : h ∈ (m.declared id name type).lastOwned) : h = m.store.next ∨ h ∈ m.lastOwned := by
  unfold lastOwned at member ⊢
  rw [size_declared, declared, scopes_extended] at member
  split at member
  case isTrue =>
    cases last : m.scopes[m.scopes.size - 1]? with
    | none => simp [last] at member
    | some scope => simpa [last] using member
  case isFalse => exact .inr member

namespace Framed

variable {m now : Memory} {callee : ScopeId} {reach : Reach m}

variable {id : ScopeId} {h : Handle}

section

variable (framed : Framed m callee reach now)

include framed

theorem binds_iff (below : id < callee) {name : String} {b : Binding} :
    now.Binds id name b ↔ m.Binds id name b := by
  unfold Binds
  rw [framed.scopes id below]

theorem live (foreign : m.Foreign callee h) : now.store.Live h := by
  obtain ⟨_, cell', -, found, -⟩ := framed.cells h foreign
  exact Store.live_iff.mpr ⟨cell', found⟩

theorem ne_next (sound : now.Sound) (foreign : m.Foreign callee h) : h ≠ now.store.next :=
  sound.store.ne_next (framed.live foreign)

omit framed in
theorem of_opened (sound : m.Sound) (parent : ScopeId) (label : String) :
    Framed m m.scopes.size (.all m) (m.opened parent label) where
  scopes id below := by rw [scopes_opened, if_neg (Nat.ne_of_lt below)]
  parents _ _ _ _ _ _ _ := trivial
  slots _ _ _ _ _ _ := trivial
  cells _ foreign := foreign.keepsCell sound

/-- Going up from a later scope or from one in reach leads to a later scope or to one in reach. -/
theorem onChain {a : ScopeId} (chain : now.OnChain a id) (within : callee ≤ id ∨ reach.scope id) :
    callee ≤ a ∨ reach.scope a := by
  induction chain with
  | here => exact within
  | @up id parent scope found isParent _ ih =>
    apply ih
    by_cases later : callee ≤ id
    · by_cases below : parent < callee
      · exact .inr (framed.parents id scope parent later found isParent below)
      · exact .inl (Nat.le_of_not_lt below)
    · rw [framed.scopes id (Nat.lt_of_not_le later)] at found
      exact .inr (reach.up id scope parent (within.resolve_left later) found isParent)

theorem sees (sees : now.Sees id h) (within : callee ≤ id ∨ reach.scope id)
    (foreign : m.Foreign callee h) : reach.cell h := by
  obtain ⟨a, name, chain, binds⟩ := sees
  by_cases later : callee ≤ a
  · exact framed.slots a name h later binds foreign
  · have old := (framed.binds_iff (Nat.lt_of_not_le later)).mp binds
    exact reach.binds a name h ((framed.onChain chain within).resolve_left later) old

/-! ## Changes -/

theorem opened (inside : callee ≤ now.scopes.size) {parent : ScopeId}
    (reached : callee ≤ parent ∨ reach.scope parent) (label : String) :
    Framed m callee reach (now.opened parent label) where
  scopes id below := by
    rw [scopes_opened, if_neg (Nat.ne_of_lt (Nat.lt_of_lt_of_le below inside))]
    exact framed.scopes id below
  parents id scope parent' later found isParent below := by
    rw [scopes_opened] at found
    split at found
    · cases found
      cases isParent
      exact reached.resolve_left (Nat.not_le_of_lt below)
    · exact framed.parents id scope parent' later found isParent below
  slots id name h later bound := framed.slots id name h later (binds_opened.mp bound)
  cells := framed.cells

/-- The last scope goes, and its cells may go with it. -/
theorem dropped (sound : now.Sound) (le : callee ≤ now.scopes.size - 1) {later : Memory}
    (scopes : ∀ id : ScopeId, later.scopes[id]? =
      if id < now.scopes.size - 1 then now.scopes[id]? else none)
    (cells : ∀ h, now.store.Live h → h ∉ now.lastOwned → later.store.cell? h = now.store.cell? h) :
    Framed m callee reach later := by
  have old {id : ScopeId} {scope : Scope} (found : later.scopes[id]? = some scope) :
      now.scopes[id]? = some scope := by
    rw [scopes] at found
    split at found
    · exact found
    · cases found
  refine ⟨?_, ?_, ?_, ?_⟩
  · intro id below
    rw [scopes, if_pos (Nat.lt_of_lt_of_le below le)]
    exact framed.scopes id below
  · intro id scope parent isLater found isParent below
    exact framed.parents id scope parent isLater (old found) isParent below
  · rintro id name h isLater ⟨scope, found, member⟩ foreign
    exact framed.slots id name h isLater ⟨scope, old found, member⟩ foreign
  · intro h foreign
    unfold KeepsCell
    rw [cells h (framed.live foreign)]
    · exact framed.cells h foreign
    · intro member
      -- A cell has one owner, and this one's is before the call.
      obtain ⟨owner, below, scope, found, owned⟩ := foreign
      rw [← framed.scopes owner below] at found
      have same := sound.owner owner _ h ⟨scope, found, owned⟩ (sound.mem_lastOwned.mp member)
      exact Nat.not_le_of_lt below (same ▸ le)

theorem extended (later : callee ≤ id) (inside : id < now.scopes.size) {name : String} {b : Binding}
    {cells : List Handle} {store : Store}
    (slot : ∀ h, b = .slot h → m.Foreign callee h → reach.cell h)
    (same : ∀ h, m.Foreign callee h → store.cell? h = now.store.cell? h) :
    Framed m callee reach (now.extended id name b cells store) where
  scopes id' below := by
    rw [scopes_extended, if_neg (Nat.ne_of_gt (Nat.lt_of_lt_of_le below later))]
    exact framed.scopes id' below
  parents id' scope parent later' found isParent below := by
    obtain ⟨before, foundBefore, rfl | ⟨-, rfl⟩⟩ := scope_of_extended found <;>
      exact framed.parents id' before parent later' foundBefore isParent below
  slots id' name' h later' bound foreign := by
    rcases (binds_extended inside).mp bound with old | ⟨-, -, isSlot⟩
    · exact framed.slots id' name' h later' old foreign
    · exact slot h isSlot.symm foreign
  cells h foreign := by
    change ∃ cell cell', _ ∧ store.cell? h = some cell' ∧ _
    rw [same h foreign]
    exact framed.cells h foreign

theorem declared (sound : now.Sound) (later : callee ≤ id) (inside : id < now.scopes.size)
    (name : String) (type : Ty) : Framed m callee reach (now.declared id name type) := by
  apply framed.extended later inside
  · intro h isNext foreign
    cases isNext
    exact absurd rfl (framed.ne_next sound foreign)
  · intro h foreign
    exact (cell?_declared sound.store id name type h).trans (if_neg (framed.ne_next sound foreign))

theorem written (live : now.store.Live h) (reached : m.Foreign callee h → reach.cell h)
    (v : Value) : Framed m callee reach (now.written h v) where
  scopes := framed.scopes
  parents := framed.parents
  slots := framed.slots
  cells h' foreign := by
    obtain ⟨cell, cell', before, found, type, value⟩ := framed.cells h' foreign
    unfold KeepsCell
    rw [cell?_written live]
    split
    case isTrue same =>
      subst same
      exact ⟨cell, { cell' with value := some v }, before, by rw [found]; rfl, type,
        .inr (reached foreign)⟩
    case isFalse => exact ⟨cell, cell', before, found, type, value⟩

end

/-- What changes in a step that closes and names later scopes only and looks names up from a later
scope or from one in reach. -/
theorem change {c : Config} {m' : Memory} (change : c.Change m')
    (framed : Framed m callee reach c.state.memory) (sound : c.state.memory.Sound)
    (inside : callee ≤ c.state.memory.scopes.size) (remains : callee ≤ m'.scopes.size)
    (within : callee ≤ c.scope ∨ reach.scope c.scope) (names : c.names = true → callee ≤ c.scope)
    (declares : ∀ d, c.declares? = some d → callee ≤ d.scope) : Framed m callee reach m' := by
  cases change with
  | keeping => exact framed
  | opening label chain => exact framed.opened inside (framed.onChain chain within) label
  | closing =>
    refine framed.dropped sound (size_closed _ ▸ remains) (scopes_closed _) fun h _ others => ?_
    rw [cell?_closed, if_neg others]
  | writing v sees => exact framed.written (sound.live_of_sees sees) (framed.sees sees within) v
  | naming v naming isScope _ =>
    exact framed.extended (names naming) isScope (fun _ isSlot => nomatch isSlot) fun _ _ => rfl
  | @declaring d isDeclared isScope _ _ =>
    exact framed.declared sound (declares d isDeclared) isScope ..
  | @filling d v isDeclared isScope _ _ =>
    refine (framed.declared sound (declares d isDeclared) isScope d.name d.type).written
      (live_declared sound.store ..) (fun foreign => ?_) v
    exact absurd rfl (framed.ne_next sound foreign)
  | @refusing d isDeclared last _ =>
    rw [size_closed, size_declared] at remains
    refine framed.dropped sound remains (fun id => ?_) fun h live others => ?_
    · rw [scopes_closed, size_declared, last, Nat.add_sub_cancel]
      split
      case isTrue below => exact (scopes_extended ..).trans (if_neg (Nat.ne_of_gt below))
      case isFalse => rfl
    · rw [cell?_closed, if_neg, cell?_declared sound.store, if_neg (sound.store.ne_next live)]
      intro member
      rcases mem_lastOwned_declared member with isNext | old
      · exact sound.store.ne_next live isNext
      · exact others old
  | @referring d a x h isDeclared isScope _ _ _ chain binds _ =>
    refine framed.extended (declares d isDeclared) isScope (fun h' isSlot foreign => ?_)
      fun _ _ => rfl
    cases isSlot
    exact framed.sees ⟨a, x, chain, binds⟩ within foreign

end Framed

/-! ## The scope of a call while arguments are bound in it -/

/-- The scope hangs below the home of the routine, and its variables are its own or parameters that
are passed by reference. -/
structure Prepared (callee : ScopeId) (routine : Routine) (m : Memory) : Prop where
  parent : ∃ scope, m.scopes[callee]? = some scope ∧ scope.parent = some routine.home
  slots : ∀ name h, m.Binds callee name (.slot h) →
    m.Owns callee h ∨ ∃ p ∈ routine.params, p.byRef = true ∧ p.name = name

namespace Prepared

variable {m : Memory} {callee : ScopeId} {routine : Routine}

section

variable (prepared : Prepared callee routine m)

include prepared

theorem lt_size : callee < m.scopes.size := by
  obtain ⟨scope, found, -⟩ := prepared.parent
  exact (Array.getElem?_eq_some_iff.mp found).1

omit prepared in
theorem of_opened (m : Memory) (routine : Routine) :
    Prepared m.scopes.size routine (m.opened routine.home routine.name) where
  parent := by
    rw [scopes_opened, if_pos rfl]
    exact ⟨_, rfl, rfl⟩
  slots name h binds := absurd (binds_opened.mp binds).lt_size (Nat.lt_irrefl _)

theorem opened (parent : ScopeId) (label : String) :
    Prepared callee routine (m.opened parent label) where
  parent := by
    rw [scopes_opened, if_neg (Nat.ne_of_lt prepared.lt_size)]
    exact prepared.parent
  slots name h binds := by
    rw [owns_opened]
    exact prepared.slots name h (binds_opened.mp binds)

theorem closed (below : callee < m.closed.scopes.size) : Prepared callee routine m.closed := by
  rw [size_closed] at below
  refine ⟨?_, fun name h binds => ?_⟩
  · rw [scopes_closed, if_pos below]
    exact prepared.parent
  · rw [owns_closed, and_iff_left below]
    exact prepared.slots name h (binds_closed.mp binds).1

theorem extended {id : ScopeId} {name : String} {b : Binding} {cells : List Handle} {store : Store}
    (inside : id < m.scopes.size)
    (slot : ∀ h, b = .slot h → id = callee →
      h ∈ cells ∨ ∃ p ∈ routine.params, p.byRef = true ∧ p.name = name) :
    Prepared callee routine (m.extended id name b cells store) where
  parent := by
    obtain ⟨scope, found, isHome⟩ := prepared.parent
    obtain ⟨scope', found', same, -⟩ :=
      Kept.extended _ m id name b cells store callee scope prepared.lt_size found
    exact ⟨scope', found', same.trans isHome⟩
  slots name' h binds := by
    rw [owns_extended inside]
    rcases (binds_extended inside).mp binds with old | ⟨same, rfl, isSlot⟩
    · exact (prepared.slots name' h old).imp_left .inl
    · exact (slot h isSlot.symm same.symm).imp_left fun new => .inr ⟨same, new⟩

theorem declared {id : ScopeId} (inside : id < m.scopes.size) (name : String) (type : Ty) :
    Prepared callee routine (m.declared id name type) := by
  apply prepared.extended inside
  intro h isNext _
  cases isNext
  exact .inl List.mem_cons_self

end

theorem change {c : Config} {m' : Memory} (change : c.Change m')
    (prepared : Prepared callee routine c.state.memory) (inside : callee < m'.scopes.size)
    (references : ∀ d, c.declares? = some d → d.scope = callee → d.source.isSome = true →
      ∃ p ∈ routine.params, p.byRef = true ∧ p.name = d.name) : Prepared callee routine m' := by
  cases change with
  | keeping => exact prepared
  | opening label => exact prepared.opened _ label
  | closing => exact prepared.closed inside
  | writing => exact ⟨prepared.parent, prepared.slots⟩
  | naming v _ isScope => exact prepared.extended isScope fun _ isSlot => nomatch isSlot
  | declaring _ isScope => exact prepared.declared isScope ..
  | @filling d v _ isScope =>
    have declared := prepared.declared isScope d.name d.type
    exact ⟨declared.parent, declared.slots⟩
  | @refusing d _ last =>
    exact (prepared.declared (last ▸ Nat.lt_succ_self d.scope) ..).closed inside
  | @referring d a x h isDeclared isScope _ source =>
    apply prepared.extended isScope
    intro _ _ same
    exact .inr (references d isDeclared same (source ▸ rfl))

end Prepared

/-- A call reaches what its home sees and what was passed to it. -/
theorem Framed.of_prepared {m : Memory} {callee : ScopeId} {routine : Routine} (sound : m.Sound)
    (prepared : Prepared callee routine m) (last : m.scopes.size = callee + 1) :
    Framed m callee (.ofCall sound.ranked routine.home callee) m := by
  have only {id : ScopeId} (later : callee ≤ id) (inside : id < m.scopes.size) : id = callee := by
    rw [last] at inside
    exact Nat.le_antisymm (Nat.le_of_lt_succ inside) later
  refine ⟨fun _ _ => rfl, ?_, ?_, fun h foreign => foreign.keepsCell sound⟩
  · intro id scope parent later found isParent below
    have inside := (Array.getElem?_eq_some_iff.mp found).1
    obtain ⟨scope', found', isHome⟩ := prepared.parent
    cases only later inside
    cases found.symm.trans found'
    cases isParent.symm.trans isHome
    exact .refl (Nat.lt_trans below inside)
  · intro id name h later binds _
    cases only later binds.lt_size
    exact .inr ⟨name, binds⟩

end Memory

/-! ## Runs of calls -/

namespace Config

variable {settings : Settings} {base : List Frame} {callee : ScopeId} {routine : Routine}
  {c : Config}

/-- What holds when a call is somewhere and is kept from there on holds until the call is left, and
also then. -/
theorem until_left {Q P : Config → Prop}
    (moves : ∀ c, Q c → Q (c.step settings) ∨ Left base (c.step settings))
    (running : ∀ c, Q c → c.halted = false) (keeps : ∀ c, Q c → P c → P (c.step settings))
    (begins : Q c) (holds : P c) (n : Nat) (open_ : ∀ j < n, ¬ Left base (c.advance settings j)) :
    P (c.advance settings n) ∧ (Q (c.advance settings n) ∨ Left base (c.advance settings n)) := by
  induction n generalizing c with
  | zero => exact ⟨holds, .inl begins⟩
  | succ n ih =>
    have next (k : Nat) : c.advance settings (k + 1) = (c.step settings).advance settings k :=
      advance_succ (running c begins) k
    rw [next]
    rcases moves c begins with inside | left
    · refine ih inside (keeps c begins holds) fun j below => ?_
      rw [← next]
      exact open_ (j + 1) (Nat.succ_lt_succ below)
    · cases n with
      | zero => exact ⟨keeps c begins holds, .inr left⟩
      | succ n =>
        have early := open_ 1 (by omega)
        rw [next] at early
        exact absurd left early

theorem Within.running (within : Within base callee routine c) : c.halted = false := by
  cases within with
  | binding => cases base <;> rfl
  | @argument _ upper => cases upper <;> rfl
  | entered entered =>
    obtain @⟨_, upper⟩ := entered
    cases upper <;> rfl

theorem Within.framed (within : Within base callee routine c) {m : Memory} {reach : m.Reach}
    {limit : Nat} (framed : m.Framed callee reach c.state.memory) (nested : c.Nested)
    (sound : c.Sound limit) (looks : callee ≤ c.scope ∨ reach.scope c.scope) :
    m.Framed callee reach (c.step settings).state.memory := by
  have inside := within.callee_lt sound
  have change : c.Change (c.step settings).state.memory := step_change sound
  have remains := Nat.le_trans (Nat.le_sub_one_of_lt inside) change.size_le
  exact framed.change change sound.settled.memory (Nat.le_of_lt inside) remains looks
    (fun naming => within.callee_le sound nested (inStatement_of_names naming)) fun _ declares =>
    (within.declares sound nested declares).1

/-- The configuration begins a call, and after `k` steps its arguments are bound. -/
structure Invokes (settings : Settings) (c : Config) (k : Nat) (call : Call) : Prop where
  calls : c.control.isCall = true
  control : (c.advance settings k).control = .bind call
  bound : call.params = []
  stack : (c.advance settings k).stack = c.stack
  first : ∀ j < k, ¬ c.Returned (c.advance settings j)

/-! A run above other frames can be read off the run of what is done alone. -/

section Alone

variable {n : Nat} (running : ∀ k < n, (c.alone.advance settings k).halted = false)

include running

theorem stack_of_alone (lowest : (c.alone.advance settings n).stack = []) :
    (c.advance settings n).stack = c.stack := by
  rw [advance_alone running, onto, lowest, List.nil_append]

theorem not_returned_of_alone : ∀ k < n, ¬ c.Returned (c.advance settings k) := by
  rintro k below ⟨stack, isOutcome⟩
  rw [advance_alone fun j earlier => running j (Nat.lt_trans earlier below)] at stack isOutcome
  have halted := halted_iff.mpr ⟨List.append_left_eq_self.mp stack, isOutcome⟩
  rw [running k below] at halted
  cases halted

theorem Ends.of_alone (halted : (c.alone.advance settings n).halted = true) :
    c.Ends settings n (c.advance settings n).control := by
  obtain ⟨lowest, isOutcome⟩ := halted_iff.mp halted
  refine ⟨⟨stack_of_alone running lowest, ?_⟩, rfl, not_returned_of_alone running⟩
  rw [advance_alone running]
  exact isOutcome

end Alone

/-- With no frame of its own above the others, a call is about to bind an argument or to enter the
routine. -/
theorem Within.binds (within : Within base callee routine c) (lowest : c.stack = base) :
    ∃ call, c.control = .bind call ∧ call.Of callee routine := by
  have short (upper : List Frame) (frame : Frame) : upper ++ frame :: base ≠ base := by
    intro same
    have lengths := congrArg List.length same
    simp only [List.length_append, List.length_cons] at lengths
    omega
  cases within with
  | binding same => exact ⟨_, rfl, same⟩
  | argument => exact absurd lowest (short _ _)
  | entered entered =>
    cases entered
    exact absurd lowest (short _ _)

theorem not_isOutcome_of_isCall (calls : c.control.isCall = true) :
    ¬ c.control.isOutcome = true := by
  cases isControl : c.control <;> simp_all [Control.isCall, Control.isOutcome]

theorem running_of_isCall (calls : c.control.isCall = true) : c.halted = false := by
  refine Bool.eq_false_iff.mpr fun halted => ?_
  exact not_isOutcome_of_isCall calls (halted_iff.mp halted).2

/-- While the arguments of a call are bound, the scopes before its own stay as they are, and its own
comes to hold what is passed. -/
theorem Invokes.prepares {k : Nat} {call : Call} (invokes : c.Invokes settings k call)
    (nested : c.Nested) (sound : c.Sound settings.maxDepth) :
    let before := c.state.memory
    let bound := (c.advance settings k).state.memory
    call.callee = before.scopes.size ∧
      before.Framed call.callee (.all before) bound ∧ bound.Prepared call.callee call.routine := by
  intro before bound
  obtain ⟨calls, control, -, stack, first⟩ := invokes
  cases k with
  | zero =>
    rw [show c.control = .bind call from control] at calls
    cases calls
  | succ k =>
    have next (j : Nat) : c.advance settings (j + 1) = (c.step settings).advance settings j :=
      advance_succ (running_of_isCall calls) j
    have open_ : ∀ j < k, ¬ Left c.stack ((c.step settings).advance settings j) := by
      intro j below
      rw [← next]
      exact first (j + 1) (Nat.succ_lt_succ below)
    rw [next] at control stack
    -- The call is not left at the end, so the first step did not fail.
    have notLeft {d : Config} (binds : d.control = .bind call) : ¬ Left c.stack d := by
      rintro ⟨-, isOutcome⟩
      rw [binds] at isOutcome
      cases isOutcome
    have begins : ¬ Left c.stack (c.step settings) := by
      cases k with
      | zero => exact notLeft control
      | succ k => exact open_ 0 (Nat.succ_pos k)
    obtain ⟨routine, result, arguments, begun⟩ := (step_isCall calls).resolve_left begins
    have within : Within c.stack before.scopes.size routine (c.step settings) := by
      rw [begun]
      exact .binding ⟨rfl, rfl, List.Subset.refl _⟩
    let P (d : Config) : Prop :=
      d.Nested ∧ d.Sound settings.maxDepth ∧
        before.Framed before.scopes.size (.all before) d.state.memory ∧
        (Within c.stack before.scopes.size routine d →
          d.state.memory.Prepared before.scopes.size routine)
    have keeps (d : Config) (inside : Within c.stack before.scopes.size routine d) :
        P d → P (d.step settings) := by
      rintro ⟨nested, sound, framed, prepared⟩
      refine ⟨nested.step, step_sound nested sound,
        inside.framed framed nested sound (.inr trivial), fun inside' => ?_⟩
      have lt := inside'.callee_lt (step_sound nested sound)
      exact (prepared inside).change (step_change sound) lt fun d declares =>
        (inside.declares sound nested declares).2
    have holds : P (c.step settings) := by
      refine ⟨nested.step, step_sound nested sound, ?_, fun _ => ?_⟩
      · rw [begun]
        exact .of_opened sound.settled.memory _ _
      · rw [begun]
        exact .of_opened before routine
    obtain ⟨⟨-, -, framed, prepared⟩, inside⟩ :=
      until_left (fun _ => Within.step) (fun _ => Within.running) keeps within holds k open_
    have inside := inside.resolve_right (notLeft control)
    obtain ⟨call', isBound, same⟩ := inside.binds stack
    cases control.symm.trans isBound
    have isBound : bound = ((c.step settings).advance settings k).state.memory := by
      rw [← next]
    rw [isBound, same.callee, same.routine]
    exact ⟨rfl, framed, prepared inside⟩

theorem Entered.callee_le (entered : Entered base callee routine c) {limit : Nat}
    (sound : c.Sound limit) : callee ≤ c.scope := by
  obtain @⟨control, upper, result, caller, id, state⟩ := entered
  have fits := sound.settled.frames
  rw [← List.append_assoc] at fits
  exact fits.callee_le_of_entered

/-- With its arguments bound, a call enters its routine. -/
theorem step_bound {call : Call} (binds : c.control = .bind call) (bound : call.params = []) :
    Entered c.stack call.callee call.routine (c.step settings) ∧
      (c.step settings).state.memory = c.state.memory := by
  obtain ⟨control, stack, id, state⟩ := c
  cases binds
  unfold step bindNext
  simp only [bound]
  exact ⟨.lowest .., State.note_memory ..⟩

/-- Of what is there when its arguments are bound, a call keeps all but what its home sees and what
has been passed. -/
theorem Ends.framed {n : Nat} {outcome : Control} (ends : c.Ends settings n outcome) {call : Call}
    (binds : c.control = .bind call) (bound : call.params = []) (nested : c.Nested)
    (sound : c.Sound settings.maxDepth)
    (prepared : c.state.memory.Prepared call.callee call.routine) :
    c.state.memory.Framed call.callee
      (.ofCall sound.settled.memory.ranked call.routine.home call.callee)
      (c.advance settings n).state.memory := by
  have running : c.halted = false := by
    refine Bool.eq_false_iff.mpr fun halted => ?_
    obtain ⟨-, isOutcome⟩ := halted_iff.mp halted
    rw [binds] at isOutcome
    cases isOutcome
  have last : c.state.memory.scopes.size = call.callee + 1 := by
    have fits := sound.settled.frames
    rw [binds] at fits
    exact fits.1
  have start := Memory.Framed.of_prepared sound.settled.memory prepared last
  cases n with
  | zero => exact start
  | succ n =>
    obtain ⟨entered, same⟩ : Entered _ _ _ (c.step settings) ∧ _ := step_bound binds bound
    rw [advance_succ running]
    let P (d : Config) : Prop :=
      d.Nested ∧ d.Sound settings.maxDepth ∧ c.state.memory.Framed call.callee
        (.ofCall sound.settled.memory.ranked call.routine.home call.callee) d.state.memory
    have keeps (d : Config) (inside : Entered c.stack call.callee call.routine d) :
        P d → P (d.step settings) := by
      rintro ⟨nested, sound, framed⟩
      refine ⟨nested.step, step_sound nested sound, ?_⟩
      exact (Within.entered inside).framed framed nested sound (.inl (inside.callee_le sound))
    have holds : P (c.step settings) := by
      refine ⟨nested.step, step_sound nested sound, ?_⟩
      rw [same]
      exact start
    have open_ : ∀ j < n, ¬ Left c.stack ((c.step settings).advance settings j) := by
      intro j below
      rw [← advance_succ running]
      exact ends.first (j + 1) (Nat.succ_lt_succ below)
    exact (until_left (fun _ => Entered.step) (fun _ inside => (Within.entered inside).running)
      keeps entered holds n open_).1.2.2

end Config

/-- A call that has bound its arguments leaves the scopes before its own as they are, and their cells
too, apart from those that the home of its routine sees and those that it was given by reference. -/
theorem Session.Reached.call_framed {options : Options} {s : Session} (reached : Reached options s)
    {c : Config} (passes : s.Passes c) {k n : Nat} {call : Call} {outcome : Control}
    (invokes : c.Invokes s.settings k call)
    (ends : (c.advance s.settings k).Ends s.settings n outcome) :
    let before := c.state.memory
    let bound := (c.advance s.settings k).state.memory
    let left := ((c.advance s.settings k).advance s.settings n).state.memory
    (∀ id < before.scopes.size, left.scopes[id]? = bound.scopes[id]?) ∧
      ∀ h, before.store.Live h → bound.KeepsCell left
        (bound.Sees call.routine.home h ∨
          ∃ p ∈ call.routine.params, p.byRef = true ∧ bound.Binds call.callee p.name (.slot h)) h := by
  intro before bound left
  obtain ⟨nested, sound⟩ := reached.idle.passes passes
  obtain ⟨nested', sound'⟩ := Config.advance_sound nested sound k
  obtain ⟨callee, kept, prepared⟩ := invokes.prepares nested sound
  have framed := ends.framed invokes.control invokes.bound nested' sound' prepared
  refine ⟨fun id below => framed.scopes id (callee ▸ below), fun h live => ?_⟩
  obtain ⟨owner, owns⟩ := (sound.settled.memory.live h).mp live
  have below : owner < call.callee := callee ▸ owns.lt_size
  have owned : bound.Owns owner h := by
    obtain ⟨scope, found, member⟩ := owns
    exact ⟨scope, (kept.scopes owner below).trans found, member⟩
  obtain ⟨cell, cell', before, found, type, value⟩ := framed.cells h ⟨owner, below, owned⟩
  refine ⟨cell, cell', before, found, type, value.imp_right ?_⟩
  rintro (sees | ⟨name, binds⟩)
  · exact .inl sees
  · rcases prepared.slots name h binds with own | ⟨p, member, byRef, rfl⟩
    · exact absurd (sound'.settled.memory.owner _ _ h owned own) (Nat.ne_of_lt below)
    · exact .inr ⟨p, member, byRef, binds⟩

def Control.binding? : Control → Option Call
  | .bind call => some call
  | _ => none

theorem Control.eq_of_binding? {control : Control} {call : Call}
    (binds : control.binding? = some call) : control = .bind call := by
  unfold Control.binding? at binds
  split at binds
  · cases binds
    rfl
  · cases binds

namespace Sample

def calling : Config :=
  (fresh.begin program).advance fresh.settings 40

def called : Config :=
  calling.advance fresh.settings 4

theorem called_binds : called.control.binding?.isSome = true := by decide +kernel

def innerCall : Call :=
  called.control.binding?.get called_binds

end Sample

/-- The procedure of the sample calls a function. Neither does the global scope see the parameter
`n` of the procedure nor is it passed by reference, so the function leaves it alone. -/
theorem Session.Reached.call_framed_sample :
    let settings := Sample.fresh.settings
    let before := Sample.calling.state.memory
    let bound := Sample.called.state.memory
    let left := (Sample.called.advance settings 11).state.memory
    Sample.calling.Invokes settings 4 Sample.innerCall ∧
      (∀ id < before.scopes.size, left.scopes[id]? = bound.scopes[id]?) ∧
      ∀ h, before.store.Live h → bound.KeepsCell left
        (bound.Sees Sample.innerCall.routine.home h ∨ ∃ p ∈ Sample.innerCall.routine.params,
          p.byRef = true ∧ bound.Binds Sample.innerCall.callee p.name (.slot h)) h := by
  intro settings before bound left
  have invokes : Sample.calling.Invokes settings 4 Sample.innerCall := by
    have running : ∀ k < 4, (Sample.calling.alone.advance settings k).halted = false := by
      decide +kernel
    have lowest : (Sample.calling.alone.advance settings 4).stack.isEmpty = true := by
      decide +kernel
    refine ⟨by decide +kernel, ?_, ?_, ?_, Config.not_returned_of_alone running⟩
    · exact Control.eq_of_binding? (Option.some_get Sample.called_binds).symm
    · exact List.isEmpty_iff.mp (by decide +kernel)
    · exact Config.stack_of_alone running (List.isEmpty_iff.mp lowest)
  have ends : Sample.called.Ends settings 11 (Sample.called.advance settings 11).control := by
    have running : ∀ k < 11, (Sample.called.alone.advance settings k).halted = false := by
      decide +kernel
    exact .of_alone running (by decide +kernel)
  have passes : Sample.fresh.Passes Sample.calling :=
    ⟨.program (some Sample.program), _, 40, rfl, rfl⟩
  have fresh : Reached {} Sample.fresh := ⟨_, Sample.started, .refl⟩
  exact ⟨invokes, Session.Reached.call_framed fresh passes invokes ends⟩

end Pseudocode
