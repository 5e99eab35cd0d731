import Mathlib.Data.List.Nodup
import Mathlib.Logic.Relation
import Pseudocode.Proofs.Changes
import Pseudocode.Proofs.Sessions

/-! # No dangling and no accidental aliasing

Beside a run stands a ledger of what was declared: for every variable and parameter the scope, the
name and the type, and for a parameter passed by reference the variable that was passed. The ledger
is kept by reading off the configurations what they are about to declare; it forgets a declaration
when its scope is closed. A configuration agrees with its ledger: each variable has an entry, the
cell it is bound to has the type of the entry, and so two variables share a cell only if the ledger
links them. -/

namespace Pseudocode

/-- What has been declared in the scopes there are, the latest first. -/
abbrev Ledger := List Declaration

namespace Declaration

def key (d : Declaration) : ScopeId × String :=
  (d.scope, d.name)

/-- The memory is as the declaration says: its variable has a cell of its type, which is its own or
that of the variable it refers to. -/
def Holds (m : Memory) (d : Declaration) : Prop :=
  ∃ h, m.Binds d.scope d.name (.slot h) ∧ m.store.Live h ∧ m.store.typeOf h = d.type ∧
    match d.source with
    | none => m.Owns d.scope h
    | some (a, x) => a < d.scope ∧ m.Binds a x (.slot h)

end Declaration

namespace Ledger

/-- The ledger after a step that is about to declare `d` and takes the memory `m` to `m'`: the
declaration is entered if the step has bound its name, and the declarations of closed scopes are
dropped. -/
def after (ledger : Ledger) (d : Option Declaration) (m m' : Memory) : Ledger :=
  let made := d.filter fun d => !m.has d.scope d.name && m'.has d.scope d.name
  (made.toList ++ ledger).filter fun d => d.scope < m'.scopes.size

def along (settings : Settings) : (n : Nat) → Config → Ledger → Ledger
  | 0, _, ledger => ledger
  | n + 1, c, ledger =>
    if c.halted then ledger
    else
      let next := c.step settings
      along settings n next (ledger.after c.declares? c.state.memory next.state.memory)

/-- The variables are linked by passing variables by reference. -/
def Linked (ledger : Ledger) : ScopeId × String → ScopeId × String → Prop :=
  Relation.EqvGen fun parameter passed => ∃ d ∈ ledger, d.key = parameter ∧ d.source = some passed

/-- Every declaration holds, and every variable was declared. -/
structure Agrees (ledger : Ledger) (m : Memory) : Prop where
  holds : ∀ d ∈ ledger, d.Holds m
  recorded : ∀ id name h, m.Binds id name (.slot h) → ∃ d ∈ ledger, d.key = (id, name)

end Ledger

/-! ## Reading the ledger -/

namespace Memory

theorem Sound.binds_unique {m : Memory} (sound : m.Sound) {id : ScopeId} {name : String}
    {b b' : Binding} (first : m.Binds id name b) (second : m.Binds id name b') : b = b' := by
  obtain ⟨scope, found, member⟩ := first
  obtain ⟨scope', found', member'⟩ := second
  cases found.symm.trans found'
  have names := (sound.tidy id scope found).names
  exact congrArg Prod.snd (List.inj_on_of_nodup_map names member member' rfl)

end Memory

namespace Ledger

variable {ledger : Ledger} {m m' : Memory}

theorem mem_after {d : Option Declaration} {e : Declaration} :
    e ∈ ledger.after d m m' ↔
      (e ∈ ledger ∨ d = some e ∧ m.has e.scope e.name = false ∧ m'.has e.scope e.name = true) ∧
        e.scope < m'.scopes.size := by
  simp [after, Option.filter_eq_some_iff, or_comm, or_and_right]

namespace Agrees

/-- A variable is linked to the one that owns its cell. -/
theorem linked_owner (agrees : ledger.Agrees m) (sound : m.Sound) {id : ScopeId} {name : String}
    {h : Handle} (binds : m.Binds id name (.slot h)) :
    ∃ owner x, ledger.Linked (id, name) (owner, x) ∧ m.Owns owner h ∧
      m.Binds owner x (.slot h) := by
  -- References point to earlier scopes, so following them comes to an end.
  induction id using Nat.strongRecOn generalizing name with
  | ind id ih =>
    obtain ⟨d, member, key⟩ := agrees.recorded id name h binds
    obtain ⟨h', binds', -, -, origin⟩ := agrees.holds d member
    cases key
    cases sound.binds_unique binds binds'
    cases source : d.source with
    | none =>
      rw [source] at origin
      exact ⟨d.scope, d.name, .refl _, origin, binds⟩
    | some passed =>
      obtain ⟨a, x⟩ := passed
      rw [source] at origin
      obtain ⟨owner, y, linked, owns, bound⟩ := ih a origin.1 origin.2
      exact ⟨owner, y, .trans _ _ _ (.rel _ _ ⟨d, member, rfl, source⟩) linked, owns, bound⟩

/-- Variables share a cell only if they are linked. -/
theorem linked (agrees : ledger.Agrees m) (sound : m.Sound) {a b : ScopeId} {x y : String}
    {h : Handle} (first : m.Binds a x (.slot h)) (second : m.Binds b y (.slot h)) :
    ledger.Linked (a, x) (b, y) := by
  -- Each is linked to an owner of the cell, and a cell has one owner and one name there.
  obtain ⟨owner, x', linked, owns, bound⟩ := agrees.linked_owner sound first
  obtain ⟨owner', y', linked', owns', bound'⟩ := agrees.linked_owner sound second
  cases sound.owner _ _ _ owns owns'
  have same : x' = y' := by
    obtain ⟨scope, found, owned⟩ := owns
    obtain ⟨_, foundX, memberX⟩ := bound
    obtain ⟨_, foundY, memberY⟩ := bound'
    cases found.symm.trans foundX
    cases found.symm.trans foundY
    exact (sound.tidy owner scope found).unique owned memberX memberY
  subst same
  exact .trans _ _ _ linked (.symm _ _ linked')

/-- Linked variables share their cell. -/
theorem shared (agrees : ledger.Agrees m) (sound : m.Sound) {p q : ScopeId × String}
    (linked : ledger.Linked p q) (h : Handle) :
    m.Binds p.1 p.2 (.slot h) ↔ m.Binds q.1 q.2 (.slot h) := by
  induction linked with
  | rel p q related =>
    obtain ⟨d, member, rfl, source⟩ := related
    obtain ⟨h', binds, -, -, origin⟩ := agrees.holds d member
    rw [source] at origin
    constructor
    · intro bound
      cases sound.binds_unique bound binds
      exact origin.2
    · intro bound
      cases sound.binds_unique bound origin.2
      exact binds
  | refl => rfl
  | symm _ _ _ ih => exact ih.symm
  | trans _ _ _ _ _ first second => exact first.trans second

end Agrees

end Ledger

/-! ## Keeping the ledger -/

namespace Declaration.Holds

variable {d : Declaration} {m m' : Memory}

section

variable (holds : d.Holds m)

include holds

/-- A declaration goes on to hold if its scope and the earlier ones keep their variables and their
cells, and the cells keep their types. -/
theorem mono
    (binds : ∀ id name h, id ≤ d.scope → m.Binds id name (.slot h) → m'.Binds id name (.slot h))
    (owns : ∀ h, m.Owns d.scope h → m'.Owns d.scope h)
    (cells : ∀ h, m'.Binds d.scope d.name (.slot h) → m.store.Live h →
      m'.store.Live h ∧ m'.store.typeOf h = m.store.typeOf h) : d.Holds m' := by
  obtain ⟨h, bound, live, type, origin⟩ := holds
  have bound' := binds d.scope d.name h (Nat.le_refl _) bound
  obtain ⟨live', type'⟩ := cells h bound' live
  refine ⟨h, bound', live', type'.trans type, ?_⟩
  cases source : d.source with
  | none =>
    rw [source] at origin
    exact owns h origin
  | some passed =>
    rw [source] at origin
    exact ⟨origin.1, binds _ _ h (Nat.le_of_lt origin.1) origin.2⟩

theorem opened (parent : ScopeId) (label : String) : d.Holds (m.opened parent label) :=
  holds.mono (fun _ _ _ _ => Memory.binds_opened.mpr) (fun _ => Memory.owns_opened.mpr)
    fun _ _ live => ⟨live, rfl⟩

theorem closed (sound : m.closed.Sound) (below : d.scope < m.closed.scopes.size) :
    d.Holds m.closed := by
  rw [Memory.size_closed] at below
  refine holds.mono ?_ (fun h owns => Memory.owns_closed.mpr ⟨owns, below⟩) ?_
  · intro id name h le binds
    exact Memory.binds_closed.mpr ⟨binds, Nat.lt_of_le_of_lt le below⟩
  · intro h binds _
    have live := sound.live_of_binds binds
    refine ⟨live, ?_⟩
    rw [Store.Live, Memory.cell?_closed] at live
    rw [Store.typeOf, Memory.cell?_closed]
    split at live
    · cases live
    case isFalse kept =>
      rw [if_neg kept]
      rfl

theorem written {h : Handle} (live : m.store.Live h) (v : Value) : d.Holds (m.written h v) := by
  refine holds.mono (fun _ _ _ _ binds => binds) (fun _ owns => owns) fun h' _ live' => ?_
  refine ⟨(Memory.live_written live v h').mpr live', ?_⟩
  obtain ⟨cell, found⟩ := Store.live_iff.mp live
  rw [Store.typeOf, Store.typeOf, Memory.cell?_written live]
  split
  case isTrue same => simp [same, found]
  case isFalse => rfl

theorem bound {id : ScopeId} (inside : id < m.scopes.size) (name : String) (b : Binding) :
    d.Holds (m.bound id name b) :=
  holds.mono (fun _ _ _ _ binds => (Memory.binds_extended inside).mpr (.inl binds))
    (fun _ owns => (Memory.owns_extended inside).mpr (.inl owns)) fun _ _ live => ⟨live, rfl⟩

theorem declared (sound : m.store.Sound) {id : ScopeId} (inside : id < m.scopes.size)
    (name : String) (type : Ty) : d.Holds (m.declared id name type) := by
  refine holds.mono (fun _ _ _ _ binds => (Memory.binds_extended inside).mpr (.inl binds))
    (fun _ owns => (Memory.owns_extended inside).mpr (.inl owns)) fun h _ live => ?_
  rw [Store.Live, Store.typeOf, Memory.cell?_declared sound, if_neg (sound.ne_next live)]
  exact ⟨live, rfl⟩

end

theorem of_declared (sound : m.store.Sound) (inside : d.scope < m.scopes.size)
    (own : d.source = none) : d.Holds (m.declared d.scope d.name d.type) := by
  refine ⟨m.store.next, (Memory.binds_extended inside).mpr (.inr ⟨rfl, rfl, rfl⟩),
    Memory.live_declared sound .., ?_, ?_⟩
  · rw [Store.typeOf, Memory.cell?_declared sound, if_pos rfl]
    rfl
  · rw [own]
    exact (Memory.owns_extended inside).mpr (.inr ⟨rfl, List.mem_cons_self⟩)

end Declaration.Holds

namespace Ledger

variable {ledger : Ledger} {m m' : Memory} {d : Option Declaration} {c : Config}

theorem Agrees.after (agrees : ledger.Agrees m)
    (keeps : ∀ e : Declaration, e.scope < m'.scopes.size → e.Holds m → e.Holds m')
    (adds : ∀ e, d = some e → m.has e.scope e.name = false → m'.has e.scope e.name = true →
      e.Holds m')
    (covers : ∀ id name h, m'.Binds id name (.slot h) → m.Binds id name (.slot h) ∨
      ∃ e, d = some e ∧ e.key = (id, name) ∧ m.has e.scope e.name = false) :
    (ledger.after d m m').Agrees m' where
  holds e member := by
    obtain ⟨old | ⟨isNew, free, present⟩, inside⟩ := mem_after.mp member
    · exact keeps e inside (agrees.holds e old)
    · exact adds e isNew free present
  recorded id name h binds := by
    rcases covers id name h binds with old | ⟨e, isNew, key, free⟩
    · obtain ⟨e, member, key⟩ := agrees.recorded id name h old
      cases key
      exact ⟨e, mem_after.mpr ⟨.inl member, binds.lt_size⟩, rfl⟩
    · cases key
      have present := Memory.has_iff.mpr ⟨_, binds⟩
      exact ⟨e, mem_after.mpr ⟨.inr ⟨isNew, free, present⟩, binds.lt_size⟩, rfl⟩

/-- If no variable is new, nothing is entered. -/
theorem Agrees.after_old (agrees : ledger.Agrees m)
    (keeps : ∀ e : Declaration, e.scope < m'.scopes.size → e.Holds m → e.Holds m')
    (old : ∀ id name b, m'.Binds id name b → m.Binds id name b) :
    (ledger.after d m m').Agrees m' := by
  refine agrees.after keeps ?_ fun id name h binds => .inl (old id name _ binds)
  intro e _ free present
  obtain ⟨b, binds⟩ := Memory.has_iff.mp present
  rw [Memory.has_iff.mpr ⟨b, old _ _ b binds⟩] at free
  cases free

/-- If one variable is new, it is entered. -/
theorem Agrees.after_new {e : Declaration} {b : Binding} (agrees : ledger.Agrees m)
    (free : m.has e.scope e.name = false)
    (keeps : ∀ e : Declaration, e.scope < m'.scopes.size → e.Holds m → e.Holds m')
    (new : e.Holds m')
    (covers : ∀ id name b', m'.Binds id name b' →
      m.Binds id name b' ∨ (id = e.scope ∧ name = e.name ∧ b' = b)) :
    (ledger.after (some e) m m').Agrees m' := by
  refine agrees.after keeps (fun _ same _ _ => by cases same; exact new) fun id name h binds => ?_
  rcases covers id name _ binds with old | ⟨rfl, rfl, -⟩
  · exact .inl old
  · exact .inr ⟨e, rfl, rfl, free⟩

theorem Agrees.change (agrees : ledger.Agrees c.state.memory) (change : c.Change m')
    (sound : c.state.memory.Sound) (sound' : m'.Sound) :
    (ledger.after c.declares? c.state.memory m').Agrees m' := by
  cases change with
  | keeping => exact agrees.after_old (fun _ _ holds => holds) fun _ _ _ binds => binds
  | opening label _ =>
    exact agrees.after_old (fun _ _ holds => holds.opened _ label) fun _ _ _ =>
      Memory.binds_opened.mp
  | closing =>
    exact agrees.after_old (fun _ below holds => holds.closed sound' below) fun _ _ _ binds =>
      (Memory.binds_closed.mp binds).1
  | writing v sees =>
    have live := sound.live_of_sees sees
    exact agrees.after_old (fun _ _ holds => holds.written live v) fun _ _ _ binds => binds
  | naming v naming inside free =>
    rw [Config.declares?_of_names naming]
    refine agrees.after (fun _ _ holds => holds.bound inside _ _) nofun fun id name h binds => ?_
    rcases (Memory.binds_extended inside).mp binds with old | ⟨-, -, same⟩
    · exact .inl old
    · cases same
  | @declaring d declares inside free own =>
    rw [declares]
    exact agrees.after_new free (fun _ _ holds => holds.declared sound.store inside _ _)
      (.of_declared sound.store inside own) fun _ _ _ => (Memory.binds_extended inside).mp
  | @filling d v declares inside free own =>
    rw [declares]
    have live := Memory.live_declared sound.store d.scope d.name d.type
    have new := Declaration.Holds.of_declared sound.store inside own
    exact agrees.after_new free
      (fun _ _ holds => (holds.declared sound.store inside _ _).written live v)
      (new.written live v) fun _ _ _ => (Memory.binds_extended inside).mp
  | @refusing d declares last free =>
    have inside : d.scope < c.state.memory.scopes.size := by
      rw [last]
      exact Nat.lt_succ_self _
    -- The parameter was bound in the scope that is closed, so no variable is new.
    refine agrees.after_old
      (fun _ below holds => (holds.declared sound.store inside _ _).closed sound' below) ?_
    intro id name b binds
    obtain ⟨bound, below⟩ := Memory.binds_closed.mp binds
    rw [Memory.size_declared, last, Nat.add_sub_cancel] at below
    rcases (Memory.binds_extended inside).mp bound with old | ⟨rfl, -⟩
    · exact old
    · exact (Nat.lt_irrefl _ below).elim
  | @referring d a x h declares inside free source earlier _ passed type =>
    rw [declares]
    refine agrees.after_new free (fun _ _ holds => holds.bound inside _ _) ?_ fun _ _ _ =>
      (Memory.binds_extended inside).mp
    refine ⟨h, (Memory.binds_extended inside).mpr (.inr ⟨rfl, rfl, rfl⟩),
      sound.live_of_binds passed, type, ?_⟩
    rw [source]
    exact ⟨earlier, (Memory.binds_extended inside).mpr (.inl passed)⟩

end Ledger

/-! ## Runs and sessions -/

namespace Config

/-- The global scope and the scopes of the calls that are open or whose arguments are being
bound. -/
def active (c : Config) : List ScopeId :=
  callees (c.control.waiting ++ c.stack) ++ [Memory.global]

/-- Nothing dangles, and nothing is shared by accident. -/
structure Intact (ledger : Ledger) (c : Config) : Prop where
  /-- The scope in which names are looked up is active. -/
  current : c.scope ∈ c.active
  /-- What an active scope sees as a variable is a live cell of the declared type. -/
  typed : ∀ id ∈ c.active, ∀ a, c.state.memory.OnChain a id → ∀ name h,
    c.state.memory.Binds a name (.slot h) →
      ∃ cell, c.state.memory.store.cell? h = some cell ∧
        (∃ d ∈ ledger, d.key = (a, name)) ∧ ∀ d ∈ ledger, d.key = (a, name) → d.type = cell.type
  /-- Every live cell has one owner. -/
  owned : ∀ h, c.state.memory.store.Live h → ∃! id, id ∈ c.active ∧ c.state.memory.Owns id h
  /-- Two variables share a cell only if one was passed as the other, perhaps on a detour. -/
  apart : ∀ a b x y h, c.state.memory.Binds a x (.slot h) → c.state.memory.Binds b y (.slot h) →
    ledger.Linked (a, x) (b, y)
  /-- Linked variables do share a cell. -/
  shared : ∀ p q, ledger.Linked p q → ∀ h,
    c.state.memory.Binds p.1 p.2 (.slot h) ↔ c.state.memory.Binds q.1 q.2 (.slot h)
  /-- No failure says that a handle is not live. -/
  tame : ∀ f, c.control = .failing f → f.Tame

theorem Sound.mem_active {limit : Nat} {c : Config} (sound : c.Sound limit) {id : ScopeId} :
    id ∈ c.active ↔ id < c.state.memory.scopes.size :=
  sound.settled.frames.mem_callees

theorem Sound.intact_of_agrees {limit : Nat} {c : Config} (sound : c.Sound limit) {ledger : Ledger}
    (agrees : ledger.Agrees c.state.memory) : c.Intact ledger where
  current := sound.mem_active.mpr sound.settled.inside
  typed id _ a _ name h binds := by
    have memory := sound.settled.memory
    obtain ⟨cell, found⟩ := Store.live_iff.mp (memory.live_of_binds binds)
    obtain ⟨d, member, key⟩ := agrees.recorded a name h binds
    refine ⟨cell, found, ⟨d, member, key⟩, fun e entered same => ?_⟩
    obtain ⟨h', binds', -, type, -⟩ := agrees.holds e entered
    cases same
    cases memory.binds_unique binds binds'
    rw [← type, Store.typeOf, found]
    rfl
  owned h live := by
    have memory := sound.settled.memory
    obtain ⟨id, owns⟩ := (memory.live h).mp live
    refine ⟨id, ⟨sound.mem_active.mpr owns.lt_size, owns⟩, ?_⟩
    exact fun other both => memory.owner other id h both.2 owns
  apart _ _ _ _ _ first second := agrees.linked sound.settled.memory first second
  shared _ _ linked h := agrees.shared sound.settled.memory linked h
  tame f failing := by
    have fits := sound.control
    rw [failing] at fits
    exact fits

end Config

theorem Ledger.Agrees.along {settings : Settings} {ledger : Ledger} {c : Config}
    (agrees : ledger.Agrees c.state.memory) (nested : c.Nested) (sound : c.Sound settings.maxDepth)
    (n : Nat) :
    (ledger.along settings n c).Agrees (c.advance settings n).state.memory := by
  induction n generalizing c ledger with
  | zero => exact agrees
  | succ n ih =>
    unfold Ledger.along Config.advance
    split
    case isTrue => exact agrees
    case isFalse =>
      have stepped := Config.step_sound nested sound
      refine ih ?_ nested.step stepped
      exact agrees.change (Config.step_change sound) sound.settled.memory stepped.settled.memory

namespace Session

/-- The ledger after a request that was served within `fuel` steps. -/
def ledgerAfter (fuel : Nat) (s : Session) (request : Request) (ledger : Ledger) : Ledger :=
  match s.first? request with
  | none => ledger
  | some first => ledger.along s.settings fuel first

/-- The sessions that come of fresh ones, each with what was declared in it. -/
inductive Recorded (options : Options) : Session → Ledger → Prop where
  | start {s} : Session.start options = .ok s → Recorded options s []
  | serve {s s' ledger} (fuel : Nat) (request : Request) (answer : Answer) :
      Recorded options s ledger → s.serve fuel request = some (answer, s') →
      Recorded options s' (s.ledgerAfter fuel request ledger)

theorem Recorded.reached {options : Options} {s : Session} {ledger : Ledger}
    (recorded : Recorded options s ledger) : Reached options s := by
  induction recorded with
  | start started => exact ⟨_, started, .refl⟩
  | serve fuel request answer _ isServed ih =>
    obtain ⟨fresh, started, continues⟩ := ih
    exact ⟨fresh, started, .serve fuel request answer continues isServed⟩

theorem Recorded.agrees {options : Options} {s : Session} {ledger : Ledger}
    (recorded : Recorded options s ledger) : ledger.Agrees s.state.memory := by
  induction recorded with
  | start started =>
    obtain ⟨⟨memory, -, -⟩, store⟩ := start_fresh started
    refine ⟨by simp, fun id name h binds => ?_⟩
    have live := memory.live_of_binds binds
    rw [store] at live
    cases h <;> simp [Store.Live, Store.cell?] at live
  | @serve s s' ledger fuel request answered recorded isServed ih =>
    unfold ledgerAfter
    rcases served isServed with ⟨nothing, rfl, -⟩ | ⟨first, isFirst, halted, same⟩
    · rw [nothing]
      exact ih
    · obtain ⟨-, memory, -⟩ := answer_session s.settings (first.advance s.settings fuel) request
      rw [same] at memory
      obtain ⟨nested, sound⟩ := first?_sound recorded.reached.idle isFirst
      rw [isFirst, memory]
      exact Ledger.Agrees.along (first?_memory isFirst ▸ ih) nested sound fuel

theorem answer_tame {limit : Nat} {c : Config} (sound : c.Sound limit) (settings : Settings)
    (request : Request) {f : Failure} (failed : (answer settings c request).1.failure? = some f) :
    f.Tame := by
  obtain ⟨control, stack, id, state⟩ := c
  have fits := sound.control
  cases request with
  | program =>
    cases control with
    | failing g =>
      cases failed
      exact fits
    | returning v span =>
      cases failed
      exact Failure.Tame.withSpan (.fault fun _ same => by cases same) span
    | _ => cases failed
  | expression e =>
    cases control with
    | failing g =>
      cases failed
      exact Failure.Tame.withSpan fits e.span
    | value v => cases failed
    | _ =>
      cases failed
      exact .of_none rfl

/-- At every moment of every request the variables denote live cells of their declared types, every
live cell has one owner among the active scopes, and cells are shared by reference parameters only.
So no request ever fails because a handle is not live. -/
theorem Recorded.intact {options : Options} {s : Session} {ledger : Ledger}
    (recorded : Recorded options s ledger) :
    (∀ request first n, s.first? request = some first →
      (first.advance s.settings n).Intact (ledger.along s.settings n first)) ∧
    ∀ fuel request answered s' f, s.serve fuel request = some (answered, s') →
      answered.failure? = some f → f.Tame := by
  have idle := recorded.reached.idle
  constructor
  · intro request first n isFirst
    obtain ⟨nested, sound⟩ := first?_sound idle isFirst
    refine (Config.advance_sound nested sound n).2.intact_of_agrees ?_
    exact Ledger.Agrees.along (first?_memory isFirst ▸ recorded.agrees) nested sound n
  · intro fuel request answered s' f isServed failed
    rcases served isServed with ⟨-, -, rfl⟩ | ⟨first, isFirst, halted, same⟩
    · cases failed
      exact .of_none rfl
    · obtain ⟨nested, sound⟩ := first?_sound idle isFirst
      refine answer_tame (Config.advance_sound nested sound fuel).2 s.settings request ?_
      rw [same]
      exact failed

/-- In the middle of the function that the procedure has called, `r` and `x` share a cell, and the
two parameters `n` have cells of their own. -/
theorem Recorded.intact_sample :
    let first := Sample.fresh.begin Sample.program
    let ledger := Ledger.along Sample.fresh.settings 45 first []
    (first.advance Sample.fresh.settings 45).Intact ledger ∧
      ledger.map Declaration.key = [(2, "n"), (1, "n"), (1, "r"), (0, "x")] ∧
      ledger.filterMap Declaration.source = [(0, "x")] := by
  refine ⟨(Recorded.intact (.start Sample.started)).1 (.program (some Sample.program)) _ 45 rfl, ?_⟩
  decide +kernel

end Session

end Pseudocode
