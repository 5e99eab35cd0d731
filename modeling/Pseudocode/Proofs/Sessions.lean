import Pseudocode.Proofs.Preservation
import Pseudocode.Session

/-! # Sessions keep the invariant

A session is idle between two requests: no call is open and the global scope is the only one. Every
moment of a request is sound, and a request that ends, in whatever way, leaves the session idle. -/

namespace Pseudocode

inductive Request where
  | program (program : Option Program)
  | expression (e : Expr)

inductive Answer where
  | ran (result : Except Failure Unit)
  | evaluated (result : Except Failure Value)

namespace Answer

def failure? : Answer → Option Failure
  | ran (.error f) | evaluated (.error f) => some f
  | _ => none

end Answer

namespace Session

def serve (fuel : Nat) (s : Session) : Request → Option (Answer × Session)
  | .program program => (s.execute fuel program).map fun (result, s) => (.ran result, s)
  | .expression e => (s.evaluate fuel e).map fun (result, s) => (.evaluated result, s)

def first? (s : Session) : Request → Option Config
  | .program none => none
  | .program (some program) => some (s.begin program)
  | .expression e => some ⟨.eval e, [], Memory.global, s.state⟩

/-- The second session comes of the first by serving requests. -/
inductive Continues (s : Session) : Session → Prop where
  | refl : Continues s s
  | serve {t t'} (fuel : Nat) (request : Request) (answer : Answer) : Continues s t →
      t.serve fuel request = some (answer, t') → Continues s t'

def Reached (options : Options) (s : Session) : Prop :=
  ∃ fresh, start options = .ok fresh ∧ fresh.Continues s

/-- The configuration is a moment of a request. -/
def Passes (s : Session) (c : Config) : Prop :=
  ∃ request first n, s.first? request = some first ∧ c = first.advance s.settings n

/-- No call is open, and the memory is sound. -/
abbrev Idle (s : Session) : Prop :=
  Settled s.settings.maxDepth [] Memory.global s.state

end Session

/-! ## Fresh sessions -/

theorem Store.Sound.empty : Store.Sound {} :=
  ⟨List.nodup_nil, by simp⟩

namespace Memory

/-- The global scope of a fresh memory is the only one, and it is empty. -/
theorem scopes_fresh {id : ScopeId} {scope : Scope}
    (found : ({} : Memory).scopes[id]? = some scope) :
    id = global ∧ scope = { label := "global", parent := none } := by
  cases id with
  | zero =>
    cases found
    exact ⟨rfl, rfl⟩
  | succ id => simp at found

theorem Sound.fresh : Memory.Sound {} := by
  have unbound (id : ScopeId) (name : String) (b : Binding) : ¬ ({} : Memory).Binds id name b := by
    rintro ⟨scope, found, member⟩
    rw [(scopes_fresh found).2] at member
    cases member
  have unowned (id : ScopeId) (h : Handle) : ¬ ({} : Memory).Owns id h := by
    rintro ⟨scope, found, member⟩
    rw [(scopes_fresh found).2] at member
    cases member
  have dead (h : Handle) : ({} : Memory).store.cell? h = none := by
    cases h <;> simp [Store.cell?]
  refine ⟨.empty, ⟨_, rfl, rfl⟩, ?ranked, ?tidy, ?constants, ?slots, ?owner, ?live, ?cells⟩
  case ranked =>
    intro id scope parent found isParent
    rw [(scopes_fresh found).2] at isParent
    cases isParent
  case tidy =>
    intro id scope found
    rw [(scopes_fresh found).2]
    exact .empty _ _
  case constants => exact fun id name v binds => (unbound id name _ binds).elim
  case slots => exact fun id name h binds => (unbound id name _ binds).elim
  case owner => exact fun id _ h owns => (unowned id h owns).elim
  case live =>
    intro h
    simp [Store.Live, dead, unowned]
  case cells =>
    intro h cell found
    rw [dead] at found
    cases found

end Memory

namespace Builtins

theorem not_mem_always {kind : Kind} (optional : kind ∈ optionalKinds) : kind ∉ always := by
  simp only [optionalKinds, List.mem_cons, List.not_mem_nil, or_false] at optional
  rcases optional with rfl | rfl | rfl <;> simp [always]

variable {m : Memory} {kinds : List Kind} {types : Option (List String)} {id : ScopeId}
  {b : Builtins}

/-- What is chosen is optional, was asked for, and is there once. -/
theorem choose_ok {names : List String} {chosen : List Kind} (nodup : chosen.Nodup)
    (chose : choose chosen names = .ok kinds) : kinds.Nodup ∧
      ∀ kind ∈ kinds, kind ∈ chosen ∨ kind ∈ optionalKinds ∧ kind.name ∈ names := by
  induction names generalizing chosen with
  | nil =>
    cases chose
    exact ⟨nodup, fun _ => .inl⟩
  | cons name rest ih =>
    unfold choose at chose
    split at chose
    case h_1 => cases chose
    case h_2 added found =>
      have next : (if added ∈ chosen then chosen else chosen ++ [added]).Nodup := by
        split
        case isTrue => exact nodup
        case isFalse new =>
          refine List.nodup_append.mpr ⟨nodup, by simp, fun kind old other isAdded same => new ?_⟩
          exact List.mem_singleton.mp isAdded ▸ same ▸ old
      obtain ⟨unique, each⟩ := ih next chose
      refine ⟨unique, fun kind member => ?_⟩
      rcases each kind member with before | ⟨optional, asked⟩
      · split at before
        · exact .inl before
        · refine (List.mem_append.mp before).imp_right fun new => ?_
          have same := List.find?_some found
          rw [List.mem_singleton.mp new, of_decide_eq_true same]
          exact ⟨List.mem_of_find?_eq_some found, List.mem_cons_self⟩
      · exact .inr ⟨optional, List.mem_cons_of_mem name asked⟩

theorem ofNames_ok (chosen : ofNames types = .ok b) : b.optional.Nodup ∧ ∀ kind ∈ b.optional,
    kind ∈ optionalKinds ∧ ∀ names, types = some names → kind.name ∈ names := by
  cases types with
  | none =>
    cases chosen
    exact ⟨by decide, fun kind member => ⟨member, nofun⟩⟩
  | some names =>
    cases chose : choose [] names with
    | error reason =>
      rw [ofNames, chose] at chosen
      cases chosen
    | ok kinds =>
      rw [ofNames, chose] at chosen
      cases chosen
      obtain ⟨unique, each⟩ := choose_ok List.nodup_nil chose
      refine ⟨unique, fun kind member => ?_⟩
      obtain ⟨optional, asked⟩ := (each kind member).resolve_left List.not_mem_nil
      exact ⟨optional, fun _ same => Option.some.inj same ▸ asked⟩

theorem kinds_isData (chosen : ofNames types = .ok b) : ∀ kind ∈ b.kinds, kind.isData = true := by
  have data : ∀ kind ∈ always ++ optionalKinds, kind.isData = true := by decide
  intro kind member
  refine data kind (List.mem_append.mpr ((List.mem_append.mp member).imp_right fun optional => ?_))
  exact ((ofNames_ok chosen).2 kind optional).1

theorem declare_next (data : ∀ kind ∈ kinds, kind.isData = true) (sound : m.Sound)
    (inside : id < m.scopes.size) :
    Memory.Yields
      ((kinds.forM fun kind =>
        Memory.declareConstant id kind.name (.of .type) (.type (.of kind))).run m)
      (fun _ m' => m.Next m' ∧ m'.store = m.store) (fun _ _ => True) := by
  induction kinds generalizing m with
  | nil => exact ⟨sound.next_refl, rfl⟩
  | cons kind rest ih =>
    have fits : (Value.type (.of kind)).Fits m id := data kind List.mem_cons_self
    have declares := (sound.declareConstant inside kind.name (.of .type) fits).and
      (m.declareConstant_store id kind.name (.of .type) (.type (.of kind)))
    refine Memory.Yields.bind (declares.mono (fun _ _ both => both) fun _ _ _ => trivial) ?_
    rintro _ m' ⟨next, store⟩
    have later := ih (fun other member => data other (List.mem_cons_of_mem _ member)) next.sound
      (next.size ▸ inside)
    refine later.mono (fun _ _ after => ?_) fun _ _ _ => trivial
    exact ⟨next.trans after.1, after.2.trans store⟩

theorem install_next (chosen : ofNames types = .ok b) (sound : m.Sound)
    (inside : id < m.scopes.size) :
    Memory.Yields ((b.install id).run m) (fun _ m' => m.Next m' ∧ m'.store = m.store)
      (fun _ _ => True) :=
  declare_next (kinds_isData chosen) sound inside

theorem declare_binds {m' : Memory} (inside : id < m.scopes.size)
    (declared : (kinds.forM fun kind =>
      Memory.declareConstant id kind.name (.of .type) (.type (.of kind))).run m = .ok () m')
    (id' : ScopeId) (name : String) (b : Binding) :
    m'.Binds id' name b ↔ m.Binds id' name b ∨
      id' = id ∧ ∃ kind ∈ kinds, name = kind.name ∧ b = .constant (.type (.of kind)) := by
  induction kinds generalizing m with
  | nil =>
    cases declared
    simp
  | cons kind rest ih =>
    rw [List.forM, EStateM.run_bind, Memory.declareConstant_run] at declared
    cases taken : m.has id kind.name with
    | true =>
      rw [taken] at declared
      cases declared
    | false =>
      rw [taken] at declared
      rw [ih (m := m.bound id kind.name _) (by simpa using inside) declared, Memory.bound,
        Memory.binds_extended inside]
      simp only [List.mem_cons, or_and_right, exists_or, exists_eq_left, and_or_left, or_assoc]

/-- A fresh session binds its types and nothing else. -/
theorem install_binds (installed : (b.install Memory.global).run {} = .ok () m) (id : ScopeId)
    (name : String) (x : Binding) : m.Binds id name x ↔
      id = Memory.global ∧ ∃ kind ∈ b.kinds, name = kind.name ∧ x = .constant (.type (.of kind)) := by
  refine (declare_binds (m := {}) Nat.one_pos installed id name x).trans (or_iff_right ?_)
  rintro ⟨scope, found, member⟩
  rw [(Memory.scopes_fresh found).2] at member
  cases member

end Builtins

def Options.depthLimit (options : Options) : Nat :=
  if options.maxDepth = 0 then defaultDepth else options.maxDepth.toNat

namespace Session

variable {s : Session} {request : Request}

theorem start_ok {options : Options} (started : start options = .ok s) :
    ∃ builtins memory, Builtins.ofNames options.types = .ok builtins ∧
      (builtins.install Memory.global).run {} = .ok () memory ∧
      s = ⟨⟨builtins, options.depthLimit, options.logged⟩,
        { memory, sink := { limit := options.maxWrites } }⟩ := by
  unfold start at started
  split at started
  · cases started
  case isFalse positive =>
    split at started
    · cases started
    · split at started
      case h_1 => cases started
      case h_2 builtins chosen =>
        split at started
        case h_1 => cases started
        case h_2 memory installed =>
          cases started
          have same : options.maxDepth.toNat = 0 ↔ options.maxDepth = 0 := by omega
          exact ⟨builtins, memory, chosen, installed, by simp only [Options.depthLimit, same]⟩

theorem start_fresh {options : Options} (started : start options = .ok s) :
    s.Idle ∧ s.state.memory.store = {} := by
  obtain ⟨builtins, memory, chosen, installed, rfl⟩ := start_ok started
  have installs : Memory.Yields ((builtins.install Memory.global).run {}) _ _ :=
    Builtins.install_next chosen .fresh Nat.one_pos
  rw [installed] at installs
  obtain ⟨next, store⟩ := installs
  exact ⟨⟨next.sound, ⟨rfl, next.size⟩, rfl⟩, store⟩

/-! ## Requests -/

/-- What a session gives for a request whose run has ended so. -/
def answer (settings : Settings) (c : Config) : Request → Answer × Session
  | .program _ => (.ran (conclude settings c).1, (conclude settings c).2)
  | .expression e =>
    match c.control with
    | .value v => (.evaluated (.ok v), ⟨settings, c.state⟩)
    | .failing f => (.evaluated (.error (f.withSpan e.span)), ⟨settings, c.state⟩)
    | _ => (.evaluated (.error .noExpression), ⟨settings, c.state⟩)

theorem serve_eq (fuel : Nat) (s : Session) (request : Request) :
    s.serve fuel request =
      match s.first? request with
      | none => some (.ran (.error .noProgram), s)
      | some first => (first.run s.settings fuel).map (answer s.settings · request) := by
  cases request with
  | program program =>
    cases program with
    | none => rfl
    | some program =>
      exact Option.map_map _ _ _
  | expression e =>
    refine (Option.map_map _ _ _).trans (congrArg (Option.map · _) (funext fun c => ?_))
    obtain ⟨control, stack, id, state⟩ := c
    cases control <;> rfl

theorem answer_session (settings : Settings) (c : Config) (request : Request) :
    (answer settings c request).2.settings = settings ∧
      (answer settings c request).2.state.memory = c.state.memory ∧
      (answer settings c request).2.state.depth = c.state.depth := by
  obtain ⟨control, stack, id, state⟩ := c
  cases request with
  | program =>
    cases control with
    | returning => exact ⟨rfl, rfl, rfl⟩
    | _ => exact ⟨rfl, State.note_memory .., State.note_depth ..⟩
  | expression e => cases control <;> exact ⟨rfl, rfl, rfl⟩

theorem first?_cases {first : Config} (isFirst : s.first? request = some first) :
    (∃ program, request = .program (some program) ∧ first = s.begin program) ∨
      ∃ e, request = .expression e ∧ first = ⟨.eval e, [], Memory.global, s.state⟩ := by
  cases request with
  | program program =>
    cases program with
    | none => cases isFirst
    | some program =>
      cases isFirst
      exact .inl ⟨program, rfl, rfl⟩
  | expression e =>
    cases isFirst
    exact .inr ⟨e, rfl, rfl⟩

theorem first?_memory {first : Config} (isFirst : s.first? request = some first) :
    first.state.memory = s.state.memory := by
  rcases first?_cases isFirst with ⟨program, rfl, rfl⟩ | ⟨e, rfl, rfl⟩
  · exact State.note_memory ..
  · rfl

theorem first?_sound (idle : s.Idle) {first : Config} (isFirst : s.first? request = some first) :
    first.Nested ∧ first.Sound s.settings.maxDepth := by
  rcases first?_cases isFirst with ⟨program, rfl, rfl⟩ | ⟨e, rfl, rfl⟩
  · refine ⟨⟨fun _ => trivial, trivial⟩, idle.of_eq ?_ ?_, trivial⟩
    · exact State.note_memory ..
    · exact State.note_depth ..
  · exact ⟨⟨nofun, trivial⟩, idle, trivial⟩

theorem Idle.passes (idle : s.Idle) {c : Config} (passes : s.Passes c) :
    c.Nested ∧ c.Sound s.settings.maxDepth := by
  obtain ⟨request, first, n, isFirst, rfl⟩ := passes
  obtain ⟨nested, sound⟩ := first?_sound idle isFirst
  exact Config.advance_sound nested sound n

/-- A request that is served ends at one of its moments, or there is nothing to do for it. -/
theorem served {s' : Session} {fuel : Nat} {answered : Answer}
    (served : s.serve fuel request = some (answered, s')) :
    (s.first? request = none ∧ s' = s ∧ answered = .ran (.error .noProgram)) ∨
      ∃ first, s.first? request = some first ∧ (first.advance s.settings fuel).halted = true ∧
        answer s.settings (first.advance s.settings fuel) request = (answered, s') := by
  rw [serve_eq] at served
  cases isFirst : s.first? request with
  | none =>
    rw [isFirst] at served
    cases served
    exact .inl ⟨rfl, rfl, rfl⟩
  | some first =>
    rw [isFirst] at served
    obtain ⟨c, ran, same⟩ := Option.map_eq_some_iff.mp served
    unfold Config.run at ran
    dsimp only at ran
    split at ran
    case isTrue halted =>
      cases ran
      exact .inr ⟨first, rfl, halted, same⟩
    case isFalse => cases ran

/-- A program comes to an end within `fuel` steps if its run does. -/
theorem execute_iff {s' : Session} {fuel : Nat} {program : Program} {result : Except Failure Unit} :
    s.execute fuel (some program) = some (result, s') ↔
      ((s.begin program).advance s.settings fuel).halted = true ∧
        conclude s.settings ((s.begin program).advance s.settings fuel) = (result, s') := by
  unfold execute Config.run
  dsimp only
  split
  case isTrue halted => simp [halted]
  case isFalse running => simp [running]

end Session

theorem Config.waiting_of_halted {c : Config} (halted : c.halted = true) :
    c.control.waiting ++ c.stack = [] := by
  obtain ⟨control, stack, id, state⟩ := c
  cases stack with
  | nil => cases control <;> first | rfl | cases halted
  | cons frame rest => cases control <;> cases halted

namespace Session

theorem Idle.serve {s s' : Session} (idle : s.Idle) {fuel : Nat} {request : Request}
    {answered : Answer} (isServed : s.serve fuel request = some (answered, s')) :
    s'.settings = s.settings ∧ s'.Idle := by
  rcases served isServed with ⟨-, rfl, -⟩ | ⟨first, isFirst, halted, same⟩
  · exact ⟨rfl, idle⟩
  · obtain ⟨settings, memory, depth⟩ :=
      answer_session s.settings (first.advance s.settings fuel) request
    rw [same] at settings memory depth
    have settled := (idle.passes ⟨request, first, fuel, isFirst, rfl⟩).2.settled
    rw [Config.waiting_of_halted halted] at settled
    have global : (first.advance s.settings fuel).scope = Memory.global := settled.frames.1
    rw [global] at settled
    refine ⟨settings, ?_⟩
    rw [Idle, settings]
    exact settled.of_eq memory depth

theorem Continues.idle {s t : Session} (continues : s.Continues t) (idle : s.Idle) :
    t.settings = s.settings ∧ t.Idle := by
  induction continues with
  | refl => exact ⟨rfl, idle⟩
  | serve fuel request answered _ isServed ih =>
    obtain ⟨settings, idle⟩ := ih.2.serve isServed
    exact ⟨settings.trans ih.1, idle⟩

theorem Reached.idle {options : Options} {s : Session} (reached : Reached options s) : s.Idle := by
  obtain ⟨fresh, started, continues⟩ := reached
  exact (continues.idle (start_fresh started).1).2

end Session

/-! ## A session to look at -/

namespace Sample

def word (name : String) : Ident := ⟨name, .zero⟩

def named (name : String) : Expr := .name (word name)

def param (name : String) (byRef : Bool) : Param := ⟨word name, named "INTEGER", byRef, .zero⟩

def twice (argument : Expr) : Expr := .call (word "twice") [argument] .zero

/-- A variable is passed by reference to a procedure, which calls a function. The last call fails
while its second argument is bound. -/
def program : Program where
  span := .zero
  body := [
    .declare (word "x") (named "INTEGER") .zero,
    .constant (word "day") (named "DATE") (.date ⟨1999, 12, 31⟩ .zero) .zero,
    .function (word "twice") [param "n" false] (named "INTEGER")
      [.returning (some (.binary .add (named "n") (named "n") .zero)) .zero] .zero,
    .procedure (word "double") [param "r" true, param "n" false]
      [.assign (word "r") (twice (named "n")) .zero] .zero,
    .call (word "double") (some [named "x", .integer 21 .zero]) .zero,
    .call (word "double") (some [named "x", .boolean true .zero]) .zero]

def fresh : Session :=
  match Session.start {} with
  | .ok s => s
  | .error _ => ⟨{ builtins := ⟨[]⟩, maxDepth := 0 }, {}⟩

theorem started : Session.start {} = .ok fresh := rfl

theorem ends : (fresh.serve 200 (.program (some program))).isSome = true := by decide +kernel

def finished : Session :=
  ((fresh.serve 200 (.program (some program))).get ends).2

theorem reached : Session.Reached {} finished :=
  ⟨fresh, started, .serve 200 (.program (some program)) _ .refl (Option.some_get ends).symm⟩

end Sample

/-! ## Nothing is left behind -/

namespace Memory

/-- The cells of the scope's variables, one for each that it binds. -/
def variableCells (m : Memory) (id : ScopeId) : List Handle :=
  ((m.scopes[id]?).map Scope.slots).getD []

/-- The global scope owns the cells of all its variables, for there is no earlier scope to refer
to. -/
theorem Sound.owned_global {m : Memory} (sound : m.Sound) {scope : Scope}
    (found : m.scopes[global]? = some scope) : scope.slots = scope.owned := by
  have own := (sound.tidy global scope found).own
  rw [own, eq_comm, List.filter_eq_self]
  intro h member
  obtain ⟨name, bound⟩ := Scope.mem_slots.mp member
  obtain ⟨owner, le, scope', found', owned⟩ := sound.slots global name h ⟨scope, found, bound⟩
  cases Nat.le_zero.mp le
  cases found.symm.trans found'
  exact decide_eq_true owned

/-- If there is no scope but the global one, the live cells are those of its variables. -/
theorem Sound.live_eq_variableCells {m : Memory} (sound : m.Sound) (alone : m.scopes.size = 1) :
    m.store.live = (m.variableCells global).length := by
  obtain ⟨scope, found⟩ := exists_scope sound.size_pos
  have slots : m.variableCells global = scope.owned := by
    rw [variableCells, global, found]
    exact sound.owned_global found
  rw [slots]
  refine sound.store.live_eq_length (sound.tidy global scope found).distinct fun h => ?_
  rw [sound.live]
  constructor
  · exact fun owned => ⟨global, scope, found, owned⟩
  · rintro ⟨id, scope', found', owned⟩
    have zero : id = global := by
      have inside := (Array.getElem?_eq_some_iff.mp found').1
      rw [alone] at inside
      exact Nat.lt_one_iff.mp inside
    subst zero
    cases found.symm.trans found'
    exact owned

end Memory

namespace Session

theorem Reached.maxDepth {options : Options} {s : Session} (reached : Reached options s) :
    s.settings.maxDepth = options.depthLimit := by
  obtain ⟨fresh, started, continues⟩ := reached
  rw [(continues.idle (start_fresh started).1).1]
  obtain ⟨_, _, _, _, rfl⟩ := start_ok started
  rfl

/-- Between requests no call is open, and the live cells are those of the global variables, whatever
came of the requests before. During a request the depth counts the open calls and stays in its
limit. -/
theorem Reached.balanced {options : Options} {s : Session} (reached : Reached options s) :
    s.state.depth = 0 ∧ s.live = (s.state.memory.variableCells Memory.global).length ∧
      ∀ c, s.Passes c → c.state.depth = openCalls c.stack ∧ c.state.depth ≤ options.depthLimit := by
  obtain ⟨memory, ⟨-, alone⟩, depth⟩ := reached.idle
  refine ⟨depth, memory.live_eq_variableCells alone, fun c passes => ?_⟩
  obtain ⟨memory, frames, depth⟩ := (reached.idle.passes passes).2.settled
  have bound := frames.openCalls_le
  rw [reached.maxDepth] at bound
  rw [Control.openCalls_waiting] at depth bound
  exact ⟨depth, depth ▸ bound⟩

/-- After a program that failed the variable `x` is left, and nothing else. -/
theorem Reached.balanced_sample :
    Sample.finished.state.depth = 0 ∧ Sample.finished.live = 1 ∧
      (Sample.finished.state.memory.variableCells Memory.global).length = 1 ∧
      ∀ c, Sample.finished.Passes c →
        c.state.depth = openCalls c.stack ∧ c.state.depth ≤ Options.defaultDepth := by
  obtain ⟨depth, live, bounded⟩ := Reached.balanced Sample.reached
  have one : Sample.finished.live = 1 := by decide +kernel
  exact ⟨depth, one, live ▸ one, bounded⟩

end Session

end Pseudocode
