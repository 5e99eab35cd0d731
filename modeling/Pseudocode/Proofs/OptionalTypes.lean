import Pseudocode.Proofs.Output
import Pseudocode.Proofs.Policies
import Pseudocode.Proofs.Sequencing

/-! # Types that are switched off

A type that is switched off has no name and no literals. So no variable has it, no constant is of
it, and what is computed is not of it either, with one exception: `&` joins two CHAR values to a
STRING, whether or not programs may use STRING. Such a value can be written or compared, but not
kept. -/

namespace Pseudocode

/-! ## The types that are chosen -/

namespace Builtins

theorem name_mem_of_enabled {names : List String} {b : Builtins}
    (chosen : ofNames (some names) = .ok b) {kind : Kind} (optional : kind ∈ optionalKinds)
    (enabled : b.enabled kind = true) : kind.name ∈ names := by
  rcases List.mem_append.mp (of_decide_eq_true enabled) with basic | member
  · exact absurd basic (not_mem_always optional)
  · exact ((ofNames_ok chosen).2 kind member).2 names rfl

end Builtins

/-- Values of an optional type are kept only if it is enabled, and computed only then or by `&`. -/
def Policy.enabled (settings : Settings) : Policy where
  runs _ := True
  computes kind :=
    (kind ∈ Builtins.optionalKinds → settings.builtins.enabled kind = true) ∨
      kind = .string ∧ settings.builtins.enabled .char = true
  keeps kind := kind ∈ Builtins.optionalKinds → settings.builtins.enabled kind = true

namespace Policy

theorem enabled_closed (settings : Settings) : (Policy.enabled settings).Closed settings where
  blocks _ _ _ _ _ _ := trivial
  kept _ := .inl
  enabled _ isEnabled := .inl fun _ => isEnabled
  procedure optional := absurd optional (by decide)
  function optional := absurd optional (by decide)
  joined := by
    rintro (char | ⟨impossible, -⟩)
    · exact .inr ⟨rfl, char (by decide)⟩
    · cases impossible

end Policy

/-! ## Where values come from -/

namespace Config

/-- If an expression has got a value, it is of this sort. -/
def Gives (sort : Value → Prop) (c : Config) : Prop :=
  ∀ v, c.control = .value v → sort v

variable {settings : Settings} {sort : Value → Prop} {stack : List Frame} {id : ScopeId}
  {state : State}

theorem Moves.gives {plain returns : Bool} {log : Array LogEntry} {depth : Nat} {c : Config}
    (moves : Moves plain returns sort id stack log depth c) : c.Gives sort := by
  cases moves with
  | goes _ _ values => exact values
  | waits awaits =>
    rintro v rfl
    cases awaits

theorem step_source {c : Config} (running : c.halted = false) :
    (c.step settings).Gives (Source settings c) := by
  have move := c.step_move settings
  generalize c.step settings = next at move
  cases move with
  | halts halted =>
    rw [running] at halted
    cases halted
  | begins _ _ moves => exact moves.gives
  | hands _ _ _ _ _ moves => exact moves.gives
  | enters | drops =>
    rintro v ⟨⟩

/-- The step joins two texts to this value. -/
def Joins (c : Config) (v : Value) : Prop :=
  ∃ l r rest, c.control = .value r ∧ c.stack = .right .join l :: rest ∧
    BinaryOp.join.apply l r = .ok v

/-- Only `&` gives a value that may not be kept. -/
theorem Source.keeps {c : Config} {v : Value} (source : Source settings c v)
    (obeys : c.Obeys (.enabled settings)) : (Policy.enabled settings).Keeps v ∨ c.Joins v := by
  have basic {result : Except Cause Value} (basic : Basic result) (gives : result = .ok v) :
      (Policy.enabled settings).Keeps v := by
    obtain ⟨kind, member, isKind⟩ := basic v gives
    exact .of_isData isKind (Builtins.isData_always kind member)
      fun _ => settings.builtins.enabled_always member
  obtain ⟨control, stack, id, state⟩ := c
  cases source with
  | literal _ isKind data enabled => exact .inl (.of_isData isKind data fun _ => enabled)
  | @name x m _ ran =>
    have looked := Memory.lookup_obeys obeys.backed.memory id x.name
    rw [ran] at looked
    exact .inl looked.2
  | @unary op _ _ _ _ gives => exact .inl (basic (op.apply_basic _) gives)
  | @binary op l r rest isValue isTop gives =>
    rcases op.apply_basic l r with isBasic | ⟨rfl, -⟩
    · exact .inl (basic isBasic gives)
    · exact .inr ⟨l, r, rest, isValue, isTop, gives⟩
  | call returns isTop accepted =>
    cases returns
    cases isTop
    have computes : (Policy.enabled settings).Computes v := obeys.control v rfl
    exact .inl (computes.keeps (obeys.backed.top _ rfl) accepted)

end Config

/-! ## Sessions -/

namespace Session

variable {policy : Policy}

variable {options : Options} {s : Session}

theorem start_obeys (started : start options = .ok s) :
    s.state.memory.Obeys (.enabled s.settings) := by
  have empty := (start_fresh started).2
  obtain ⟨builtins, memory, -, installed, rfl⟩ := start_ok started
  have dead (h : Handle) : memory.store.cell? h = none := by
    rw [show memory.store = {} from empty]
    cases h <;> simp [Store.cell?]
  constructor
  · intro id name v bound
    obtain ⟨-, kind, member, -, same⟩ := (Builtins.install_binds installed id name _).mp bound
    cases same
    refine .of_kind rfl (fun optional => absurd optional (by decide)) ?_
    rintro _ ⟨⟩
    exact fun _ => decide_eq_true member
  · intro h cell found
    rw [dead] at found
    cases found
  · intro h cell v found
    rw [dead] at found
    cases found

theorem first?_obeys (memory : s.state.memory.Obeys policy)
    (free : ∀ statement, policy.runs statement) {request : Request} {first : Config}
    (isFirst : s.first? request = some first) : first.Obeys policy := by
  have memory' : first.state.memory.Obeys policy := by
    rw [first?_memory isFirst]
    exact memory
  rcases first?_cases isFirst with ⟨program, rfl, rfl⟩ | ⟨e, rfl, rfl⟩
  · exact ⟨fun statement _ => free statement, List.forall_mem_nil _, memory'⟩
  · exact ⟨trivial, List.forall_mem_nil _, memory'⟩

theorem Passes.obeys {c : Config} (passes : s.Passes c) (closed : policy.Closed s.settings)
    (memory : s.state.memory.Obeys policy) (free : ∀ statement, policy.runs statement) :
    c.Obeys policy := by
  obtain ⟨request, first, n, isFirst, rfl⟩ := passes
  exact Config.advance_obeys closed (first?_obeys memory free isFirst) n

theorem Continues.obeys {t : Session} (continues : s.Continues t)
    (closed : policy.Closed s.settings) (memory : s.state.memory.Obeys policy)
    (free : ∀ statement, policy.runs statement) :
    t.settings = s.settings ∧ t.state.memory.Obeys policy := by
  induction continues with
  | refl => exact ⟨rfl, memory⟩
  | @serve t t' fuel request answered _ isServed ih =>
    obtain ⟨same, obeys⟩ := ih
    rcases served isServed with ⟨-, rfl, -⟩ | ⟨first, isFirst, -, isAnswer⟩
    · exact ⟨same, obeys⟩
    · obtain ⟨settings, memory', -⟩ :=
        answer_session t.settings (first.advance t.settings fuel) request
      rw [isAnswer] at settings memory'
      have passes : t.Passes (first.advance t.settings fuel) :=
        ⟨request, first, fuel, isFirst, rfl⟩
      rw [memory']
      exact ⟨settings.trans same, (passes.obeys (same ▸ closed) obeys free).backed.memory⟩

/-- The values that a session works with are enabled, or `&` has made them. -/
theorem Reached.passes_obeys (reached : Reached options s) {c : Config} (passes : s.Passes c) :
    c.Obeys (.enabled s.settings) := by
  obtain ⟨fresh, started, continues⟩ := reached
  obtain ⟨same, obeys⟩ :=
    continues.obeys (Policy.enabled_closed fresh.settings) (start_obeys started) fun _ => trivial
  rw [← same] at obeys
  exact passes.obeys (Policy.enabled_closed s.settings) obeys fun _ => trivial

/-- A value that is at hand has been given by a step before. -/
theorem Passes.source {c : Config} (passes : s.Passes c) {v : Value}
    (given : c.control = .value v) :
    ∃ d, s.Passes d ∧ c = d.step s.settings ∧ d.Source s.settings v := by
  obtain ⟨request, first, n, isFirst, rfl⟩ := passes
  induction n with
  | zero =>
    change first.control = .value v at given
    rcases first?_cases isFirst with ⟨program, rfl, rfl⟩ | ⟨e, rfl, rfl⟩ <;> cases given
  | succ n ih =>
    rw [← Config.step_advance] at given ⊢
    -- A run that has ended stays where it is, so its value was given earlier.
    cases halted : (first.advance s.settings n).halted with
    | true =>
      rw [Config.step_halted halted] at given ⊢
      exact ih given
    | false =>
      exact ⟨_, ⟨request, first, n, isFirst, rfl⟩, rfl, Config.step_source halted v given⟩

theorem Reached.builtins (reached : Reached options s) :
    Builtins.ofNames options.types = .ok s.settings.builtins := by
  obtain ⟨fresh, started, continues⟩ := reached
  rw [(continues.idle (start_fresh started).1).1]
  obtain ⟨_, _, chosen, _, rfl⟩ := start_ok started
  exact chosen

/-- Of a type that is switched off nothing is kept, and nothing is computed or written either,
except that the `&` of two CHAR values gives a STRING. -/
theorem Reached.switched_off {options : Options} {names : List String} {s : Session}
    (reached : Reached options s) (types : options.types = some names) {kind : Kind}
    (optional : kind ∈ Builtins.optionalKinds) (off : kind.name ∉ names) {c : Config}
    (passes : s.Passes c) :
    (∀ h cell v, c.state.memory.store.cell? h = some cell → cell.value = some v →
        v.kind? ≠ some kind) ∧
      (∀ id name v, c.state.memory.Binds id name (.constant v) → v.kind? ≠ some kind) ∧
      (∀ v, c.control = .value v → v.kind? = some kind →
        kind = .string ∧ Kind.char.name ∈ names ∧
          ∃ d, s.Passes d ∧ c = d.step s.settings ∧ d.Joins v) ∧
      ((c.step s.settings).state.sink = c.state.sink ∨
        ∃ v rest, c.control = .value v ∧ c.stack = .output :: rest ∧
          (c.step s.settings).state.sink = c.state.sink.write (v.shown ++ "\n") ∧
          (v.kind? = some kind → kind = .string ∧ Kind.char.name ∈ names)) := by
  have chosen := reached.builtins
  rw [types] at chosen
  have disabled : ¬ (Policy.enabled s.settings).keeps kind :=
    fun keeps => off (Builtins.name_mem_of_enabled chosen optional (keeps optional))
  have obeys := reached.passes_obeys passes
  have computed {v : Value} (given : c.control = .value v) (isKind : v.kind? = some kind) :
      kind = .string ∧ Kind.char.name ∈ names := by
    have computes := obeys.control
    rw [given] at computes
    rcases computes.kind kind isKind with keeps | ⟨isString, char⟩
    · exact absurd keeps disabled
    · exact ⟨isString, Builtins.name_mem_of_enabled chosen (by decide) char⟩
  refine ⟨?_, ?_, ?_, ?_⟩
  · intro h cell v found isValue isKind
    exact disabled ((obeys.backed.memory.contents h cell v found isValue).kind kind isKind)
  · intro id name v binds isKind
    exact disabled ((obeys.backed.memory.constants id name v binds).kind kind isKind)
  · intro v given isKind
    obtain ⟨isString, char⟩ := computed given isKind
    obtain ⟨d, before, same, source⟩ := passes.source given
    rcases source.keeps (reached.passes_obeys before) with keeps | joins
    · exact absurd (keeps.kind kind isKind) disabled
    · exact ⟨isString, char, d, before, same, joins⟩
  · rcases Config.step_sink c with same | ⟨v, rest, given, isTop, -, written⟩
    · exact .inl same
    · exact .inr ⟨v, rest, given, isTop, written, computed given⟩

end Session

/-! ## Two characters -/

namespace Sample

def onlyChars : Options := { types := some ["CHAR"] }

def lettered : Session :=
  match Session.start onlyChars with
  | .ok s => s
  | .error _ => fresh

def joining : Program where
  span := .zero
  body := [.output (.binary .join (.char "a" .zero) (.char "b" .zero) .zero) .zero]

def joined : Config :=
  (lettered.begin joining).advance lettered.settings 7

theorem lettered_passes : lettered.Passes joined :=
  ⟨.program (some joining), _, 7, rfl, rfl⟩

end Sample

/-- Although STRING is switched off, a STRING is computed and written. -/
theorem Session.string_of_chars :
    start Sample.onlyChars = .ok Sample.lettered ∧ Sample.onlyChars.types = some ["CHAR"] ∧
      Kind.string ∈ Builtins.optionalKinds ∧ Kind.string.name ∉ ["CHAR"] ∧
      Sample.lettered.Passes Sample.joined ∧
      Sample.joined.control = .value (.string "ab") ∧
      (Value.string "ab").kind? = some .string ∧
      (Sample.joined.step Sample.lettered.settings).state.sink.written = #["ab\n"] :=
  ⟨rfl, rfl, by decide, by decide, Sample.lettered_passes,
    Control.eq_of_gives (by decide +kernel), rfl, by decide +kernel⟩

theorem Session.Reached.switched_off_sample :
    let s := Sample.lettered
    let c := Sample.joined
    Reached Sample.onlyChars s ∧ Kind.string.name ∉ ["CHAR"] ∧ s.Passes c ∧
      (∀ h cell v, c.state.memory.store.cell? h = some cell → cell.value = some v →
        v.kind? ≠ some .string) ∧
      (∀ id name v, c.state.memory.Binds id name (.constant v) → v.kind? ≠ some .string) ∧
      ∃ d, s.Passes d ∧ c = d.step s.settings ∧ d.Joins (.string "ab") := by
  intro s c
  have reached : Reached Sample.onlyChars s := ⟨s, rfl, .refl⟩
  have types : Sample.onlyChars.types = some ["CHAR"] := rfl
  have optional : Kind.string ∈ Builtins.optionalKinds := by decide
  have off : Kind.string.name ∉ ["CHAR"] := by decide
  obtain ⟨cells, constants, values, -⟩ :=
    Session.Reached.switched_off reached types optional off Sample.lettered_passes
  obtain ⟨-, -, joins⟩ := values (.string "ab") (Control.eq_of_gives (by decide +kernel)) rfl
  exact ⟨reached, off, Sample.lettered_passes, cells, constants, joins⟩

end Pseudocode
