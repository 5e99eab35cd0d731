import Pseudocode.Proofs.Output
import Pseudocode.Proofs.Sequencing

/-! # An output that closes only cuts off

Whether the output takes one more text is asked in one place, where `OUTPUT` has its value. Until the
output closes, a run goes as it would go with an output that takes everything. The text that is
refused begins a failure that no frame takes up: each frame it meets is left, and nothing more is
written. A step leaves at most one frame, so the run that fails is at its end no later than the run
that goes on. -/

namespace Pseudocode

namespace Sink

def limited (s : Sink) (limit : Nat) : Sink :=
  { s with limit := some limit }

def push (s : Sink) (text : String) : Sink :=
  { s with written := s.written.push text }

theorem write_open {s : Sink} (taken : s.closed = false) (text : String) :
    s.write text = s.push text := by
  rw [write, taken]
  rfl

end Sink

namespace Config

variable {settings : Settings} {limit : Nat}

/-- The moment of a run whose output takes no more than `limit` texts. -/
def limited (c : Config) (limit : Nat) : Config :=
  c.withSink (c.state.sink.limited limit)

/-! ## A refused text is the end -/

/-- A step takes at most one frame off the stack. -/
theorem length_le_step (settings : Settings) (c : Config) :
    c.stack.length ≤ (c.step settings).stack.length + 1 := by
  obtain ⟨control, stack, id, state⟩ := c
  cases stack with
  | nil => exact Nat.zero_le _
  | cons frame rest =>
    -- The frames below the first take no part in the step.
    have below : step settings ⟨control, frame :: rest, id, state⟩ =
        (step settings ⟨control, [frame], id, state⟩).onto rest :=
      step_onto (c := ⟨control, [frame], id, state⟩) (by cases control <;> rfl) rest
    rw [below, onto, List.length_append, List.length_cons]
    omega

/-- What is written stays. -/
theorem step_written (settings : Settings) (c : Config) :
    c.state.sink.written.toList <+: (c.step settings).state.sink.written.toList := by
  rcases @step_sink settings c with same | ⟨v, rest, -, -, taken, written⟩
  · exact ⟨[], by rw [same, List.append_nil]⟩
  · have more : (c.step settings).state.sink.written.toList =
        c.state.sink.written.toList ++ [v.shown ++ "\n"] := by
      rw [written, Sink.write_open taken, Sink.push, Array.toList_push]
    exact ⟨_, more.symm⟩

theorem advance_written (c : Config) (n : Nat) :
    c.state.sink.written.toList <+: (c.advance settings n).state.sink.written.toList :=
  advance_induction (P := fun d => c.state.sink.written.toList <+: d.state.sink.written.toList)
    (fun d before => before.trans (step_written settings d)) n (List.prefix_refl _)

/-- The refusal leaves a frame in every step, and nothing is written. -/
theorem step_refused (settings : Settings) {c : Config} (refused : c.control = .failing .output) :
    (c.step settings).control = .failing .output ∧ (c.step settings).stack = c.stack.tail ∧
      (c.step settings).state.sink = c.state.sink := by
  have silent (v : Value) : ¬ c.Writes v := by
    rintro ⟨rest, isValue, -⟩
    cases refused.symm.trans isValue
  refine ⟨?_, ?_, step_silent silent⟩
  all_goals
    obtain ⟨control, stack, id, state⟩ := c
    cases refused
    cases stack with
    | nil => rfl
    | cons frame rest => cases frame <;> rfl

/-! ## Two runs -/

/-- The run `cut` has gone as `full`, whose sink takes everything, or a text has been refused in it
since. -/
inductive Truncated (limit : Nat) : (full cut : Config) → Prop where
  | together {c : Config} : c.state.sink.limit = none → c.state.sink.written.size ≤ limit →
      Truncated limit c (c.limited limit)
  | apart {full cut : Config} : limit < full.state.sink.written.size →
      cut.control = .failing .output → cut.stack.length ≤ full.stack.length →
      cut.state.sink.written.toList = full.state.sink.written.toList.take limit →
      Truncated limit full cut

namespace Truncated

/-- At `OUTPUT` the two runs go on together, or they part. -/
theorem writes {c : Config} {v : Value} (writes : c.Writes v)
    (unlimited : c.state.sink.limit = none) (within : c.state.sink.written.size ≤ limit) :
    Truncated limit (c.step settings) ((c.limited limit).step settings) := by
  obtain ⟨control, stack, id, state⟩ := c
  obtain ⟨rest, isValue, isOutput⟩ := writes
  cases isValue
  cases isOutput
  have taken : state.sink.closed = false := Sink.closed_unlimited unlimited
  rw [step_taken v rest taken, Sink.write_open taken]
  by_cases room : state.sink.written.size < limit
  · have taken' : (state.sink.limited limit).closed = false :=
      decide_eq_false (Nat.not_le.mpr room)
    have same : step settings (limited ⟨.value v, .output :: rest, id, state⟩ limit) =
        limited ⟨.done, rest, id, state.withSink (state.sink.push (v.shown ++ "\n"))⟩ limit := by
      have push := Sink.write_open taken' (v.shown ++ "\n")
      exact (step_taken v rest taken').trans
        (congrArg (fun sink => Config.mk .done rest id (state.withSink sink)) push)
    rw [same]
    refine together unlimited ?_
    exact (Array.size_push _).symm ▸ room
  · have last : state.sink.written.size = limit := Nat.le_antisymm within (Nat.not_lt.mp room)
    have closed : (state.sink.limited limit).closed = true := decide_eq_true (Nat.le_of_not_lt room)
    rw [limited, withSink, step_closed v rest closed]
    refine apart ?_ rfl (Nat.le_refl _) ?_
    · change limit < (state.sink.written.push _).size
      rw [Array.size_push, last]
      exact Nat.lt_succ_self limit
    · change state.sink.written.toList = (state.sink.written.push _).toList.take limit
      rw [Array.toList_push, ← last, ← Array.length_toList, List.take_left]

variable {full cut : Config} (truncated : Truncated limit full cut)

include truncated

theorem step : Truncated limit (full.step settings) (cut.step settings) := by
  cases truncated with
  | together unlimited within =>
    by_cases isWriting : ∃ v, full.Writes v
    · obtain ⟨v, isWriting⟩ := isWriting
      exact writes isWriting unlimited within
    · have silent := not_exists.mp isWriting
      have same : (full.step settings).state.sink = full.state.sink := step_silent silent
      rw [limited, step_withSink silent, ← same]
      exact together (same ▸ unlimited) (same ▸ within)
  | apart beyond refused shorter written =>
    obtain ⟨refused', tail, same⟩ := step_refused settings refused
    obtain ⟨texts, more⟩ := step_written settings full
    have fits : limit < full.state.sink.written.toList.length := beyond
    refine apart ?_ refused' ?_ ?_
    · rw [← Array.length_toList, ← more, List.length_append]
      exact Nat.lt_add_right _ fits
    · have left := length_le_step settings full
      rw [tail, List.length_tail]
      omega
    · rw [same, written, ← more, List.take_append_of_le_length (Nat.le_of_lt fits)]

theorem advance (n : Nat) : Truncated limit (full.advance settings n) (cut.advance settings n) := by
  induction n generalizing full cut with
  | zero => exact truncated
  | succ n ih =>
    rw [advance_step, advance_step]
    exact ih truncated.step

/-- There is no frame left for the refusal when the full run ends. -/
theorem halted (halted : full.halted = true) : cut.halted = true := by
  cases truncated with
  | together => exact halted
  | apart beyond refused shorter written =>
    have ended : full.stack = [] := (halted_iff.mp halted).1
    rw [ended] at shorter
    exact halted_iff.mpr ⟨List.eq_nil_of_length_eq_zero (Nat.le_zero.mp shorter), refused ▸ rfl⟩

theorem written : cut.state.sink.written.toList = full.state.sink.written.toList.take limit := by
  cases truncated with
  | together unlimited within => exact (List.take_of_length_le within).symm
  | apart _ _ _ written => exact written

theorem eq_limited (within : full.state.sink.written.size ≤ limit) : cut = full.limited limit := by
  cases truncated with
  | together => rfl
  | apart beyond => exact absurd within (Nat.not_le.mpr beyond)

theorem refused (beyond : limit < full.state.sink.written.size) :
    cut.control = .failing .output := by
  cases truncated with
  | together _ within => exact absurd within (Nat.not_le.mpr beyond)
  | apart _ refused => exact refused

end Truncated

end Config

/-! ## Sessions -/

namespace Session

def withSink (s : Session) (sink : Sink) : Session :=
  ⟨s.settings, s.state.withSink sink⟩

def taking (s : Session) (more : Nat) : Session :=
  s.withSink (s.state.sink.limited (s.state.sink.written.size + more))

theorem begin_withSink (s : Session) (program : Program) (sink : Sink) :
    (s.withSink sink).begin program = (s.begin program).withSink sink :=
  congrArg (Config.mk _ _ _) (Config.note_withSink s.state _)

theorem conclude_withSink (settings : Settings) (c : Config) (sink : Sink) :
    conclude settings (c.withSink sink) =
      ((conclude settings c).1, (conclude settings c).2.withSink sink) := by
  obtain ⟨control, stack, id, state⟩ := c
  cases control with
  | returning => rfl
  | _ => exact Prod.ext rfl (congrArg (Session.mk settings) (Config.note_withSink state _))

theorem conclude_sink (settings : Settings) (c : Config) :
    (conclude settings c).2.state.sink = c.state.sink := by
  obtain ⟨control, stack, id, state⟩ := c
  cases control with
  | returning => rfl
  | _ => exact Config.note_sink _

theorem begin_sink (s : Session) (program : Program) :
    (s.begin program).state.sink = s.state.sink :=
  Config.note_sink _

theorem answer_sink (settings : Settings) (c : Config) (request : Request) :
    (answer settings c request).2.state.sink = c.state.sink := by
  cases request with
  | program => exact conclude_sink settings c
  | expression e =>
    obtain ⟨control, stack, id, state⟩ := c
    cases control <;> rfl

variable {s : Session}

theorem first?_sink {request : Request} {first : Config} (isFirst : s.first? request = some first) :
    first.state.sink = s.state.sink := by
  rcases first?_cases isFirst with ⟨program, rfl, rfl⟩ | ⟨e, rfl, rfl⟩
  · exact begin_sink s program
  · rfl

theorem Reached.limit {options : Options} (reached : Reached options s) :
    s.state.sink.limit = options.maxWrites := by
  obtain ⟨fresh, started, continues⟩ := reached
  induction continues with
  | refl =>
    obtain ⟨_, _, _, _, rfl⟩ := start_ok started
    rfl
  | @serve t t' fuel request answered _ isServed ih =>
    rcases served isServed with ⟨-, rfl, -⟩ | ⟨first, isFirst, -, same⟩
    · exact ih
    · have sink := answer_sink t.settings (first.advance t.settings fuel) request
      rw [same] at sink
      rw [sink, Config.advance_limit, first?_sink isFirst, ih]

theorem start_withSink (options : Options) (limit : Option Nat) :
    start { options with maxWrites := limit } = (start options).map (·.withSink { limit }) := by
  unfold start
  dsimp only
  split
  · rfl
  · split
    · rfl
    · split
      · rfl
      · split <;> rfl

/-- A session may also be started so. -/
theorem start_taking {options : Options} (started : start options = .ok s) (k : Nat) :
    start { options with maxWrites := some k } = .ok (s.taking k) := by
  rw [start_withSink, started]
  obtain ⟨builtins, memory, -, -, rfl⟩ := start_ok started
  simp [taking, withSink, State.withSink, Sink.limited, Except.map]

/-- A program only adds to what is written. -/
theorem execute_written {final : Session} {fuel : Nat} {program : Program}
    {result : Except Failure Unit} (ran : s.execute fuel (some program) = some (result, final)) :
    s.state.sink.written.toList <+: final.state.sink.written.toList := by
  obtain ⟨-, concluded⟩ := execute_iff.mp ran
  have sink := conclude_sink s.settings ((s.begin program).advance s.settings fuel)
  rw [concluded] at sink
  rw [sink, ← begin_sink s program]
  exact Config.advance_written (s.begin program) fuel

theorem Idle.taking (idle : s.Idle) (more : Nat) : (s.taking more).Idle :=
  idle.of_eq rfl rfl

/-- A program does as it would without a limit until the output refuses a text; then it fails with
just that. -/
theorem execute_taking {final : Session} (unlimited : s.state.sink.limit = none) {fuel : Nat}
    {program : Program} {result : Except Failure Unit}
    (ran : s.execute fuel (some program) = some (result, final)) (more : Nat) :
    let limit := s.state.sink.written.size + more
    ∃ result' final', (s.taking more).execute fuel (some program) = some (result', final') ∧
      final'.state.sink.written.toList = final.state.sink.written.toList.take limit ∧
      (final.state.sink.written.size ≤ limit →
        result' = result ∧ final' = final.withSink (final.state.sink.limited limit)) ∧
      (limit < final.state.sink.written.size → result' = .error .output) := by
  intro limit
  obtain ⟨halted, concluded⟩ := execute_iff.mp ran
  have truncated : Config.Truncated limit ((s.begin program).advance s.settings fuel)
      (((s.taking more).begin program).advance s.settings fuel) := by
    apply Config.Truncated.advance
    have same : (s.taking more).begin program = (s.begin program).limited limit := by
      rw [taking, begin_withSink, Config.limited, begin_sink]
    have within : s.state.sink.written.size ≤ limit := Nat.le_add_right ..
    rw [← begin_sink s program] at unlimited within
    exact same ▸ .together unlimited within
  generalize (s.begin program).advance s.settings fuel = full at *
  generalize ran' : ((s.taking more).begin program).advance s.settings fuel = cut at *
  have written : final.state.sink = full.state.sink := by
    rw [← conclude_sink s.settings full, concluded]
  refine ⟨(conclude s.settings cut).1, (conclude s.settings cut).2, ?_, ?_, ?_, ?_⟩
  · apply execute_iff.mpr
    change (((s.taking more).begin program).advance s.settings fuel).halted = true ∧
      conclude s.settings (((s.taking more).begin program).advance s.settings fuel) = _
    rw [ran']
    exact ⟨truncated.halted halted, rfl⟩
  · rw [conclude_sink, truncated.written, written]
  · intro within
    rw [written] at within
    rw [truncated.eq_limited within, Config.limited, conclude_withSink, concluded, written]
    exact ⟨rfl, rfl⟩
  · intro beyond
    rw [written] at beyond
    have refused := truncated.refused beyond
    rw [conclude, refused]

/-- An output that refuses every text after the first `k` cuts the texts off there. A program that
needs no more does the same; any other fails because of the output, and leaves nothing behind but the
global variables. -/
theorem Reached.output_truncated {options : Options} {s final : Session}
    (reached : Reached options s) (unlimited : options.maxWrites = none) {fuel : Nat}
    {program : Program} {result : Except Failure Unit}
    (ran : s.execute fuel (some program) = some (result, final)) :
    ∃ texts, final.state.sink.written.toList = s.state.sink.written.toList ++ texts ∧
      ∀ k, (start options = .ok s →
          start { options with maxWrites := some k } = .ok (s.taking k)) ∧
        ∃ result' final', (s.taking k).execute fuel (some program) = some (result', final') ∧
          final'.state.sink.written.toList = s.state.sink.written.toList ++ texts.take k ∧
          (texts.length ≤ k →
            result' = result ∧ final'.globals = final.globals ∧ final'.live = final.live) ∧
          (k < texts.length →
            result' = .error .output ∧ Failure.output.fault? = none ∧ final'.state.depth = 0 ∧
              final'.live = (final'.state.memory.variableCells Memory.global).length) := by
  have noLimit : s.state.sink.limit = none := reached.limit.trans unlimited
  obtain ⟨texts, wrote⟩ : s.state.sink.written.toList <+: final.state.sink.written.toList :=
    execute_written ran
  have size : final.state.sink.written.size = s.state.sink.written.size + texts.length := by
    rw [← Array.length_toList, ← wrote, List.length_append, Array.length_toList]
  refine ⟨texts, wrote.symm, fun k => ⟨fun started => start_taking started k, ?_⟩⟩
  obtain ⟨result', final', ran', written, within, beyond⟩ := execute_taking noLimit ran k
  refine ⟨result', final', ran', ?_, ?_, ?_⟩
  · rw [written, ← wrote, ← Array.length_toList, List.take_length_add_append]
  · intro few
    obtain ⟨same, same'⟩ := within (by omega)
    rw [same, same']
    exact ⟨rfl, rfl, rfl⟩
  · intro many
    have isServed : (s.taking k).serve fuel (.program (some program)) =
        some (.ran result', final') := by
      rw [serve, ran']
      rfl
    have idle : final'.Idle := ((reached.idle.taking k).serve isServed).2
    exact ⟨beyond (by omega), rfl, idle.depth, idle.memory.live_eq_variableCells idle.frames.2⟩

end Session

namespace Sample

def telling : Program where
  span := .zero
  body := [
    .procedure (word "tell") [param "n" false] [.output (twice (named "n")) .zero] .zero,
    .forLoop (word "x") (.integer 1 .zero) (.integer 3 .zero) none
      [.call (word "tell") (some [named "x"]) .zero] .zero]

theorem telling_ends : (finished.execute 200 (some telling)).isSome = true := by decide +kernel

def told : Except Failure Unit × Session :=
  (finished.execute 200 (some telling)).get telling_ends

end Sample

/-- The third text is refused while the procedure is running. -/
theorem Session.Reached.output_truncated_sample :
    Reached {} Sample.finished ∧
      Sample.finished.execute 200 (some Sample.telling) = some Sample.told ∧
      Sample.told.2.state.sink.written.toList = ["2\n", "4\n", "6\n"] ∧
      ∃ final', (Sample.finished.taking 2).execute 200 (some Sample.telling) =
          some (.error .output, final') ∧
        final'.state.sink.written.toList = ["2\n", "4\n"] ∧ final'.state.depth = 0 ∧
        final'.live = (final'.state.memory.variableCells Memory.global).length := by
  have ran : Sample.finished.execute 200 (some Sample.telling) =
      some (Sample.told.1, Sample.told.2) := (Option.some_get Sample.telling_ends).symm
  have before : Sample.finished.state.sink.written.toList = [] := by decide +kernel
  have after : Sample.told.2.state.sink.written.toList = ["2\n", "4\n", "6\n"] := by
    decide +kernel
  obtain ⟨texts, wrote, cut⟩ := Reached.output_truncated Sample.reached rfl ran
  rw [before, after, List.nil_append] at wrote
  subst wrote
  obtain ⟨-, result', final', ran', written, -, refused⟩ := cut 2
  obtain ⟨rfl, -, depth, live⟩ := refused (by decide)
  rw [before] at written
  exact ⟨Sample.reached, ran, after, final', ran', written, depth, live⟩

end Pseudocode
