import Pseudocode.Proofs.Chunks
import Pseudocode.Proofs.Output
import Pseudocode.Proofs.Sequencing
import Pseudocode.Repl

/-! # Lines at the prompt

The lines of a program that succeeds may be typed at the prompt instead. Each chunk runs as soon as
it is complete; all in all the same statements run in the same order, and they leave the same
globals, the same live cells and the same output, to which the end of the dialogue adds a line
break. -/

namespace Pseudocode

/-! ## What sessions that are alike have in common -/

def Global.unplaced : Global → Global
  | cell type value => cell type (value.map Value.unplaced)
  | constant v => constant v.unplaced

namespace Session

variable {s s' : Session}

theorem globalOf_unplaced (m : Memory) (b : Binding) :
    globalOf m.unplaced b.unplaced = (globalOf m b).unplaced := by
  cases b with
  | constant v => rfl
  | slot h =>
    simp only [Binding.unplaced, globalOf, Memory.unplaced, Store.typeOf_unplaced,
      Store.cell?_unplaced, Global.unplaced]
    cases m.store.cell? h <;> rfl

theorem globals_unplaced (s : Session) :
    s.globals.map (fun entry => (entry.1, entry.2.unplaced)) =
      (Session.mk s.settings s.state.unplaced).globals := by
  simp only [globals, State.unplaced, Memory.keys_unplaced, Memory.resolve?_unplaced,
    List.map_filterMap, Option.map_map, Function.comp_def, globalOf_unplaced]

theorem Alike.globals (alike : s.Alike s') :
    s.globals.map (fun entry => (entry.1, entry.2.unplaced)) =
      s'.globals.map fun entry => (entry.1, entry.2.unplaced) := by
  rw [globals_unplaced, globals_unplaced, alike.settings, alike.state]

theorem Alike.live (alike : s.Alike s') : s.live = s'.live := by
  have same := congrArg (fun state : State => state.memory.store.live) alike.state
  simpa only [Session.live, State.unplaced, Memory.unplaced, Store.live_unplaced] using same

theorem Alike.sink (alike : s.Alike s') : s.state.sink = s'.state.sink := by
  have same := congrArg (fun state : State => state.sink) alike.state
  exact same

def told (s : Session) (text : String) : Session :=
  { s with state.sink := s.state.sink.write text }

theorem Alike.told (alike : s.Alike s') (text : String) : (s.told text).Alike (s'.told text) := by
  refine ⟨alike.settings, ?_⟩
  have same := congrArg (fun state : State => { state with sink := state.sink.write text })
    alike.state
  exact same

end Session

/-! ## What a dialogue runs -/

namespace Repl

/-- The program that the dialogue runs when it gets this answer. -/
def program? (r : Repl) : Reply → Option Program
  | .line text =>
    let source := Chunk.extend r.gathered text
    if Chunk.isOpen source || Text.trim source = "" || Chunk.isCommand source then none
    else (Program.ofText source.toList).toOption
  | _ => none

/-- The statements that begin to run when the dialogue gets this answer, in order. -/
def begun (fuel : Nat) (r : Repl) (reply : Reply) : List Stmt :=
  ((r.program? reply).map (r.session.executed fuel)).getD []

/-- The statements that begin to run while the dialogue gets these answers, in order. -/
def executed (fuel : Nat) (r : Repl) : List Reply → List Stmt
  | [] => []
  | reply :: rest =>
    if r.closed then []
    else r.begun fuel reply ++ ((r.feed fuel reply).map (executed fuel · rest)).getD []

theorem converse_cons {fuel : Nat} {r r' : Repl} {reply : Reply} (goesOn : r.closed = false)
    (fed : r.feed fuel reply = some r') (rest : List Reply) :
    r.converse fuel (reply :: rest) = r'.converse fuel rest := by
  rw [converse, goesOn, fed]
  rfl

theorem executed_cons {fuel : Nat} {r r' : Repl} {reply : Reply} (goesOn : r.closed = false)
    (fed : r.feed fuel reply = some r') (rest : List Reply) :
    r.executed fuel (reply :: rest) = r.begun fuel reply ++ r'.executed fuel rest := by
  rw [executed, goesOn, fed]
  rfl

end Repl

/-! ## Line by line -/

def Chunk.remaining (gathered : String) (lines : List String) : String :=
  "\n".intercalate (if gathered = "" then lines else gathered :: lines)

theorem Chunk.remaining_cons (gathered line : String) (lines : List String) :
    remaining gathered (line :: lines) = "\n".intercalate (extend gathered line :: lines) := by
  unfold remaining extend
  split
  · rfl
  · cases lines with
    | nil => rw [String.intercalate_cons_cons, String.intercalate_singleton,
        String.intercalate_singleton]
    | cons next lines =>
      simp only [String.intercalate_cons_cons, String.append_assoc]

theorem Chunk.ne_empty_of_isOpen {source : String} (isOpen : isOpen source = true) :
    source ≠ "" := by
  rintro rfl
  simp [Chunk.isOpen, breaksOff, Program.ofText_nil] at isOpen

namespace Repl

/-- Between two lines of a program: what was gathered is incomplete, and with the lines to come it
is the program `p`. -/
structure Awaits (r : Repl) (lines : List String) (p : Program) : Prop where
  goesOn : r.closed = false
  idle : r.session.Idle
  gathered : r.gathered = "" ∨ Chunk.isOpen r.gathered = true
  parsed : Program.ofText (Chunk.remaining r.gathered lines).toList = .ok p

variable {fuel : Nat} {r : Repl} {line : String} {lines : List String} {p : Program}
  {final : Session}

/-! What becomes of a line: it leaves a chunk open, ends a blank one or ends one that runs. -/

section Line

variable {source : String} (extends_ : Chunk.extend r.gathered line = source)

include extends_

theorem feed_open (isOpen : Chunk.isOpen source = true) :
    r.feed fuel (.line line) =
        some { r with prompts := r.prompts.push r.prompt, gathered := source } ∧
      r.begun fuel (.line line) = [] := by
  constructor
  · simp [feed, extends_, isOpen]
  · simp [begun, program?, extends_, isOpen]

theorem feed_blank (closed : Chunk.isOpen source = false) (blank : Text.trim source = "") :
    r.feed fuel (.line line) =
        some { r with prompts := r.prompts.push r.prompt, gathered := "" } ∧
      r.begun fuel (.line line) = [] := by
  constructor
  · simp [feed, extends_, closed, submit, blank]
  · simp [begun, program?, extends_, blank]

theorem feed_program {chunk : Program} {middle : Session} (closed : Chunk.isOpen source = false)
    (noCommand : Chunk.isCommand source = false) (inked : Text.trim source ≠ "")
    (parsed : Program.ofText source.toList = .ok chunk)
    (ran : r.session.execute fuel (some chunk) = some (.ok (), middle)) :
    r.feed fuel (.line line) =
        some { r with
          prompts := r.prompts.push r.prompt
          gathered := ""
          history := r.history.push (onOneLine source)
          session := middle } ∧
      r.begun fuel (.line line) = r.session.executed fuel chunk := by
  constructor
  · simp [feed, extends_, closed, submit, inked, noCommand, execute, parsed, ran]
  · simp [begun, program?, extends_, closed, inked, noCommand, parsed, Except.toOption]

end Line

/-- A line at the prompt is gathered or ends a chunk, and either way the rest of the program is
still to come. -/
theorem Awaits.feed (awaits : r.Awaits (line :: lines) p)
    (ran : r.session.execute fuel (some p) = some (.ok (), final)) :
    ∃ r' p' final', r.feed fuel (.line line) = some r' ∧ r'.Awaits lines p' ∧
      r'.complaints = r.complaints ∧ r'.session.execute fuel (some p') = some (.ok (), final') ∧
      final'.Alike final ∧
      (r.begun fuel (.line line) ++ r'.session.executed fuel p').map Stmt.unplaced =
        (r.session.executed fuel p).map Stmt.unplaced := by
  obtain ⟨goesOn, idle, -, parsed⟩ := awaits
  rw [Chunk.remaining_cons] at parsed
  generalize extends_ : Chunk.extend r.gathered line = source at parsed
  cases isOpen : Chunk.isOpen source with
  | true =>
    obtain ⟨fed, begun⟩ := feed_open extends_ isOpen
    refine ⟨_, p, final, fed, ⟨goesOn, idle, .inr isOpen, ?_⟩, rfl, ran, .refl final, ?_⟩
    · rw [Chunk.remaining, if_neg (Chunk.ne_empty_of_isOpen isOpen)]
      exact parsed
    · rw [begun, List.nil_append]
  | false =>
    obtain ⟨first, second, f, parsedFirst, parsedSecond, noCommand, parts⟩ :=
      Chunk.parts_of_closed parsed isOpen
    have same : second.body.map Stmt.unplaced =
        (second.body.map (Stmt.moved f)).map Stmt.unplaced := by
      rw [List.map_map]
      exact List.map_congr_left fun s _ => (s.unplaced_moved f).symm
    by_cases blank : Text.trim source = ""
    · rw [Chunk.body_of_trim blank parsedFirst, List.nil_append] at parts
      rw [← parts] at same
      obtain ⟨final', ran', alike, trace⟩ := (Session.Alike.refl r.session).execute same ran
      obtain ⟨fed, begun⟩ := feed_blank extends_ isOpen blank
      refine ⟨_, second, final', fed, ⟨goesOn, idle, .inl rfl, parsedSecond⟩, rfl, ran', alike,
        ?_⟩
      rw [begun, List.nil_append, trace]
    · obtain ⟨middle, final', ranFirst, ranSecond, alike, trace⟩ :=
        idle.execute_parts parts same ran
      obtain ⟨fed, begun⟩ := feed_program extends_ isOpen noCommand blank parsedFirst ranFirst
      refine ⟨_, second, final', fed, ⟨goesOn, idle.execute ranFirst, .inl rfl, parsedSecond⟩,
        rfl, ranSecond, alike, ?_⟩
      rw [begun, trace]

/-- When the lines run out, nothing of the program is left. -/
theorem Awaits.body_eq_nil (awaits : r.Awaits [] p) : p.body = [] := by
  have parsed := awaits.parsed
  rcases awaits.gathered with empty | isOpen
  · rw [Chunk.remaining, if_pos empty, String.intercalate_nil] at parsed
    change Program.ofText [] = .ok p at parsed
    rw [Program.ofText_nil] at parsed
    cases parsed
    rfl
  · have broken : Chunk.breaksOff r.gathered = true := (Bool.and_eq_true_iff.mp isOpen).2
    have notEmpty : r.gathered ≠ "" := Chunk.ne_empty_of_isOpen isOpen
    rw [Chunk.remaining, if_neg notEmpty, String.intercalate_singleton] at parsed
    rw [Chunk.breaksOff, parsed] at broken
    cases broken

/-- The end of the input writes a line break and ends the dialogue. -/
theorem converse_nil (fuel : Nat) (goesOn : r.closed = false) :
    ∃ r', r.converse fuel [] = some (r', []) ∧ r'.closed = true ∧ r'.complaints = r.complaints ∧
      r'.session = r.session.told "\n" := by
  rw [converse, goesOn]
  exact ⟨_, rfl, rfl, rfl, by rw [say, String.empty_append]; rfl⟩

/-- Feeding the lines of a program runs the program. -/
theorem Awaits.converse (awaits : r.Awaits lines p)
    (ran : r.session.execute fuel (some p) = some (.ok (), final)) :
    ∃ r', r.converse fuel (lines.map .line) = some (r', []) ∧ r'.closed = true ∧
      r'.complaints = r.complaints ∧ r'.session.Alike (final.told "\n") ∧
      (r.executed fuel (lines.map .line)).map Stmt.unplaced =
        (r.session.executed fuel p).map Stmt.unplaced := by
  induction lines generalizing r p final with
  | nil =>
    obtain ⟨alike, trace⟩ := Session.execute_empty awaits.body_eq_nil ran
    obtain ⟨r', conversed, closed, complaints, told⟩ := converse_nil fuel awaits.goesOn
    refine ⟨r', conversed, closed, complaints, ?_, ?_⟩
    · rw [told]
      exact alike.symm.told "\n"
    · rw [trace]
      rfl
  | cons line lines ih =>
    obtain ⟨r₁, p₁, final₁, fed, awaits₁, complaints₁, ran₁, alike₁, trace₁⟩ := awaits.feed ran
    obtain ⟨r', conversed, closed, complaints, alike, trace⟩ := ih awaits₁ ran₁
    refine ⟨r', ?_, closed, complaints.trans complaints₁, alike.trans (alike₁.told "\n"), ?_⟩
    · rw [List.map_cons, converse_cons awaits.goesOn fed, conversed]
    · rw [List.map_cons, executed_cons awaits.goesOn fed, List.map_append, trace,
        ← List.map_append, trace₁]

end Repl

/-! ## The whole dialogue -/

theorem Session.limit_of_execute {s final : Session} {fuel : Nat} {program : Program}
    (ran : s.execute fuel (some program) = some (.ok (), final)) :
    final.state.sink.limit = s.state.sink.limit := by
  obtain ⟨n, id, state, runs, below, rfl⟩ := runs_of_execute ran
  have kept : ((s.begin program).advance s.settings fuel).state.sink.limit =
      (s.begin program).state.sink.limit := Config.advance_limit _ fuel
  rw [show (s.begin program).advance s.settings fuel = _ from (runs.ends below).1] at kept
  simpa only [finished, begin, note, Config.note_sink] using kept

/-- A sink without a limit takes every text. -/
theorem Session.outputSince_told {s : Session} (unlimited : s.state.sink.limit = none)
    (text : String) : (s.told text).outputSince 0 = s.outputSince 0 ++ text := by
  have taken : s.state.sink.closed = false := Sink.closed_unlimited unlimited
  simp [outputSince, told, Sink.write, taken, String.join_append]

namespace Repl.Sample

/-- A loop that holds another one, a blank line, and a branch whose `THEN` stands on a line of its
own. -/
def lines : List String :=
  ["DO", "WHILE 1<0 DO", "ENDWHILE", "WHILE 1<0 // no", "", "IF 0<1", "THEN OUTPUT 2", "ENDIF"]

def program : Program :=
  ((Program.ofText ("\n".intercalate lines).toList).toOption).getD ⟨[], .zero⟩

theorem parsed : Program.ofText ("\n".intercalate lines).toList = .ok program := by
  have isOk : (Program.ofText ("\n".intercalate lines).toList).isOk = true := by decide +kernel
  obtain ⟨p, parsed⟩ := Program.exists_ok isOk
  rw [program, parsed]
  rfl

theorem ran : ∃ final, Sample.fresh.execute 60 (some program) = some (.ok (), final) := by
  have succeeds : (Sample.fresh.execute 60 (some program)).any (·.1.isOk) = true := by
    decide +kernel
  cases ended : Sample.fresh.execute 60 (some program) with
  | none =>
    rw [ended] at succeeds
    cases succeeds
  | some answer =>
    obtain ⟨result, final⟩ := answer
    rw [ended] at succeeds
    cases result with
    | ok => exact ⟨final, rfl⟩
    | error => cases succeeds

end Repl.Sample

/-- The lines of a program that succeeds, typed at the prompt of a fresh session. Places apart, the
same statements run in the same order, and the globals are the same. -/
theorem Repl.converse_lines {options : Options} {s final : Session} {fuel : Nat}
    {lines : List String} {program : Program} (started : Session.start options = .ok s)
    (parsed : Program.ofText ("\n".intercalate lines).toList = .ok program)
    (ran : s.execute fuel (some program) = some (.ok (), final)) :
    ∃ r : Repl, Repl.converse fuel { session := s } (lines.map .line) = some (r, []) ∧
      r.closed = true ∧ r.complaints = #[] ∧
      (Repl.executed fuel { session := s } (lines.map .line)).map Stmt.unplaced =
        (s.executed fuel program).map Stmt.unplaced ∧
      (r.session.globals.map fun entry => (entry.1, entry.2.unplaced)) =
        (final.globals.map fun entry => (entry.1, entry.2.unplaced)) ∧
      r.session.live = final.live ∧
      r.session.state.sink = final.state.sink.write "\n" ∧
      (options.maxWrites = none →
        r.session.outputSince 0 = final.outputSince 0 ++ "\n") := by
  have awaits : Awaits { session := s } lines program :=
    ⟨rfl, (Session.start_fresh started).1, .inl rfl, parsed⟩
  obtain ⟨r, conversed, closed, complaints, alike, trace⟩ := awaits.converse ran
  refine ⟨r, conversed, closed, complaints, trace, alike.globals, alike.live, alike.sink, ?_⟩
  intro unlimited
  have limit : final.state.sink.limit = none := by
    obtain ⟨builtins, memory, -, -, rfl⟩ := Session.start_ok started
    rw [Session.limit_of_execute ran, unlimited]
  rw [← Session.outputSince_told limit, Session.outputSince, alike.sink]
  rfl

theorem Repl.converse_lines_sample :
    ∃ (r : Repl) (final : Session),
      Sample.fresh.execute 60 (some Repl.Sample.program) = some (.ok (), final) ∧
      Repl.converse 60 { session := Sample.fresh } (Repl.Sample.lines.map .line) = some (r, []) ∧
      r.complaints = #[] ∧ r.session.outputSince 0 = final.outputSince 0 ++ "\n" := by
  obtain ⟨final, ran⟩ := Repl.Sample.ran
  obtain ⟨r, conversed, -, complaints, -, -, -, -, output⟩ :=
    converse_lines Sample.started Repl.Sample.parsed ran
  exact ⟨r, final, ran, conversed, complaints, output rfl⟩

end Pseudocode
