import Pseudocode.Proofs.Dialogue

/-! # Lines in groups

The lines typed at the prompt are taken in groups, one behind another: each group is the shortest
that is a chunk, and lines are left over only if they are no chunk, however many of them are taken.
The dialogue submits just these chunks, each to the session as the one before it left it, until the
lines run out or it is told to quit. -/

namespace Pseudocode

/-! ## Chunks of lines -/

namespace Chunk

/-- The text is a chunk: a command, or a text that does not break off. -/
def Stands (source : String) : Prop :=
  (Text.trim source).toList.head? = some ':' ∨
    ∀ e, Program.ofText source.toList = .error e → e.incomplete = false

theorem stands_iff {source : String} : Stands source ↔ isOpen source = false := by
  have complete : breaksOff source = false ↔
      ∀ e, Program.ofText source.toList = .error e → e.incomplete = false := by
    unfold breaksOff
    cases Program.ofText source.toList <;> simp
  rw [Stands, ← complete, isOpen, isCommand, Text.trim, String.toList_ofList,
    Bool.and_eq_false_iff, Bool.not_eq_false', decide_eq_true_iff]

/-- With those gathered before, the lines make a chunk, and no fewer of them do. -/
structure Shortest (gathered : String) (group : List String) : Prop where
  nonempty : group ≠ []
  stands : Stands (remaining gathered group)
  least : ∀ part, part <+: group → part ≠ [] → part ≠ group → ¬ Stands (remaining gathered part)

/-- Reads lines until they make a chunk, with those gathered before. What comes back are the chunk
and the lines behind it. -/
def next? (gathered : String) : List String → Option (String × List String)
  | [] => none
  | line :: rest =>
    let source := extend gathered line
    if isOpen source then next? source rest else some (source, rest)

/-- The chunks that are read, one after another, until the lines run out. -/
inductive Reads : List String → List String → Prop where
  | ended {lines} : next? "" lines = none → Reads lines []
  | chunk {lines source others chunks} : next? "" lines = some (source, others) →
      Reads others chunks → Reads lines (source :: chunks)

variable {lines : List String} {gathered line : String}

theorem Reads.unique {chunks chunks' : List String} (reads : Reads lines chunks)
    (reads' : Reads lines chunks') : chunks = chunks' := by
  induction reads generalizing chunks' with
  | ended none =>
    cases reads' with
    | ended => rfl
    | chunk isNext => simp [none] at isNext
  | chunk isNext _ ih =>
    cases reads' with
    | ended none => simp [isNext] at none
    | chunk isNext' reads' =>
      cases isNext.symm.trans isNext'
      rw [ih reads']

theorem remaining_singleton (gathered line : String) :
    remaining gathered [line] = extend gathered line := by
  rw [remaining_cons, String.intercalate_singleton]

/-- Lines that are gathered stay in front of the others. -/
theorem remaining_of_isOpen (isOpen : isOpen (extend gathered line) = true) (lines : List String) :
    remaining gathered (line :: lines) = remaining (extend gathered line) lines := by
  rw [remaining_cons, remaining, if_neg (ne_empty_of_isOpen isOpen)]

theorem next?_of_isOpen (isOpen : isOpen (extend gathered line) = true) (lines : List String) :
    next? gathered (line :: lines) = next? (extend gathered line) lines := by
  rw [next?, if_pos isOpen]

theorem next?_of_stands (isOpen : isOpen (extend gathered line) = false) (lines : List String) :
    next? gathered (line :: lines) = some (extend gathered line, lines) := by
  simp [next?, isOpen]

theorem not_stands_cons {part : List String} (isOpen : isOpen (extend gathered line) = true)
    (later : part ≠ [] → ¬ Stands (remaining (extend gathered line) part)) :
    ¬ Stands (remaining gathered (line :: part)) := by
  cases part with
  | nil => simp [remaining_singleton, stands_iff, isOpen]
  | cons next part =>
    rw [remaining_of_isOpen isOpen]
    exact later (List.cons_ne_nil next part)

/-- When the lines run out, none of their beginnings is a chunk. -/
theorem not_stands_of_next? (none : next? gathered lines = none) :
    ∀ part, part <+: lines → part ≠ [] → ¬ Stands (remaining gathered part) := by
  induction lines generalizing gathered with
  | nil =>
    intro part isPart some
    exact absurd (List.prefix_nil.mp isPart) some
  | cons line lines ih =>
    cases isOpen : isOpen (extend gathered line) with
    | false => rw [next?_of_stands isOpen] at none; cases none
    | true =>
      rw [next?_of_isOpen isOpen] at none
      intro part isPart some
      rcases List.prefix_cons_iff.mp isPart with rfl | ⟨later, rfl, isLater⟩
      · exact absurd rfl some
      · exact not_stands_cons isOpen (ih none later isLater)

theorem Shortest.single (isOpen : isOpen (extend gathered line) = false) :
    Shortest gathered [line] := by
  refine ⟨List.cons_ne_nil _ _, ?_, fun part isPart some other => ?_⟩
  · rw [remaining_singleton]
    exact stands_iff.mpr isOpen
  · rcases List.prefix_cons_iff.mp isPart with rfl | ⟨later, rfl, isLater⟩
    · exact absurd rfl some
    · exact absurd (by rw [List.prefix_nil.mp isLater]) other

theorem Shortest.cons {group : List String} (isOpen : isOpen (extend gathered line) = true)
    (shortest : Shortest (extend gathered line) group) : Shortest gathered (line :: group) := by
  refine ⟨List.cons_ne_nil _ _, ?_, fun part isPart some other => ?_⟩
  · rw [remaining_of_isOpen isOpen]
    exact shortest.stands
  · rcases List.prefix_cons_iff.mp isPart with rfl | ⟨later, rfl, isLater⟩
    · exact absurd rfl some
    · refine not_stands_cons isOpen fun some => shortest.least later isLater some ?_
      rintro rfl
      exact other rfl

/-- What is read is the first group of lines that is a chunk. -/
theorem shortest_of_next? {source : String} {others : List String}
    (isNext : next? gathered lines = some (source, others)) :
    ∃ group, lines = group ++ others ∧ source = remaining gathered group ∧
      Shortest gathered group := by
  induction lines generalizing gathered with
  | nil => cases isNext
  | cons line lines ih =>
    cases isOpen : isOpen (extend gathered line) with
    | false =>
      rw [next?_of_stands isOpen] at isNext
      cases isNext
      exact ⟨[line], rfl, (remaining_singleton ..).symm, .single isOpen⟩
    | true =>
      rw [next?_of_isOpen isOpen] at isNext
      obtain ⟨group, rfl, isSource, shortest⟩ := ih isNext
      exact ⟨line :: group, rfl, by rw [remaining_of_isOpen isOpen, isSource],
        .cons isOpen shortest⟩

theorem next?_of_shortest {group : List String} (shortest : Shortest gathered group)
    (others : List String) :
    next? gathered (group ++ others) = some (remaining gathered group, others) := by
  induction group generalizing gathered with
  | nil => exact absurd rfl shortest.nonempty
  | cons line group ih =>
    cases isOpen : isOpen (extend gathered line) with
    | false =>
      -- The first line is a chunk of its own, so it is the whole group.
      have whole : [line] = line :: group := by
        by_contra other
        refine shortest.least [line] ⟨group, rfl⟩ (List.cons_ne_nil _ _) other ?_
        rw [remaining_singleton]
        exact stands_iff.mpr isOpen
      rw [← whole, remaining_singleton]
      exact next?_of_stands isOpen others
    | true =>
      rw [List.cons_append, next?_of_isOpen isOpen, remaining_of_isOpen isOpen]
      refine ih ⟨?_, ?_, fun part isPart some other stands => ?_⟩
      · rintro rfl
        have stands := shortest.stands
        rw [remaining_singleton, stands_iff, isOpen] at stands
        cases stands
      · rw [← remaining_of_isOpen isOpen]
        exact shortest.stands
      · refine shortest.least (line :: part) (List.prefix_cons_inj line |>.mpr isPart)
          (List.cons_ne_nil _ _) (fun same => other (List.cons.inj same).2) ?_
        rwa [remaining_of_isOpen isOpen]

theorem remaining_empty (lines : List String) : remaining "" lines = "\n".intercalate lines := by
  rw [remaining, if_pos rfl]

/-- All lines are read in groups, except for some at the end that are no chunk. -/
theorem reads_groups (lines : List String) :
    ∃ (groups : List (List String)) (rest : List String), lines = groups.flatten ++ rest ∧
      Reads lines (groups.map "\n".intercalate) ∧ (∀ group ∈ groups, Shortest "" group) ∧
      next? "" rest = none := by
  induction isLength : lines.length using Nat.strongRecOn generalizing lines with
  | ind n ih =>
    cases isNext : next? "" lines with
    | none => exact ⟨[], lines, rfl, .ended isNext, by simp, isNext⟩
    | some found =>
      obtain ⟨source, others⟩ := found
      obtain ⟨group, rfl, rfl, shortest⟩ := shortest_of_next? isNext
      have shorter : others.length < n := by
        have := List.length_pos_iff.mpr shortest.nonempty
        rw [List.length_append] at isLength
        omega
      obtain ⟨groups, rest, rfl, reads, each, isRest⟩ := ih _ shorter others rfl
      rw [remaining_empty] at isNext
      exact ⟨group :: groups, rest, by simp, .chunk isNext reads,
        List.forall_mem_cons.mpr ⟨shortest, each⟩, isRest⟩

def isQuit (source : String) : Bool :=
  let command := Text.lower (Text.trim source)
  isCommand source && (command = ":quit" || command = ":q")

/-- The session that a chunk leaves, unless it ends the dialogue: what a program makes of it,
whether it succeeds or fails, and the same session if there is no program. -/
inductive Leaves (fuel : Nat) (source : String) (s : Session) : Session → Prop where
  | blank : Text.trim source = "" → Leaves fuel source s s
  | unknown : isCommand source = true → isQuit source = false →
      Leaves fuel source s (s.told "unknown command. Type :quit to exit.\n")
  | refused {e} : Text.trim source ≠ "" → isCommand source = false →
      Program.ofText source.toList = .error e → Leaves fuel source s s
  | run {p result s'} : Text.trim source ≠ "" → isCommand source = false →
      Program.ofText source.toList = .ok p → s.execute fuel (some p) = some (result, s') →
      Leaves fuel source s s'

end Chunk

/-! ## What the dialogue does with them -/

namespace Repl

variable {fuel : Nat} {r : Repl}

variable {source : String}

theorem trim_ne_empty (command : Chunk.isCommand source = true) : Text.trim source ≠ "" := by
  intro blank
  have none : Text.trimChars source.toList = [] := String.ofList_eq_empty_iff.mp blank
  simp [Chunk.isCommand, none] at command

theorem submit_quit (isQuit : Chunk.isQuit source = true) :
    r.submit fuel source = some { r with closed := true } := by
  simp only [Chunk.isQuit, Bool.and_eq_true, Bool.or_eq_true, decide_eq_true_eq] at isQuit
  rw [submit, if_neg (trim_ne_empty isQuit.1), if_pos isQuit.1, obey, if_pos isQuit.2]

theorem submit_unknown (command : Chunk.isCommand source = true)
    (goesOn : Chunk.isQuit source = false) :
    r.submit fuel source = some (r.say "unknown command. Type :quit to exit.") := by
  have other : ¬ (Text.lower (Text.trim source) = ":quit" ∨
      Text.lower (Text.trim source) = ":q") := by
    simpa [Chunk.isQuit, command] using goesOn
  rw [submit, if_neg (trim_ne_empty command), if_pos command, obey, if_neg other]

theorem submit_text (inked : Text.trim source ≠ "") (noCommand : Chunk.isCommand source = false) :
    r.submit fuel source = r.execute fuel source := by
  rw [submit, if_neg inked, noCommand]
  rfl

theorem execute_refused {e : SyntaxError} (failed : Program.ofText source.toList = .error e) :
    ∃ r', r.execute fuel source = some r' ∧ r'.session = r.session ∧ r'.closed = r.closed ∧
      r'.gathered = r.gathered := by
  rw [execute, failed]
  exact ⟨_, rfl, rfl, rfl, rfl⟩

theorem execute_run {p : Program} {result : Except Failure Unit} {s : Session}
    (parsed : Program.ofText source.toList = .ok p)
    (ran : r.session.execute fuel (some p) = some (result, s)) :
    ∃ r', r.execute fuel source = some r' ∧ r'.session = s ∧ r'.closed = r.closed ∧
      r'.gathered = r.gathered := by
  rw [execute, parsed]
  dsimp only
  rw [ran]
  cases result with
  | ok => exact ⟨_, rfl, rfl, rfl, rfl⟩
  | error => exact ⟨_, rfl, rfl, rfl, rfl⟩

/-- A chunk that does not end the dialogue leaves it ready for the next one, with the session as
the chunk left it. -/
theorem submit_of_leaves {s : Session} (goesOn : Chunk.isQuit source = false)
    (leaves : Chunk.Leaves fuel source r.session s) :
    ∃ r', r.submit fuel source = some r' ∧ r'.session = s ∧ r'.closed = r.closed ∧
      r'.gathered = r.gathered := by
  cases leaves with
  | blank empty => exact ⟨r, by rw [submit, if_pos empty], rfl, rfl, rfl⟩
  | unknown command => exact ⟨_, submit_unknown command goesOn, rfl, rfl, rfl⟩
  | refused inked noCommand failed =>
    rw [submit_text inked noCommand]
    exact execute_refused failed
  | run inked noCommand parsed ran =>
    rw [submit_text inked noCommand]
    exact execute_run parsed ran

theorem leaves_of_submit {r' : Repl} (goesOn : Chunk.isQuit source = false)
    (submitted : r.submit fuel source = some r') : ∃ s, Chunk.Leaves fuel source r.session s := by
  by_cases blank : Text.trim source = ""
  · exact ⟨_, .blank blank⟩
  cases command : Chunk.isCommand source with
  | true => exact ⟨_, .unknown command goesOn⟩
  | false =>
    rw [submit_text blank command, execute] at submitted
    cases parsed : Program.ofText source.toList with
    | error e => exact ⟨_, .refused blank command parsed⟩
    | ok p =>
      rw [parsed] at submitted
      cases ran : r.session.execute fuel (some p) with
      | none => simp [ran] at submitted
      | some answer => exact ⟨_, .run blank command parsed ran⟩

/-- The course of a dialogue that is given the groups of lines and then the rest of them: from one
session to another, and the lines that it leaves. -/
inductive Course (fuel : Nat) (rest : List String) :
    Session → List (List String) → Session → List String → Prop where
  /-- The lines run out, which the dialogue answers with a line break. -/
  | ended {s} : Course fuel rest s [] (s.told "\n") []
  | quit {s group later} : Chunk.isQuit ("\n".intercalate group) = true →
      Course fuel rest s (group :: later) s (later.flatten ++ rest)
  | goesOn {s s' t group later left} : Chunk.isQuit ("\n".intercalate group) = false →
      Chunk.Leaves fuel ("\n".intercalate group) s s' → Course fuel rest s' later t left →
      Course fuel rest s (group :: later) t left

theorem converse_closed (closed : r.closed = true) (replies : List Reply) :
    r.converse fuel replies = some (r, replies) := by
  cases replies <;> rw [converse, if_pos closed]

/-- The lines up to the end of a chunk lead to its being submitted. -/
theorem converse_next {lines others : List String} (goesOn : r.closed = false)
    (isNext : Chunk.next? r.gathered lines = some (source, others)) :
    ∃ prompts, r.converse fuel (lines.map .line) =
      (submit fuel { r with gathered := "", prompts } source).bind
        (·.converse fuel (others.map .line)) := by
  induction lines generalizing r with
  | nil => cases isNext
  | cons line lines ih =>
    rw [List.map_cons]
    cases isOpen : Chunk.isOpen (Chunk.extend r.gathered line) with
    | true =>
      rw [Chunk.next?_of_isOpen isOpen] at isNext
      rw [converse_cons goesOn (feed_open rfl isOpen).1]
      exact ih goesOn isNext
    | false =>
      rw [Chunk.next?_of_stands isOpen] at isNext
      cases isNext
      refine ⟨r.prompts.push r.prompt, ?_⟩
      rw [converse, if_neg (by simp [goesOn]), feed]
      simp only [isOpen, Bool.false_eq_true, if_false]
      rfl

/-- Lines that are no chunk lead to the end of the dialogue. -/
theorem converse_rest {lines : List String} (goesOn : r.closed = false)
    (none : Chunk.next? r.gathered lines = none) :
    ∃ r', r.converse fuel (lines.map .line) = some (r', []) ∧ r'.session = r.session.told "\n" := by
  induction lines generalizing r with
  | nil =>
    obtain ⟨r', conversed, -, -, told⟩ := converse_nil fuel goesOn
    exact ⟨r', conversed, told⟩
  | cons line lines ih =>
    cases isOpen : Chunk.isOpen (Chunk.extend r.gathered line) with
    | true =>
      rw [Chunk.next?_of_isOpen isOpen] at none
      rw [List.map_cons, converse_cons goesOn (feed_open rfl isOpen).1]
      exact ih goesOn none
    | false =>
      rw [Chunk.next?_of_stands isOpen] at none
      cases none

theorem converse_iff {groups : List (List String)} {rest : List String} {replies : List Reply}
    {t : Session} (each : ∀ group ∈ groups, Chunk.Shortest "" group)
    (isRest : Chunk.next? "" rest = none) (goesOn : r.closed = false) (fresh : r.gathered = "") :
    (∃ r', r.converse fuel ((groups.flatten ++ rest).map .line) = some (r', replies) ∧
        r'.session = t) ↔
      ∃ left, replies = left.map .line ∧ Course fuel rest r.session groups t left := by
  -- Over all dialogues: the next group meets another one, with the session that the chunk left.
  induction groups generalizing r with
  | nil =>
    obtain ⟨r₁, conversed, told⟩ := @converse_rest fuel r rest goesOn (by rw [fresh, isRest])
    rw [List.flatten_nil, List.nil_append, conversed]
    constructor
    · rintro ⟨r', same, rfl⟩
      cases same
      rw [told]
      exact ⟨[], rfl, .ended⟩
    · rintro ⟨left, rfl, course⟩
      cases course
      exact ⟨r₁, rfl, told⟩
  | cons group later ih =>
    obtain ⟨shortest, each⟩ := List.forall_mem_cons.mp each
    have isNext := Chunk.next?_of_shortest shortest (later.flatten ++ rest)
    rw [← fresh, ← List.append_assoc, ← List.flatten_cons] at isNext
    obtain ⟨prompts, conversed⟩ := @converse_next fuel r _ _ _ goesOn isNext
    rw [fresh, Chunk.remaining_empty] at conversed
    rw [conversed]
    cases isQuit : Chunk.isQuit ("\n".intercalate group) with
    | true =>
      rw [submit_quit isQuit, Option.bind_some, converse_closed rfl]
      constructor
      · rintro ⟨r', same, rfl⟩
        cases same
        exact ⟨_, rfl, .quit isQuit⟩
      · rintro ⟨left, rfl, course⟩
        cases course with
        | quit => exact ⟨_, rfl, rfl⟩
        | goesOn other => simp [isQuit] at other
    | false =>
      constructor
      · rintro ⟨r', same, rfl⟩
        obtain ⟨next, submitted, conversed⟩ := Option.bind_eq_some_iff.mp same
        obtain ⟨s, leaves⟩ := leaves_of_submit isQuit submitted
        obtain ⟨next', submitted', rfl, closed, gathered⟩ := submit_of_leaves isQuit leaves
        cases submitted.symm.trans submitted'
        obtain ⟨left, isLeft, course⟩ :=
          (ih each (closed.trans goesOn) gathered).mp ⟨r', conversed, rfl⟩
        exact ⟨left, isLeft, .goesOn isQuit leaves course⟩
      · rintro ⟨left, rfl, course⟩
        cases course with
        | quit other => simp [isQuit] at other
        | goesOn _ leaves course =>
          obtain ⟨next, submitted, rfl, closed, gathered⟩ :=
            @submit_of_leaves fuel { r with gathered := "", prompts } _ _ isQuit leaves
          rw [submitted, Option.bind_some]
          exact (ih each (closed.trans goesOn) gathered).mpr ⟨left, rfl, course⟩

/-- Nothing typed at the prompt is lost or taken twice. The chunks that are read are the lines in
groups, each the shortest that is a chunk, and only lines that are none are left over. The dialogue
takes its course along these groups: after a chunk it goes on with the session that the chunk left,
unless it was told to quit. -/
theorem converse_in_groups (lines : List String) :
    ∃ (groups : List (List String)) (rest : List String),
      lines = groups.flatten ++ rest ∧
      (∀ chunks, Chunk.Reads lines chunks ↔ chunks = groups.map "\n".intercalate) ∧
      (∀ group ∈ groups, Chunk.Shortest "" group) ∧
      (∀ part, part <+: rest → part ≠ [] → ¬ Chunk.Stands ("\n".intercalate part)) ∧
      ∀ (fuel : Nat) (r : Repl), r.closed = false → r.gathered = "" →
        ∀ (replies : List Reply) (t : Session),
          (∃ r', r.converse fuel (lines.map .line) = some (r', replies) ∧ r'.session = t) ↔
            ∃ left, replies = left.map .line ∧ Course fuel rest r.session groups t left := by
  obtain ⟨groups, rest, rfl, reads, each, isRest⟩ := Chunk.reads_groups lines
  refine ⟨groups, rest, rfl, fun chunks => ⟨fun others => others.unique reads, ?_⟩, each, ?_,
    fun fuel r goesOn fresh replies t => converse_iff each isRest goesOn fresh⟩
  · rintro rfl
    exact reads
  · intro part isPart some
    rw [← Chunk.remaining_empty]
    exact Chunk.not_stands_of_next? isRest part isPart some

theorem exists_answer {replies left : List Reply} {output : String}
    (answered : (r.converse fuel replies).map (fun answer =>
      (answer.2, answer.1.session.outputSince 0)) = some (left, output)) :
    ∃ r', r.converse fuel replies = some (r', left) ∧ r'.session.outputSince 0 = output := by
  obtain ⟨⟨r', left'⟩, conversed, same⟩ := Option.map_eq_some_iff.mp answered
  obtain ⟨rfl, isOutput⟩ := Prod.mk.inj same
  exact ⟨r', conversed, isOutput⟩

/-- A chunk of three lines, a command that is not known, a failure, and the end. -/
def Sample.typed : List String :=
  ["IF TRUE THEN", "OUTPUT 1", "ENDIF", ":what", "OUTPUT y", "OUTPUT 2", " :Quit", "OUTPUT 3"]

theorem converse_in_groups_typed :
    ∃ (groups : List (List String)) (rest : List String) (t : Session),
      Sample.typed = groups.flatten ++ rest ∧
      Course 60 rest Pseudocode.Sample.fresh groups t ["OUTPUT 3"] ∧
      t.outputSince 0 = "1\nunknown command. Type :quit to exit.\n2\n" := by
  obtain ⟨r, conversed, output⟩ := @exists_answer 60 { session := Pseudocode.Sample.fresh }
    (Sample.typed.map .line) (["OUTPUT 3"].map .line)
    "1\nunknown command. Type :quit to exit.\n2\n" (by decide +kernel)
  obtain ⟨groups, rest, isTyped, -, -, -, course⟩ := converse_in_groups Sample.typed
  obtain ⟨left, isLeft, course⟩ := (course 60 _ rfl rfl _ r.session).mp ⟨r, conversed, rfl⟩
  obtain rfl : ["OUTPUT 3"] = left := (List.map_inj_right fun _ _ => Reply.line.inj).mp isLeft
  exact ⟨groups, rest, r.session, isTyped, course, output⟩

/-- The dialogue does not go on after every command. -/
theorem quit_ends_dialogue :
    Chunk.Reads [":quit", "OUTPUT 1"] [":quit", "OUTPUT 1"] ∧
    ∃ r', Repl.converse 60 { session := Pseudocode.Sample.fresh }
        [.line ":quit", .line "OUTPUT 1"] = some (r', [.line "OUTPUT 1"]) ∧
      r'.session.outputSince 0 = "" := by
  have first : Chunk.next? "" [":quit", "OUTPUT 1"] = some (":quit", ["OUTPUT 1"]) := by
    decide +kernel
  have second : Chunk.next? "" ["OUTPUT 1"] = some ("OUTPUT 1", []) := by decide +kernel
  exact ⟨.chunk first (.chunk second (.ended rfl)), exists_answer (by decide +kernel)⟩

end Repl

end Pseudocode
