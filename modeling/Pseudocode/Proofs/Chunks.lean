import Pseudocode.Proofs.Concatenation
import Pseudocode.Repl

/-! # Which chunks are programs

A chunk of blanks is a program without statements, if it is a program at all, and a chunk that is a
command never is one. A source that is a program falls into chunks line by line: once the lines
gathered are complete, they are a program, and so are the lines after them. -/

namespace Pseudocode

/-! ## Blanks -/

namespace Text

theorem Ranges.mem_of_contains {ranges : Ranges} {n : Nat} (contains : ranges.contains n = true) :
    n ∈ ranges.flatMap fun range => List.range' range.1 (range.2 + 1 - range.1) := by
  induction ranges with
  | nil => cases contains
  | cons range rest ih =>
    obtain ⟨first, last⟩ := range
    unfold Ranges.contains at contains
    split at contains
    · cases contains
    · rw [List.flatMap_cons, List.mem_append, List.mem_range'_1]
      rw [Bool.or_eq_true, decide_eq_true_eq] at contains
      rcases contains with inside | later
      · left
        omega
      · exact .inr (ih later)

/-- The characters that are passed over or start something other than a word or a number. -/
def signs : List Char :=
  [' ', '\t', '\r', '\n', '/', '"', '\'', '←', '<', '>', '=', '+', '-', '*', '&', '(', ')', ',',
   ':']

theorem isBlank_cases {c : Char} (blank : isBlank c = true) :
    c = ' ' ∨ c = '\t' ∨ c = '\r' ∨ c = '\n' ∨
      (isWordStart c = false ∧ isDigit c = false ∧ c ∉ signs) := by
  have codes : ∀ n ∈ blanks.flatMap fun range => List.range' range.1 (range.2 + 1 - range.1),
      Char.ofNat n = ' ' ∨ Char.ofNat n = '\t' ∨ Char.ofNat n = '\r' ∨ Char.ofNat n = '\n' ∨
        (isWordStart (Char.ofNat n) = false ∧ isDigit (Char.ofNat n) = false ∧
          Char.ofNat n ∉ signs) := by
    decide +kernel
  have found := codes _ (Ranges.mem_of_contains blank)
  rwa [Char.ofNat_toNat] at found

end Text

theorem Piece.ofText_error {c : Char} (noWord : isWordStart c = false)
    (noDigit : Text.isDigit c = false) (noSign : c ∉ Text.signs) (rest : List Char) :
    ofText c rest = .error (.unexpectedCharacter c) := by
  have others := noSign
  simp only [Text.signs, List.mem_cons, List.not_mem_nil, or_false, not_or] at others
  unfold ofText
  simp only [others, noWord, noDigit, Bool.false_eq_true, false_and, or_self, if_false]
  split
  case h_16 => rfl
  all_goals exact absurd (by decide) noSign

/-- A blank is passed over, ends a line or cannot be read. -/
theorem Piece.ofText_blank {c : Char} (blank : Text.isBlank c = true) {rest : List Char}
    {piece : Piece} (read : ofText c rest = .ok piece) :
    piece = .layout 0 ∨ piece = .lexeme .endOfLine 0 := by
  rcases Text.isBlank_cases blank with rfl | rfl | rfl | rfl | ⟨noWord, noDigit, noSign⟩
  · cases read
    exact .inl rfl
  · cases read
    exact .inl rfl
  · cases read
    exact .inl rfl
  · cases read
    exact .inr rfl
  · rw [ofText_error noWord noDigit noSign] at read
    cases read

/-- Blanks in front of a text only add line ends in front of its tokens. -/
theorem Token.scanFrom_blank {pos : Position} {cs ds : List Char} {tokens : List Token}
    (blank : ∀ c ∈ cs, Text.isBlank c = true) (scanned : scanFrom pos (cs ++ ds) = .ok tokens) :
    ∃ lines later pos', tokens = lines ++ later ∧ (∀ t ∈ lines, t.lexeme = .endOfLine) ∧
      scanFrom pos' ds = .ok later := by
  induction cs generalizing pos tokens with
  | nil => exact ⟨[], tokens, pos, rfl, nofun, scanned⟩
  | cons c cs ih =>
    have blanks : ∀ d ∈ cs, Text.isBlank d = true := fun d member => blank d (.tail c member)
    rw [List.cons_append, scanFrom] at scanned
    cases read : Piece.ofText c (cs ++ ds) with
    | error cause =>
      rw [read] at scanned
      cases scanned
    | ok piece =>
      rw [read] at scanned
      rcases Piece.ofText_blank (blank c (.head cs)) read with rfl | rfl
      · exact ih blanks scanned
      · dsimp only at scanned
        rw [List.drop_zero] at scanned
        obtain ⟨tokens', later, rfl⟩ := of_map_ok scanned
        obtain ⟨lines, rest, pos', rfl, isLine, scanned⟩ := ih blanks later
        refine ⟨_ :: lines, rest, pos', rfl, ?_, scanned⟩
        rintro t (_ | ⟨_, member⟩)
        · rfl
        · exact isLine t member

/-! ## The first token that ends no line -/

theorem Cursor.here_skipLineEnds {last here t : Token} {later lines rest : List Token}
    (all : here :: later = lines ++ t :: rest) (isLine : ∀ u ∈ lines, u.lexeme = .endOfLine)
    (other : t.lexeme ≠ .endOfLine) : (skipLineEnds last here later).here = t := by
  induction lines generalizing last here later with
  | nil =>
    obtain ⟨rfl, rfl⟩ := List.cons.inj all
    cases later with
    | nil => rfl
    | cons u more => rw [skipLineEnds, if_neg other]
  | cons u lines ih =>
    obtain ⟨rfl, after⟩ := List.cons.inj all
    cases later with
    | nil => cases lines <;> cases after
    | cons v more =>
      rw [skipLineEnds, if_pos (isLine here (.head lines))]
      exact ih after fun w member => isLine w (.tail here member)

theorem Parser.statementWith_symbol {c : Cursor} {sign : Symbol}
    (isSign : c.here.lexeme = .symbol sign) (block : Ending → Parser (List Stmt)) :
    ∃ e, (statementWith block).run c = .error e := by
  obtain ⟨last, ⟨lexeme, start, stop⟩, rest⟩ := c
  cases isSign
  exact ⟨_, rfl⟩

namespace Program

/-- What a program does first is up to the first token that ends no line. -/
theorem ofTokens_first {lines rest : List Token} {t : Token}
    (isLine : ∀ u ∈ lines, u.lexeme = .endOfLine) (other : t.lexeme ≠ .endOfLine) {p : Program}
    (parsed : ofTokens (lines ++ t :: rest) = .ok p) :
    (t.isEnd = true ∧ p.body = []) ∨
      (t.isEnd = false ∧ ∀ sign, t.lexeme ≠ .symbol sign) := by
  cases start : Cursor.ofTokens? (lines ++ t :: rest) with
  | none => cases lines <;> cases start
  | some c =>
    have all : c.here :: c.rest = lines ++ t :: rest := by
      cases tokens : lines ++ t :: rest with
      | nil => cases lines <;> cases tokens
      | cons u more =>
        rw [tokens] at start
        cases start
        rfl
    have here : c.skipped.here = t := Cursor.here_skipLineEnds all isLine other
    rw [ofTokens_eq start] at parsed
    cases isEnd : t.isEnd with
    | true =>
      refine .inl ⟨rfl, ?_⟩
      rw [BlockPairing.input_run_of_isEnd (by rw [here, isEnd])] at parsed
      cases parsed
      rfl
    | false =>
      refine .inr ⟨rfl, fun sign isSign => ?_⟩
      have refused := Parser.statementWith_symbol (c := c.skipped) (by rw [here, isSign])
      obtain ⟨e, refused⟩ := refused (Parser.block (c.rest.length + 1))
      rw [BlockPairing.block_run (by rw [here, isEnd]) rfl, refused] at parsed
      cases parsed

theorem ofText_nil : ofText [] = .ok ⟨[], ⟨.first, .first⟩⟩ := by
  rw [ofText, Token.scan, Token.scanFrom]
  rfl

theorem ofText_after_blanks {cs ds : List Char} (blank : ∀ c ∈ cs, Text.isBlank c = true)
    {p : Program} (parsed : ofText (cs ++ ds) = .ok p) :
    ∃ lines later pos, (∀ t ∈ lines, t.lexeme = .endOfLine) ∧
      Token.scanFrom pos ds = .ok later ∧ ofTokens (lines ++ later) = .ok p := by
  unfold ofText at parsed
  cases scanned : Token.scan (cs ++ ds) with
  | error e =>
    rw [scanned] at parsed
    cases parsed
  | ok tokens =>
    rw [scanned] at parsed
    obtain ⟨lines, later, pos, rfl, isLine, last⟩ := Token.scanFrom_blank blank scanned
    exact ⟨lines, later, pos, isLine, last, parsed⟩

/-- A program of blanks has no statements. -/
theorem body_of_blank {cs : List Char} (blank : ∀ c ∈ cs, Text.isBlank c = true) {p : Program}
    (parsed : ofText cs = .ok p) : p.body = [] := by
  rw [← List.append_nil cs] at parsed
  obtain ⟨lines, later, pos, isLine, last, parsed⟩ := ofText_after_blanks blank parsed
  rw [Token.scanFrom] at last
  cases last
  have notLine : (Token.mk .endOfInput pos pos).lexeme ≠ .endOfLine := fun same => by cases same
  rcases ofTokens_first isLine notLine parsed with ⟨-, empty⟩ | ⟨notEnd, -⟩
  · exact empty
  · cases notEnd

/-- A text whose first character other than blanks is a colon is no program. -/
theorem ofText_colon {cs ds : List Char} (blank : ∀ c ∈ cs, Text.isBlank c = true) (p : Program) :
    ofText (cs ++ ':' :: ds) ≠ .ok p := by
  intro parsed
  obtain ⟨lines, later, pos, isLine, last, parsed⟩ := ofText_after_blanks blank parsed
  have colon : Piece.ofText ':' ds = .ok (.lexeme (.symbol .colon) 0) := rfl
  rw [Token.scanFrom, colon] at last
  dsimp only at last
  obtain ⟨tokens, rest, rfl⟩ := Token.of_map_ok last
  have notLine : (Token.ofLexeme (.symbol .colon) pos
      (pos.after (':' :: ds.take 0))).lexeme ≠ .endOfLine := by
    intro same
    cases same
  rcases ofTokens_first isLine notLine parsed with ⟨isEnd, -⟩ | ⟨-, noSign⟩
  · cases isEnd
  · exact noSign .colon rfl

end Program

/-! ## Chunks -/

namespace Chunk

theorem trimChars_eq (cs : List Char) :
    ∃ before after, (∀ c ∈ before, Text.isBlank c = true) ∧ (∀ c ∈ after, Text.isBlank c = true) ∧
      cs = before ++ (Text.trimChars cs ++ after) := by
  let inner := cs.dropWhile Text.isBlank
  refine ⟨cs.takeWhile Text.isBlank, (inner.reverse.takeWhile Text.isBlank).reverse, ?_, ?_, ?_⟩
  · exact fun c member => List.mem_takeWhile_imp member
  · exact fun c member => List.mem_takeWhile_imp (List.mem_reverse.mp member)
  · have last : Text.trimChars cs ++ (inner.reverse.takeWhile Text.isBlank).reverse = inner := by
      rw [Text.trimChars, ← List.reverse_append, List.takeWhile_append_dropWhile,
        List.reverse_reverse]
    rw [last, List.takeWhile_append_dropWhile]

variable {source : String}

theorem body_of_trim (blank : Text.trim source = "") {p : Program}
    (parsed : Program.ofText source.toList = .ok p) : p.body = [] := by
  obtain ⟨before, after, blankBefore, blankAfter, all⟩ := trimChars_eq source.toList
  have nothing : Text.trimChars source.toList = [] := String.ofList_eq_empty_iff.mp blank
  rw [nothing, List.nil_append] at all
  refine Program.body_of_blank (fun c member => ?_) parsed
  rw [all] at member
  rcases List.mem_append.mp member with member | member
  · exact blankBefore c member
  · exact blankAfter c member

theorem ofText_of_isCommand (command : isCommand source = true) (ds : List Char) (p : Program) :
    Program.ofText (source.toList ++ ds) ≠ .ok p := by
  obtain ⟨before, after, blankBefore, -, all⟩ := trimChars_eq source.toList
  obtain ⟨tail, begins⟩ := List.head?_eq_some_iff.mp (of_decide_eq_true command)
  rw [begins, List.cons_append] at all
  rw [all, List.append_assoc, List.cons_append]
  exact Program.ofText_colon blankBefore p

/-- A source of several lines that is a program, once its first lines are complete: they are a
program, and so are the others. -/
theorem parts_of_closed {lines : List String} {p : Program}
    (parsed : Program.ofText ("\n".intercalate (source :: lines)).toList = .ok p)
    (closed : isOpen source = false) :
    ∃ first second f, Program.ofText source.toList = .ok first ∧
      Program.ofText ("\n".intercalate lines).toList = .ok second ∧ isCommand source = false ∧
      p.body = first.body ++ second.body.map (Stmt.moved f) := by
  cases lines with
  | nil =>
    rw [String.intercalate_singleton] at parsed
    have noCommand : isCommand source = false :=
      Bool.eq_false_iff.mpr fun command =>
        ofText_of_isCommand command [] p (by rwa [List.append_nil])
    exact ⟨p, _, id, parsed, Program.ofText_nil, noCommand, (List.append_nil p.body).symm⟩
  | cons line lines =>
    generalize rest : "\n".intercalate (line :: lines) = later
    have joined : ("\n".intercalate (source :: line :: lines)).toList =
        source.toList ++ '\n' :: later.toList := by
      rw [String.intercalate_cons_cons, rest, String.toList_append, String.toList_append,
        List.append_assoc]
      rfl
    rw [joined] at parsed
    have noCommand : isCommand source = false :=
      Bool.eq_false_iff.mpr fun command => ofText_of_isCommand command _ p parsed
    cases alone : Program.ofText source.toList with
    | error e =>
      have complete : e.incomplete = false := by
        simpa [isOpen, noCommand, breaksOff, alone] using closed
      obtain ⟨e', failed⟩ := Program.ofText_line_of_error alone complete later.toList
      rw [failed] at parsed
      cases parsed
    | ok first =>
      have cut := Program.ofText_line_of_ok alone later.toList
      rw [parsed] at cut
      cases after : Program.ofText later.toList with
      | error e =>
        rw [after] at cut
        cases cut
      | ok second =>
        rw [after] at cut
        exact ⟨first, second, _, rfl, rfl, noCommand, Except.ok.inj cut⟩

end Chunk

end Pseudocode
