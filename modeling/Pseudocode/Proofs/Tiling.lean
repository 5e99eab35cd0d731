import Mathlib.Data.List.Induction
import Pseudocode.Proofs.Fragments

/-! # Tokens tile a source

The tokens of a source stand at stretches of its characters, one after another, and between them
there is nothing but blanks and comments. A token knows exactly where its stretch begins and ends,
and it says what is written there. -/

namespace Pseudocode

/-! ## Places -/

namespace Text

/-- The place of the character number `n` of a text: its line is one more than the number of line
feeds in front of it, its column one more than the number of characters since the last of these. -/
def place (text : List Char) (n : Nat) : Position :=
  ⟨(text.take n).count '\n' + 1, ((text.take n).reverse.takeWhile (· ≠ '\n')).length + 1⟩

theorem place_eq (text : List Char) (n : Nat) :
    place text n = Position.first.after (text.take n) := by
  unfold place
  generalize text.take n = before
  induction before using List.reverseRecOn with
  | nil => rfl
  | append_singleton cs c ih =>
    rw [Position.after_append, ← ih]
    change _ = Position.next _ c
    by_cases isLine : c = '\n'
    · simp [Position.next, isLine]
    · simp [Position.next, isLine, List.count_append]

/-- The text is passed over in front of `later`: blanks and, perhaps, a comment that goes on to the
end of the line. -/
inductive Skipped : List Char → List Char → Prop where
  | nil {later} : Skipped [] later
  | blank {c gap later} : c = ' ' ∨ c = '\t' ∨ c = '\r' → Skipped gap later →
      Skipped (c :: gap) later
  | comment {body later} : '\n' ∉ body → (∀ c ∈ later.head?, c = '\n') →
      Skipped ('/' :: '/' :: body) later

variable {later : List Char}

theorem Skipped.no_newline {gap : List Char} (skipped : Skipped gap later) : '\n' ∉ gap := by
  induction skipped with
  | nil => simp
  | blank isBlank _ ih => rcases isBlank with rfl | rfl | rfl <;> simpa using ih
  | comment inner => simpa using inner

theorem Skipped.eq_nil {gap : List Char} (skipped : Skipped gap later)
    (line : ∀ c ∈ gap.head?, c = '\n') : gap = [] := by
  cases gap with
  | nil => rfl
  | cons c gap =>
    have inside := skipped.no_newline
    rw [line c rfl] at inside
    exact absurd List.mem_cons_self inside

theorem takeWhile_comment {body : List Char} (inner : '\n' ∉ body)
    (line : ∀ c ∈ later.head?, c = '\n') :
    ('/' :: (body ++ later)).takeWhile (· ≠ '\n') = '/' :: body := by
  rw [← List.cons_append]
  refine takeWhile_spelled (fun x member => ?_) (by simpa using line)
  rcases List.mem_cons.mp member with rfl | inside
  · rfl
  · exact decide_eq_true (fun isLine : x = '\n' => inner (isLine ▸ inside))

/-- A text is its first line and what stands from the line feed on. -/
theorem first_line (text : List Char) :
    ∃ body later, text = body ++ later ∧ '\n' ∉ body ∧ ∀ c ∈ later.head?, c = '\n' := by
  refine ⟨text.takeWhile (· ≠ '\n'), text.dropWhile (· ≠ '\n'),
    (List.takeWhile_append_dropWhile ..).symm, ?_, ?_⟩
  · intro member
    have := List.mem_takeWhile_imp member
    simp at this
  · intro c isHead
    simpa using stops_dropWhile (fun x => decide (x ≠ '\n')) text c isHead

end Text

/-! ## What lexemes are written with -/

namespace Lexeme

theorem written_ofWord (cs : List Char) : (ofWord cs).written = cs := by
  unfold ofWord
  split
  case h_1 word found =>
    have spells : word.spelling = String.ofList cs := by
      simpa using List.find?_some found
    change word.spelling.toList = cs
    rw [spells, String.toList_ofList]
  case h_2 => exact String.toList_ofList

variable {l : Lexeme} {c : Char} {cs later : List Char}

variable (spelled : l.Spelled c cs later)

include spelled

/-- A lexeme is spelled as it is written, except for the arrow that is one character. -/
theorem Spelled.written : l.written = c :: cs ∨ c :: cs = ['←'] ∧ l = .symbol .assign := by
  cases spelled with
  | newline => exact .inl rfl
  | word => exact .inl (written_ofWord _)
  | date | real | integer => exact .inl String.toList_ofList
  | string | char =>
    left
    simp [Lexeme.written]
  | arrow => exact .inr ⟨rfl, rfl⟩
  | sign spells _ => exact .inl spells
  | signs spells => exact .inl spells

/-- Only the end of a line is spelled with a line feed. -/
theorem Spelled.no_newline (inner : l ≠ .endOfLine) : '\n' ∉ c :: cs := by
  have noDigit {ds : List Char} (each : ∀ x ∈ ds, Text.isDigit x = true) : '\n' ∉ ds :=
    fun member => (isDigit_ne (each _ member)).2.2.2.1 rfl
  cases spelled with
  | newline => exact absurd rfl inner
  | word starts each =>
    rw [List.mem_cons]
    rintro (rfl | member)
    · exact (isWordStart_ne starts).2.2.2.1 rfl
    · exact absurd (each _ member) (by decide)
  | date _ isDate nine =>
    obtain ⟨d, m₁, m₂, y₁, y₂, y₃, y₄, tail, same, digits, -⟩ := startsWithDate_cons.mp isDate
    obtain ⟨rfl, -⟩ := List.append_inj same nine
    have clear := noDigit digits
    simp only [List.mem_cons, not_or] at clear ⊢
    exact ⟨clear.1, clear.2.1, by decide, clear.2.2.1, clear.2.2.2.1, by decide, clear.2.2.2.2⟩
  | real _ isDigit each isDigit' others =>
    have whole := noDigit (List.forall_mem_cons.mpr ⟨isDigit, each⟩)
    have fraction := noDigit (List.forall_mem_cons.mpr ⟨isDigit', others⟩)
    simp only [List.mem_cons, List.mem_append, not_or] at whole fraction ⊢
    exact ⟨whole.1, whole.2, by decide, fraction⟩
  | integer _ isDigit each => exact noDigit (List.forall_mem_cons.mpr ⟨isDigit, each⟩)
  | string body | char body =>
    have := fun member => (body '\n' member).2 rfl
    simpa using this
  | arrow => simp
  | @sign s _ _ spells | @signs s _ _ _ spells =>
    intro member
    rw [← spells] at member
    have := (s.spelling_plain _ member).2.2
    simp at this

theorem Spelled.count_newline : (c :: cs).count '\n' = [l].count .endOfLine := by
  by_cases isLine : l = .endOfLine
  · obtain ⟨rfl, rfl⟩ := Token.spelled_endOfLine (isLine ▸ spelled)
    rw [isLine]
    rfl
  · rw [List.count_eq_zero_of_not_mem (spelled.no_newline isLine)]
    exact (List.count_eq_zero_of_not_mem (by simpa using Ne.symm isLine)).symm

end Lexeme

/-! ## Tokens and gaps -/

namespace Token

/-- From the place `pos` on, the text is made of what is passed over and of the spellings of the
tokens, up to the end of the input. -/
inductive Tiles : Position → List Char → List Token → Prop where
  | last {pos gap} : Text.Skipped gap [] →
      Tiles pos gap [⟨.endOfInput, pos.after gap, pos.after gap⟩]
  | token {pos gap l c cs later tokens} : Text.Skipped gap (c :: (cs ++ later)) →
      l.Spelled c cs later → Tiles (pos.after (gap ++ c :: cs)) later tokens →
      Tiles pos (gap ++ c :: (cs ++ later))
        (ofLexeme l (pos.after gap) (pos.after (gap ++ c :: cs)) :: tokens)

variable {pos : Position} {cs : List Char} {tokens : List Token}

theorem Tiles.blank {c : Char} (isBlank : c = ' ' ∨ c = '\t' ∨ c = '\r')
    (tiles : Tiles (pos.next c) cs tokens) : Tiles pos (c :: cs) tokens := by
  cases tiles with
  | last skipped => exact .last (.blank isBlank skipped)
  | token skipped spelled later => exact .token (.blank isBlank skipped) spelled later

theorem Tiles.comment {body : List Char} (inner : '\n' ∉ body) (line : ∀ c ∈ cs.head?, c = '\n')
    (tiles : Tiles (pos.after ('/' :: '/' :: body)) cs tokens) :
    Tiles pos ('/' :: '/' :: (body ++ cs)) tokens := by
  cases tiles with
  | last skipped =>
    obtain rfl := skipped.eq_nil line
    rw [List.append_nil]
    exact .last (.comment inner line)
  | @token _ gap _ c ds later _ skipped spelled rest =>
    -- The line ends behind the comment, so the next token is its end.
    obtain rfl : gap = [] := by
      refine skipped.eq_nil fun x isHead => line x ?_
      rw [List.head?_append, isHead]
      rfl
    rw [List.nil_append, ← Position.after_append] at rest
    have tiles := Tiles.token (.comment inner line) spelled rest
    rw [Position.after_append] at tiles
    exact tiles

theorem scanFrom_tiles (scanned : scanFrom pos cs = .ok tokens) : Tiles pos cs tokens := by
  replace scanned := scanFrom_scanned scanned
  induction scanned with
  | stop => exact .last .nil
  | layout isPiece _ tiles =>
    rcases Piece.ofText_layout isPiece with ⟨isBlank, isLength⟩ | ⟨rfl, second, isLength⟩
    · obtain rfl := List.length_eq_zero_iff.mp isLength
      exact tiles.blank isBlank
    · obtain ⟨others, same⟩ := List.head?_eq_some_iff.mp second
      obtain ⟨body, later, rfl, inner, line⟩ := Text.first_line others
      rw [same, Text.takeWhile_comment inner line] at isLength
      obtain ⟨rfl, rfl⟩ := List.append_inj (same.trans (List.cons_append ..).symm) isLength
      exact tiles.comment inner line
  | lexeme spelled _ tiles => exact @Tiles.token _ [] _ _ _ _ _ .nil spelled tiles

/-! ## Stretches of a text -/

/-- A token, the number of its first character and the number of the one behind its last. -/
structure Tile where
  token : Token
  first : Nat
  behind : Nat

/-- The token stands at this stretch of the text, and says what is written there. -/
structure Tile.Covers (text : List Char) (tile : Tile) : Prop where
  /-- Only the end of the input takes no character. -/
  order : tile.first < tile.behind ∨ tile.first = tile.behind ∧ tile.token.lexeme = .endOfInput
  within : tile.behind ≤ text.length
  start : tile.token.start = Text.place text tile.first
  /-- The end of a line takes one column of its own line. -/
  stop : tile.token.stop =
    if tile.token.lexeme = .endOfLine then ⟨tile.token.start.line, tile.token.start.column + 1⟩
    else Text.place text tile.behind
  /-- The arrow has a character of its own. -/
  written : text.extract tile.first tile.behind = tile.token.lexeme.written ∨
    text.extract tile.first tile.behind = ['←'] ∧ tile.token.lexeme = .symbol .assign

/-- The stretches between the tiles, from the character number `n` on. -/
def gaps (n : Nat) : List Tile → List (Nat × Nat)
  | [] => []
  | tile :: rest => (n, tile.first) :: gaps tile.behind rest

/-- From the character number `n` on, the text is laid out with the tiles. -/
structure Laid (text : List Char) (n : Nat) (tiles : List Tile) : Prop where
  covers : ∀ tile ∈ tiles, tile.Covers text
  ahead : ∀ tile ∈ tiles, n ≤ tile.first
  apart : tiles.Pairwise fun tile other => tile.behind ≤ other.first
  between : ∀ gap ∈ gaps n tiles, Text.Skipped (text.extract gap.1 gap.2) (text.drop gap.2)
  all : ∀ i, n ≤ i → i < text.length →
    (∃ tile ∈ tiles, tile.first ≤ i ∧ i < tile.behind) ∨
      ∃ gap ∈ gaps n tiles, gap.1 ≤ i ∧ i < gap.2

theorem extract_middle (xs ys zs : List Char) :
    (xs ++ (ys ++ zs)).extract xs.length (xs ++ ys).length = ys := by
  simp [List.extract]

theorem place_append (xs ys : List Char) :
    Text.place (xs ++ ys) xs.length = Position.first.after xs := by
  rw [Text.place_eq, List.take_left]

theorem after_gap (before gap cs : List Char) :
    (Position.first.after before).after (gap ++ cs) =
      Position.first.after (before ++ gap ++ cs) := by
  rw [← Position.after_append, List.append_assoc]

theorem Tile.covers_spelled {l : Lexeme} {c : Char} {later : List Char} (before : List Char)
    (spelled : l.Spelled c cs later) :
    Tile.Covers (before ++ (c :: cs ++ later))
      ⟨ofLexeme l (Position.first.after before) (Position.first.after (before ++ c :: cs)),
        before.length, (before ++ c :: cs).length⟩ where
  order := .inl (by simp)
  within := by simp
  start := by rw [start_ofLexeme, place_append]
  stop := by
    rw [lexeme_ofLexeme, start_ofLexeme, ← List.append_assoc, place_append]
    unfold ofLexeme
    split <;> rfl
  written := by
    rw [lexeme_ofLexeme, extract_middle]
    rcases spelled.written with same | arrow
    · exact .inl same.symm
    · exact .inr arrow

theorem Tile.covers_end (text : List Char) :
    Tile.Covers text
      ⟨⟨.endOfInput, Position.first.after text, Position.first.after text⟩, text.length,
        text.length⟩ where
  order := .inr ⟨rfl, rfl⟩
  within := Nat.le_refl _
  start := by rw [Text.place_eq, List.take_length]
  stop := by
    rw [if_neg (by simp), Text.place_eq, List.take_length]
  written := .inl (by simp [List.extract, Lexeme.written, Lexeme.text])

theorem Tiles.laid (tiles : Tiles pos cs tokens) {before : List Char}
    (isPos : pos = Position.first.after before) :
    ∃ laid, laid.map Tile.token = tokens ∧ Laid (before ++ cs) before.length laid := by
  induction tiles generalizing before with
  | @last pos gap skipped =>
    rw [isPos, ← Position.after_append]
    refine ⟨[⟨_, (before ++ gap).length, (before ++ gap).length⟩], rfl, ?_, ?_, ?_, ?_,
      fun i le lt => .inr ⟨_, List.mem_singleton_self _, le, lt⟩⟩
    · exact List.forall_mem_singleton.mpr (Tile.covers_end _)
    · simp
    · exact List.pairwise_singleton _ _
    · refine List.forall_mem_singleton.mpr ?_
      have same := extract_middle before gap []
      rw [List.append_nil] at same
      rwa [same, List.drop_length]
  | @token pos gap l c cs later tokens skipped spelled _ ih =>
    subst isPos
    have isStop := after_gap before gap (c :: cs)
    obtain ⟨laid, rfl, covers, ahead, apart, between, all⟩ := ih isStop
    have whole : before ++ (gap ++ c :: (cs ++ later)) = before ++ gap ++ c :: cs ++ later := by
      simp
    have covered := Tile.covers_spelled (before ++ gap) spelled
    rw [← List.append_assoc] at covered
    rw [isStop, ← Position.after_append, whole]
    refine ⟨⟨_, (before ++ gap).length, (before ++ gap ++ c :: cs).length⟩ :: laid, rfl,
      List.forall_mem_cons.mpr ⟨covered, covers⟩, List.forall_mem_cons.mpr ⟨by simp, ?_⟩,
      List.pairwise_cons.mpr ⟨ahead, apart⟩, List.forall_mem_cons.mpr ⟨?_, between⟩,
      fun i le lt => ?_⟩
    · intro tile member
      have := ahead tile member
      simp only [List.length_append] at this
      omega
    · rw [← whole]
      dsimp only
      rw [extract_middle, ← List.append_assoc, List.drop_left]
      exact skipped
    · by_cases inGap : i < (before ++ gap).length
      · exact .inr ⟨_, List.mem_cons_self, le, inGap⟩
      · by_cases inTile : i < (before ++ gap ++ c :: cs).length
        · exact .inl ⟨_, List.mem_cons_self, Nat.le_of_not_lt inGap, inTile⟩
        · rcases all i (Nat.le_of_not_lt inTile) lt with
            ⟨tile, member, inside⟩ | ⟨hole, member, inside⟩
          · exact .inl ⟨tile, List.mem_cons_of_mem _ member, inside⟩
          · exact .inr ⟨hole, List.mem_cons_of_mem _ member, inside⟩

/-- There is one token for each line feed. -/
theorem Tiles.count_newline (tiles : Tiles pos cs tokens) :
    (tokens.map lexeme).count .endOfLine = cs.count '\n' := by
  induction tiles with
  | last skipped => rw [List.count_eq_zero_of_not_mem skipped.no_newline]; rfl
  | @token pos gap l c cs later tokens skipped spelled _ ih =>
    rw [List.map_cons, lexeme_ofLexeme, List.count_append, ← List.cons_append, List.count_append,
      List.count_eq_zero_of_not_mem skipped.no_newline, spelled.count_newline, ← ih,
      ← List.singleton_append, List.count_append, Nat.zero_add]

/-- The tokens of a source tile it: they stand one after another, each at the stretch of characters
that it says, with only blanks and comments in between; there is one for each line feed, and the
last one, and no other, is the end of the input. -/
theorem tokens_tile {source : List UInt8} {tokens : List Token}
    (scanned : scan (Text.decode source) = .ok tokens) :
    (∃ tiles, tiles.map Tile.token = tokens ∧ Laid (Text.decode source) 0 tiles) ∧
    (tokens.map lexeme).count .endOfLine = (Text.decode source).count '\n' ∧
    ∃ body place, place = Text.place (Text.decode source) (Text.decode source).length ∧
      tokens = body ++ [⟨.endOfInput, place, place⟩] ∧ ∀ t ∈ body, t.isEnd = false := by
  have tiles := scanFrom_tiles scanned
  refine ⟨@Tiles.laid _ _ _ tiles [] rfl, tiles.count_newline, ?_⟩
  obtain ⟨body, isTokens, inner⟩ := scanFrom_closed scanned
  exact ⟨body, _, by rw [Text.place_eq, List.take_length], isTokens, inner⟩

/-- Characters of more than one byte, a comment, a carriage return, and a date in front of a
division. -/
def Sample.tiled : List UInt8 :=
  Text.utf8 "x ← \"é\" // ü\r\n\t12/03/2024/4".toList

def Sample.tiledTokens : List Token :=
  [⟨.identifier "x", ⟨1, 1⟩, ⟨1, 2⟩⟩, ⟨.symbol .assign, ⟨1, 3⟩, ⟨1, 4⟩⟩,
    ⟨.string "é", ⟨1, 5⟩, ⟨1, 8⟩⟩, ⟨.endOfLine, ⟨1, 14⟩, ⟨1, 15⟩⟩,
    ⟨.date "12/03/2024", ⟨2, 2⟩, ⟨2, 12⟩⟩, ⟨.symbol .divide, ⟨2, 12⟩, ⟨2, 13⟩⟩,
    ⟨.integer "4", ⟨2, 13⟩, ⟨2, 14⟩⟩, ⟨.endOfInput, ⟨2, 14⟩, ⟨2, 14⟩⟩]

theorem Sample.scan_tiled : scan (Text.decode tiled) = .ok tiledTokens := by
  have read : (scan (Text.decode tiled)).toOption = some tiledTokens := by decide +kernel
  cases isScan : scan (Text.decode tiled) with
  | error e => simp [isScan, Except.toOption] at read
  | ok tokens => simpa [isScan, Except.toOption] using read

theorem tokens_tile_tiled : scan (Text.decode Sample.tiled) = .ok Sample.tiledTokens ∧
    ∃ tiles, tiles.map Tile.token = Sample.tiledTokens ∧ Laid (Text.decode Sample.tiled) 0 tiles :=
  ⟨Sample.scan_tiled, (tokens_tile Sample.scan_tiled).1⟩

end Token

end Pseudocode
