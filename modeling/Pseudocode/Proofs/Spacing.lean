import Pseudocode.Proofs.Tiling

/-! # Blanks between tokens

Where a token ends does not depend on how closely the next one follows: blanks behind a token change
no token, and the tokens of a source are read again from a text that has one blank between each two
of them. -/

namespace Pseudocode

/-! ## Lexemes in front of blanks -/

/-- The text ends, or a blank or a line feed is next. -/
def Text.Broken (text : List Char) : Prop :=
  ∀ x ∈ text.head?, x = ' ' ∨ x = '\t' ∨ x = '\n'

/-- No date reaches as far as a blank. -/
theorem startsWithDate_broken {c : Char} {rest more : List Char} (broken : Text.Broken more)
    (isDate : startsWithDate (c :: (rest ++ more)) = true) : startsWithDate (c :: rest) = true := by
  obtain ⟨d, m₁, m₂, y₁, y₂, y₃, y₄, tail, same, digits, stops⟩ := startsWithDate_cons.mp isDate
  have shape : ∀ x ∈ [d, '/', m₁, m₂, '/', y₁, y₂, y₃, y₄], Text.isDigit x = true ∨ x = '/' := by
    simp_all
  rcases List.append_eq_append_iff.mp same with ⟨part, isDay, rfl⟩ | ⟨part, rfl, rfl⟩
  · cases part with
    | nil =>
      rw [List.append_nil] at isDay
      exact startsWithDate_cons.mpr
        ⟨d, m₁, m₂, y₁, y₂, y₃, y₄, [], by rw [List.append_nil, isDay], digits, rfl⟩
    | cons x part =>
      have inside := shape x (by rw [isDay]; simp)
      rcases broken x rfl with rfl | rfl | rfl <;> exact absurd inside (by decide)
  · refine startsWithDate_cons.mpr ⟨d, m₁, m₂, y₁, y₂, y₃, y₄, part, rfl, digits, ?_⟩
    cases part with
    | nil => rfl
    | cons x part => exact stops

namespace Lexeme.Spelled

variable {l : Lexeme} {c : Char} {cs later more : List Char}

theorem stops_broken {p : Char → Bool} (broken : Text.Broken more)
    (space : p ' ' = false) (tab : p '\t' = false) (newline : p '\n' = false) :
    ∀ x ∈ more.head?, p x = false := by
  intro x isHead
  rcases broken x isHead with rfl | rfl | rfl
  · exact space
  · exact tab
  · exact newline

/-- What is spelled somewhere is spelled in front of a blank. -/
theorem broken (spelled : l.Spelled c cs later) (broken : Text.Broken more) :
    l.Spelled c cs more := by
  have digits : ∀ x ∈ more.head?, Text.isDigit x = false :=
    stops_broken broken (by decide) (by decide) (by decide)
  cases spelled with
  | newline => exact .newline
  | word starts each =>
    exact .word starts each (stops_broken broken (by decide) (by decide) (by decide))
  | date starts isDate nine =>
    refine .date starts ?_ nine
    rw [startsWithDate_nine nine, Bool.and_eq_true] at isDate ⊢
    refine ⟨isDate.1, ?_⟩
    cases more with
    | nil => rfl
    | cons x more => simpa using digits x rfl
  | real starts isDigit each isDigit' others =>
    exact .real starts isDigit each isDigit' others digits
  | integer starts isDigit each =>
    refine .integer starts isDigit each digits ?_ ?_
    · rintro d tail rfl
      exact absurd (broken '.' rfl) (by decide)
    · refine startsWithDate_digits each fun x isHead => ⟨digits x isHead, ?_⟩
      rintro rfl
      exact absurd (broken '/' isHead) (by decide)
  | string inner => exact .string inner
  | char inner => exact .char inner
  | arrow => exact .arrow
  | sign spells =>
    refine .sign spells fun x isHead => ?_
    rcases broken x isHead with rfl | rfl | rfl <;> simp
  | signs spells => exact .signs spells

/-- What is spelled up to the end of a text is spelled when blanks follow the text. -/
theorem extend (spelled : l.Spelled c cs later) (broken : Text.Broken more) :
    l.Spelled c cs (later ++ more) := by
  cases later with
  | nil => exact spelled.broken broken
  | cons y later =>
    have same : (y :: later ++ more).head? = (y :: later).head? := rfl
    cases spelled with
    | newline => exact .newline
    | word starts each stops => exact .word starts each (by rwa [same])
    | date starts isDate nine =>
      refine .date starts ?_ nine
      rwa [startsWithDate_nine nine] at isDate ⊢
    | real starts isDigit each isDigit' others stops =>
      exact .real starts isDigit each isDigit' others (by rwa [same])
    | integer starts isDigit each stops point notDate =>
      refine .integer starts isDigit each (by rwa [same]) ?_ ?_
      · intro d tail isPoint
        cases later with
        | nil =>
          obtain rfl : more = d :: tail := (List.cons.inj isPoint).2
          exact stops_broken broken (by decide) (by decide) (by decide) d rfl
        | cons x later =>
          obtain ⟨rfl, isMore⟩ := List.cons.inj isPoint
          obtain ⟨rfl, -⟩ := List.cons.inj isMore
          exact point x later rfl
      · -- A date that the longer text starts with ends before the blank.
        rw [Bool.eq_false_iff]
        intro isDate
        rw [← List.append_assoc] at isDate
        have := startsWithDate_broken broken isDate
        rw [notDate] at this
        cases this
    | string inner => exact .string inner
    | char inner => exact .char inner
    | arrow => exact .arrow
    | sign spells stands => exact .sign spells stands
    | signs spells => exact .signs spells

/-- What is spelled in front of a text is spelled when blanks are put into the text. -/
theorem insert {pre post spaces : List Char} (spelled : l.Spelled c cs (pre ++ post))
    (apart : Text.Apart (c :: (cs ++ pre)) post) (each : ∀ x ∈ spaces, x = ' ' ∨ x = '\t') :
    l.Spelled c cs (pre ++ (spaces ++ post)) := by
  cases spaces with
  | nil => exact spelled
  | cons x spaces =>
    refine (spelled.cut apart).extend fun y isHead => ?_
    cases isHead
    exact (each x List.mem_cons_self).imp_right .inl

theorem others {tokens : List Token} {lexemes : List Lexeme} {start stop : Position}
    (spelled : l.Spelled c cs later)
    (same : (Token.ofLexeme l start stop :: tokens).map Token.lexeme = lexemes ++ [.endOfInput]) :
    ∃ others, lexemes = l :: others ∧ tokens.map Token.lexeme = others ++ [.endOfInput] := by
  rw [List.map_cons, Token.lexeme_ofLexeme] at same
  cases lexemes with
  | nil => exact absurd (List.cons.inj same).1 spelled.ne_endOfInput
  | cons m others =>
    obtain ⟨rfl, rest⟩ := List.cons.inj same
    exact ⟨others, rfl, rest⟩

/-- Every lexeme that is spelled can be written in front of a blank. -/
theorem legible (spelled : l.Spelled c cs later) : l.Legible := by
  rcases spelled.written with same | ⟨-, rfl⟩
  · refine ⟨c, cs, same, fun later blank => spelled.broken fun x isHead => ?_⟩
    exact (blank x isHead).imp_right .inr
  · exact .symbol _

end Lexeme.Spelled

/-! ## What is passed over -/

namespace Text.Skipped

variable {gap later more spaces : List Char}

theorem blanks (each : ∀ x ∈ spaces, x = ' ' ∨ x = '\t') : Skipped spaces later := by
  induction spaces with
  | nil => exact .nil
  | cons x spaces ih =>
    obtain ⟨isBlank, others⟩ := List.forall_mem_cons.mp each
    exact .blank (isBlank.imp_right .inl) (ih others)

/-- Only the next character matters to what is passed over. -/
theorem congr (skipped : Skipped gap later) (same : more.head? = later.head?) :
    Skipped gap more := by
  induction skipped with
  | nil => exact .nil
  | blank isBlank _ ih => exact .blank isBlank (ih same)
  | comment inner line => exact .comment inner (by rwa [same])

/-- Blanks at the end of a line become part of the comment that stands there. -/
theorem append_blanks (skipped : Skipped gap later) (line : ∀ c ∈ later.head?, c = '\n')
    (each : ∀ x ∈ spaces, x = ' ' ∨ x = '\t') : Skipped (gap ++ spaces) later := by
  induction skipped with
  | nil => exact blanks each
  | blank isBlank _ ih => exact .blank isBlank (ih line)
  | comment inner line =>
    refine .comment (fun member => ?_) line
    rcases List.mem_append.mp member with inside | inside
    · exact inner inside
    · exact absurd (each _ inside) (by decide)

theorem scans {lexemes : List Lexeme} (skipped : Skipped gap later)
    (rest : Token.Scans later lexemes) : Token.Scans (gap ++ later) lexemes := by
  induction skipped with
  | nil => exact rest
  | @blank c gap later isBlank _ ih =>
    have isPiece : Piece.ofText c ([] ++ (gap ++ later)) = .ok (.layout 0) := by
      unfold Piece.ofText
      rw [if_pos isBlank]
    exact @Token.Scans.layout (gap ++ later) c [] _ isPiece (ih rest)
  | @comment body later inner line =>
    have isPiece : Piece.ofText '/' ('/' :: body ++ later) =
        .ok (.layout ('/' :: body).length) := by
      unfold Piece.ofText
      rw [if_neg (by decide), if_neg (by decide), if_pos ⟨rfl, rfl⟩, List.cons_append,
        takeWhile_comment inner line]
    exact Token.Scans.layout isPiece rest

/-- A lexeme is found behind what was passed over in front of another text. -/
theorem scans_lexeme {l : Lexeme} {c : Char} {cs : List Char} {lexemes : List Lexeme}
    (skipped : Skipped gap (c :: more)) (spelled : l.Spelled c cs later)
    (rest : Token.Scans later lexemes) :
    Token.Scans (gap ++ c :: (cs ++ later)) (l :: lexemes) := by
  have front : Skipped gap (c :: (cs ++ later)) := skipped.congr rfl
  exact front.scans (rest.lexeme spelled)

end Text.Skipped

/-! ## Blanks behind a token -/

namespace Token

variable {text : List Char}

theorem place_lt {m n : Nat} (inside : n ≤ text.length) (lt : m < n) :
    Text.place text m < Text.place text n := by
  have whole : text.take n = text.take m ++ (text.drop m).take (n - m) := by
    rw [← List.take_add, Nat.add_sub_cancel' (Nat.le_of_lt lt)]
  cases part : (text.drop m).take (n - m) with
  | nil =>
    have := congrArg List.length part
    simp at this
    omega
  | cons c cs =>
    rw [Text.place_eq, Text.place_eq, whole, part, Position.after_append]
    exact Position.lt_after_cons _ c cs

theorem place_injective {m n : Nat} (inM : m ≤ text.length) (inN : n ≤ text.length)
    (same : Text.place text m = Text.place text n) : m = n := by
  have irrefl (p : Position) : ¬ p < p := fun lt => Position.not_le_of_lt lt (Position.le_refl p)
  rcases Nat.lt_trichotomy m n with lt | eq | lt
  · exact absurd (same ▸ place_lt inN lt) (irrefl _)
  · exact eq
  · exact absurd (same ▸ place_lt inM lt) (irrefl _)

theorem Tile.Covers.first_le {tile : Tile} (covers : tile.Covers text) :
    tile.first ≤ tile.behind := by
  rcases covers.order with lt | ⟨eq, -⟩
  · exact Nat.le_of_lt lt
  · exact Nat.le_of_eq eq

/-- The end of a line takes one character. -/
theorem Tile.Covers.behind_endOfLine {tile : Tile} (covers : tile.Covers text)
    (isLine : tile.token.lexeme = .endOfLine) : tile.behind = tile.first + 1 := by
  have le := covers.first_le
  have within := covers.within
  have isWritten := covers.written
  rw [isLine] at isWritten
  rcases isWritten with same | ⟨-, other⟩
  · have := congrArg List.length same
    simp [List.extract] at this
    omega
  · cases other

/-- A token stands at one stretch of the text only. -/
theorem Tile.Covers.behind_eq {tile other : Tile} (covers : tile.Covers text)
    (covers' : other.Covers text) (same : tile.token = other.token) :
    tile.behind = other.behind := by
  by_cases isLine : tile.token.lexeme = .endOfLine
  · have first : tile.first = other.first := by
      refine place_injective (covers.first_le.trans covers.within)
        (covers'.first_le.trans covers'.within) ?_
      rw [← covers.start, ← covers'.start, same]
    rw [covers.behind_endOfLine isLine, covers'.behind_endOfLine (same ▸ isLine), first]
  · refine place_injective covers.within covers'.within ?_
    have stop := covers.stop
    have stop' := covers'.stop
    rw [if_neg isLine] at stop
    rw [if_neg (same ▸ isLine)] at stop'
    rw [← stop, ← stop', same]

theorem Tiles.scans {pos : Position} {cs : List Char} {tokens : List Token}
    (tiles : Tiles pos cs tokens) {lexemes : List Lexeme}
    (isLexemes : tokens.map lexeme = lexemes ++ [.endOfInput]) : Scans cs lexemes := by
  induction tiles generalizing lexemes with
  | @last pos gap skipped =>
    obtain rfl : lexemes = [] := by simpa using isLexemes
    have scans := skipped.scans .nil
    rwa [List.append_nil] at scans
  | @token pos gap l c cs later tokens skipped spelled rest ih =>
    obtain ⟨others, rfl, isOthers⟩ := spelled.others isLexemes
    exact skipped.scans_lexeme spelled (ih isOthers)

theorem Tiles.insert {pos : Position} {cs : List Char} {tokens : List Token}
    (tiles : Tiles pos cs tokens) {before : List Char} (isPos : pos = Position.first.after before)
    {lexemes : List Lexeme} (isLexemes : tokens.map lexeme = lexemes ++ [.endOfInput]) {tile : Tile}
    (member : tile.token ∈ tokens) (covers : tile.Covers (before ++ cs)) :
    ∃ pre post, cs = pre ++ post ∧ tile.behind = (before ++ pre).length ∧
      (∀ front, Text.Apart (front ++ pre) post) ∧
      ∀ spaces, (∀ x ∈ spaces, x = ' ' ∨ x = '\t') → Scans (pre ++ (spaces ++ post)) lexemes := by
  induction tiles generalizing before lexemes with
  | @last pos gap skipped =>
    obtain rfl : lexemes = [] := by simpa using isLexemes
    have isToken := List.mem_singleton.mp member
    rw [isPos, ← Position.after_append] at isToken
    refine ⟨gap, [], (List.append_nil _).symm, covers.behind_eq (Tile.covers_end _) isToken,
      fun front => ?_, fun spaces each => ?_⟩
    · simp [Text.Apart]
    · have scans := (skipped.append_blanks (by simp) each).scans .nil
      rwa [List.append_assoc] at scans
  | @token pos gap l c cs later tokens skipped spelled rest ih =>
    subst isPos
    have isStop := after_gap before gap (c :: cs)
    have whole : before ++ (gap ++ c :: (cs ++ later)) = before ++ gap ++ c :: cs ++ later := by
      simp
    obtain ⟨others, rfl, isOthers⟩ := spelled.others isLexemes
    rcases List.mem_cons.mp member with isToken | member
    -- The blanks stand behind the first token, or farther on in what follows it.
    · refine ⟨gap ++ c :: cs, later, by simp, ?_, fun front => ?_, fun spaces each => ?_⟩
      · have covered := Tile.covers_spelled (before ++ gap) spelled
        rw [isStop, ← Position.after_append] at isToken
        rw [← List.append_assoc, ← whole] at covered
        rw [← List.append_assoc]
        exact covers.behind_eq covered isToken
      · rw [← List.append_assoc]
        exact spelled.apart.prepend (by simp)
      · have inserted := @Lexeme.Spelled.insert _ _ _ [] later spaces spelled
          (by simpa using spelled.apart) each
        have scans := (Text.Skipped.blanks each).scans (rest.scans isOthers)
        simpa using skipped.scans_lexeme inserted scans
    · rw [whole] at covers
      obtain ⟨pre, post, rfl, isBehind, apart, scans⟩ := ih isStop isOthers member covers
      refine ⟨gap ++ c :: (cs ++ pre), post, by simp, ?_, fun front => ?_, fun spaces each => ?_⟩
      · rw [isBehind]
        simp
      · have := apart (front ++ gap ++ c :: cs)
        simpa using this
      · have inserted := spelled.insert (apart (c :: cs)) each
        simpa using skipped.scans_lexeme inserted (scans spaces each)

end Token

/-! ## Blanks between all tokens -/

/-- The lexemes, as they are written, with one blank between each two of them. -/
def Text.spaced (lexemes : List Lexeme) : List Char :=
  [' '].intercalate (lexemes.map Lexeme.written)

/-- The end of the input is written with no character, but a blank stands in front of it. -/
theorem Text.spaced_end (lexemes : List Lexeme) :
    ∃ tail, Text.spaced (lexemes ++ [.endOfInput]) = Text.spaced lexemes ++ tail ∧
      (tail = [] ∨ tail = [' ']) := by
  induction lexemes with
  | nil => exact ⟨[], rfl, .inl rfl⟩
  | cons l rest ih =>
    obtain ⟨tail, same, isTail⟩ := ih
    cases rest with
    | nil =>
      refine ⟨[' '], ?_, .inr rfl⟩
      simp [spaced, List.intercalate, Lexeme.written, Lexeme.text]
    | cons more rest =>
      refine ⟨tail, ?_, isTail⟩
      simpa [spaced, List.intercalate] using same

namespace Token

/-- Legible lexemes are read again from the text that is spaced out. -/
theorem scans_spaced {lexemes : List Lexeme} (legible : ∀ l ∈ lexemes, l.Legible)
    {tail : List Char} (blank : ∀ x ∈ tail.head?, x = ' ') (nothing : Scans tail []) :
    Scans (Text.spaced lexemes ++ tail) lexemes := by
  induction lexemes with
  | nil => exact nothing
  | cons l rest ih =>
    obtain ⟨⟨c, cs, written, spelled⟩, others⟩ := List.forall_mem_cons.mp legible
    cases rest with
    | nil =>
      have scans := nothing.lexeme (spelled tail fun x isHead => .inl (blank x isHead))
      simpa [Text.spaced, written] using scans
    | cons more rest =>
      have scans := (ih others).space.lexeme (spelled _ (by simp))
      simpa [Text.spaced, written, List.intercalate] using scans

def saying (t : Token) : TokenKind × String :=
  (t.lexeme.kind, t.lexeme.text)

/-- The source has tokens that say the same as these. -/
def ReadAs (source : List UInt8) (tokens : List Token) : Prop :=
  ∃ found, scan (Text.decode source) = .ok found ∧ found.map saying = tokens.map saying

theorem Scans.readAs {source : List UInt8} {body : List Token} {stop : Token}
    (scans : Scans (Text.decode source) (body.map Token.lexeme)) (isEnd : stop.isEnd = true) :
    ReadAs source (body ++ [stop]) := by
  obtain ⟨found, last, scanned, same, isLast⟩ := scans .first
  have said (ts : List Token) :
      ts.map saying = (ts.map Token.lexeme).map fun l => (l.kind, l.text) := by
    rw [List.map_map]
    rfl
  have ends : last.lexeme = stop.lexeme :=
    (of_decide_eq_true isLast).trans (of_decide_eq_true isEnd).symm
  have all : (found ++ [last]).map Token.lexeme = (body ++ [stop]).map Token.lexeme := by
    rw [List.map_append, List.map_append, same, List.map_singleton, List.map_singleton, ends]
  exact ⟨found ++ [last], scanned, by rw [said, all, ← said]⟩

end Token

/-! ## Blanks in a source -/

namespace Text

/-- The source is cut in front of the character number `n`. -/
structure Cut (source : List UInt8) (n : Nat) (before behind : List UInt8) : Prop where
  whole : source = before ++ behind
  before : decode before = (decode source).take n
  behind : decode behind = (decode source).drop n

theorem exists_cut (source : List UInt8) (n : Nat) :
    ∃ before behind, Cut source n before behind := by
  obtain ⟨before, behind, whole, isBefore, isBehind⟩ :=
    decode_split (List.take_append_drop n (decode source)).symm
  exact ⟨before, behind, whole, isBefore, isBehind⟩

theorem decode_blanks {spaces : List UInt8} (each : ∀ b ∈ spaces, b = 32 ∨ b = 9)
    (behind : List UInt8) : ∃ blanks, (∀ x ∈ blanks, x = ' ' ∨ x = '\t') ∧
      decode (spaces ++ behind) = blanks ++ decode behind := by
  induction spaces with
  | nil => exact ⟨[], by simp, rfl⟩
  | cons b spaces ih =>
    obtain ⟨isBlank, others⟩ := List.forall_mem_cons.mp each
    obtain ⟨blanks, isBlanks, same⟩ := ih others
    refine ⟨Char.ofNat b.toNat :: blanks, List.forall_mem_cons.mpr ⟨?_, isBlanks⟩, ?_⟩
    · rcases isBlank with rfl | rfl
      · exact .inl rfl
      · exact .inr rfl
    · have low : b < 0x80 := by rcases isBlank with rfl | rfl <;> decide
      rw [List.cons_append, decode_ascii low, same, List.cons_append]

/-- Blanks that are put into a source are put into its text. -/
theorem Cut.decode_insert {source before behind spaces : List UInt8} {n : Nat}
    (cut : Cut source n before behind) (each : ∀ b ∈ spaces, b = 32 ∨ b = 9) :
    ∃ blanks, (∀ x ∈ blanks, x = ' ' ∨ x = '\t') ∧
      decode (before ++ spaces ++ behind) =
        (decode source).take n ++ (blanks ++ (decode source).drop n) := by
  cases spaces with
  | nil =>
    refine ⟨[], by simp, ?_⟩
    rw [List.append_nil, ← cut.whole, List.nil_append, List.take_append_drop]
  | cons b spaces =>
    obtain ⟨blanks, isBlanks, same⟩ := decode_blanks each behind
    refine ⟨blanks, isBlanks, ?_⟩
    have low : b < 0x80 := by rcases each b List.mem_cons_self with rfl | rfl <;> decide
    rw [List.cons_append, decode_ascii low] at same
    rw [List.append_assoc, List.cons_append, decode_append low, same, cut.before, cut.behind]

end Text

namespace Token

/-- Where tokens end does not depend on the blanks between them: the tokens of a source are read
again from the text that has one blank between each two of them, with or without the end of the
input, and from the source with any blanks put in behind a token. -/
theorem boundaries_stable {source : List UInt8} {tokens : List Token}
    (scanned : scan (Text.decode source) = .ok tokens) :
    ReadAs (Text.utf8 (Text.spaced (tokens.map lexeme))) tokens ∧
    ReadAs (Text.utf8 (Text.spaced (tokens.dropLast.map lexeme))) tokens ∧
    ∀ t ∈ tokens, (∃ tile : Tile, tile.token = t ∧ tile.Covers (Text.decode source)) ∧
      ∀ tile : Tile, tile.token = t → tile.Covers (Text.decode source) →
        (∃ before behind, Text.Cut source tile.behind before behind) ∧
        ∀ before behind, Text.Cut source tile.behind before behind →
          ∀ spaces : List UInt8, (∀ b ∈ spaces, b = 32 ∨ b = 9) →
            ReadAs (before ++ spaces ++ behind) tokens := by
  have tiles := scanFrom_tiles scanned
  obtain ⟨body, isTokens, inner⟩ := scanFrom_closed scanned
  have legible : ∀ l ∈ body.map lexeme, l.Legible := by
    refine List.forall_mem_map.mpr fun t member => ?_
    obtain ⟨c, cs, later, spelled⟩ :=
      scanFrom_found scanned t (by simp [isTokens, member]) (inner t member)
    exact spelled.legible
  subst isTokens
  refine ⟨Scans.readAs ?_ rfl, Scans.readAs ?_ rfl, fun t member => ⟨?_, ?_⟩⟩
  · obtain ⟨tail, same, isTail⟩ := Text.spaced_end (body.map lexeme)
    rw [Text.decode_utf8, List.map_append, List.map_singleton, same]
    rcases isTail with rfl | rfl
    · exact scans_spaced legible (by simp) .nil
    · exact scans_spaced legible (by simp) Scans.nil.space
  · have scans := @scans_spaced _ legible [] (by simp) .nil
    rwa [Text.decode_utf8, List.dropLast_concat, ← List.append_nil (Text.spaced _)]
  · obtain ⟨laid, isMap, covers, -⟩ := @Tiles.laid _ _ _ tiles [] rfl
    rw [← isMap] at member
    obtain ⟨tile, inside, isToken⟩ := List.mem_map.mp member
    exact ⟨tile, isToken, covers tile inside⟩
  · rintro tile rfl covers
    refine ⟨Text.exists_cut _ _, fun before behind cut spaces each => Scans.readAs ?_ rfl⟩
    obtain ⟨pre, post, whole, isBehind, -, scans⟩ :=
      @Tiles.insert _ _ _ tiles [] rfl (body.map lexeme) (by simp) tile member covers
    obtain ⟨blanks, isBlanks, same⟩ := cut.decode_insert each
    rw [same, whole, isBehind, List.nil_append, List.take_left, List.drop_left]
    exact scans blanks isBlanks

/-- The date of the sample, in front of the division. -/
theorem Sample.covers_date :
    Tile.Covers (Text.decode tiled) ⟨⟨.date "12/03/2024", ⟨2, 2⟩, ⟨2, 12⟩⟩, 15, 25⟩ where
  order := .inl (by decide)
  within := by decide +kernel
  start := by decide +kernel
  stop := by decide +kernel
  written := .inl (by decide +kernel)

theorem boundaries_stable_tiled :
    scan (Text.decode Sample.tiled) = .ok Sample.tiledTokens ∧
    ReadAs (Text.utf8 "x <- \"é\" \n 12/03/2024 / 4 ".toList) Sample.tiledTokens ∧
    ReadAs (Text.utf8 "x ← \"é\" // ü\r\n\t12/03/2024 \t /4".toList) Sample.tiledTokens := by
  obtain ⟨spaced, -, each⟩ := boundaries_stable Sample.scan_tiled
  have isSpaced : Text.utf8 (Text.spaced (Sample.tiledTokens.map lexeme)) =
      Text.utf8 "x <- \"é\" \n 12/03/2024 / 4 ".toList := by decide +kernel
  have inserted : Sample.tiled.take 29 ++ [32, 9, 32] ++ Sample.tiled.drop 29 =
      Text.utf8 "x ← \"é\" // ü\r\n\t12/03/2024 \t /4".toList := by decide +kernel
  have cut : Text.Cut Sample.tiled 25 (Sample.tiled.take 29) (Sample.tiled.drop 29) :=
    ⟨(List.take_append_drop ..).symm, by decide +kernel, by decide +kernel⟩
  have stable := (each _ (by simp [Sample.tiledTokens])).2 _ rfl Sample.covers_date
  have read := stable.2 _ _ cut [32, 9, 32] (by simp)
  rw [isSpaced] at spaced
  rw [inserted] at read
  exact ⟨Sample.scan_tiled, spaced, read⟩

end Token

end Pseudocode
