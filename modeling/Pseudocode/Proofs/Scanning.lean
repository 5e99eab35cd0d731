import Pseudocode.Proofs.Relocation
import Pseudocode.Proofs.Spelling

/-! # Scanning line by line

No token goes on beyond its line. So the tokens of two texts with a line feed between them are the
tokens of the first one, the end of the line, and the tokens of the second one further down. A
carriage return at the end of a text is passed over. -/

namespace Pseudocode

variable {rest later : List Char} {mark : Char}

/-! ## Pieces of a line -/

theorem takeWhile_line {p : Char → Bool} (stops : p mark = false) :
    (rest ++ mark :: later).takeWhile p = rest.takeWhile p := by
  rw [List.takeWhile_append]
  split
  case isTrue all =>
    rw [List.takeWhile_cons_of_neg (by simp [stops]), List.append_nil]
    exact ((List.takeWhile_prefix p).eq_of_length all).symm
  case isFalse => rfl

theorem dropWhile_line {p : Char → Bool} (stops : p mark = false) :
    (rest ++ mark :: later).dropWhile p = rest.dropWhile p ++ mark :: later := by
  rw [List.dropWhile_append]
  split
  case isTrue none =>
    rw [List.dropWhile_cons_of_neg (by simp [stops]), List.isEmpty_iff.mp none, List.nil_append]
  case isFalse => rfl

theorem head?_line {c : Char} (other : c ≠ mark) :
    (rest ++ mark :: later).head? = some c ↔ rest.head? = some c := by
  cases rest with
  | nil => simp [other.symm]
  | cons => rfl

theorem isDigit_newline : Text.isDigit '\n' = false := by decide

theorem startsWithDate_line (noDigit : Text.isDigit mark = false) (noSlash : mark ≠ '/') (c : Char)
    (rest later : List Char) :
    startsWithDate (c :: (rest ++ mark :: later)) = startsWithDate (c :: rest) := by
  rw [Bool.eq_iff_iff, startsWithDate_cons, startsWithDate_cons]
  constructor
  · rintro ⟨d, m₁, m₂, y₁, y₂, y₃, y₄, tail, same, digits, after⟩
    rcases List.append_eq_append_iff.mp same with ⟨more, nine, cut⟩ | ⟨more, rfl, cut⟩
    · -- The line is shorter than a date, or as long: no character of a date is the mark.
      cases more with
      | nil =>
        refine ⟨d, m₁, m₂, y₁, y₂, y₃, y₄, [], ?_, digits, rfl⟩
        rw [nine, List.append_nil, List.append_nil]
      | cons x more =>
        obtain ⟨rfl, -⟩ := List.cons.inj cut
        have inside : mark ∈ [d, '/', m₁, m₂, '/', y₁, y₂, y₃, y₄] := nine ▸ by simp
        have notDigit : ∀ x, Text.isDigit x = true → mark ≠ x := by
          rintro x isDigit rfl
          exact Bool.false_ne_true (noDigit.symm.trans isDigit)
        simp only [List.forall_mem_cons] at digits
        obtain ⟨-, h₂, h₃, h₄, h₅, h₆, h₇, h₈, -⟩ := digits
        simp [notDigit _ h₂, notDigit _ h₃, notDigit _ h₄, notDigit _ h₅, notDigit _ h₆,
          notDigit _ h₇, notDigit _ h₈, noSlash] at inside
    · refine ⟨d, m₁, m₂, y₁, y₂, y₃, y₄, more, rfl, digits, ?_⟩
      cases more with
      | nil => rfl
      | cons x more =>
        cases cut
        exact after
  · rintro ⟨d, m₁, m₂, y₁, y₂, y₃, y₄, tail, rfl, digits, after⟩
    refine ⟨d, m₁, m₂, y₁, y₂, y₃, y₄, tail ++ mark :: later, by simp, digits, ?_⟩
    cases tail with
    | nil => exact noDigit
    | cons => exact after

namespace Piece

theorem number_line (noDigit : Text.isDigit mark = false) (noSlash : mark ≠ '/')
    (noPoint : mark ≠ '.') (c : Char) (rest later : List Char) :
    number c (rest ++ mark :: later) = number c rest := by
  unfold number
  rw [startsWithDate_line noDigit noSlash, takeWhile_line noDigit, dropWhile_line noDigit]
  split
  case isTrue isDate =>
    have long := startsWithDate_length isDate
    rw [List.take_append_of_le_length long]
  case isFalse =>
    -- Only a point with a digit after it makes a difference, and the mark is neither.
    rcases rest.dropWhile Text.isDigit with _ | ⟨x, _ | ⟨y, tail⟩⟩
    · simp [noPoint]
    · by_cases point : x = '.'
      · subst point
        simp [noDigit]
      · simp [point]
    · by_cases point : x = '.'
      · subst point
        simp only [List.cons_append, takeWhile_line noDigit]
      · simp [point]

theorem quoted_line {quote : Char} (other : quote ≠ '\n') (kind : TokenKind)
    (literal : String → Lexeme) (rest later : List Char) :
    quoted quote kind literal (rest ++ '\n' :: later) = quoted quote kind literal rest := by
  unfold quoted
  rw [takeWhile_line (by simp)]
  have le : (rest.takeWhile fun c => c ≠ quote && c ≠ '\n').length ≤ rest.length :=
    (List.takeWhile_prefix _).length_le
  simp only [List.drop_append_of_le_length le, head?_line other]

theorem ofText_line (c : Char) (rest later : List Char) :
    ofText c (rest ++ '\n' :: later) = ofText c rest := by
  unfold ofText
  rw [takeWhile_line (by simp), takeWhile_line (by decide),
    number_line isDigit_newline (by decide) (by decide), quoted_line (by decide),
    quoted_line (by decide)]
  cases rest with
  | nil => simp
  | cons x rest => rfl

/-- A literal that is not closed on its line is not closed by a carriage return either. -/
theorem quoted_return {quote : Char} (other : quote ≠ '\r') (kind : TokenKind)
    (literal : String → Lexeme) (rest : List Char) :
    quoted quote kind literal (rest ++ ['\r']) = quoted quote kind literal rest := by
  unfold quoted
  rw [List.takeWhile_append]
  split
  case isTrue all =>
    have whole := (List.takeWhile_prefix fun c => c ≠ quote && c ≠ '\n').eq_of_length all
    rw [whole, List.takeWhile_cons_of_pos (by simp [other.symm])]
    simp
  case isFalse =>
    have le : (rest.takeWhile fun c => c ≠ quote && c ≠ '\n').length ≤ rest.length :=
      (List.takeWhile_prefix _).length_le
    simp only [List.drop_append_of_le_length le, head?_line other]

/-- A carriage return after the last character makes no difference, or a comment goes on with it. -/
theorem ofText_return (c : Char) (rest : List Char) :
    ofText c (rest ++ ['\r']) = ofText c rest ∨
      ofText c rest = .ok (.layout rest.length) ∧
        ofText c (rest ++ ['\r']) = .ok (.layout (rest.length + 1)) := by
  by_cases comment : c = '/' ∧ rest.head? = some '/'
  · obtain ⟨rfl, second⟩ := comment
    have comments {more : List Char} (second : more.head? = some '/') :
        ofText '/' more = .ok (.layout (more.takeWhile (· ≠ '\n')).length) :=
      (if_neg (by decide)).trans ((if_neg (by decide)).trans (if_pos ⟨rfl, second⟩))
    rw [comments second, comments ((head?_line (by decide)).mpr second), List.takeWhile_append]
    split
    case isTrue all =>
      refine .inr ⟨by rw [all], ?_⟩
      rw [List.length_append]
      rfl
    case isFalse => exact .inl rfl
  · left
    have comment' : ¬ (c = '/' ∧ (rest ++ ['\r']).head? = some '/') := by
      rwa [head?_line (by decide)]
    unfold ofText
    rw [if_neg comment, if_neg comment', takeWhile_line (by decide),
      number_line (by decide) (by decide) (by decide), quoted_return (by decide),
      quoted_return (by decide)]
    cases rest with
    | nil => simp
    | cons x rest => rfl

/-- The piece ends where the text ends or before. -/
def Fits (rest : List Char) : Piece → Prop
  | layout more | lexeme _ more => more ≤ rest.length

theorem ofText_fits {c : Char} {rest : List Char} {piece : Piece}
    (isPiece : ofText c rest = .ok piece) : piece.Fits rest := by
  cases piece with
  | layout more =>
    rcases ofText_layout isPiece with ⟨-, rfl⟩ | ⟨-, -, rfl⟩
    · exact Nat.zero_le _
    · exact (List.takeWhile_prefix _).length_le
  | lexeme l more =>
    obtain ⟨cs, later, rfl, rfl, -⟩ := ofText_spells isPiece
    simp [Fits]

end Piece

namespace Position

def down (k : Nat) (p : Position) : Position :=
  ⟨p.line + k, p.column⟩

theorem next_down (k : Nat) (p : Position) (c : Char) : (p.down k).next c = (p.next c).down k := by
  unfold next
  split
  · exact congrArg (Position.mk · 1) (Nat.add_right_comm ..)
  · rfl

theorem after_down (k : Nat) (p : Position) (cs : List Char) :
    (p.down k).after cs = (p.after cs).down k := by
  induction cs generalizing p with
  | nil => rfl
  | cons c cs ih =>
    change ((p.down k).next c).after cs = _
    rw [next_down, ih]
    rfl

theorem after_append (p : Position) (cs ds : List Char) :
    p.after (cs ++ ds) = (p.after cs).after ds :=
  List.foldl_append ..

theorem after_line (p : Position) (cs : List Char) :
    (p.after cs).line = p.line + cs.count '\n' := by
  induction cs generalizing p with
  | nil => rfl
  | cons c cs ih =>
    change ((p.next c).after cs).line = _
    rw [ih, List.count_cons]
    unfold next
    by_cases isLine : c = '\n'
    · simp [isLine]; omega
    · simp [isLine]

theorem next_newline (cs : List Char) :
    (first.after cs).next '\n' = first.down (1 + cs.count '\n') := by
  rw [next, if_pos rfl, after_line, down]
  simp only [first, Position.mk.injEq, and_true]
  omega

end Position

/-! ## Tokens -/

namespace Token

def lineEnd (p : Position) : Token :=
  ofLexeme .endOfLine p (p.next '\n')

theorem of_map_ok {α β : Type} {result : Except SyntaxError α} {f : α → β} {b : β}
    (mapped : result.map f = .ok b) : ∃ a, result = .ok a ∧ f a = b := by
  cases result with
  | error e => cases mapped
  | ok a => exact ⟨a, rfl, Except.ok.inj mapped⟩

theorem of_map_error {α β : Type} {result : Except SyntaxError α} {f : α → β} {e : SyntaxError}
    (mapped : result.map f = .error e) : result = .error e := by
  cases result with
  | error e => cases mapped; rfl
  | ok a => cases mapped

/-- The pieces of the text from `pos` on, and their tokens. -/
inductive Scanned : Position → List Char → List Token → Prop where
  | stop {pos} : Scanned pos [] [⟨.endOfInput, pos, pos⟩]
  | layout {pos c ds later tokens} : Piece.ofText c (ds ++ later) = .ok (.layout ds.length) →
      Scanned (pos.after (c :: ds)) later tokens → Scanned pos (c :: ds ++ later) tokens
  | lexeme {pos l c ds later tokens} : l.Spelled c ds later →
      Scanned (pos.after (c :: ds)) later tokens →
      Scanned pos (c :: ds ++ later) (ofLexeme l pos (pos.after (c :: ds)) :: tokens)

variable {pos : Position} {cs : List Char} {tokens : List Token}

theorem scanFrom_scanned (scanned : scanFrom pos cs = .ok tokens) : Scanned pos cs tokens := by
  fun_induction scanFrom pos cs generalizing tokens with
  | case1 pos =>
    cases scanned
    exact .stop
  | case2 pos c rest cause failed => cases scanned
  | case3 pos c rest more isPiece ih =>
    have le : more ≤ rest.length := Piece.ofText_fits isPiece
    obtain ⟨ds, later, rfl, rfl⟩ : ∃ ds later, rest = ds ++ later ∧ ds.length = more :=
      ⟨_, _, (List.take_append_drop more rest).symm, List.length_take_of_le le⟩
    rw [List.take_left, List.drop_left] at ih
    rw [List.take_left, List.drop_left] at scanned
    exact .layout isPiece (ih scanned)
  | case4 pos c rest l more isPiece stop =>
    rename_i ih
    obtain ⟨ds, later, rfl, rfl, spelled⟩ := Piece.ofText_spells isPiece
    obtain ⟨tail, isRest, rfl⟩ := of_map_ok scanned
    have isStop : stop = pos.after (c :: ds) := by simp [stop]
    have scanned := ih isRest
    rw [isStop, List.drop_left] at scanned
    rw [isStop]
    exact .lexeme spelled scanned

/-- The tokens end with the end of the input, and no other token is one. -/
theorem scanFrom_closed (scanned : scanFrom pos cs = .ok tokens) :
    ∃ body, tokens = body ++ [⟨.endOfInput, pos.after cs, pos.after cs⟩] ∧
      ∀ t ∈ body, t.isEnd = false := by
  replace scanned := scanFrom_scanned scanned
  induction scanned with
  | stop => exact ⟨[], rfl, by simp⟩
  | layout isPiece _ ih =>
    rw [Position.after_append]
    exact ih
  | lexeme spelled _ ih =>
    obtain ⟨body, rfl, inner⟩ := ih
    rw [Position.after_append]
    refine ⟨_ :: body, rfl, List.forall_mem_cons.mpr ⟨?_, inner⟩⟩
    have notEnd := spelled.ne_endOfInput
    unfold ofLexeme
    split <;> simp_all [isEnd]

/-- The tokens of a text and of what follows it after a line feed. -/
theorem scanFrom_line (pos : Position) (cs ds : List Char) :
    scanFrom pos (cs ++ '\n' :: ds) = scanFrom pos cs >>= fun tokens =>
      (scanFrom ((pos.after cs).next '\n') ds).map
        (tokens.dropLast ++ lineEnd (pos.after cs) :: ·) := by
  fun_induction scanFrom pos cs with
  | case1 pos =>
    rw [List.nil_append, scanFrom]
    rfl
  | case2 pos c rest cause failed =>
    rw [List.cons_append, scanFrom, Piece.ofText_line, failed]
    rfl
  | case3 pos c rest more isPiece ih =>
    have le : more ≤ rest.length := Piece.ofText_fits isPiece
    rw [List.cons_append, scanFrom, Piece.ofText_line, isPiece]
    dsimp only
    rw [List.take_append_of_le_length le, List.drop_append_of_le_length le, ih,
      ← Position.after_append, List.cons_append, List.take_append_drop]
  | case4 pos c rest l more isPiece stop =>
    rename_i ih
    have le : more ≤ rest.length := Piece.ofText_fits isPiece
    rw [List.cons_append, scanFrom, Piece.ofText_line, isPiece]
    dsimp only
    rw [List.take_append_of_le_length le, List.drop_append_of_le_length le, ih,
      ← Position.after_append, List.cons_append, List.take_append_drop]
    cases later : scanFrom stop (rest.drop more) with
    | error e => rfl
    | ok tail =>
      obtain ⟨body, rfl, -⟩ := scanFrom_closed later
      change ((scanFrom _ ds).map _).map _ = (scanFrom _ ds).map _
      rw [List.dropLast_concat]
      dsimp only
      rw [← List.cons_append, List.dropLast_concat]
      cases scanFrom ((pos.after (c :: rest)).next '\n') ds <;> rfl

theorem dropLast_cons (t : Token) (pos : Position) (cs : List Char) :
    ((scanFrom pos cs).map (t :: ·)).map List.dropLast =
      ((scanFrom pos cs).map List.dropLast).map (t :: ·) := by
  cases scanned : scanFrom pos cs with
  | error e => rfl
  | ok tokens =>
    obtain ⟨body, rfl, -⟩ := scanFrom_closed scanned
    exact congrArg Except.ok (List.dropLast_cons_of_ne_nil (by simp))

/-- A carriage return at the end of a text is no part of a token. -/
theorem scanFrom_return (pos : Position) (cs : List Char) :
    (scanFrom pos (cs ++ ['\r'])).map List.dropLast = (scanFrom pos cs).map List.dropLast := by
  fun_induction scanFrom pos cs with
  | case1 pos =>
    rw [List.nil_append, scanFrom]
    change (scanFrom _ []).map List.dropLast = _
    rw [scanFrom]
    rfl
  | case2 pos c rest cause failed =>
    rcases Piece.ofText_return c rest with same | ⟨isLayout, -⟩
    · rw [List.cons_append, scanFrom, same, failed]
    · rw [failed] at isLayout
      cases isLayout
  | case3 pos c rest more isPiece ih =>
    have le : more ≤ rest.length := Piece.ofText_fits isPiece
    rw [List.cons_append, scanFrom]
    rcases Piece.ofText_return c rest with same | ⟨isLayout, isLonger⟩
    · rw [same, isPiece]
      dsimp only
      rw [List.take_append_of_le_length le, List.drop_append_of_le_length le, ih]
    · -- The comment takes all that is left on both sides.
      rw [isPiece] at isLayout
      cases isLayout
      rw [isLonger]
      dsimp only
      rw [List.drop_eq_nil_of_le (by simp), List.drop_length, scanFrom, scanFrom]
      rfl
  | case4 pos c rest l more isPiece stop =>
    rename_i ih
    have le : more ≤ rest.length := Piece.ofText_fits isPiece
    rcases Piece.ofText_return c rest with same | ⟨isLayout, -⟩
    · rw [List.cons_append, scanFrom, same, isPiece]
      dsimp only
      rw [List.take_append_of_le_length le, List.drop_append_of_le_length le, dropLast_cons,
        dropLast_cons, ih]
    · rw [isPiece] at isLayout
      cases isLayout

theorem ofLexeme_down (k : Nat) (l : Lexeme) (start stop : Position) :
    ofLexeme l (start.down k) (stop.down k) = (ofLexeme l start stop).moved (Position.down k) := by
  unfold ofLexeme
  split <;> rfl

theorem scanFrom_down (k : Nat) (pos : Position) (cs : List Char) :
    scanFrom (pos.down k) cs =
      ((scanFrom pos cs).map (List.map (Token.moved (Position.down k)))).mapError
        (SyntaxError.moved (Position.down k)) := by
  fun_induction scanFrom pos cs with
  | case1 pos =>
    rw [scanFrom]
    rfl
  | case2 pos c rest cause failed =>
    rw [scanFrom, failed]
    rfl
  | case3 pos c rest more isPiece ih =>
    rw [scanFrom, isPiece]
    dsimp only
    rw [Position.after_down, ih]
  | case4 pos c rest l more isPiece stop =>
    rename_i ih
    rw [scanFrom, isPiece]
    dsimp only
    rw [Position.after_down, ih]
    cases scanFrom stop (rest.drop more) with
    | error e => rfl
    | ok tail =>
      rw [ofLexeme_down]
      rfl

end Token

end Pseudocode
