import Mathlib.Data.List.TakeWhile
import Pseudocode.Token.Scan

/-! # How lexemes are spelled

`Lexeme.Spelled` says which characters spell a lexeme, and in front of which text: a word or a
number is spelled to its end. The scanner finds a lexeme exactly where it is spelled, so it finds
the same lexemes in a text that is cut behind one of them. -/

namespace Pseudocode

def Lexeme.ofWord (cs : List Char) : Lexeme :=
  match Keyword.ofSpelling? (String.ofList cs) with
  | some word => .keyword word
  | none => .identifier (String.ofList cs)

/-- The character goes on with neither of the signs `<`, `>` and `/`, which one more sign may
follow. -/
def Symbol.Stands (c : Char) (later : List Char) : Prop :=
  ∀ x ∈ later.head?, (c = '<' → x ∉ ['-', '=', '>']) ∧ (c = '>' → x ≠ '=') ∧ (c = '/' → x ≠ '/')

/-- The lexeme is spelled with `c` and then `cs`, in front of `later`. -/
inductive Lexeme.Spelled : Lexeme → Char → List Char → List Char → Prop where
  | newline {later} : Spelled .endOfLine '\n' [] later
  | word {c cs later} : isWordStart c = true → (∀ x ∈ cs, isWordPart x = true) →
      (∀ x ∈ later.head?, isWordPart x = false) → Spelled (.ofWord (c :: cs)) c cs later
  | date {c cs later} : isWordStart c = false → startsWithDate (c :: (cs ++ later)) = true →
      cs.length = 9 → Spelled (.date (String.ofList (c :: cs))) c cs later
  | real {c whole d fraction later} : isWordStart c = false → Text.isDigit c = true →
      (∀ x ∈ whole, Text.isDigit x = true) → Text.isDigit d = true →
      (∀ x ∈ fraction, Text.isDigit x = true) → (∀ x ∈ later.head?, Text.isDigit x = false) →
      Spelled (.real (String.ofList (c :: whole ++ '.' :: d :: fraction))) c
        (whole ++ '.' :: d :: fraction) later
  | integer {c cs later} : isWordStart c = false → Text.isDigit c = true →
      (∀ x ∈ cs, Text.isDigit x = true) → (∀ x ∈ later.head?, Text.isDigit x = false) →
      (∀ d tail, later = '.' :: d :: tail → Text.isDigit d = false) →
      startsWithDate (c :: (cs ++ later)) = false →
      Spelled (.integer (String.ofList (c :: cs))) c cs later
  | string {body later} : (∀ x ∈ body, x ≠ '"' ∧ x ≠ '\n') →
      Spelled (.string (String.ofList body)) '"' (body ++ ['"']) later
  | char {body later} : (∀ x ∈ body, x ≠ '\'' ∧ x ≠ '\n') →
      Spelled (.char (String.ofList body)) '\'' (body ++ ['\'']) later
  | arrow {later} : Spelled (.symbol .assign) '←' [] later
  | sign {s : Symbol} {c later} : s.spelling.toList = [c] → Symbol.Stands c later →
      Spelled (.symbol s) c [] later
  | signs {s : Symbol} {c x later} : s.spelling.toList = [c, x] → Spelled (.symbol s) c [x] later

/-! ## Where characters differ -/

variable {c : Char} {cs later : List Char}

theorem isWordStart_ne (starts : isWordStart c = true) :
    c ≠ ' ' ∧ c ≠ '\t' ∧ c ≠ '\r' ∧ c ≠ '\n' ∧ c ≠ '/' := by
  refine ⟨?_, ?_, ?_, ?_, ?_⟩ <;> rintro rfl <;> revert starts <;> decide

theorem isDigit_ne (isDigit : Text.isDigit c = true) :
    c ≠ ' ' ∧ c ≠ '\t' ∧ c ≠ '\r' ∧ c ≠ '\n' ∧ c ≠ '/' ∧ c ≠ '.' := by
  refine ⟨?_, ?_, ?_, ?_, ?_, ?_⟩ <;> rintro rfl <;> revert isDigit <;> decide

/-- No sign is written with the character of a word or of a number. -/
theorem Symbol.spelling_plain (s : Symbol) : ∀ c ∈ s.spelling.toList,
    isWordStart c = false ∧ Text.isDigit c = false ∧ c ∉ [' ', '\t', '\r', '\n'] := by
  have checked : (s.spelling.toList.all fun c => decide
      (isWordStart c = false ∧ Text.isDigit c = false ∧ c ∉ [' ', '\t', '\r', '\n'])) = true := by
    cases s <;> decide +kernel
  intro c member
  exact of_decide_eq_true (List.all_eq_true.mp checked c member)

theorem takeWhile_spelled {p : Char → Bool} (each : ∀ x ∈ cs, p x = true)
    (stops : ∀ x ∈ later.head?, p x = false) : (cs ++ later).takeWhile p = cs := by
  rw [List.takeWhile_append_of_pos each]
  cases later with
  | nil => simp
  | cons x later => simp [stops x rfl]

theorem dropWhile_spelled {p : Char → Bool} (each : ∀ x ∈ cs, p x = true)
    (stops : ∀ x ∈ later.head?, p x = false) : (cs ++ later).dropWhile p = later := by
  rw [List.dropWhile_append_of_pos each]
  cases later with
  | nil => rfl
  | cons x later => simp [stops x rfl]

theorem stops_dropWhile (p : Char → Bool) (rest : List Char) :
    ∀ x ∈ (rest.dropWhile p).head?, p x = false := by
  intro x isHead
  have := List.head?_dropWhile_not p rest
  rw [isHead] at this
  simpa using this

/-- A date is ten characters, digits and slashes, and no digit follows. -/
theorem startsWithDate_cons {rest : List Char} : startsWithDate (c :: rest) = true ↔
    ∃ d m₁ m₂ y₁ y₂ y₃ y₄ tail, rest = [d, '/', m₁, m₂, '/', y₁, y₂, y₃, y₄] ++ tail ∧
      (∀ x ∈ [c, d, m₁, m₂, y₁, y₂, y₃, y₄], Text.isDigit x = true) ∧
      tail.head?.any Text.isDigit = false := by
  constructor
  · intro isDate
    unfold startsWithDate at isDate
    split at isDate
    case h_1 d₁ d₂ s₁ m₁ m₂ s₂ y₁ y₂ y₃ y₄ tail same =>
      cases same
      simp only [Bool.and_eq_true, decide_eq_true_eq, Bool.not_eq_true'] at isDate
      obtain ⟨⟨⟨digits, rfl⟩, rfl⟩, after⟩ := isDate
      exact ⟨d₂, m₁, m₂, y₁, y₂, y₃, y₄, tail, rfl, List.all_eq_true.mp digits, after⟩
    case h_2 => cases isDate
  · rintro ⟨d, m₁, m₂, y₁, y₂, y₃, y₄, tail, rfl, digits, after⟩
    have digits := List.all_eq_true.mpr digits
    simp only [List.cons_append, List.nil_append, startsWithDate, digits, after, decide_true,
      Bool.not_false, Bool.and_self]

theorem startsWithDate_length {rest : List Char} (isDate : startsWithDate (c :: rest) = true) :
    9 ≤ rest.length := by
  obtain ⟨d, m₁, m₂, y₁, y₂, y₃, y₄, tail, rfl, -⟩ := startsWithDate_cons.mp isDate
  simp

/-- Digits that no slash follows are no date. -/
theorem startsWithDate_digits (each : ∀ x ∈ cs, Text.isDigit x = true)
    (stops : ∀ x ∈ later.head?, Text.isDigit x = false ∧ x ≠ '/') :
    startsWithDate (c :: (cs ++ later)) = false := by
  rw [Bool.eq_false_iff]
  intro isDate
  obtain ⟨d, m₁, m₂, y₁, y₂, y₃, y₄, tail, same, digits, -⟩ := startsWithDate_cons.mp isDate
  match cs, each, same with
  | [], _, same =>
    have notDigit := (stops d (by simpa using congrArg List.head? same)).1
    rw [digits d (by simp)] at notDigit
    cases notDigit
  | [x], _, same =>
    exact (stops '/' (by simpa using congrArg (·.tail.head?) same)).2 rfl
  | x :: y :: _, each, same =>
    obtain ⟨-, same⟩ := List.cons.inj same
    obtain rfl : y = '/' := (List.cons.inj same).1
    have isDigit := each '/' (by simp)
    cases isDigit

namespace Piece

theorem word_eq (c : Char) (cs : List Char) :
    word (c :: cs) = .lexeme (.ofWord (c :: cs)) cs.length := by
  unfold word Lexeme.ofWord
  dsimp only
  cases Keyword.ofSpelling? (String.ofList (c :: cs)) <;> rfl

variable {c : Char} {rest later : List Char}

theorem ofText_word (starts : isWordStart c = true) :
    ofText c rest = .ok (.lexeme (.ofWord (c :: rest.takeWhile isWordPart))
      (rest.takeWhile isWordPart).length) := by
  obtain ⟨space, tab, feed, newline, slash⟩ := isWordStart_ne starts
  unfold ofText
  rw [if_neg (by simp [space, tab, feed]), if_neg newline, if_neg (by simp [slash]), if_pos starts,
    word_eq]

theorem ofText_number (starts : isWordStart c = false) (isDigit : Text.isDigit c = true) :
    ofText c rest = .ok (number c rest) := by
  obtain ⟨space, tab, feed, newline, slash, -⟩ := isDigit_ne isDigit
  unfold ofText
  rw [if_neg (by simp [space, tab, feed]), if_neg newline, if_neg (by simp [slash]),
    if_neg (by simp [starts]), if_pos isDigit]

theorem number_integer {cs : List Char} (each : ∀ x ∈ cs, Text.isDigit x = true)
    (stops : ∀ x ∈ later.head?, Text.isDigit x = false)
    (point : ∀ d tail, later = '.' :: d :: tail → Text.isDigit d = false)
    (notDate : startsWithDate (c :: (cs ++ later)) = false) :
    number c (cs ++ later) = .lexeme (.integer (String.ofList (c :: cs))) cs.length := by
  unfold number
  rw [notDate, takeWhile_spelled each stops, dropWhile_spelled each stops]
  simp only [Bool.false_eq_true, if_false]
  split
  case h_1 _ d tail => rw [point d tail rfl, if_neg (by simp)]
  case h_2 => rfl

theorem number_real {d : Char} {whole fraction : List Char}
    (each : ∀ x ∈ whole, Text.isDigit x = true) (isDigit : Text.isDigit d = true)
    (others : ∀ x ∈ fraction, Text.isDigit x = true)
    (stops : ∀ x ∈ later.head?, Text.isDigit x = false) :
    number c (whole ++ '.' :: d :: fraction ++ later) =
      .lexeme (.real (String.ofList (c :: whole ++ '.' :: d :: fraction)))
        (whole ++ '.' :: d :: fraction).length := by
  have point : ∀ x ∈ ('.' :: d :: (fraction ++ later)).head?, Text.isDigit x = false ∧ x ≠ '/' := by
    simp only [List.head?_cons, Option.mem_some_iff, forall_eq']
    decide
  have stops' := fun x isHead => (point x isHead).1
  unfold number
  rw [List.append_assoc, List.cons_append, List.cons_append, startsWithDate_digits each point,
    takeWhile_spelled each stops', dropWhile_spelled each stops']
  simp only [Bool.false_eq_true, if_false, isDigit, if_true, takeWhile_spelled others stops,
    List.length_append, List.length_cons]
  rw [Nat.add_assoc, Nat.add_comm 1]

theorem quoted_spelled {quote : Char} {kind : TokenKind} {literal : String → Lexeme}
    {body : List Char} (inner : ∀ x ∈ body, x ≠ quote ∧ x ≠ '\n') :
    quoted quote kind literal (body ++ [quote] ++ later) =
      .ok (.lexeme (literal (String.ofList body)) (body ++ [quote]).length) := by
  have whole : (body ++ quote :: later).takeWhile (fun c => c ≠ quote && c ≠ '\n') = body :=
    takeWhile_spelled (by simpa using inner) (by simp)
  unfold quoted
  rw [List.append_assoc, List.singleton_append, whole]
  simp

/-- A lexeme is found where it is spelled. -/
theorem ofText_spelled {l : Lexeme} {cs : List Char} (spelled : l.Spelled c cs later) :
    ofText c (cs ++ later) = .ok (.lexeme l cs.length) := by
  cases spelled with
  | newline => rfl
  | word starts each stops => rw [ofText_word starts, takeWhile_spelled each stops]
  | date starts isDate nine =>
    have isDigit : Text.isDigit c = true := by
      obtain ⟨d, m₁, m₂, y₁, y₂, y₃, y₄, tail, -, digits, -⟩ := startsWithDate_cons.mp isDate
      exact digits c (by simp)
    rw [ofText_number starts isDigit, number, if_pos isDate, ← nine, List.take_left]
  | real starts isDigit each isDigit' others stops =>
    rw [ofText_number starts isDigit, number_real each isDigit' others stops]
  | integer starts isDigit each stops point notDate =>
    rw [ofText_number starts isDigit, number_integer each stops point notDate]
  | string inner => exact quoted_spelled inner
  | char inner => exact quoted_spelled inner
  | arrow =>
    have starts : isWordStart '←' = false := by decide +kernel
    have isDigit : Text.isDigit '←' = false := by decide +kernel
    unfold ofText
    simp [starts, isDigit]
  | @sign s _ _ spells stands =>
    obtain ⟨starts, isDigit, other⟩ := s.spelling_plain c (by simp [spells])
    simp only [List.mem_cons, List.not_mem_nil, or_false, not_or] at other
    have notComment : ¬ (c = '/' ∧ later.head? = some '/') := by
      rintro ⟨isSlash, comment⟩
      exact (stands '/' comment).2.2 isSlash rfl
    unfold ofText
    rw [List.nil_append, if_neg (by simp [other]), if_neg other.2.2.2, if_neg notComment,
      if_neg (by simp [starts]), if_neg (by simp [isDigit])]
    cases s with
    | less =>
      obtain rfl : '<' = c := (List.cons.inj (show ['<'] = [c] from spells)).1
      cases later with
      | nil => rfl
      | cons x later => have := stands x rfl; simp_all
    | greater =>
      obtain rfl : '>' = c := (List.cons.inj (show ['>'] = [c] from spells)).1
      cases later with
      | nil => rfl
      | cons x later => have := stands x rfl; simp_all
    | _ => cases spells <;> rfl
  | @signs s _ x later spells =>
    obtain ⟨starts, isDigit, other⟩ := s.spelling_plain c (by simp [spells])
    simp only [List.mem_cons, List.not_mem_nil, or_false, not_or] at other
    have notComment : ¬ (c = '/' ∧ (x :: later).head? = some '/') := by
      rintro ⟨rfl, -⟩
      cases s <;> cases spells
    unfold ofText
    rw [List.singleton_append, if_neg (by simp [other]), if_neg other.2.2.2, if_neg notComment,
      if_neg (by simp [starts]), if_neg (by simp [isDigit])]
    cases s <;> cases spells <;> rfl

/-- What a piece of a text takes is spelled there. -/
def Spells (c : Char) (rest : List Char) : Piece → Prop
  | layout _ => True
  | lexeme l more => ∃ cs later, rest = cs ++ later ∧ cs.length = more ∧ l.Spelled c cs later

theorem number_spells (rest : List Char) (starts : isWordStart c = false)
    (isDigit : Text.isDigit c = true) : (number c rest).Spells c rest := by
  have whole := List.takeWhile_append_dropWhile (p := Text.isDigit) (l := rest)
  have each : ∀ x ∈ rest.takeWhile Text.isDigit, Text.isDigit x = true :=
    fun x member => List.mem_takeWhile_imp member
  have stops := stops_dropWhile Text.isDigit rest
  unfold number
  split
  case isTrue isDate =>
    have long := startsWithDate_length isDate
    refine ⟨rest.take 9, rest.drop 9, (List.take_append_drop 9 rest).symm, by simp; omega, ?_⟩
    exact .date starts (by rwa [List.take_append_drop]) (by simp; omega)
  case isFalse notDate =>
    rw [Bool.not_eq_true, ← whole] at notDate
    have integer (point : ∀ d tail, rest.dropWhile Text.isDigit = '.' :: d :: tail →
        Text.isDigit d = false) :
        (Piece.lexeme (.integer (String.ofList (c :: rest.takeWhile Text.isDigit)))
          (rest.takeWhile Text.isDigit).length).Spells c rest :=
      ⟨_, _, whole.symm, rfl, .integer starts isDigit each stops point notDate⟩
    dsimp only
    split
    case h_1 d tail point =>
      split
      case isTrue isDigit' =>
        have fraction := List.takeWhile_append_dropWhile (p := Text.isDigit) (l := tail)
        refine ⟨rest.takeWhile Text.isDigit ++ '.' :: d :: tail.takeWhile Text.isDigit,
          tail.dropWhile Text.isDigit, ?_, by simp; omega, ?_⟩
        · rw [List.append_assoc, List.cons_append, List.cons_append, fraction, ← point, whole]
        · exact .real starts isDigit each isDigit' (fun x member => List.mem_takeWhile_imp member)
            (stops_dropWhile _ _)
      case isFalse notDigit => exact integer (by simp_all)
    case h_2 noPoint => exact integer fun d tail point => absurd point (noPoint d tail)

theorem quoted_spells {quote : Char} {kind : TokenKind} {literal : String → Lexeme}
    {piece : Piece} (isPiece : quoted quote kind literal rest = .ok piece)
    (spelled : ∀ body later, (∀ x ∈ body, x ≠ quote ∧ x ≠ '\n') →
      (literal (String.ofList body)).Spelled quote (body ++ [quote]) later) :
    piece.Spells quote rest := by
  unfold quoted at isPiece
  dsimp only at isPiece
  split at isPiece
  case isTrue closes =>
    cases isPiece
    obtain ⟨later, isLater⟩ := List.head?_eq_some_iff.mp closes
    have whole := List.prefix_iff_eq_append.mp
      (List.takeWhile_prefix (fun c => c ≠ quote && c ≠ '\n') (l := rest))
    rw [isLater] at whole
    refine ⟨_ ++ [quote], later, ?_, by simp, spelled _ later fun x member => ?_⟩
    · rw [List.append_assoc]
      exact whole.symm
    · simpa using List.mem_takeWhile_imp member
  case isFalse => cases isPiece

theorem sign_spells {s : Symbol} (spells : s.spelling.toList = [c])
    (stands : Symbol.Stands c rest) : (lexeme (.symbol s) 0).Spells c rest :=
  ⟨[], rest, rfl, rfl, .sign spells stands⟩

theorem signs_spells {s : Symbol} {x : Char} (spells : s.spelling.toList = [c, x])
    (next : rest.head? = some x) : (lexeme (.symbol s) 1).Spells c rest := by
  obtain ⟨later, rfl⟩ := List.head?_eq_some_iff.mp next
  exact ⟨[x], later, rfl, rfl, .signs spells⟩

/-- A lexeme is spelled where it is found. -/
theorem ofText_spells {piece : Piece} (isPiece : ofText c rest = .ok piece) :
    piece.Spells c rest := by
  unfold ofText at isPiece
  split at isPiece
  · cases isPiece; trivial
  split at isPiece
  · cases isPiece
    subst c
    exact ⟨[], rest, rfl, rfl, .newline⟩
  split at isPiece
  · cases isPiece; trivial
  rename_i notComment
  split at isPiece
  case isTrue starts =>
    rw [word_eq] at isPiece
    cases isPiece
    exact ⟨_, _, List.takeWhile_append_dropWhile.symm, rfl,
      .word starts (fun _ member => List.mem_takeWhile_imp member) (stops_dropWhile _ _)⟩
  split at isPiece
  case isTrue starts isDigit =>
    cases isPiece
    exact number_spells rest (by simpa using starts) isDigit
  split at isPiece
  · exact quoted_spells isPiece fun _ _ inner => .string inner
  · exact quoted_spells isPiece fun _ _ inner => .char inner
  · cases isPiece
    exact ⟨[], rest, rfl, rfl, .arrow⟩
  case h_4 =>
    split at isPiece <;> cases isPiece
    · exact signs_spells rfl ‹_›
    · exact signs_spells rfl ‹_›
    · exact signs_spells rfl ‹_›
    · rename_i minus equal greater
      exact sign_spells rfl fun x next => by simp_all
  case h_5 =>
    split at isPiece <;> cases isPiece
    · exact signs_spells rfl ‹_›
    · exact sign_spells rfl fun x next => by simp_all
  case h_10 =>
    cases isPiece
    refine sign_spells rfl fun x next => ?_
    simp_all
  all_goals
    cases isPiece
    try exact sign_spells rfl fun x next => by simp

/-- What is passed over: a blank, or a comment up to the end of its line. -/
theorem ofText_layout {more : Nat} (isPiece : ofText c rest = .ok (.layout more)) :
    ((c = ' ' ∨ c = '\t' ∨ c = '\r') ∧ more = 0) ∨
      (c = '/' ∧ rest.head? = some '/' ∧ more = (rest.takeWhile (· ≠ '\n')).length) := by
  have noNumber : number c rest ≠ .layout more := by
    unfold number
    dsimp only
    split_ifs
    · nofun
    · split
      · split_ifs <;> nofun
      · nofun
  have noQuote (quote : Char) (kind : TokenKind) (literal : String → Lexeme) :
      quoted quote kind literal rest ≠ .ok (.layout more) := by
    unfold quoted
    dsimp only
    split_ifs <;> nofun
  unfold ofText at isPiece
  split at isPiece
  case isTrue blank => exact .inl ⟨blank, by simpa using isPiece.symm⟩
  split at isPiece
  · cases isPiece
  split at isPiece
  case isTrue comment => exact .inr ⟨comment.1, comment.2, by simpa using isPiece.symm⟩
  split at isPiece
  · rw [word_eq] at isPiece
    cases isPiece
  split at isPiece
  · exact absurd (Except.ok.inj isPiece) noNumber
  split at isPiece
  · exact absurd isPiece (noQuote _ _ _)
  · exact absurd isPiece (noQuote _ _ _)
  all_goals first | cases isPiece | (split at isPiece <;> cases isPiece)

end Piece

/-! ## Texts that are cut -/

/-- The texts do not share a number: if a digit ends the first, none starts the second. -/
def Text.Apart (cs ds : List Char) : Prop :=
  ∀ x ∈ cs.getLast?, ∀ y ∈ ds.head?, Text.isDigit x = true → Text.isDigit y = false

theorem Text.Apart.prepend {ds : List Char} (some : ds ≠ []) (apart : Apart ds later) :
    Apart (cs ++ ds) later := by
  unfold Apart at apart ⊢
  rw [List.getLast?_eq_some_getLast some] at apart
  rw [List.getLast?_append, List.getLast?_eq_some_getLast some]
  exact apart

theorem startsWithDate_nine (nine : cs.length = 9) (later : List Char) :
    startsWithDate (c :: (cs ++ later)) =
      (startsWithDate (c :: cs) && !later.head?.any Text.isDigit) := by
  match cs, nine with
  | [d, s₁, m₁, m₂, s₂, y₁, y₂, y₃, y₄], _ => simp [startsWithDate]

theorem startsWithDate_append {rest more : List Char} (isDate : startsWithDate (c :: rest) = true)
    (apart : Text.Apart (c :: rest) more) : startsWithDate (c :: (rest ++ more)) = true := by
  obtain ⟨d, m₁, m₂, y₁, y₂, y₃, y₄, tail, rfl, digits, after⟩ := startsWithDate_cons.mp isDate
  refine startsWithDate_cons.mpr ⟨d, m₁, m₂, y₁, y₂, y₃, y₄, tail ++ more, by simp, digits, ?_⟩
  cases tail with
  | nil =>
    cases more with
    | nil => rfl
    | cons y more =>
      have := apart y₄ (by simp) y rfl (digits y₄ (by simp))
      simpa using this
  | cons x tail => exact after

namespace Lexeme.Spelled

variable {l : Lexeme} {c : Char} {cs later more : List Char}

theorem ne_endOfInput (spelled : l.Spelled c cs later) : l ≠ .endOfInput := by
  cases spelled with
  | word =>
    unfold ofWord
    split <;> simp
  | _ => simp

/-- A lexeme goes as far as its digits do. -/
theorem apart (spelled : l.Spelled c cs later) : Text.Apart (c :: cs) later := by
  intro x isLast y isHead isDigit
  have member : x ∈ c :: cs := List.mem_of_getLast? isLast
  cases spelled with
  | newline =>
    obtain rfl : x = '\n' := by simpa using member
    cases isDigit
  | word _ _ stops =>
    have := stops y isHead
    simp_all [isWordPart]
  | date _ isDate nine =>
    rw [startsWithDate_nine nine, Bool.and_eq_true, isHead] at isDate
    simpa using isDate.2
  | real _ _ _ _ _ stops => exact stops y isHead
  | integer _ _ _ stops => exact stops y isHead
  | string | char =>
    rw [← List.cons_append, List.getLast?_concat] at isLast
    cases isLast
    cases isDigit
  | arrow =>
    obtain rfl : x = '←' := by simpa using member
    exact absurd isDigit (by decide +kernel)
  | @sign s _ _ spells | @signs s _ _ _ spells =>
    have plain := (s.spelling_plain x (by rwa [spells])).2.1
    rw [plain] at isDigit
    cases isDigit

/-- What is spelled in front of a text is spelled in front of its first part. -/
theorem cut (spelled : l.Spelled c cs (later ++ more))
    (apart : Text.Apart (c :: (cs ++ later)) more) : l.Spelled c cs later := by
  have head {x : Char} (isHead : x ∈ later.head?) : x ∈ (later ++ more).head? := by
    cases later with
    | nil => cases isHead
    | cons => exact isHead
  cases spelled with
  | newline => exact .newline
  | word starts each stops => exact .word starts each fun x isHead => stops x (head isHead)
  | date starts isDate nine =>
    refine .date starts ?_ nine
    rw [startsWithDate_nine nine, Bool.and_eq_true] at isDate ⊢
    refine ⟨isDate.1, ?_⟩
    cases later with
    | nil => rfl
    | cons => exact isDate.2
  | real starts isDigit each isDigit' others stops =>
    exact .real starts isDigit each isDigit' others fun x isHead => stops x (head isHead)
  | integer starts isDigit each stops point notDate =>
    refine .integer starts isDigit each (fun x isHead => stops x (head isHead)) ?_ ?_
    · rintro d tail rfl
      exact point d (tail ++ more) rfl
    · rw [Bool.eq_false_iff]
      intro isDate
      have := startsWithDate_append isDate apart
      rw [List.append_assoc, notDate] at this
      cases this
  | string inner => exact .string inner
  | char inner => exact .char inner
  | arrow => exact .arrow
  | sign spells stands => exact .sign spells fun x isHead => stands x (head isHead)
  | signs spells => exact .signs spells

end Lexeme.Spelled

/-- What is passed over is passed over in a text that is cut behind it. -/
theorem Piece.ofText_layout_cut {more : List Char} {n : Nat}
    (isPiece : ofText c (cs ++ more) = .ok (.layout n)) (fits : n ≤ cs.length) :
    ofText c cs = .ok (.layout n) := by
  rcases ofText_layout isPiece with ⟨blank, rfl⟩ | ⟨rfl, comment, isLength⟩
  · unfold ofText
    rw [if_pos blank]
  · have whole : (cs ++ more).takeWhile (· ≠ '\n') = cs.takeWhile (· ≠ '\n') := by
      rw [isLength, List.takeWhile_append] at fits
      rw [List.takeWhile_append]
      split
      case isTrue all =>
        rw [if_pos all, List.length_append] at fits
        have none : more.takeWhile (· ≠ '\n') = [] := List.length_eq_zero_iff.mp (by omega)
        rw [none, List.append_nil]
        exact ((List.takeWhile_prefix _).eq_of_length all).symm
      case isFalse => rfl
    have second : cs.head? = some '/' := by
      cases cs with
      | nil =>
        obtain ⟨later, rfl⟩ := List.head?_eq_some_iff.mp comment
        simp at isLength fits
        omega
      | cons => exact comment
    unfold ofText
    rw [if_neg (by decide), if_neg (by decide), if_pos ⟨rfl, second⟩, ← whole, isLength]

end Pseudocode
