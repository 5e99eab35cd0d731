import Mathlib.Data.List.TakeWhile
import Pseudocode.Parser.Statement

/-! # How parsers move

Most parsers stay on the line where they start: they move over tokens that do not end it, and what
they complain about is a token of the line or its end. For expressions this also shows that the bound
on the recursion is large enough, because between two moves the parsers call each other a limited
number of times. -/

namespace Pseudocode

def Lexeme.endsLine : Lexeme → Bool
  | endOfLine | endOfInput => true
  | _ => false

theorem Token.isEnd_of_not_endsLine {t : Token} (inner : t.lexeme.endsLine = false) :
    t.isEnd = false := by
  cases same : t.lexeme <;> simp_all [Lexeme.endsLine, Token.isEnd]

namespace Cursor

def tokens (c : Cursor) : List Token :=
  c.here :: c.rest

/-- The end of the input is the last token and no other. -/
def Closed (c : Cursor) : Prop :=
  ∃ body stop, c.tokens = body ++ [stop] ∧ stop.isEnd = true ∧ ∀ t ∈ body, t.isEnd = false

/-- The cursor `d` is on the line of `c`, at the same place or later. -/
def Along (c d : Cursor) : Prop :=
  ∃ passed, c.tokens = passed ++ d.tokens ∧ ∀ t ∈ passed, t.lexeme.endsLine = false

/-- The cursor `d` is on the line of `c` and later. -/
def Ahead (c d : Cursor) : Prop :=
  ∃ passed, passed ≠ [] ∧ c.tokens = passed ++ d.tokens ∧ ∀ t ∈ passed, t.lexeme.endsLine = false

/-- The token is on the line of the cursor or ends it. -/
def OnLine (c : Cursor) (t : Token) : Prop :=
  ∃ passed later, c.tokens = passed ++ t :: later ∧ ∀ u ∈ passed, u.lexeme.endsLine = false

/-- How many tokens the line still has. -/
def width (c : Cursor) : Nat :=
  (c.tokens.takeWhile fun t => !t.lexeme.endsLine).length

variable {c d e : Cursor}

theorem Closed.rest_ne_nil (closed : c.Closed) (inner : c.here.isEnd = false) : c.rest ≠ [] := by
  intro none
  obtain ⟨body, stop, all, isEnd, -⟩ := closed
  rw [tokens, none] at all
  cases body with
  | nil =>
    cases all
    rw [inner] at isEnd
    cases isEnd
  | cons t body => simp at all

theorem Closed.isEnd_of_rest (closed : c.Closed) (none : c.rest = []) : c.here.isEnd = true := by
  by_contra notEnd
  exact closed.rest_ne_nil (Bool.eq_false_iff.mpr notEnd) none

theorem Closed.tokens_next (closed : c.Closed) (inner : c.here.isEnd = false) :
    c.tokens = c.here :: c.next.tokens := by
  have more := closed.rest_ne_nil inner
  unfold next tokens
  cases rest : c.rest with
  | nil => exact absurd rest more
  | cons t later => rfl

theorem Closed.rest_next (closed : c.Closed) (inner : c.here.isEnd = false) :
    c.rest = c.next.tokens :=
  (List.cons.inj (closed.tokens_next inner)).2

theorem Along.refl (c : Cursor) : c.Along c := ⟨[], rfl, by simp⟩

theorem Along.trans (first : c.Along d) (second : d.Along e) : c.Along e := by
  obtain ⟨passed, here, inner⟩ := first
  obtain ⟨passed', here', inner'⟩ := second
  refine ⟨passed ++ passed', by rw [here, here', List.append_assoc], ?_⟩
  simpa [or_imp, forall_and] using ⟨inner, inner'⟩

theorem Ahead.along (ahead : c.Ahead d) : c.Along d := by
  obtain ⟨passed, -, here, inner⟩ := ahead
  exact ⟨passed, here, inner⟩

theorem Ahead.trans_along (first : c.Ahead d) (second : d.Along e) : c.Ahead e := by
  obtain ⟨passed, some, here, inner⟩ := first
  obtain ⟨passed', here', inner'⟩ := second
  refine ⟨passed ++ passed', by simp [some], by rw [here, here', List.append_assoc], ?_⟩
  simpa [or_imp, forall_and] using ⟨inner, inner'⟩

theorem Closed.ahead_next (closed : c.Closed) (inner : c.here.lexeme.endsLine = false) :
    c.Ahead c.next := by
  refine ⟨[c.here], by simp, closed.tokens_next (Token.isEnd_of_not_endsLine inner), ?_⟩
  simpa using inner

/-- What is left of the tokens after some of them ends as all of them do. -/
theorem Closed.of_append (closed : c.Closed) {passed : List Token}
    (here : c.tokens = passed ++ d.tokens) : d.Closed := by
  obtain ⟨body, stop, all, isEnd, inner⟩ := closed
  rw [all] at here
  rcases List.append_eq_append_iff.mp here with ⟨more, rfl, same⟩ | ⟨more, rfl, same⟩
  · cases more with
    | nil => exact ⟨[], stop, same.symm, isEnd, by simp⟩
    | cons t more =>
      have empty : more ++ d.tokens = [] := by simpa using (List.cons.inj same).2.symm
      simp [tokens] at empty
  · exact ⟨more, stop, same, isEnd, fun t member => inner t (List.mem_append_right _ member)⟩

theorem Closed.along (closed : c.Closed) (along : c.Along d) : d.Closed := by
  obtain ⟨passed, here, -⟩ := along
  exact closed.of_append here

theorem Along.width_le (along : c.Along d) : d.width ≤ c.width := by
  obtain ⟨passed, here, inner⟩ := along
  unfold width
  rw [here, List.takeWhile_append_of_pos (by simpa using inner), List.length_append]
  omega

theorem Ahead.width_lt (ahead : c.Ahead d) : d.width < c.width := by
  obtain ⟨passed, some, here, inner⟩ := ahead
  have positive : 0 < passed.length := List.length_pos_iff.mpr some
  unfold width
  rw [here, List.takeWhile_append_of_pos (by simpa using inner), List.length_append]
  omega

theorem OnLine.here (c : Cursor) : c.OnLine c.here := ⟨[], c.rest, rfl, by simp⟩

theorem Along.onLine (along : c.Along d) {t : Token} (onLine : d.OnLine t) : c.OnLine t := by
  obtain ⟨passed, here, inner⟩ := along
  obtain ⟨passed', later, here', inner'⟩ := onLine
  refine ⟨passed ++ passed', later, by rw [here, here', List.append_assoc], ?_⟩
  simpa [or_imp, forall_and] using ⟨inner, inner'⟩

/-- The error is about a token of the line or about its end. -/
def Reports (c : Cursor) (e : SyntaxError) : Prop :=
  e.cause ≠ .nestedTooDeep ∧ ∃ t, c.OnLine t ∧ e.position = t.start ∧ e.incomplete = t.isEnd

theorem Along.reports (along : c.Along d) {e : SyntaxError} (reports : d.Reports e) :
    c.Reports e := by
  obtain ⟨cause, t, onLine, same⟩ := reports
  exact ⟨cause, t, along.onLine onLine, same⟩

end Cursor

def Level.height : Level → Nat
  | .or => 5
  | .and => 4
  | .comparison => 3
  | .join => 2
  | .sum => 1
  | .product => 0

theorem Level.height_le (level : Level) : level.height ≤ 5 := by
  cases level <;> decide

theorem Lexeme.endsLine_of_operator? {level : Level} {l : Lexeme} {op : BinaryOp}
    (isOperator : level.operator? l = some op) : l.endsLine = false := by
  cases l with
  | endOfInput | endOfLine => simp [Level.operator?, Lexeme.binaryOp?] at isOperator
  | _ => rfl

namespace Parser

variable {α β : Type} {c d : Cursor} {p : Parser α} {k : α → Parser β}

/-! ## Runs of the simple parsers -/

section Runs

theorem peek_run : peek.run c = .ok (c.here, c) := rfl

theorem peekLexeme_run : peekLexeme.run c = .ok (c.here.lexeme, c) := rfl

theorem advance_run : advance.run c = .ok (c.here, c.next) := rfl

theorem get_run : (get : Parser Cursor).run c = .ok (c, c) := rfl

theorem spanFrom_run (start : Token) :
    (spanFrom start).run c = .ok (⟨start.start, c.last.stop⟩, c) := rfl

theorem atKeyword_run (word : Keyword) :
    (atKeyword word).run c = .ok (decide (c.here.lexeme = .keyword word), c) := rfl

theorem atSymbol_run (sign : Symbol) :
    (atSymbol sign).run c = .ok (decide (c.here.lexeme = .symbol sign), c) := rfl

end Runs

/-- What holds of the result and the place where the parser stops, and of the error if it fails. -/
def Yields (p : Parser α) (c : Cursor) (ok : α → Cursor → Prop) (err : SyntaxError → Prop) : Prop :=
  match p.run c with
  | .ok (a, d) => ok a d
  | .error e => err e

variable {err : SyntaxError → Prop} {ok : β → Cursor → Prop}

theorem Yields.after {a : α} (ran : p.run c = .ok (a, d)) (second : Yields (k a) d ok err) :
    Yields (p >>= k) c ok err := by
  unfold Yields at *
  rw [StateT.run_bind, ran]
  exact second

theorem Yields.mono {ok ok' : α → Cursor → Prop} {err' : SyntaxError → Prop}
    (yields : Yields p c ok err) (weaker : ∀ a d, ok a d → ok' a d)
    (weaker' : ∀ e, err e → err' e) : Yields p c ok' err' := by
  unfold Yields at *
  cases ran : p.run c with
  | ok result =>
    rw [ran] at yields
    exact weaker _ _ yields
  | error e =>
    rw [ran] at yields
    exact weaker' _ yields

theorem Yields.bind {mid : α → Cursor → Prop} (first : Yields p c mid err)
    (second : ∀ a d, mid a d → Yields (k a) d ok err) : Yields (p >>= k) c ok err := by
  unfold Yields at first ⊢
  rw [StateT.run_bind]
  cases ran : p.run c with
  | ok result =>
    rw [ran] at first
    exact second _ _ first
  | error e =>
    rw [ran] at first
    exact first

/-! ## Parsers on a line -/

/-- The parser stays on its line, and so does what it complains about. -/
def Reads (p : Parser α) (c : Cursor) : Prop :=
  Yields p c (fun _ d => c.Along d) c.Reports

/-- The parser moves on without leaving its line, and what it complains about is there too. -/
def Consumes (p : Parser α) (c : Cursor) : Prop :=
  Yields p c (fun _ d => c.Ahead d) c.Reports

theorem Consumes.reads (consumes : Consumes p c) : Reads p c :=
  consumes.mono (fun _ _ ahead => ahead.along) fun _ reports => reports

theorem Reads.bind (first : Reads p c) (second : ∀ a d, c.Along d → Reads (k a) d) :
    Reads (p >>= k) c :=
  Yields.bind first fun a d along =>
    (second a d along).mono (fun _ _ => along.trans) fun _ => along.reports

theorem Consumes.bind (first : Consumes p c) (second : ∀ a d, c.Ahead d → Reads (k a) d) :
    Consumes (p >>= k) c :=
  Yields.bind first fun a d ahead =>
    (second a d ahead).mono (fun _ _ => ahead.trans_along) fun _ => ahead.along.reports

theorem Reads.pure (a : α) (c : Cursor) : Reads (pure a) c := .refl c

theorem Reads.looking {a : α} (ran : p.run c = .ok (a, c)) (second : Reads (k a) c) :
    Reads (p >>= k) c :=
  Yields.after ran second

theorem Consumes.looking {a : α} (ran : p.run c = .ok (a, c)) (second : Consumes (k a) c) :
    Consumes (p >>= k) c :=
  Yields.after ran second

theorem advance_consumes (closed : c.Closed) (inner : c.here.lexeme.endsLine = false) :
    Consumes advance c :=
  closed.ahead_next inner

theorem fail_consumes {t : Token} {cause : SyntaxError.Cause} (onLine : c.OnLine t)
    (honest : cause ≠ .nestedTooDeep) : Consumes (fail t cause : Parser α) c :=
  ⟨honest, t, onLine, rfl, rfl⟩

theorem failWanting_consumes (wanted : Wanted) : Consumes (failWanting wanted : Parser α) c :=
  ⟨nofun, c.here, .here c, rfl, rfl⟩

theorem keyword_consumes (closed : c.Closed) (word : Keyword) : Consumes (keyword word) c := by
  refine .looking (atKeyword_run word) ?_
  split
  case isTrue there =>
    refine advance_consumes closed ?_
    rw [of_decide_eq_true there]
    rfl
  case isFalse => exact failWanting_consumes _

theorem symbol_consumes (closed : c.Closed) (sign : Symbol) : Consumes (symbol sign) c := by
  refine .looking (atSymbol_run sign) ?_
  split
  case isTrue there =>
    refine advance_consumes closed ?_
    rw [of_decide_eq_true there]
    rfl
  case isFalse => exact failWanting_consumes _

theorem optionalSymbol_reads (closed : c.Closed) (sign : Symbol) :
    Reads (optionalSymbol sign) c := by
  refine .looking (atSymbol_run sign) ?_
  split
  case isTrue there =>
    refine (advance_consumes closed ?_).reads.bind fun _ _ _ => .pure ..
    rw [of_decide_eq_true there]
    rfl
  case isFalse => exact .pure ..

theorem identifier_consumes (closed : c.Closed) : Consumes identifier c := by
  refine .looking peek_run ?_
  split
  case h_1 name isName =>
    refine (advance_consumes closed ?_).bind fun _ _ _ => .pure ..
    rw [isName]
    rfl
  case h_2 => exact failWanting_consumes _

/-! ## Expressions

Twenty calls for each token of the line are enough, and a few for the end of the line. -/

mutual

theorem levelExpr_consumes {n : Nat} {level : Level} {c : Cursor} (closed : c.Closed)
    (enough : 20 * c.width + 2 * level.height + 4 < n) : Consumes (levelExpr n level) c := by
  cases n with
  | zero => omega
  | succ n =>
    rw [levelExpr]
    refine .looking (atKeyword_run .not) ?_
    split
    case isTrue there =>
      have isNot : c.here.lexeme = .keyword .not := by simp_all
      refine (advance_consumes closed (by rw [isNot]; rfl)).bind fun start d ahead => ?_
      have narrower := ahead.width_lt
      have operand := levelExpr_consumes (closed.along ahead.along)
        (show 20 * d.width + 2 * level.height + 4 < n by omega)
      exact operand.reads.bind fun _ _ _ => .looking (spanFrom_run start) (.pure ..)
    case isFalse =>
      refine .looking peek_run ?_
      refine (operandExpr_consumes closed (by omega)).bind fun left d ahead => ?_
      have narrower := ahead.width_lt
      exact chainExpr_reads (closed.along ahead.along) (by omega)

theorem operandExpr_consumes {n : Nat} {level : Level} {c : Cursor} (closed : c.Closed)
    (enough : 20 * c.width + 2 * level.height + 3 < n) : Consumes (operandExpr n level) c := by
  cases n with
  | zero => omega
  | succ n =>
    rw [operandExpr]
    cases level with
    | product => exact unaryExpr_consumes closed (by simp only [Level.height] at enough; omega)
    | _ =>
      simp only [Level.tighter?]
      exact levelExpr_consumes closed (by simp only [Level.height] at enough ⊢; omega)

theorem chainExpr_reads {n : Nat} {level : Level} {start : Token} {left : Expr} {c : Cursor}
    (closed : c.Closed) (enough : 20 * c.width < n) : Reads (chainExpr n level start left) c := by
  cases n with
  | zero => omega
  | succ n =>
    rw [chainExpr]
    refine .looking peekLexeme_run ?_
    split
    case h_1 => exact .pure ..
    case h_2 op isOperator =>
      have inner := Lexeme.endsLine_of_operator? isOperator
      refine ((advance_consumes closed inner).bind fun _ d ahead => ?_).reads
      have narrower := ahead.width_lt
      have low : level.height ≤ 5 := level.height_le
      have operand := operandExpr_consumes (closed.along ahead.along)
        (show 20 * d.width + 2 * level.height + 3 < n by omega)
      refine (operand.bind fun right e ahead' => ?_).reads
      have narrower' := ahead'.width_lt
      refine .looking (spanFrom_run start) ?_
      exact chainExpr_reads (closed.along (ahead.along.trans ahead'.along)) (by omega)

theorem unaryExpr_consumes {n : Nat} {c : Cursor} (closed : c.Closed)
    (enough : 20 * c.width + 2 < n) : Consumes (unaryExpr n) c := by
  cases n with
  | zero => omega
  | succ n =>
    rw [unaryExpr]
    refine .looking (atSymbol_run .minus) ?_
    split
    case isTrue there =>
      have inner : c.here.lexeme.endsLine = false := by simp_all [Lexeme.endsLine]
      refine (advance_consumes closed inner).bind fun start d ahead => ?_
      have closed' := closed.along ahead.along
      refine .looking peek_run ?_
      split
      case isTrue isLeast =>
        have inner' : d.here.lexeme.endsLine = false := by rw [isLeast]; rfl
        exact (advance_consumes closed' inner').reads.bind fun _ _ _ => .pure ..
      case isFalse =>
        have narrower := ahead.width_lt
        refine (unaryExpr_consumes closed' (by omega)).reads.bind fun _ _ _ => ?_
        exact .looking (spanFrom_run start) (.pure ..)
    case isFalse => exact primaryExpr_consumes closed (by omega)

theorem primaryExpr_consumes {n : Nat} {c : Cursor} (closed : c.Closed)
    (enough : 20 * c.width + 1 < n) : Consumes (primaryExpr n) c := by
  cases n with
  | zero => omega
  | succ n =>
    rw [primaryExpr]
    refine .looking peek_run ?_
    have ahead (inner : c.here.lexeme.endsLine = false) : c.Ahead c.next :=
      closed.ahead_next inner
    -- A literal out of range is reported where it stands, although it has been moved over.
    split
    case h_1 digits isInteger =>
      refine Yields.after advance_run ?_
      split
      · exact ahead (by rw [isInteger]; rfl)
      · exact ⟨nofun, c.here, .here c, rfl, rfl⟩
    case h_2 text isReal =>
      refine Yields.after advance_run ?_
      split
      · exact ahead (by rw [isReal]; rfl)
      · exact ⟨nofun, c.here, .here c, rfl, rfl⟩
    case h_3 body isString => exact ahead (by rw [isString]; rfl)
    case h_4 body isChar => exact ahead (by rw [isChar]; rfl)
    case h_5 text isDate => exact ahead (by rw [isDate]; rfl)
    case h_6 isTrue => exact ahead (by rw [isTrue]; rfl)
    case h_7 isFalse => exact ahead (by rw [isFalse]; rfl)
    case h_8 name isName =>
      refine (advance_consumes closed (by rw [isName]; rfl)).bind fun _ d ahead => ?_
      have narrower := ahead.width_lt
      refine .looking (atSymbol_run .leftParen) ?_
      split
      · refine (argumentExprs_consumes (closed.along ahead.along) (by omega)).reads.bind ?_
        exact fun _ _ _ => .looking (spanFrom_run c.here) (.pure ..)
      · exact .pure ..
    case h_9 isParen =>
      refine (advance_consumes closed (by rw [isParen]; rfl)).bind fun _ d ahead => ?_
      have narrower := ahead.width_lt
      have closed' := closed.along ahead.along
      have inner : Consumes (levelExpr n .or) d :=
        levelExpr_consumes closed' (by simp only [Level.height]; omega)
      refine inner.reads.bind fun inner e along => ?_
      exact (symbol_consumes (closed'.along along) _).reads.bind fun _ _ _ => .pure ..
    case h_10 => exact fail_consumes (.here c) nofun

theorem argumentExprs_consumes {n : Nat} {c : Cursor} (closed : c.Closed)
    (enough : 20 * c.width < n) : Consumes (argumentExprs n) c := by
  cases n with
  | zero => omega
  | succ n =>
    rw [argumentExprs]
    refine (symbol_consumes closed _).bind fun _ d ahead => ?_
    have closed' := closed.along ahead.along
    refine (optionalSymbol_reads closed' _).bind fun none e along => ?_
    have narrower := ahead.width_lt
    have narrower' := along.width_le
    split
    · exact .pure ..
    · exact (moreArguments_consumes (closed'.along along) (by omega)).reads

theorem moreArguments_consumes {n : Nat} {c : Cursor} (closed : c.Closed)
    (enough : 20 * c.width + 15 < n) : Consumes (moreArguments n) c := by
  cases n with
  | zero => omega
  | succ n =>
    rw [moreArguments]
    have argument : Consumes (levelExpr n .or) c :=
      levelExpr_consumes closed (by simp only [Level.height]; omega)
    refine argument.bind fun first d ahead => ?_
    have closed' := closed.along ahead.along
    refine (optionalSymbol_reads closed' _).bind fun more e along => ?_
    have narrower := ahead.width_lt
    have narrower' := along.width_le
    have closed'' := closed'.along along
    split
    · exact (moreArguments_consumes closed'' (by omega)).reads.bind fun _ _ _ => .pure ..
    · exact (symbol_consumes closed'' _).reads.bind fun _ _ _ => .pure ..

end

theorem width_lt_recursionBound (c : Cursor) : 20 * c.width + 14 < recursionBound c := by
  -- The bound counts up to the end of the line, and the end of the input is counted as well.
  have shorter : (c.rest.takeWhile fun t => !t.lexeme.endsLine).length ≤
      (c.rest.takeWhile fun t => t.lexeme ≠ .endOfLine).length := by
    have both : (fun t : Token => !t.lexeme.endsLine) =
        fun t => decide ((!t.lexeme.endsLine) = true ∧ decide (t.lexeme ≠ .endOfLine) = true) := by
      funext t
      cases t.lexeme <;> simp [Lexeme.endsLine]
    rw [both, ← List.takeWhile_takeWhile]
    exact (List.takeWhile_prefix _).length_le
  have le : c.width ≤ (c.rest.takeWhile fun t => t.lexeme ≠ .endOfLine).length + 1 := by
    unfold Cursor.width Cursor.tokens
    rw [List.takeWhile_cons]
    split
    · exact Nat.succ_le_succ shorter
    · exact Nat.zero_le _
  unfold recursionBound
  omega

theorem expression_consumes (closed : c.Closed) : Consumes expression c := by
  have enough := width_lt_recursionBound c
  refine .looking get_run ?_
  exact levelExpr_consumes closed (by simp only [Level.height]; omega)

theorem arguments_consumes (closed : c.Closed) : Consumes arguments c := by
  have enough := width_lt_recursionBound c
  refine .looking get_run ?_
  exact argumentExprs_consumes closed (by omega)

end Parser

end Pseudocode
