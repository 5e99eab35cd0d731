import Pseudocode.Proofs.Reading
import Pseudocode.Proofs.Relocation

/-! # Reading two sources side by side

A `Pairing` tells when two cursors are at corresponding places of a line. Nothing in the language
tells the end of a line from the end of the input while a line is read, so these two may correspond
to each other. It is enough to know how corresponding places follow each other: the parsers then give
corresponding trees, or fail on both sides, or one of the bounds on the recursion is too small. -/

namespace Pseudocode

def failure? {ε α : Type} : Except ε α → Option ε
  | .ok _ => none
  | .error e => some e

theorem Lexeme.endsLine_iff {l : Lexeme} :
    l.endsLine = true ↔ l = .endOfLine ∨ l = .endOfInput := by
  cases l <;> simp [endsLine]

structure Pairing where
  left : Position → Position
  right : Position → Position
  /-- The cursors are at corresponding places of a line or at its end. -/
  line : Cursor → Cursor → Prop
  /-- Different tokens that may end corresponding lines. -/
  ends : Token → Token → Prop
  /-- The failure on the left may go with this failure on the right, or with none. -/
  tolerates : SyntaxError → Option SyntaxError → Prop
  here : ∀ {c c'}, line c c' → c.here.moved left = c'.here.moved right ∨ ends c.here c'.here
  last : ∀ {c c'}, line c c' → left c.last.stop = right c'.last.stop
  next : ∀ {c c'}, line c c' → c.here.lexeme.endsLine = false → line c.next c'.next
  ends_left : ∀ {t t'}, ends t t' → t.lexeme.endsLine = true
  ends_right : ∀ {t t'}, ends t t' → t'.lexeme.endsLine = true
  ends_start : ∀ {t t'}, ends t t' → left t.start = right t'.start
  same : ∀ {t t' : Token} cause, t.moved left = t'.moved right →
    tolerates ⟨t.start, cause, t.isEnd⟩ (some ⟨t'.start, cause, t'.isEnd⟩)
  different : ∀ {t t'} cause cause', ends t t' →
    tolerates ⟨t.start, cause, t.isEnd⟩ (some ⟨t'.start, cause', t'.isEnd⟩)
  absorbs : ∀ {e} r, tolerates e none → tolerates e r

namespace Pairing

variable (S : Pairing)

abbrev Same (t t' : Token) : Prop :=
  t.moved S.left = t'.moved S.right

/-- The cursors are at corresponding tokens, but not necessarily after corresponding ones. -/
structure Stands (c c' : Cursor) : Prop where
  here : S.Same c.here c'.here ∨ S.ends c.here c'.here
  next : c.here.lexeme.endsLine = false → S.line c.next c'.next

/-- Corresponding results at corresponding places, or failures that go together. -/
inductive Agree {α β : Type} (rel : α → β → Prop) (post : Cursor → Cursor → Prop) :
    Except SyntaxError (α × Cursor) → Except SyntaxError (β × Cursor) → Prop where
  | ok {a d b d'} : rel a b → post d d' → Agree rel post (.ok (a, d)) (.ok (b, d'))
  | error {e r} : S.tolerates e (failure? r) → Agree rel post (.error e) r
  /-- The bound on the left is too small. -/
  | deepLeft {e r} : e.cause = .nestedTooDeep → Agree rel post (.error e) r
  | deepRight {e r} : e.cause = .nestedTooDeep → Agree rel post r (.error e)

def Agrees {α β : Type} (rel : α → β → Prop) (post : Cursor → Cursor → Prop) (p : Parser α)
    (c : Cursor) (q : Parser β) (c' : Cursor) : Prop :=
  S.Agree rel post (p.run c) (q.run c')

variable {S} {α β γ δ : Type} {rel : α → β → Prop} {rel' : γ → δ → Prop}
  {mid post : Cursor → Cursor → Prop} {c c' d d' : Cursor} {p : Parser α} {q : Parser β}
  {k : α → Parser γ} {l : β → Parser δ}

theorem Agrees.bind (first : S.Agrees rel mid p c q c')
    (second : ∀ a d b d', rel a b → mid d d' → S.Agrees rel' post (k a) d (l b) d') :
    S.Agrees rel' post (p >>= k) c (q >>= l) c' := by
  unfold Agrees at *
  rw [StateT.run_bind, StateT.run_bind]
  revert first
  generalize p.run c = x
  generalize q.run c' = y
  intro first
  cases first with
  | ok related places => exact second _ _ _ _ related places
  | deepLeft deep => exact .deepLeft deep
  | deepRight deep => exact .deepRight deep
  | error tolerated =>
    cases y with
    | ok result => exact .error (S.absorbs _ tolerated)
    | error e => exact .error tolerated

theorem Agrees.after {a : α} {b : β} (ran : p.run c = .ok (a, d)) (ran' : q.run c' = .ok (b, d'))
    (second : S.Agrees rel' post (k a) d (l b) d') :
    S.Agrees rel' post (p >>= k) c (q >>= l) c' := by
  unfold Agrees at *
  rw [StateT.run_bind, StateT.run_bind, ran, ran']
  exact second

theorem Agrees.pure {a : α} {b : β} (related : rel a b) (places : post c c') :
    S.Agrees rel post (pure a) c (pure b) c' :=
  .ok related places

theorem Agrees.map (agrees : S.Agrees rel post p c q c') {f : α → γ} {g : β → δ}
    (related : ∀ a b, rel a b → rel' (f a) (g b)) :
    S.Agrees rel' post (f <$> p) c (g <$> q) c' := by
  rw [map_eq_pure_bind, map_eq_pure_bind]
  exact agrees.bind fun a d b d' holds places => .pure (related a b holds) places

/-! ## Corresponding tokens -/

theorem line_stands (line : S.line c c') : S.Stands c c' :=
  ⟨S.here line, S.next line⟩

theorem lexeme_eq {t t' : Token} (same : S.Same t t') : t'.lexeme = t.lexeme :=
  (congrArg Token.lexeme same).symm

theorem start_eq {t t' : Token} (same : S.Same t t') : S.left t.start = S.right t'.start :=
  congrArg Token.start same

theorem stop_eq {t t' : Token} (same : S.Same t t') : S.left t.stop = S.right t'.stop :=
  congrArg Token.stop same

theorem span_eq {t t' : Token} (same : S.Same t t') :
    t.span.moved S.left = t'.span.moved S.right := by
  simp only [Token.span, Span.moved, start_eq same, stop_eq same]

/-- Of the tokens that may correspond without being the same, either is one of two. -/
theorem ends_lexemes {t t' : Token} (ends : S.ends t t') :
    (t.lexeme = .endOfLine ∨ t.lexeme = .endOfInput) ∧
      (t'.lexeme = .endOfLine ∨ t'.lexeme = .endOfInput) :=
  ⟨Lexeme.endsLine_iff.mp (S.ends_left ends), Lexeme.endsLine_iff.mp (S.ends_right ends)⟩

namespace Stands

variable (stands : S.Stands c c')

include stands

/-- Both cursors are at this lexeme or neither is, unless it ends a line. -/
theorem lexeme_iff {lexeme : Lexeme} (inner : lexeme.endsLine = false) :
    c.here.lexeme = lexeme ↔ c'.here.lexeme = lexeme := by
  rcases stands.here with same | ends
  · rw [lexeme_eq same]
  · have left := S.ends_left ends
    have right := S.ends_right ends
    constructor
    · intro isHere
      rw [isHere, inner] at left
      cases left
    · intro isHere
      rw [isHere, inner] at right
      cases right

/-- At a token that does not end the line, the tokens are the same. -/
theorem same (inner : c.here.lexeme.endsLine = false) : S.Same c.here c'.here := by
  refine stands.here.resolve_right fun ends => ?_
  rw [S.ends_left ends] at inner
  cases inner

theorem start : S.left c.here.start = S.right c'.here.start :=
  stands.here.elim start_eq S.ends_start

theorem fail {cause cause' : SyntaxError.Cause}
    (causes : c'.here.lexeme = c.here.lexeme → cause' = cause) :
    S.Agrees rel post (Parser.fail c.here cause) c (Parser.fail c'.here cause') c' := by
  rcases stands.here with same | ends
  · rw [causes (lexeme_eq same)]
    exact .error (S.same cause same)
  · exact .error (S.different cause cause' ends)

theorem failWanting (wanted : Wanted) :
    S.Agrees rel post (Parser.failWanting wanted) c (Parser.failWanting wanted) c' :=
  stands.fail fun same => by rw [same]

theorem decide_eq {lexeme : Lexeme} (inner : lexeme.endsLine = false) :
    decide (c'.here.lexeme = lexeme) = decide (c.here.lexeme = lexeme) :=
  decide_eq_decide.mpr (stands.lexeme_iff inner).symm

variable {l : Bool → Parser δ} {k : Bool → Parser γ}

/-- Looking for a keyword gives the same answer on both sides. -/
theorem atKeyword (word : Keyword)
    (second : S.Agrees rel' post (k (decide (c.here.lexeme = .keyword word))) c
      (l (decide (c.here.lexeme = .keyword word))) c') :
    S.Agrees rel' post (Parser.atKeyword word >>= k) c (Parser.atKeyword word >>= l) c' := by
  refine .after (Parser.atKeyword_run word) (Parser.atKeyword_run word) ?_
  rw [stands.decide_eq rfl]
  exact second

theorem atSymbol (sign : Symbol)
    (second : S.Agrees rel' post (k (decide (c.here.lexeme = .symbol sign))) c
      (l (decide (c.here.lexeme = .symbol sign))) c') :
    S.Agrees rel' post (Parser.atSymbol sign >>= k) c (Parser.atSymbol sign >>= l) c' := by
  refine .after (Parser.atSymbol_run sign) (Parser.atSymbol_run sign) ?_
  rw [stands.decide_eq rfl]
  exact second

theorem advance (inner : c.here.lexeme.endsLine = false) :
    S.Agrees S.Same S.line Parser.advance c Parser.advance c' :=
  .ok (stands.same inner) (stands.next inner)

theorem keyword (word : Keyword) :
    S.Agrees S.Same S.line (Parser.keyword word) c (Parser.keyword word) c' := by
  refine stands.atKeyword word ?_
  split
  case isTrue there =>
    refine stands.advance ?_
    rw [of_decide_eq_true there]
    rfl
  case isFalse => exact stands.failWanting _

theorem symbol (sign : Symbol) :
    S.Agrees S.Same S.line (Parser.symbol sign) c (Parser.symbol sign) c' := by
  refine stands.atSymbol sign ?_
  split
  case isTrue there =>
    refine stands.advance ?_
    rw [of_decide_eq_true there]
    rfl
  case isFalse => exact stands.failWanting _

theorem identifier :
    S.Agrees (fun i i' => i.moved S.left = i'.moved S.right) S.line Parser.identifier c
      Parser.identifier c' := by
  refine .after Parser.peek_run Parser.peek_run ?_
  rcases stands.here with same | ends
  · rw [lexeme_eq same]
    split
    case h_1 name isName =>
      refine .ok ?_ (stands.next (by rw [isName]; rfl))
      simp only [Ident.moved, span_eq same]
    case h_2 => exact stands.failWanting _
  · rcases ends_lexemes ends with ⟨isLeft | isLeft, isRight | isRight⟩ <;>
      rw [isLeft, isRight] <;> exact stands.failWanting _

end Stands

theorem optionalSymbol (line : S.line c c') (sign : Symbol) :
    S.Agrees Eq S.line (Parser.optionalSymbol sign) c (Parser.optionalSymbol sign) c' := by
  have stands := line_stands line
  refine stands.atSymbol sign ?_
  split
  case isTrue there =>
    refine (stands.advance ?_).bind fun _ _ _ _ _ line => .pure rfl line
    rw [of_decide_eq_true there]
    rfl
  case isFalse => exact .pure rfl line

theorem spanFrom (line : S.line c c') {start start' : Token}
    (starts : S.left start.start = S.right start'.start) :
    S.Agrees (fun s s' => s.moved S.left = s'.moved S.right) S.line (Parser.spanFrom start) c
      (Parser.spanFrom start') c' := by
  refine .ok ?_ line
  simp only [Span.moved, starts, S.last line]

/-! ## Expressions -/

theorem tooDeep_left : S.Agrees rel post Parser.tooDeep c q c' := .deepLeft rfl

theorem tooDeep_right : S.Agrees rel post p c Parser.tooDeep c' := .deepRight rfl

/-- The operator that follows is the same on both sides. -/
theorem operator?_eq (line : S.line c c') (level : Level) :
    level.operator? c'.here.lexeme = level.operator? c.here.lexeme := by
  rcases S.here line with same | ends
  · rw [lexeme_eq same]
  · rcases ends_lexemes ends with ⟨isLeft | isLeft, isRight | isRight⟩ <;>
      rw [isLeft, isRight] <;> rfl

section Expressions

variable (S)

abbrev Alike (e e' : Expr) : Prop :=
  e.moved S.left = e'.moved S.right

abbrev AllAlike (es es' : List Expr) : Prop :=
  Expr.allMoved S.left es = Expr.allMoved S.right es'

variable {S}

mutual

theorem levelExpr (n n' : Nat) {level : Level} {c c' : Cursor} (line : S.line c c') :
    S.Agrees S.Alike S.line (Parser.levelExpr n level) c (Parser.levelExpr n' level) c' := by
  cases n with
  | zero => exact tooDeep_left
  | succ n =>
  cases n' with
  | zero => exact tooDeep_right
  | succ n' =>
    have stands := line_stands line
    rw [Parser.levelExpr, Parser.levelExpr]
    refine stands.atKeyword .not ?_
    split
    case isTrue there =>
      have isNot : c.here.lexeme = .keyword .not := by simp_all
      refine (stands.advance (by rw [isNot]; rfl)).bind fun start d start' d' starts line => ?_
      refine (levelExpr n n' line).bind fun operand e operand' e' operands line => ?_
      refine (spanFrom line (start_eq starts)).bind fun span e span' e' spans line => ?_
      exact .pure (by simp only [Alike, Expr.moved, spans, operands]) line
    case isFalse =>
      refine .after Parser.peek_run Parser.peek_run ?_
      refine (operandExpr n n' line).bind fun first d first' d' firsts line => ?_
      exact chainExpr n n' stands.start firsts line

theorem operandExpr (n n' : Nat) {level : Level} {c c' : Cursor} (line : S.line c c') :
    S.Agrees S.Alike S.line (Parser.operandExpr n level) c (Parser.operandExpr n' level) c' := by
  cases n with
  | zero => exact tooDeep_left
  | succ n =>
  cases n' with
  | zero => exact tooDeep_right
  | succ n' =>
    rw [Parser.operandExpr, Parser.operandExpr]
    split
    · exact levelExpr n n' line
    · exact unaryExpr n n' line

theorem chainExpr (n n' : Nat) {level : Level} {start start' : Token} {first first' : Expr}
    {c c' : Cursor} (starts : S.left start.start = S.right start'.start)
    (firsts : S.Alike first first') (line : S.line c c') :
    S.Agrees S.Alike S.line (Parser.chainExpr n level start first) c
      (Parser.chainExpr n' level start' first') c' := by
  cases n with
  | zero => exact tooDeep_left
  | succ n =>
  cases n' with
  | zero => exact tooDeep_right
  | succ n' =>
    rw [Parser.chainExpr, Parser.chainExpr]
    refine .after Parser.peekLexeme_run Parser.peekLexeme_run ?_
    rw [operator?_eq line]
    split
    case h_1 => exact .pure firsts line
    case h_2 op isOperator =>
      have inner := Lexeme.endsLine_of_operator? isOperator
      refine ((line_stands line).advance inner).bind fun _ d _ d' _ line => ?_
      refine (operandExpr n n' line).bind fun second e second' e' seconds line => ?_
      refine (spanFrom line starts).bind fun span e span' e' spans line => ?_
      refine chainExpr n n' starts ?_ line
      simp only [Alike, Expr.moved, spans, firsts, seconds]

theorem unaryExpr (n n' : Nat) {c c' : Cursor} (line : S.line c c') :
    S.Agrees S.Alike S.line (Parser.unaryExpr n) c (Parser.unaryExpr n') c' := by
  cases n with
  | zero => exact tooDeep_left
  | succ n =>
  cases n' with
  | zero => exact tooDeep_right
  | succ n' =>
    have stands := line_stands line
    rw [Parser.unaryExpr, Parser.unaryExpr]
    refine stands.atSymbol .minus ?_
    split
    case isTrue there =>
      have inner : c.here.lexeme.endsLine = false := by simp_all [Lexeme.endsLine]
      refine (stands.advance inner).bind fun start d start' d' starts line => ?_
      have stands := line_stands line
      refine .after Parser.peek_run Parser.peek_run ?_
      by_cases isLeast : d.here.lexeme = .integer leastMagnitude
      · rw [if_pos isLeast, if_pos ((stands.lexeme_iff rfl).mp isLeast)]
        refine (stands.advance (by rw [isLeast]; rfl)).bind fun t e t' e' same line => ?_
        refine .pure ?_ line
        simp only [Alike, Expr.moved, Span.moved, start_eq starts, stop_eq same]
      · rw [if_neg isLeast, if_neg fun isHere => isLeast ((stands.lexeme_iff rfl).mpr isHere)]
        refine (unaryExpr n n' line).bind fun operand e operand' e' operands line => ?_
        refine (spanFrom line (start_eq starts)).bind fun span e span' e' spans line => ?_
        exact .pure (by simp only [Alike, Expr.moved, spans, operands]) line
    case isFalse => exact primaryExpr n n' line

theorem primaryExpr (n n' : Nat) {c c' : Cursor} (line : S.line c c') :
    S.Agrees S.Alike S.line (Parser.primaryExpr n) c (Parser.primaryExpr n') c' := by
  cases n with
  | zero => exact tooDeep_left
  | succ n =>
  cases n' with
  | zero => exact tooDeep_right
  | succ n' =>
    have stands := line_stands line
    rw [Parser.primaryExpr, Parser.primaryExpr]
    refine .after Parser.peek_run Parser.peek_run ?_
    rcases stands.here with same | ends
    · have spans := span_eq same
      rw [lexeme_eq same]
      split
      case h_1 digits isInteger =>
        refine .after Parser.advance_run Parser.advance_run ?_
        split
        · refine .pure ?_ (stands.next (by rw [isInteger]; rfl))
          simp only [Alike, Expr.moved, spans]
        · exact .error (S.same _ same)
      case h_2 text isReal =>
        refine .after Parser.advance_run Parser.advance_run ?_
        split
        · refine .pure ?_ (stands.next (by rw [isReal]; rfl))
          simp only [Alike, Expr.moved, spans]
        · exact .error (S.same _ same)
      case h_3 body isString =>
        refine .ok ?_ (stands.next (by rw [isString]; rfl))
        simp only [Alike, Expr.moved, spans]
      case h_4 body isChar =>
        refine .ok ?_ (stands.next (by rw [isChar]; rfl))
        simp only [Alike, Expr.moved, spans]
      case h_5 text isDate =>
        refine .ok ?_ (stands.next (by rw [isDate]; rfl))
        simp only [Alike, Expr.moved, spans]
      case h_6 isTrue =>
        refine .ok ?_ (stands.next (by rw [isTrue]; rfl))
        simp only [Alike, Expr.moved, spans]
      case h_7 isFalse =>
        refine .ok ?_ (stands.next (by rw [isFalse]; rfl))
        simp only [Alike, Expr.moved, spans]
      case h_8 name isName =>
        have line := stands.next (by rw [isName]; rfl)
        refine .after Parser.advance_run Parser.advance_run ?_
        refine (line_stands line).atSymbol .leftParen ?_
        split
        · refine (argumentExprs n n' line).bind fun given d given' d' givens line => ?_
          refine (spanFrom line (start_eq same)).bind fun span e span' e' spans' line => ?_
          refine .pure ?_ line
          simp only [Alike, Expr.moved, Ident.moved, spans, spans', givens]
        · refine .pure ?_ line
          simp only [Alike, Expr.moved, Ident.moved, spans]
      case h_9 isParen =>
        have line := stands.next (by rw [isParen]; rfl)
        refine .after Parser.advance_run Parser.advance_run ?_
        refine (levelExpr n n' line).bind fun inner d inner' d' inners line => ?_
        refine ((line_stands line).symbol _).bind fun _ d _ d' _ line => ?_
        exact .pure inners line
      case h_10 => exact stands.fail fun _ => rfl
    · rcases ends_lexemes ends with ⟨isLeft | isLeft, isRight | isRight⟩ <;>
        rw [isLeft, isRight] <;> exact .error (S.different _ _ ends)

theorem argumentExprs (n n' : Nat) {c c' : Cursor} (line : S.line c c') :
    S.Agrees S.AllAlike S.line (Parser.argumentExprs n) c (Parser.argumentExprs n') c' := by
  cases n with
  | zero => exact tooDeep_left
  | succ n =>
  cases n' with
  | zero => exact tooDeep_right
  | succ n' =>
    rw [Parser.argumentExprs, Parser.argumentExprs]
    refine ((line_stands line).symbol _).bind fun _ d _ d' _ line => ?_
    refine (optionalSymbol line _).bind fun none e none' e' same line => ?_
    cases same
    split
    · exact .pure rfl line
    · exact moreArguments n n' line

theorem moreArguments (n n' : Nat) {c c' : Cursor} (line : S.line c c') :
    S.Agrees S.AllAlike S.line (Parser.moreArguments n) c (Parser.moreArguments n') c' := by
  cases n with
  | zero => exact tooDeep_left
  | succ n =>
  cases n' with
  | zero => exact tooDeep_right
  | succ n' =>
    rw [Parser.moreArguments, Parser.moreArguments]
    refine (levelExpr n n' line).bind fun first d first' d' firsts line => ?_
    refine (optionalSymbol line _).bind fun more e more' e' same line => ?_
    cases same
    split
    · refine (moreArguments n n' line).bind fun rest d rest' d' rests line => ?_
      refine .pure ?_ line
      simp only [AllAlike, Expr.allMoved, firsts, rests]
    · refine ((line_stands line).symbol _).bind fun _ d _ d' _ line => ?_
      refine .pure ?_ line
      simp only [AllAlike, Expr.allMoved, firsts]

end

theorem expression (line : S.line c c') :
    S.Agrees S.Alike S.line Parser.expression c Parser.expression c' :=
  .after Parser.get_run Parser.get_run (levelExpr _ _ line)

theorem arguments (line : S.line c c') :
    S.Agrees S.AllAlike S.line Parser.arguments c Parser.arguments c' :=
  .after Parser.get_run Parser.get_run (argumentExprs _ _ line)

end Expressions

end Pairing

end Pseudocode
