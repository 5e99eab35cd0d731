import Pseudocode.Proofs.Numerals
import Pseudocode.Proofs.Rounding
import Pseudocode.Proofs.Walking

/-! # The grammar of expressions

`Derives` is the grammar in layers: six levels of binary operators that group to the left, `NOT`
between `AND` and the comparisons, signs, and primary expressions. It has its own list of the
operators of each level and its own account of what literals mean, and the tables of the parser are
shown to agree with them. The parser reads exactly what the grammar derives: it goes on as long as an
operator follows, and each range of tokens has one tree at most. Every node spans the tokens it is
derived from. -/

namespace Pseudocode

open Program (spanOf)

/-! ## Literals -/

namespace Literal

/-- ASCII digits that write the number in base ten. -/
structure Writes (digits : List Char) (n : Nat) : Prop where
  ascii : ∀ c ∈ digits, c.isDigit = true
  value : Nat.ofDigitChars 10 digits 0 = n

theorem writes_ofDigits {digits : List Char} (ascii : digits.all Char.isDigit = true) :
    Writes digits (ofDigits digits) :=
  ⟨List.all_eq_true.mp ascii, (ofDigits_eq digits).symm⟩

theorem Writes.ofDigits_eq {digits : List Char} {n : Nat} (writes : Writes digits n) :
    digits.all Char.isDigit = true ∧ ofDigits digits = n :=
  ⟨List.all_eq_true.mpr writes.ascii, (Literal.ofDigits_eq digits).trans writes.value⟩

/-- The digits of the text write the INTEGER. -/
def IsInteger (text : String) (n : Int64) : Prop :=
  ∃ k : Nat, Writes text.toList k ∧ n.toInt = k

theorem integer?_eq_some_iff {text : String} {n : Int64} :
    integer? text = some n ↔ IsInteger text n := by
  have small {k : Nat} (same : n.toInt = k) : k < 9223372036854775808 := by
    have := n.toInt_lt
    omega
  simp only [integer?, Option.ite_none_right_eq_some, Bool.and_eq_true, decide_eq_true_eq,
    Option.some.injEq]
  constructor
  · rintro ⟨⟨ascii, inRange⟩, rfl⟩
    exact ⟨_, writes_ofDigits ascii, Int64.toInt_ofNat_of_lt inRange⟩
  · rintro ⟨k, writes, same⟩
    obtain ⟨ascii, rfl⟩ := writes.ofDigits_eq
    refine ⟨⟨ascii, small same⟩, ?_⟩
    rw [← Int64.toInt_inj, Int64.toInt_ofNat_of_lt (small same), same]

theorem isInteger_toString {n : Int64} (nonneg : 0 ≤ n) :
    IsInteger (toString n.toNatClampNeg) n := by
  have ascii := toDigits_isDigit n.toNatClampNeg
  rw [Nat.toString_eq_ofList_toDigits, IsInteger, String.toList_ofList]
  refine ⟨n.toNatClampNeg, ⟨ascii, Nat.ofDigitChars_ten_toDigits⟩, ?_⟩
  exact (Int.toNat_of_nonneg (Int64.le_iff_toInt_le.mp nonneg)).symm

/-- What stands before a point and behind it. Without a point all stands before it. -/
inductive Pointed : List Char → List Char → List Char → Prop where
  | point {whole fraction} : Pointed (whole ++ '.' :: fraction) whole fraction
  | plain {whole} : Pointed whole whole []

theorem Pointed.cons {cs whole fraction : List Char} (c : Char)
    (pointed : Pointed cs whole fraction) : Pointed (c :: cs) (c :: whole) fraction := by
  cases pointed with
  | point => exact (.point : Pointed ((c :: whole) ++ '.' :: fraction) (c :: whole) fraction)
  | plain => exact .plain

theorem pointed_takeWhile (cs : List Char) :
    Pointed cs (cs.takeWhile (· ≠ '.')) ((cs.dropWhile (· ≠ '.')).drop 1) := by
  induction cs with
  | nil => exact .plain
  | cons c cs ih =>
    by_cases isPoint : c = '.'
    · subst isPoint
      exact (.point : Pointed ([] ++ '.' :: cs) [] cs)
    · simpa [isPoint] using ih.cons c

theorem Pointed.eq {cs whole fraction : List Char} (pointed : Pointed cs whole fraction)
    (ascii : ∀ c ∈ whole, c.isDigit = true) :
    cs.takeWhile (· ≠ '.') = whole ∧ (cs.dropWhile (· ≠ '.')).drop 1 = fraction := by
  have before : ∀ c ∈ whole, decide (c ≠ '.') = true := by
    intro c member
    rw [decide_eq_true_eq]
    rintro rfl
    exact absurd (ascii _ member) (by decide)
  cases pointed with
  | point =>
    rw [List.takeWhile_append_of_pos before, List.dropWhile_append_of_pos before]
    simp
  | plain =>
    refine ⟨List.takeWhile_eq_self_iff.mpr before, ?_⟩
    rw [List.dropWhile_eq_nil_iff.mpr before, List.drop_nil]

/-- The text is digits, perhaps with a point, and the REAL is the one nearest to what they write. Its
bits are below those of the infinite one. -/
def IsReal (text : String) (x : Float) : Prop :=
  ∃ (whole fraction : List Char) (k bits : Nat), Pointed text.toList whole fraction ∧
    Writes (whole ++ fraction) k ∧ Decimal.Nearest (k / 10 ^ fraction.length) bits ∧
    bits < 2047 * 2 ^ 52 ∧ Float.ofBits bits.toUInt64 = x

theorem real?_eq_some_iff {text : String} {x : Float} : real? text = some x ↔ IsReal text x := by
  simp only [real?, Option.ite_none_right_eq_some, ← List.all_append, Decimal.nearest?_eq_some_iff]
  constructor
  · rintro ⟨ascii, bits, nearest⟩
    exact ⟨_, _, _, bits, pointed_takeWhile _, writes_ofDigits ascii, nearest⟩
  · rintro ⟨whole, fraction, k, bits, pointed, writes, nearest⟩
    obtain ⟨rfl, rfl⟩ := pointed.eq fun c member => writes.ascii c (List.mem_append_left _ member)
    obtain ⟨ascii, rfl⟩ := writes.ofDigits_eq
    exact ⟨ascii, bits, nearest⟩

/-- The bytes write the number. They stand for zero if one of them is no digit. -/
inductive Counts (bytes : List UInt8) : Int → Prop where
  | digits {n : Nat} : Writes (bytes.map fun b => Char.ofNat b.toNat) n → Counts bytes n
  | other {b : UInt8} : b ∈ bytes → (Char.ofNat b.toNat).isDigit = false → Counts bytes 0

theorem counts_iff {bytes : List UInt8} {n : Int} : Counts bytes n ↔ ofBytes bytes = n := by
  unfold ofBytes
  constructor
  · intro counts
    cases counts with
    | digits writes =>
      obtain ⟨ascii, rfl⟩ := writes.ofDigits_eq
      exact if_pos ascii
    | @other b member other =>
      refine if_neg fun ascii => ?_
      rw [List.all_map, List.all_eq_true] at ascii
      exact Bool.false_ne_true (other.symm.trans (ascii b member))
  · rintro rfl
    dsimp only
    split
    case isTrue ascii => exact .digits (writes_ofDigits ascii)
    case isFalse other =>
      simp only [List.all_map, List.all_eq_true, not_forall] at other
      obtain ⟨b, member, other⟩ := other
      exact .other member (by simpa using other)

/-- The numbers of the date stand at fixed bytes of the text. -/
structure IsDate (text : String) (d : Date) : Prop where
  day : Counts (text.toUTF8.toList.take 2) d.day
  month : Counts ((text.toUTF8.toList.drop 3).take 2) d.month
  year : Counts ((text.toUTF8.toList.drop 6).take 4) d.year

theorem isDate_iff {text : String} {d : Date} : IsDate text d ↔ date text = d := by
  constructor
  · rintro ⟨day, month, year⟩
    rw [date, counts_iff.mp day, counts_iff.mp month, counts_iff.mp year]
  · rintro rfl
    exact ⟨counts_iff.mpr rfl, counts_iff.mpr rfl, counts_iff.mpr rfl⟩

end Literal

/-! ## The grammar -/

inductive Category where
  | level (l : Level)
  /-- Operands of a level with its operators between them. -/
  | chain (l : Level)
  | unary
  | primary

namespace Category

def operand : Level → Category
  | .or => .level .and
  | .and => .level .comparison
  | .comparison => .level .join
  | .join => .level .sum
  | .sum => .level .product
  | .product => .unary

/-- How loose an operator has to be to end what is read. -/
def looseness : Category → Nat
  | level l => l.height + 1
  | chain l => l.height
  | unary | primary => 0

theorem looseness_operand (l : Level) : (operand l).looseness = l.height := by
  cases l <;> rfl

end Category

/-- The operators of each level, and how they are written. -/
inductive Level.Operator : Level → Lexeme → BinaryOp → Prop where
  | or : Operator .or (.keyword .or) .or
  | and : Operator .and (.keyword .and) .and
  | equal : Operator .comparison (.symbol .equal) .equal
  | notEqual : Operator .comparison (.symbol .notEqual) .notEqual
  | less : Operator .comparison (.symbol .less) .less
  | greater : Operator .comparison (.symbol .greater) .greater
  | lessEqual : Operator .comparison (.symbol .lessEqual) .lessEqual
  | greaterEqual : Operator .comparison (.symbol .greaterEqual) .greaterEqual
  | join : Operator .join (.symbol .join) .join
  | add : Operator .sum (.symbol .plus) .add
  | subtract : Operator .sum (.symbol .minus) .subtract
  | multiply : Operator .product (.symbol .times) .multiply
  | divide : Operator .product (.symbol .divide) .divide
  | modulo : Operator .product (.keyword .mod) .modulo
  | quotient : Operator .product (.keyword .div) .quotient

/-- Whether the lexeme writes an operator between two operands. -/
def Lexeme.isInfix : Lexeme → Bool
  | keyword .or | keyword .and | keyword .mod | keyword .div => true
  | symbol .equal | symbol .notEqual | symbol .less | symbol .greater | symbol .lessEqual
  | symbol .greaterEqual | symbol .join | symbol .plus | symbol .minus | symbol .times
  | symbol .divide => true
  | _ => false

/-- The tokens `ts` are these parts with commas between them. -/
inductive Separated : List (List Token) → List Token → Prop where
  | nil : Separated [] []
  | one {ts} : Separated [ts] ts
  | cons {ts us rest vs} {t : Token} : t.lexeme = .symbol .comma → Separated (us :: rest) vs →
      Separated (ts :: us :: rest) (ts ++ t :: vs)

/-- The tokens are an expression of this category, which is this tree. -/
inductive Derives : Category → List Token → Expr → Prop where
  | level {l ts e} : Derives (.chain l) ts e → Derives (.level l) ts e
  | not {t ts e} : t.lexeme = .keyword .not → Derives (.level .comparison) ts e →
      Derives (.level .comparison) (t :: ts) (.unary .not e (spanOf (t :: ts)))
  | operand {l ts e} : Derives (.operand l) ts e → Derives (.chain l) ts e
  | binary {l ts us left right op} {t : Token} : Derives (.chain l) ts left →
      l.Operator t.lexeme op → Derives (.operand l) us right →
      Derives (.chain l) (ts ++ t :: us) (.binary op left right (spanOf (ts ++ t :: us)))
  | least {t u : Token} : t.lexeme = .symbol .minus → u.lexeme = .integer "9223372036854775808" →
      Derives .unary [t, u] (.integer Int64.minValue (spanOf [t, u]))
  | negate {t ts e} : t.lexeme = .symbol .minus → Derives .unary ts e →
      Derives .unary (t :: ts) (.unary .negate e (spanOf (t :: ts)))
  | primary {ts e} : Derives .primary ts e → Derives .unary ts e
  | integer {t : Token} {digits n} : t.lexeme = .integer digits →
      Literal.IsInteger digits n → Derives .primary [t] (.integer n t.span)
  | real {t : Token} {text x} : t.lexeme = .real text → Literal.IsReal text x →
      Derives .primary [t] (.real x t.span)
  | string {t : Token} {body} : t.lexeme = .string body →
      Derives .primary [t] (.string body t.span)
  | char {t : Token} {body} : t.lexeme = .char body → Derives .primary [t] (.char body t.span)
  | date {t : Token} {text d} : t.lexeme = .date text → Literal.IsDate text d →
      Derives .primary [t] (.date d t.span)
  | true_ {t : Token} : t.lexeme = .keyword .true_ → Derives .primary [t] (.boolean true t.span)
  | false_ {t : Token} : t.lexeme = .keyword .false_ → Derives .primary [t] (.boolean false t.span)
  | name {t : Token} {name} : t.lexeme = .identifier name →
      Derives .primary [t] (.name ⟨name, t.span⟩)
  | call {t u v : Token} {name} {parts : List (List Token × Expr)} {ts} :
      t.lexeme = .identifier name → u.lexeme = .symbol .leftParen →
      Separated (parts.map Prod.fst) ts → (∀ part ∈ parts, Derives (.level .or) part.1 part.2) →
      v.lexeme = .symbol .rightParen →
      Derives .primary (t :: u :: (ts ++ [v]))
        (.call ⟨name, t.span⟩ (parts.map Prod.snd) (spanOf (t :: u :: (ts ++ [v]))))
  | parens {t u : Token} {ts e} : t.lexeme = .symbol .leftParen → Derives (.level .or) ts e →
      u.lexeme = .symbol .rightParen → Derives .primary (t :: (ts ++ [u])) e

/-! ## The tables of the parser -/

theorem Level.operator?_eq_some_iff {l : Level} {lexeme : Lexeme} {op : BinaryOp} :
    l.operator? lexeme = some op ↔ l.Operator lexeme op := by
  constructor
  · intro isOperator
    obtain ⟨isOperator, isLevel⟩ := Option.filter_eq_some_iff.mp isOperator
    rw [decide_eq_true_eq] at isLevel
    unfold Lexeme.binaryOp? at isOperator
    split at isOperator <;> cases isOperator <;> cases isLevel <;> constructor
  · intro isOperator
    cases isOperator <;> rfl

theorem Lexeme.isInfix_eq (l : Lexeme) : l.isInfix = l.binaryOp?.isSome := by
  cases l with
  | keyword word => cases word <;> rfl
  | symbol sign => cases sign <;> rfl
  | _ => rfl

namespace Cursor

/-- An operator at the cursor is this loose at least. -/
def Loose (c : Cursor) (n : Nat) : Prop :=
  ∀ op l, c.here.lexeme.binaryOp? = some op → op.level? = some l → n ≤ l.height

theorem Loose.mono {c : Cursor} {m n : Nat} (loose : c.Loose n) (le : m ≤ n) : c.Loose m :=
  fun op l isOperator isLevel => le.trans (loose op l isOperator isLevel)

/-- An operator of the level does not follow, and no tighter one either. -/
theorem Loose.succ {c : Cursor} {l : Level} (loose : c.Loose l.height)
    (none : l.operator? c.here.lexeme = none) : c.Loose (l.height + 1) := by
  intro op l' isOperator isLevel
  have le := loose op l' isOperator isLevel
  have other : l' ≠ l := by
    rintro rfl
    simp [Level.operator?, isOperator, isLevel] at none
  have : l'.height ≠ l.height := by
    intro same
    cases l <;> cases l' <;> simp_all [Level.height]
  omega

theorem Loose.operator?_eq_none {c : Cursor} {l : Level} (loose : c.Loose (l.height + 1)) :
    l.operator? c.here.lexeme = none := by
  cases isOperator : c.here.lexeme.binaryOp? with
  | none => simp [Level.operator?, isOperator]
  | some op =>
    have := fun isLevel => loose op l isOperator isLevel
    simp only [Level.operator?, isOperator, Option.filter_some, ite_eq_right_iff]
    intro isLevel
    have := this (by simpa using isLevel)
    omega

end Cursor

theorem BinaryOp.level?_of_binaryOp? {l : Lexeme} {op : BinaryOp}
    (isOperator : l.binaryOp? = some op) : ∃ level, op.level? = some level := by
  unfold Lexeme.binaryOp? at isOperator
  split at isOperator <;> cases isOperator <;> exact ⟨_, rfl⟩

theorem Cursor.loose_iff {c : Cursor} : c.Loose 6 ↔ c.here.lexeme.isInfix = false := by
  rw [Lexeme.isInfix_eq]
  constructor
  · intro loose
    cases isOperator : c.here.lexeme.binaryOp? with
    | none => rfl
    | some op =>
      obtain ⟨l, isLevel⟩ := BinaryOp.level?_of_binaryOp? isOperator
      have := loose op l isOperator isLevel
      have := l.height_le
      omega
  · intro none op l isOperator
    simp [isOperator] at none

theorem Level.binaryOp?_of_operator? {l : Level} {lexeme : Lexeme} {op : BinaryOp}
    (isOperator : l.operator? lexeme = some op) :
    lexeme.binaryOp? = some op ∧ op.level? = some l := by
  simpa [Level.operator?, Option.filter_eq_some_iff] using isOperator

/-! ## What is read is derived -/

namespace Parser

/-- What tells an expression of a category, and that it goes on no further. -/
abbrev Tells (k : Category) (ts : List Token) (e : Expr) (d : Cursor) : Prop :=
  Derives k ts e ∧ d.Loose k.looseness

variable {c d : Cursor}

theorem loose_zero (c : Cursor) : c.Loose 0 := fun _ _ _ _ => Nat.zero_le _

mutual

theorem levelExpr_delivers {n : Nat} {l : Level} {c : Cursor} (closed : c.Closed) :
    Delivers (levelExpr n l) c (Tells (.level l)) := by
  cases n with
  | zero => exact tooDeep_delivers
  | succ n =>
    rw [levelExpr]
    apply Delivers.looking (atKeyword_run .not)
    split
    case isTrue there =>
      obtain ⟨rfl, isNot⟩ : l = .comparison ∧ c.here.lexeme = .keyword .not := by
        simpa using there
      apply Delivers.advancing closed (by simp [Token.isEnd, isNot])
      intro closed'
      apply (levelExpr_delivers closed').bind
      rintro ts e d walks ⟨derives, loose⟩
      apply Delivers.looking (spanFrom_run _)
      have walk : c.Walks (c.here :: ts) d :=
        ⟨rfl, closed.rest_ne_nil (by simp [Token.isEnd, isNot]), walks⟩
      refine .pure ⟨?_, loose⟩
      rw [← walk.spanOf (by simp), List.append_nil]
      exact .not isNot derives
    case isFalse =>
      apply Delivers.looking peek_run
      apply (operandExpr_delivers closed).bind
      rintro ts e d walks ⟨derives, loose⟩
      rw [Category.looseness_operand] at loose
      apply (chainExpr_delivers walks closed (.operand derives) loose).mono
      rintro us e' d' ⟨derives, loose⟩
      exact ⟨.level derives, loose⟩

theorem operandExpr_delivers {n : Nat} {l : Level} {c : Cursor} (closed : c.Closed) :
    Delivers (operandExpr n l) c (Tells (.operand l)) := by
  cases n with
  | zero => exact tooDeep_delivers
  | succ n =>
    rw [operandExpr]
    cases l with
    | product => exact unaryExpr_delivers closed
    | _ => exact levelExpr_delivers closed

/-- The chain that began at `c` goes on from `d`. -/
theorem chainExpr_delivers {n : Nat} {l : Level} {left : Expr} {c d : Cursor} {ts : List Token}
    (walks : c.Walks ts d) (closed : c.Closed) (derives : Derives (.chain l) ts left)
    (loose : d.Loose l.height) :
    Delivers (chainExpr n l c.here left) d fun us e d' =>
      Derives (.chain l) (ts ++ us) e ∧ d'.Loose (l.height + 1) := by
  cases n with
  | zero => exact tooDeep_delivers
  | succ n =>
    rw [chainExpr]
    apply Delivers.looking peekLexeme_run
    split
    case h_1 none =>
      refine .pure ⟨?_, loose.succ none⟩
      rwa [List.append_nil]
    case h_2 op isOperator =>
      have inner := Token.isEnd_of_not_endsLine (Lexeme.endsLine_of_operator? isOperator)
      have closed' := closed.walks walks
      apply Delivers.advancing closed' inner
      intro closed''
      apply (operandExpr_delivers closed'').bind
      rintro us right d' walks' ⟨derives', loose'⟩
      rw [Category.looseness_operand] at loose'
      have walk : c.Walks (ts ++ d.here :: us) d' :=
        walks.trans ⟨rfl, closed'.rest_ne_nil inner, walks'⟩
      apply Delivers.looking (spanFrom_run _)
      rw [← walk.spanOf (by simp)]
      have longer := derives.binary (Level.operator?_eq_some_iff.mp isOperator) derives'
      apply (chainExpr_delivers walk closed longer loose').mono
      intro vs e d'' told
      simpa using told

theorem unaryExpr_delivers {n : Nat} {c : Cursor} (closed : c.Closed) :
    Delivers (unaryExpr n) c (Tells .unary) := by
  cases n with
  | zero => exact tooDeep_delivers
  | succ n =>
    rw [unaryExpr]
    apply Delivers.looking (atSymbol_run .minus)
    split
    case isTrue there =>
      have isMinus : c.here.lexeme = .symbol .minus := of_decide_eq_true there
      have inner : c.here.isEnd = false := by simp [Token.isEnd, isMinus]
      apply Delivers.advancing closed inner
      intro closed'
      apply Delivers.looking peek_run
      split
      case isTrue isLeast =>
        apply Delivers.advancing closed' (by simp [Token.isEnd, isLeast])
        intro _
        exact .pure ⟨.least isMinus isLeast, loose_zero _⟩
      case isFalse =>
        apply (unaryExpr_delivers closed').bind
        rintro ts e d walks ⟨derives, loose⟩
        apply Delivers.looking (spanFrom_run _)
        have walk : c.Walks (c.here :: ts) d := ⟨rfl, closed.rest_ne_nil inner, walks⟩
        refine .pure ⟨?_, loose⟩
        rw [← walk.spanOf (by simp), List.append_nil]
        exact .negate isMinus derives
    case isFalse =>
      apply (primaryExpr_delivers closed).mono
      rintro ts e d ⟨derives, loose⟩
      exact ⟨.primary derives, loose⟩

theorem primaryExpr_delivers {n : Nat} {c : Cursor} (closed : c.Closed) :
    Delivers (primaryExpr n) c (Tells .primary) := by
  cases n with
  | zero => exact tooDeep_delivers
  | succ n =>
    rw [primaryExpr]
    apply Delivers.looking peek_run
    have inner {l : Lexeme} (isHere : c.here.lexeme = l) (notEnd : l ≠ .endOfInput) :
        c.here.isEnd = false := by simpa [Token.isEnd, isHere] using notEnd
    split
    case h_1 digits isInteger =>
      apply Delivers.advancing closed (inner isInteger nofun)
      intro _
      split
      case h_1 n isValue =>
        exact .pure ⟨.integer isInteger (Literal.integer?_eq_some_iff.mp isValue), loose_zero _⟩
      case h_2 => exact fail_delivers ..
    case h_2 text isReal =>
      apply Delivers.advancing closed (inner isReal nofun)
      intro _
      split
      case h_1 x isValue =>
        exact .pure ⟨.real isReal (Literal.real?_eq_some_iff.mp isValue), loose_zero _⟩
      case h_2 => exact fail_delivers ..
    case h_3 body isString =>
      apply Delivers.advancing closed (inner isString nofun)
      exact fun _ => .pure ⟨.string isString, loose_zero _⟩
    case h_4 body isChar =>
      apply Delivers.advancing closed (inner isChar nofun)
      exact fun _ => .pure ⟨.char isChar, loose_zero _⟩
    case h_5 text isDate =>
      apply Delivers.advancing closed (inner isDate nofun)
      exact fun _ => .pure ⟨.date isDate (Literal.isDate_iff.mpr rfl), loose_zero _⟩
    case h_6 isTrue =>
      apply Delivers.advancing closed (inner isTrue nofun)
      exact fun _ => .pure ⟨.true_ isTrue, loose_zero _⟩
    case h_7 isFalse =>
      apply Delivers.advancing closed (inner isFalse nofun)
      exact fun _ => .pure ⟨.false_ isFalse, loose_zero _⟩
    case h_8 name isName =>
      apply Delivers.advancing closed (inner isName nofun)
      intro closed'
      apply Delivers.looking (atSymbol_run .leftParen)
      split
      · apply (argumentExprs_delivers closed').bind
        rintro _ es d walks ⟨parts, u, ts, v, rfl, isLeft, separated, each, isRight, rfl⟩
        apply Delivers.looking (spanFrom_run _)
        have walk : c.Walks (c.here :: u :: (ts ++ [v])) d :=
          ⟨rfl, closed.rest_ne_nil (inner isName nofun), walks⟩
        refine .pure ⟨?_, loose_zero _⟩
        rw [← walk.spanOf (by simp), List.append_nil]
        exact .call isName isLeft separated each isRight
      · exact .pure ⟨.name isName, loose_zero _⟩
    case h_9 isLeft =>
      apply Delivers.advancing closed (inner isLeft nofun)
      intro closed'
      apply (levelExpr_delivers closed').bind
      rintro ts e d walks ⟨derives, -⟩
      apply (symbol_delivers (closed'.walks walks) .rightParen).bind
      rintro _ t d' - ⟨rfl, isRight⟩
      refine .pure ⟨?_, loose_zero _⟩
      rw [List.append_nil]
      exact .parens isLeft derives isRight
    case h_10 => exact fail_delivers ..

theorem argumentExprs_delivers {n : Nat} {c : Cursor} (closed : c.Closed) :
    Delivers (argumentExprs n) c fun us es _ => ∃ (parts : List (List Token × Expr)) (t : Token)
      (ts : List Token) (u : Token), us = t :: (ts ++ [u]) ∧ t.lexeme = .symbol .leftParen ∧
        Separated (parts.map Prod.fst) ts ∧ (∀ part ∈ parts, Derives (.level .or) part.1 part.2) ∧
        u.lexeme = .symbol .rightParen ∧ es = parts.map Prod.snd := by
  cases n with
  | zero => exact tooDeep_delivers
  | succ n =>
    rw [argumentExprs]
    apply (symbol_delivers closed .leftParen).bind
    rintro _ t d walks ⟨rfl, isLeft⟩
    have closed' := closed.walks walks
    apply (optionalSymbol_delivers closed' .rightParen).bind
    intro _ _ d' walks' told
    cases told with
    | given isRight => exact .pure ⟨[], t, [], _, rfl, isLeft, .nil, by simp, isRight, rfl⟩
    | missing =>
      apply (moreArguments_delivers (closed'.walks walks')).mono
      rintro _ es d' ⟨parts, ts, u, rfl, some, separated, each, isRight, rfl⟩
      exact ⟨parts, t, ts, u, rfl, isLeft, separated, each, isRight, rfl⟩

theorem moreArguments_delivers {n : Nat} {c : Cursor} (closed : c.Closed) :
    Delivers (moreArguments n) c fun us es _ => ∃ (parts : List (List Token × Expr))
      (ts : List Token) (u : Token), us = ts ++ [u] ∧ parts ≠ [] ∧
        Separated (parts.map Prod.fst) ts ∧ (∀ part ∈ parts, Derives (.level .or) part.1 part.2) ∧
        u.lexeme = .symbol .rightParen ∧ es = parts.map Prod.snd := by
  cases n with
  | zero => exact tooDeep_delivers
  | succ n =>
    rw [moreArguments]
    apply (levelExpr_delivers closed).bind
    rintro ts e d walks ⟨derives, -⟩
    have closed' := closed.walks walks
    apply (optionalSymbol_delivers closed' .comma).bind
    intro _ _ d' walks' told
    cases told with
    | @given t _ isComma =>
      apply (moreArguments_delivers (closed'.walks walks')).bind
      rintro _ es d'' - ⟨parts, us, u, rfl, some, separated, each, isRight, rfl⟩
      refine .pure ⟨(ts, e) :: parts, ts ++ t :: us, u, by simp, by simp, ?_, ?_, isRight, rfl⟩
      · cases parts with
        | nil => exact absurd rfl some
        | cons part parts => exact .cons isComma separated
      · exact List.forall_mem_cons.mpr ⟨derives, each⟩
    | missing =>
      apply (symbol_delivers (closed'.walks walks') .rightParen).bind
      rintro _ t d'' - ⟨rfl, isRight⟩
      refine .pure ⟨[(ts, e)], ts, t, by simp, by simp, .one, ?_, isRight, rfl⟩
      simpa using derives

end

end Parser

/-! ## Derived tokens -/

theorem Separated.forall_mem {P : Token → Prop} {parts : List (List Token)} {ts : List Token}
    (separated : Separated parts ts) (each : ∀ part ∈ parts, ∀ t ∈ part, P t)
    (commas : ∀ t : Token, t.lexeme = .symbol .comma → P t) : ∀ t ∈ ts, P t := by
  induction separated with
  | nil => simp
  | one => simpa using each
  | cons isComma _ ih =>
    obtain ⟨first, rest⟩ := List.forall_mem_cons.mp each
    intro u member
    rcases List.mem_append.mp member with member | member
    · exact first u member
    · rcases List.mem_cons.mp member with rfl | member
      · exact commas u isComma
      · exact ih rest u member

theorem Separated.head?_eq {part : List Token} {parts : List (List Token)} {ts : List Token}
    (separated : Separated (part :: parts) ts) (some : part ≠ []) : ts.head? = part.head? := by
  obtain ⟨t, rest, rfl⟩ := List.exists_cons_of_ne_nil some
  cases separated <;> rfl

def Lexeme.opensExpr : Lexeme → Bool
  | integer _ | real _ | string _ | char _ | date _ | identifier _ => true
  | keyword .true_ | keyword .false_ | keyword .not | symbol .minus | symbol .leftParen => true
  | _ => false

def Lexeme.closesExpr : Lexeme → Bool
  | integer _ | real _ | string _ | char _ | date _ | identifier _ => true
  | keyword .true_ | keyword .false_ | symbol .rightParen => true
  | _ => false

namespace Derives

variable {k : Category} {ts : List Token} {e e' : Expr}

theorem ne_nil (derives : Derives k ts e) : ts ≠ [] := by
  induction derives <;> simp_all

/-- What may stand between the operators of a level is itself of the level. -/
theorem raise {l : Level} (derives : Derives (.operand l) ts e) : Derives (.level l) ts e :=
  .level (.operand derives)

/-- What is of a level is of every looser one. -/
theorem climb {l m : Level} (le : m.height ≤ l.height) (derives : Derives (.level m) ts e) :
    Derives (.level l) ts e := by
  by_cases same : m = l
  · exact same ▸ derives
  · obtain ⟨next, isNext, le', lt⟩ : ∃ next, Category.operand l = .level next ∧
        m.height ≤ next.height ∧ next.height < l.height := by
      cases l <;> cases m <;> simp_all [Category.operand, Level.height]
    exact raise (by rw [isNext]; exact climb le' derives)
termination_by l.height

theorem whole_of_unary (derives : Derives .unary ts e) (l : Level) : Derives (.level l) ts e :=
  climb (Nat.zero_le _) (raise derives : Derives (.level .product) ts e)

section

variable (derives : Derives k ts e)

include derives

/-- Whatever the grammar derives is an expression. -/
theorem whole : Derives (.level .or) ts e := by
  cases k with
  | level l => exact climb l.height_le derives
  | chain l => exact climb l.height_le (level derives)
  | unary => exact derives.whole_of_unary .or
  | primary => exact (primary derives).whole_of_unary .or

theorem inner : ∀ t ∈ ts, t.lexeme.endsLine = false := by
  induction derives with
  | level _ ih | operand _ ih | primary _ ih => exact ih
  | not isHere _ ih | negate isHere _ ih => simpa [isHere, Lexeme.endsLine] using ih
  | binary _ isOperator _ ih ih' =>
    have here := Lexeme.endsLine_of_operator? (Level.operator?_eq_some_iff.mpr isOperator)
    simp only [List.mem_append, List.mem_cons]
    rintro u (member | rfl | member)
    · exact ih u member
    · exact here
    · exact ih' u member
  | least isHere isNext => simp [isHere, isNext, Lexeme.endsLine]
  | call isName isLeft separated _ isRight ih =>
    have arguments := separated.forall_mem (P := fun t => t.lexeme.endsLine = false)
      (by simpa using ih) (fun t isComma => by rw [isComma]; rfl)
    simpa [isName, isLeft, isRight, Lexeme.endsLine, or_imp, forall_and] using arguments
  | parens isLeft _ isRight ih =>
    simpa [isLeft, isRight, Lexeme.endsLine, or_imp, forall_and] using ih
  | _ => simp_all [Lexeme.endsLine]

theorem head_ne_not (tight : k.looseness ≤ Level.comparison.height) :
    ∀ t ∈ ts.head?, t.lexeme ≠ .keyword .not := by
  induction derives with
  | @level l _ _ _ ih => exact ih (Nat.le_of_succ_le tight)
  | operand _ ih => exact ih (by rwa [Category.looseness_operand])
  | primary _ ih => exact ih tight
  | not => exact absurd tight (by decide)
  | binary derives _ _ ih =>
    obtain ⟨t, ts, rfl⟩ := List.exists_cons_of_ne_nil derives.ne_nil
    exact ih tight
  | _ => simp_all

theorem head_opens : ∀ t ∈ ts.head?, t.lexeme.opensExpr = true := by
  induction derives with
  | level _ ih | operand _ ih | primary _ ih => exact ih
  | binary derives _ _ ih =>
    obtain ⟨t, ts, rfl⟩ := List.exists_cons_of_ne_nil derives.ne_nil
    exact ih
  | _ => simp_all [Lexeme.opensExpr]

theorem getLast_closes : ∀ t ∈ ts.getLast?, t.lexeme.closesExpr = true := by
  induction derives with
  | level _ ih | operand _ ih | primary _ ih => exact ih
  | not _ derives ih | negate _ derives ih =>
    obtain ⟨t, ts, rfl⟩ := List.exists_cons_of_ne_nil derives.ne_nil
    simpa using ih
  | binary _ _ derives _ ih =>
    obtain ⟨t, ts, rfl⟩ := List.exists_cons_of_ne_nil derives.ne_nil
    simpa using ih
  | call _ _ _ _ isRight => simp [List.getLast?_cons, isRight, Lexeme.closesExpr]
  | parens _ _ isRight => simp [List.getLast?_cons, isRight, Lexeme.closesExpr]
  | _ => simp_all [Lexeme.closesExpr]

end

/-- What is written after a sign is not the magnitude that has no positive counterpart. -/
theorem head_ne_least (derives : Derives .unary ts e) :
    ∀ t ∈ ts.head?, t.lexeme ≠ .integer leastMagnitude := by
  have outOfRange (n : Int64) : ¬ Literal.IsInteger leastMagnitude n := by
    rw [← Literal.integer?_eq_some_iff]
    simp [show Literal.integer? leastMagnitude = none by decide]
  cases derives with
  | primary derives => cases derives <;> simp_all; grind
  | _ => simp_all

end Derives

/-! ## What is derived is read -/

namespace Parser

/-- The parser of the category gives the tree and stops at `d`. A chain is read operand by operand,
so for a chain it is said of every longer one: reading comes to `d` with this tree on its left. -/
def Obtains (k : Category) (c : Cursor) (e : Expr) (d : Cursor) : Prop :=
  match k with
  | .level l => ∀ n, Reaches (levelExpr n l) c e d
  | .chain l => ∀ e' d', (∀ n, Reaches (chainExpr n l c.here e) d e' d') →
      ∀ n, Reaches (operandExpr n l >>= chainExpr n l c.here) c e' d'
  | .unary => ∀ n, Reaches (unaryExpr n) c e d
  | .primary => ∀ n, Reaches (primaryExpr n) c e d

theorem Obtains.operand {l : Level} {c d : Cursor} {e : Expr}
    (obtains : Obtains (.operand l) c e d) : ∀ n, Reaches (operandExpr n l) c e d := by
  refine Reaches.bounded rfl fun n => ?_
  rw [operandExpr]
  cases l <;> exact obtains n

/-- A chain ends where no operator of its level follows. -/
theorem chainExpr_ends {l : Level} {c : Cursor} (loose : c.Loose (l.height + 1)) (start : Token)
    (e : Expr) : ∀ n, Reaches (chainExpr n l start e) c e c := by
  refine Reaches.bounded rfl fun n => ?_
  rw [chainExpr]
  apply Reaches.looking peekLexeme_run
  rw [loose.operator?_eq_none]
  exact .pure ..

/-- The parser of the category, started at some tokens, reads the tree that they derive, unless what
follows them would make it go on. -/
def Complete (k : Category) (ts : List Token) (e : Expr) : Prop :=
  ∀ c d, c.Walks ts d → d.Loose k.looseness → d.here.lexeme ≠ .symbol .leftParen → Obtains k c e d

section Complete

variable {l : Level} {ts us : List Token} {t u : Token} {e left right : Expr} {op : BinaryOp}

theorem Complete.level (derives : Derives (.chain l) ts e) (complete : Complete (.chain l) ts e) :
    Complete (.level l) ts e := by
  intro c d walks loose notCall
  refine Reaches.bounded rfl fun n => ?_
  have notHere :
      (decide (l = .comparison) && decide (c.here.lexeme = .keyword .not)) = false := by
    by_cases isComparison : l = .comparison
    · subst isComparison
      obtain ⟨t, ts, rfl⟩ := List.exists_cons_of_ne_nil derives.ne_nil
      have other := derives.head_ne_not (Nat.le_refl _) t rfl
      simpa [walks.here] using other
    · simp [isComparison]
  rw [levelExpr]
  apply Reaches.looking (atKeyword_run .not)
  simp only [notHere, Bool.false_eq_true, if_false]
  apply Reaches.looking peek_run
  exact complete c d walks (loose.mono (Nat.le_succ _)) notCall e d (chainExpr_ends loose _ _) n

theorem Complete.not (isNot : t.lexeme = .keyword .not)
    (complete : Complete (.level .comparison) ts e) :
    Complete (.level .comparison) (t :: ts) (.unary .not e (spanOf (t :: ts))) := by
  intro c d walks loose notCall
  refine Reaches.bounded rfl fun n => ?_
  rw [walks.spanOf (by simp), levelExpr]
  obtain ⟨rfl, -, walks⟩ := walks
  apply Reaches.looking (atKeyword_run .not)
  simp only [isNot, decide_true, Bool.and_self, if_true]
  apply Reaches.advancing
  exact (complete _ d walks loose notCall n).bind (.looking (spanFrom_run _) (.pure ..))

theorem Complete.chain (complete : Complete (.operand l) ts e) : Complete (.chain l) ts e := by
  intro c d walks loose notCall e' d' goesOn n
  have operand := complete c d walks (by rwa [Category.looseness_operand]) notCall
  exact (operand.operand n).bind (goesOn n)

theorem Complete.binary (complete : Complete (.chain l) ts left)
    (isOperator : l.operator? t.lexeme = some op) (complete' : Complete (.operand l) us right) :
    Complete (.chain l) (ts ++ t :: us) (.binary op left right (spanOf (ts ++ t :: us))) := by
  intro c d walks loose notCall e' d' goesOn
  rw [walks.spanOf (by simp)] at goesOn
  obtain ⟨m, before, rfl, -, behind⟩ := Cursor.walks_append.mp walks
  obtain ⟨isInfix, isLevel⟩ := Level.binaryOp?_of_operator? isOperator
  have looseHere : m.Loose l.height := by
    intro op' l' isOperator' isLevel'
    simp_all
  have notCallHere : m.here.lexeme ≠ .symbol .leftParen := by
    intro isLeft
    simp [isLeft, Lexeme.binaryOp?] at isInfix
  apply complete c m before looseHere notCallHere
  refine Reaches.bounded rfl fun n => ?_
  have operand := complete' m.next d behind (by rwa [Category.looseness_operand]) notCall
  rw [chainExpr]
  apply Reaches.looking peekLexeme_run
  simp only [isOperator]
  apply Reaches.advancing
  exact (operand.operand n).bind (.looking (spanFrom_run _) (goesOn n))

theorem Complete.least (isMinus : t.lexeme = .symbol .minus)
    (isLeast : u.lexeme = .integer leastMagnitude) :
    Complete .unary [t, u] (.integer Int64.minValue (spanOf [t, u])) := by
  rintro c d ⟨rfl, -, rfl, -, rfl⟩ loose notCall
  refine Reaches.bounded rfl fun n => ?_
  rw [unaryExpr]
  apply Reaches.looking (atSymbol_run .minus)
  simp only [isMinus, decide_true, if_true]
  apply Reaches.advancing
  apply Reaches.looking peek_run
  simp only [isLeast, if_true]
  exact .advancing (.pure ..)

theorem Complete.negate (isMinus : t.lexeme = .symbol .minus) (derives : Derives .unary ts e)
    (complete : Complete .unary ts e) :
    Complete .unary (t :: ts) (.unary .negate e (spanOf (t :: ts))) := by
  intro c d walks loose notCall
  refine Reaches.bounded rfl fun n => ?_
  rw [walks.spanOf (by simp), unaryExpr]
  obtain ⟨rfl, -, walks⟩ := walks
  have other : c.next.here.lexeme ≠ .integer leastMagnitude := by
    obtain ⟨t, ts, rfl⟩ := List.exists_cons_of_ne_nil derives.ne_nil
    rw [walks.here]
    exact derives.head_ne_least t rfl
  apply Reaches.looking (atSymbol_run .minus)
  simp only [isMinus, decide_true, if_true]
  apply Reaches.advancing
  apply Reaches.looking peek_run
  simp only [other, if_false]
  exact (complete _ d walks loose notCall n).bind (.looking (spanFrom_run _) (.pure ..))

theorem Complete.unary (derives : Derives .primary ts e) (complete : Complete .primary ts e) :
    Complete .unary ts e := by
  intro c d walks loose notCall
  refine Reaches.bounded rfl fun n => ?_
  have other : c.here.lexeme ≠ .symbol .minus := by
    obtain ⟨t, ts, rfl⟩ := List.exists_cons_of_ne_nil derives.ne_nil
    rw [walks.here]
    cases derives <;> simp_all
  rw [unaryExpr]
  apply Reaches.looking (atSymbol_run .minus)
  simp only [other, decide_false, Bool.false_eq_true, if_false]
  exact complete c d walks loose notCall n

theorem Complete.token
    (reads : ∀ c n, c.here = t → c.next.here.lexeme ≠ .symbol .leftParen →
      Reaches (primaryExpr (n + 1)) c e c.next) : Complete .primary [t] e := by
  rintro c d ⟨isHere, -, rfl⟩ loose notCall n
  cases n with
  | zero => exact tooDeep_reaches
  | succ n => exact reads c n isHere notCall

theorem Complete.parens (isLeft : t.lexeme = .symbol .leftParen)
    (complete : Complete (.level .or) ts e) (isRight : u.lexeme = .symbol .rightParen) :
    Complete .primary (t :: (ts ++ [u])) e := by
  rintro c d ⟨rfl, -, walks⟩ loose notCall
  refine Reaches.bounded rfl fun n => ?_
  obtain ⟨m, inside, rfl, -, rfl⟩ := Cursor.walks_append.mp walks
  have inner := complete c.next m inside (Cursor.loose_iff.mpr (by rw [isRight]; rfl))
    (by simp [isRight]) n
  rw [primaryExpr]
  apply Reaches.looking peek_run
  simp only [isLeft]
  apply Reaches.advancing
  exact inner.bind ((symbol_reaches isRight).bind (.pure ..))

variable {parts : List (List Token × Expr)}

/-- Arguments with commas between them, and the parenthesis that closes the list. -/
theorem moreArguments_reaches {c d : Cursor} (some : parts ≠ [])
    (separated : Separated (parts.map Prod.fst) ts)
    (complete : ∀ part ∈ parts, Complete (.level .or) part.1 part.2)
    (isRight : u.lexeme = .symbol .rightParen) (walks : c.Walks (ts ++ [u]) d) (n : Nat) :
    Reaches (moreArguments n) c (parts.map Prod.snd) d := by
  induction parts generalizing ts c n with
  | nil => exact absurd rfl some
  | cons part parts ih =>
    obtain ⟨first, rest⟩ := List.forall_mem_cons.mp complete
    refine Reaches.bounded rfl (fun n => ?_) n
    rw [moreArguments]
    cases parts with
    | nil =>
      cases separated
      obtain ⟨m, inside, rfl, -, rfl⟩ := Cursor.walks_append.mp walks
      have argument := first c m inside (Cursor.loose_iff.mpr (by rw [isRight]; rfl))
        (by simp [isRight]) n
      apply argument.bind
      apply (optionalSymbol_stays (by simp [isRight])).bind
      exact (symbol_reaches isRight).bind (.pure ..)
    | cons part' parts =>
      cases separated with
      | @cons _ _ _ vs t isComma separated =>
        rw [List.append_assoc] at walks
        obtain ⟨m, inside, rfl, -, behind⟩ := Cursor.walks_append.mp walks
        have argument := first c m inside (Cursor.loose_iff.mpr (by rw [isComma]; rfl))
          (by simp [isComma]) n
        apply argument.bind
        apply (optionalSymbol_reaches isComma).bind
        exact (ih (by simp) separated rest behind n).bind (.pure ..)

theorem argumentExprs_reaches {c d : Cursor} (isLeft : t.lexeme = .symbol .leftParen)
    (separated : Separated (parts.map Prod.fst) ts)
    (derives : ∀ part ∈ parts, Derives (.level .or) part.1 part.2)
    (complete : ∀ part ∈ parts, Complete (.level .or) part.1 part.2)
    (isRight : u.lexeme = .symbol .rightParen) (walks : c.Walks (t :: (ts ++ [u])) d) (n : Nat) :
    Reaches (argumentExprs n) c (parts.map Prod.snd) d := by
  obtain ⟨rfl, -, walks⟩ := walks
  refine Reaches.bounded rfl (fun n => ?_) n
  rw [argumentExprs]
  apply (symbol_reaches isLeft).bind
  cases parts with
  | nil =>
    cases separated
    obtain ⟨rfl, -, rfl⟩ := walks
    exact (optionalSymbol_reaches isRight).bind (.pure ..)
  | cons part parts =>
    have first := derives part List.mem_cons_self
    have other : c.next.here.lexeme ≠ .symbol .rightParen := by
      intro isRight
      obtain ⟨t, us, isPart⟩ := List.exists_cons_of_ne_nil first.ne_nil
      have head := separated.head?_eq first.ne_nil
      obtain ⟨rest, rfl⟩ : ∃ rest, ts = t :: rest := by
        rw [isPart] at head
        exact List.head?_eq_some_iff.mp head
      have opens := first.head_opens t (by simp [isPart])
      rw [walks.here] at isRight
      rw [isRight] at opens
      cases opens
    apply (optionalSymbol_stays other).bind
    exact moreArguments_reaches (by simp) separated complete isRight walks n

theorem Complete.call {name : String} {v : Token} (isName : t.lexeme = .identifier name)
    (isLeft : u.lexeme = .symbol .leftParen) (separated : Separated (parts.map Prod.fst) ts)
    (derives : ∀ part ∈ parts, Derives (.level .or) part.1 part.2)
    (complete : ∀ part ∈ parts, Complete (.level .or) part.1 part.2)
    (isRight : v.lexeme = .symbol .rightParen) :
    Complete .primary (t :: u :: (ts ++ [v]))
      (.call ⟨name, t.span⟩ (parts.map Prod.snd) (spanOf (t :: u :: (ts ++ [v])))) := by
  intro c d walks loose notCall
  refine Reaches.bounded rfl fun n => ?_
  rw [walks.spanOf (by simp), primaryExpr]
  obtain ⟨rfl, -, walks⟩ := walks
  have here : c.next.here.lexeme = .symbol .leftParen := walks.here ▸ isLeft
  apply Reaches.looking peek_run
  simp only [isName]
  apply Reaches.advancing
  apply Reaches.looking (atSymbol_run .leftParen)
  simp only [here, decide_true, if_true]
  apply (argumentExprs_reaches isLeft separated derives complete isRight walks n).bind
  exact .looking (spanFrom_run _) (.pure ..)

end Complete

end Parser

theorem Derives.complete {k : Category} {ts : List Token} {e : Expr} (derives : Derives k ts e) :
    Parser.Complete k ts e := by
  induction derives with
  | level derives ih => exact ih.level derives
  | not isNot _ ih => exact ih.not isNot
  | operand _ ih => exact ih.chain
  | binary _ isOperator _ ih ih' => exact ih.binary (Level.operator?_eq_some_iff.mpr isOperator) ih'
  | least isMinus isLeast => exact .least isMinus isLeast
  | negate isMinus derives ih => exact ih.negate isMinus derives
  | primary derives ih => exact ih.unary derives
  | call isName isLeft separated derives isRight ih =>
    exact .call isName isLeft separated derives ih isRight
  | parens isLeft _ isRight ih => exact ih.parens isLeft isRight
  | name isName =>
    apply Parser.Complete.token
    rintro c n rfl notCall
    rw [Parser.primaryExpr]
    apply Parser.Reaches.looking Parser.peek_run
    simp only [isName]
    apply Parser.Reaches.advancing
    apply Parser.Reaches.looking (Parser.atSymbol_run .leftParen)
    simp only [notCall, decide_false, Bool.false_eq_true, if_false]
    exact .pure ..
  | integer isHere isValue | real isHere isValue | date isHere isValue =>
    simp only [← Literal.integer?_eq_some_iff, ← Literal.real?_eq_some_iff,
      Literal.isDate_iff] at isValue
    apply Parser.Complete.token
    rintro c n rfl -
    rw [Parser.primaryExpr]
    apply Parser.Reaches.looking Parser.peek_run
    simp only [isHere, isValue]
    exact .advancing (.pure ..)
  | string isHere | char isHere | true_ isHere | false_ isHere =>
    apply Parser.Complete.token
    rintro c n rfl -
    rw [Parser.primaryExpr]
    apply Parser.Reaches.looking Parser.peek_run
    simp only [isHere]
    exact .advancing (.pure ..)

/-! ## Expressions and their ranges of tokens -/

/-- The tokens end with the end of the input, and no other token is it. -/
def Token.Ended (tokens : List Token) : Prop :=
  ∃ (body : List Token) (stop : Token), tokens = body ++ [stop] ∧ stop.isEnd = true ∧
    ∀ t ∈ body, t.isEnd = false

def Token.range (tokens : List Token) (i j : Nat) : List Token :=
  (tokens.take j).drop i

namespace Cursor

def nth (tokens : List Token) (i : Nat) (inside : i < tokens.length) : Cursor :=
  ⟨tokens[i - 1], tokens[i], tokens.drop (i + 1)⟩

variable {tokens : List Token} {i j : Nat}

theorem tokens_nth (inside : i < tokens.length) : (nth tokens i inside).tokens = tokens.drop i :=
  List.getElem_cons_drop inside

theorem nth_next (inside : i + 1 < tokens.length) :
    (nth tokens i (Nat.lt_of_succ_lt inside)).next = nth tokens (i + 1) inside := by
  simp only [nth, next, List.drop_eq_getElem_cons inside, Nat.add_sub_cancel]

theorem nth_walks (le : i ≤ j) (inside : j < tokens.length) :
    (nth tokens i (Nat.lt_of_le_of_lt le inside)).Walks (Token.range tokens i j)
      (nth tokens j inside) := by
  induction le with
  | refl => simp [Token.range]
  | @step j le ih =>
    have le : i ≤ j := le
    have last : Token.range tokens i (j + 1) = Token.range tokens i j ++ [tokens[j]] := by
      unfold Token.range
      rw [List.take_succ_eq_append_getElem (Nat.lt_of_succ_lt inside),
        List.drop_append_of_le_length (by rw [List.length_take]; omega)]
    rw [last]
    refine (ih (Nat.lt_of_succ_lt inside)).trans ⟨rfl, ?_, nth_next inside⟩
    simpa [nth] using inside

theorem Walks.eq_nth {d : Cursor} {ts : List Token} (inside : i < tokens.length)
    (walks : (nth tokens i inside).Walks ts d) :
    ∃ inside' : i + ts.length < tokens.length,
      d = nth tokens (i + ts.length) inside' ∧ ts = Token.range tokens i (i + ts.length) := by
  have all := walks.tokens
  rw [tokens_nth] at all
  have inside' : i + ts.length < tokens.length := by
    have length := congrArg List.length all
    simp only [List.length_drop, List.length_append, Cursor.tokens, List.length_cons] at length
    omega
  have same : ts = Token.range tokens i (i + ts.length) := by
    rw [Token.range, List.drop_take, Nat.add_sub_cancel_left, all, List.take_left]
  refine ⟨inside', ?_, same⟩
  rw [same] at walks
  exact walks.unique (nth_walks (Nat.le_add_right _ _) inside')

end Cursor

namespace Parser

variable {c d : Cursor} {ts : List Token} {e : Expr}

theorem expression_delivers (closed : c.Closed) : Delivers expression c (Tells (.level .or)) :=
  Delivers.looking get_run (levelExpr_delivers closed)

theorem expression_reaches (derives : Derives (.level .or) ts e) (walks : c.Walks ts d)
    (noInfix : d.here.lexeme.isInfix = false) (notCall : d.here.lexeme ≠ .symbol .leftParen) :
    Reaches expression c e d := by
  apply Reaches.looking get_run
  exact derives.complete c d walks (Cursor.loose_iff.mpr noInfix) notCall _

theorem expression_run (closed : c.Closed) (derives : Derives (.level .or) ts e)
    (walks : c.Walks ts d) (noInfix : d.here.lexeme.isInfix = false)
    (notCall : d.here.lexeme ≠ .symbol .leftParen) : expression.run c = .ok (e, d) := by
  apply (expression_reaches derives walks noInfix notCall).run
  intro error failed
  have consumes := expression_consumes closed
  unfold Consumes Yields at consumes
  rw [failed] at consumes
  exact consumes.1

end Parser

/-- Tokens have one tree at most. -/
theorem Derives.unique {ts : List Token} {e e' : Expr} (derives : Derives (.level .or) ts e)
    (derives' : Derives (.level .or) ts e') : e = e' := by
  obtain ⟨t, rest, rfl⟩ := List.exists_cons_of_ne_nil derives.ne_nil
  -- The tokens are read where nothing but the end of the input follows them.
  let stop : Token := ⟨.endOfInput, .first, .first⟩
  let c : Cursor := ⟨t, t, rest ++ [stop]⟩
  have closed : c.Closed :=
    ⟨t :: rest, stop, rfl, rfl, fun u member =>
      Token.isEnd_of_not_endsLine (derives.inner u member)⟩
  have tokens : c.tokens = (t :: rest) ++ [stop] := rfl
  obtain ⟨d, walks⟩ := Cursor.exists_walks tokens (by simp)
  have here : d.here = stop := by
    have behind := walks.tokens.symm.trans tokens
    exact (List.cons.inj (List.append_cancel_left behind)).1
  have read := Parser.expression_run closed derives walks (by rw [here]; rfl) (by simp [here, stop])
  have read' := Parser.expression_run closed derives' walks (by rw [here]; rfl)
    (by simp [here, stop])
  simpa using read.symm.trans read'

/-- An expression is read exactly where the grammar derives one that goes on no further. -/
theorem Parser.expression_grammar {tokens : List Token} (ended : Token.Ended tokens) {i : Nat}
    (inside : i < tokens.length) :
    (∀ e d, expression.run (.nth tokens i inside) = .ok (e, d) →
      ∃ j, ∃ within : j < tokens.length, i ≤ j ∧ d = .nth tokens j within ∧
        Derives (.level .or) (Token.range tokens i j) e ∧ tokens[j].lexeme.isInfix = false) ∧
    (∀ j e, ∀ within : j < tokens.length, i ≤ j → Derives (.level .or) (Token.range tokens i j) e →
      tokens[j].lexeme.isInfix = false → tokens[j].lexeme ≠ .symbol .leftParen →
      expression.run (.nth tokens i inside) = .ok (e, .nth tokens j within)) ∧
    ∀ j e e', Derives (.level .or) (Token.range tokens i j) e →
      Derives (.level .or) (Token.range tokens i j) e' → e = e' := by
  have closed : (Cursor.nth tokens i inside).Closed := by
    obtain ⟨body, stop, rfl, isEnd, inner⟩ := ended
    refine ⟨body.drop i, stop, ?_, isEnd, fun t member => inner t (List.mem_of_mem_drop member)⟩
    rw [Cursor.tokens_nth, List.drop_append_of_le_length]
    simpa [Nat.lt_succ_iff] using inside
  refine ⟨?_, ?_, fun j e e' => Derives.unique⟩
  · intro e d ran
    obtain ⟨ts, walks, derives, loose⟩ := (expression_delivers closed).ok ran
    obtain ⟨within, rfl, same⟩ := Cursor.Walks.eq_nth inside walks
    exact ⟨i + ts.length, within, Nat.le_add_right .., rfl, same ▸ derives,
      Cursor.loose_iff.mp loose⟩
  · intro j e within le derives noInfix notCall
    exact expression_run closed derives (Cursor.nth_walks le within) noInfix notCall

/-- `a OR NOT b < c & d - 1 - -9223372036854775808 * f(x, (y)) AND TRUE`, with an operator of every
level. -/
def Lexeme.crossing : List Lexeme :=
  [identifier "a", keyword .or, keyword .not, identifier "b", symbol .less, identifier "c",
   symbol .join, identifier "d", symbol .minus, integer "1", symbol .minus, symbol .minus,
   integer "9223372036854775808", symbol .times, identifier "f", symbol .leftParen, identifier "x",
   symbol .comma, symbol .leftParen, identifier "y", symbol .rightParen, symbol .rightParen,
   keyword .and, keyword .true_, endOfInput]

theorem Parser.expression_grammar_crossing :
    ∃ tokens, tokens.map Token.lexeme = Lexeme.crossing ∧ Token.Ended tokens ∧
      ∃ (inside : 0 < tokens.length) (within : 24 < tokens.length) (s : Span),
        expression.run (.nth tokens 0 inside) = .ok (.binary .or (.name ⟨"a", s⟩)
          (.binary .and
            (.unary .not (.binary .less (.name ⟨"b", s⟩)
              (.binary .join (.name ⟨"c", s⟩)
                (.binary .subtract
                  (.binary .subtract (.name ⟨"d", s⟩) (.integer 1 s) s)
                  (.binary .multiply (.integer Int64.minValue s)
                    (.call ⟨"f", s⟩ [.name ⟨"x", s⟩, .name ⟨"y", s⟩] s) s) s) s) s) s)
            (.boolean true s) s) s, .nth tokens 24 within) := by
  let place (l : Lexeme) : Token := ⟨l, .first, .first⟩
  let s : Span := ⟨.first, .first⟩
  have name (x : String) : Derives .unary [place (.identifier x)] (.name ⟨x, s⟩) :=
    .primary (.name rfl)
  let inParens := [.symbol .leftParen, .identifier "y", .symbol .rightParen].map place
  have parens : Derives .primary inParens (.name ⟨"y", s⟩) :=
    .parens rfl ((name "y").whole_of_unary .or) rfl
  let parts : List (List Token × Expr) :=
    [([place (.identifier "x")], .name ⟨"x", s⟩), (inParens, .name ⟨"y", s⟩)]
  have arguments : ∀ part ∈ parts, Derives (.level .or) part.1 part.2 := by
    simpa [parts] using
      ⟨(name "x").whole_of_unary .or, (Derives.primary parens).whole_of_unary .or⟩
  have separated : Separated (parts.map Prod.fst) _ := .cons (t := place (.symbol .comma)) rfl .one
  have call := Derives.call (t := place (.identifier "f")) (u := place (.symbol .leftParen))
    (v := place (.symbol .rightParen)) rfl rfl separated arguments rfl
  have least := Derives.least (t := place (.symbol .minus))
    (u := place (.integer "9223372036854775808")) rfl rfl
  have product := (Derives.operand (l := .product) least).binary
    (t := place (.symbol .times)) .multiply (.primary call)
  have one : Derives .unary [place (.integer "1")] (.integer 1 s) :=
    .primary (.integer rfl (Literal.integer?_eq_some_iff.mp (by decide)))
  have difference := (Derives.operand (l := .sum) ((name "d").whole_of_unary .product)).binary
    (t := place (.symbol .minus)) .subtract (one.whole_of_unary .product)
  have sum := difference.binary (t := place (.symbol .minus)) .subtract (.level product)
  have join := (Derives.operand (l := .join) ((name "c").whole_of_unary .sum)).binary
    (t := place (.symbol .join)) .join (.level sum)
  have less := (Derives.operand (l := .comparison) ((name "b").whole_of_unary .join)).binary
    (t := place (.symbol .less)) .less (.level join)
  have not := Derives.not (t := place (.keyword .not)) rfl (.level less)
  have true_ : Derives .unary [place (.keyword .true_)] (.boolean true s) := .primary (.true_ rfl)
  have and := (Derives.operand (l := .and) not).binary (t := place (.keyword .and)) .and
    (true_.whole_of_unary .comparison)
  have or := (Derives.operand (l := .or) ((name "a").whole_of_unary .and)).binary
    (t := place (.keyword .or)) .or (.level and)
  let tokens := Lexeme.crossing.map place
  have ended : Token.Ended tokens :=
    ⟨tokens.take 24, place .endOfInput, rfl, rfl, by
      simp [tokens, Lexeme.crossing, place, Token.isEnd]⟩
  refine ⟨tokens, rfl, ended, by decide, by decide, s, ?_⟩
  exact (expression_grammar ended (i := 0) (by decide)).2.1 24 _ (by decide) (by decide)
    (.level or) rfl nofun

end Pseudocode
