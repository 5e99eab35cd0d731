import Pseudocode.Proofs.Roundtrip
import Pseudocode.Proofs.Sequencing

/-! # Values that are read back

The text that `OUTPUT` writes for an INTEGER, a BOOLEAN or a DATE with a year of four digits is an
expression of the language, and its value is the one that was written. A number below zero is read as
a sign with an operand, which is then negated; only the least one is a literal as a whole, for it has
no opposite. -/

namespace Pseudocode

namespace Value

/-- The values whose text is read back. A STRING is written without its quotes, and some numbers of
type REAL as `inf` or `nan`. -/
def HasLiteral : Value → Prop
  | integer _ | boolean _ => True
  | date d => d.Valid ∧ d.year ≤ 9999
  | _ => False

/-- What is read for the text of the value. -/
def literal : Value → Expr
  | integer n =>
    if 0 ≤ n ∨ n = Int64.minValue then .integer n .zero
    else .unary .negate (.integer (-n) .zero) .zero
  | boolean b => .boolean b .zero
  | date d => .date d .zero
  | _ => .hole

end Value

/-! ## Numbers -/

namespace Integer

variable {n : Int64}

theorem toInt_neg (some : n ≠ Int64.minValue) : (-n).toInt = -n.toInt := by
  have low := n.le_toInt
  have high := n.toInt_lt
  have other : n.toInt ≠ -2 ^ 63 := fun same =>
    some (Int64.toInt_inj.mp (same.trans Int64.toInt_minValue.symm))
  rw [Int64.toInt_neg, Int.bmod_eq_of_le] <;> omega

/-- The opposite of a number below zero is above zero, with one exception. -/
theorem neg_nonneg (below : ¬ 0 ≤ n) (some : n ≠ Int64.minValue) : 0 ≤ -n := by
  rw [Int64.le_iff_toInt_le, Int64.toInt_zero] at below ⊢
  rw [toInt_neg some]
  omega

theorem nonneg_ne_minValue (nonneg : 0 ≤ n) : n ≠ Int64.minValue := by
  rintro rfl
  exact absurd nonneg (by decide)

end Integer

namespace Value

variable {n : Int64}

theorem shown_nonneg (nonneg : 0 ≤ n) : (integer n).shown = toString n.toNatClampNeg := by
  rw [Int64.le_iff_toInt_le, Int64.toInt_zero] at nonneg
  obtain ⟨m, same⟩ := Int.eq_ofNat_of_zero_le nonneg
  rw [shown, ← Int64.toNat_toInt, same]
  rfl

theorem shown_neg (below : ¬ 0 ≤ n) : (integer n).shown = "-" ++ toString n.toInt.natAbs := by
  rw [Int64.le_iff_toInt_le, Int64.toInt_zero] at below
  obtain ⟨m, same⟩ := Int.eq_negSucc_of_lt_zero (Int.not_le.mp below)
  rw [shown, same]
  rfl

theorem literal_nonneg (nonneg : 0 ≤ n) : (integer n).literal = .integer n .zero :=
  if_pos (.inl nonneg)

theorem lexemes_nonneg (nonneg : 0 ≤ n) :
    (integer n).literal.lexemes = [.integer (toString n.toNatClampNeg)] := by
  rw [literal_nonneg nonneg, Expr.lexemes, if_neg (Integer.nonneg_ne_minValue nonneg)]

theorem lexemes_neg (below : ¬ 0 ≤ n) :
    (integer n).literal.lexemes = [.symbol .minus, .integer (toString n.toInt.natAbs)] := by
  by_cases least : n = Int64.minValue
  · subst least
    decide +kernel
  · have nonneg := Integer.neg_nonneg below least
    have other : ¬ (0 ≤ n ∨ n = Int64.minValue) := not_or.mpr ⟨below, least⟩
    have magnitude : (-n).toNatClampNeg = n.toInt.natAbs := by
      rw [Int64.le_iff_toInt_le, Int64.toInt_zero] at below
      rw [← Int64.toNat_toInt, Integer.toInt_neg least]
      omega
    rw [literal, if_neg other, Expr.lexemes, Expr.lexemes,
      if_neg (Integer.nonneg_ne_minValue nonneg), magnitude]
    rfl

end Value

/-! ## Reading -/

namespace Token

variable {later : List Char} {lexemes : List Lexeme}

theorem Scans.minus (rest : Scans later lexemes) :
    Scans ('-' :: later) (.symbol .minus :: lexemes) := by
  have spelled : (Lexeme.symbol .minus).Spelled '-' [] later :=
    .sign rfl fun x _ => by simp
  exact .lexeme spelled rest

theorem Scans.alone {l : Lexeme} (legible : l.Legible) : Scans l.written [l] :=
  scans_ofLexemes (List.forall_mem_singleton.mpr legible)

end Token

namespace Value

theorem scans_integer (n : Int64) :
    Token.Scans (integer n).shown.toList (integer n).literal.lexemes := by
  by_cases nonneg : 0 ≤ n
  · rw [shown_nonneg nonneg, lexemes_nonneg nonneg]
    exact .alone (.number _)
  · rw [shown_neg nonneg, lexemes_neg nonneg, String.toList_append]
    exact (Token.Scans.alone (.number _)).minus

theorem HasLiteral.fitsDigits {d : Date} (has : (date d).HasLiteral) : d.fitsDigits = true := by
  obtain ⟨⟨year, month, day⟩, small⟩ := has
  exact Date.fitsDigits_iff.mpr (by omega)

theorem HasLiteral.scans {v : Value} (has : v.HasLiteral) :
    Token.Scans v.shown.toList v.literal.lexemes := by
  cases v with
  | integer n => exact scans_integer n
  | boolean b =>
    cases b with
    | false => exact .alone (.keyword .false_)
    | true => exact .alone (.keyword .true_)
  | date d => exact .alone (.date has.fitsDigits)
  | _ => exact has.elim

theorem literal_written (n : Int64) : (integer n).literal.Written := by
  rw [literal]
  split
  case isTrue inRange =>
    exact Expr.integer_written (by simpa [TreeNode.isPrintable] using inRange)
  case isFalse other =>
    obtain ⟨below, some⟩ := not_or.mp other
    have nonneg := Integer.neg_nonneg below some
    exact Expr.unary_written rfl (Expr.integer_written (by simp [TreeNode.isPrintable, nonneg]))

theorem HasLiteral.written {v : Value} (has : v.HasLiteral) : v.literal.Written := by
  cases v with
  | integer n => exact literal_written n
  | boolean b => exact (Expr.boolean b .zero).written rfl
  | date d =>
    have printable : (Expr.date d .zero).isPrintable false = true :=
      Expr.isPrintable_iff.mpr ⟨has.fitsDigits, List.forall_mem_nil _⟩
    exact (Expr.date d .zero).written printable
  | _ => exact has.elim

end Value

/-- An `OUTPUT` line with an expression is read, if the expression is. -/
theorem Program.ofText_output {text : List Char} {e : Expr} (scans : Token.Scans text e.lexemes)
    (written : e.Written) :
    ∃ p, ofText ("OUTPUT ".toList ++ text) = .ok p ∧
      p.body.map Stmt.unplaced = [.output e.unplaced .zero] := by
  obtain ⟨tokens, stop, scanned, same, -⟩ := scans.keyword .output .first
  refine ofText_scanned scanned ?_
  rw [same]
  have forms : Forms (Lexeme.tokens (.keyword .output :: e.lexemes)) (.output e.unplaced .zero) :=
    (Forms.output (t := Lexeme.token (.keyword .output)) rfl written.1).tokens
      (f := fun span => .output _ span) rfl
  have line (part : List Token) : Lines .input [part] ([] ++ part) :=
    .last (List.forall_mem_nil _) (fun c _ => rfl) rfl
  exact ⟨[(_, _)], line _, List.forall_mem_singleton.mpr forms, rfl⟩

/-! ## Evaluating -/

theorem Expr.eq_integer {e : Expr} {n : Int64} {span : Span} (same : e.unplaced = .integer n span) :
    ∃ span, e = .integer n span := by
  cases e with
  | integer m span =>
    obtain ⟨rfl, -⟩ := Expr.integer.inj same
    exact ⟨span, rfl⟩
  | _ => cases same

namespace Value

variable {settings : Settings} {id : ScopeId} {state : State}

theorem advance_integer {n : Int64} {e : Expr}
    (same : e.unplaced = (integer n).literal.unplaced) :
    Config.advance settings 3 ⟨.eval e, [], id, state⟩ = ⟨.value (integer n), [], id, state⟩ := by
  rw [literal] at same
  split at same
  case isTrue =>
    obtain ⟨span, rfl⟩ := Expr.eq_integer same
    rfl
  case isFalse other =>
    obtain ⟨below, least⟩ := not_or.mp other
    have opposite : Integer.negate? (-n) = some n := by
      have nonneg := Integer.neg_nonneg below least
      rw [Integer.negate?, if_neg (Integer.nonneg_ne_minValue nonneg), Int64.neg_neg]
    cases e with
    | unary op operand span =>
      obtain ⟨rfl, sameOperand, -⟩ := Expr.unary.inj same
      obtain ⟨span, rfl⟩ := Expr.eq_integer sameOperand
      have applied : UnaryOp.apply .negate (integer (-n)) = .ok (integer n) := by
        rw [UnaryOp.apply, opposite]
      change Config.ofResult (UnaryOp.apply .negate (integer (-n))) [] id state = _
      rw [applied]
      rfl
    | _ => cases same

/-- The literal of a value comes to the value, and changes nothing. -/
theorem HasLiteral.advance {v : Value} {e : Expr} (has : v.HasLiteral)
    (same : e.unplaced = v.literal.unplaced) (dates : settings.builtins.enabled .date = true) :
    Config.advance settings 3 ⟨.eval e, [], id, state⟩ = ⟨.value v, [], id, state⟩ := by
  cases v with
  | integer n => exact advance_integer same
  | boolean b =>
    cases e with
    | boolean b' span =>
      obtain ⟨rfl, -⟩ := Expr.boolean.inj same
      rfl
    | _ => cases same
  | date d =>
    cases e with
    | date d' span =>
      obtain ⟨rfl, -⟩ := Expr.date.inj same
      have valid : ofDate d' = .ok (date d') := by rw [ofDate, Date.flaw?_eq_none.mpr has.1]
      have read : Config.optionalLiteral settings .date (ofDate d') = .ok (date d') := by
        rw [Config.optionalLiteral, if_pos dates, valid]
      change Config.advance settings 2
        (Config.ofResult (Config.optionalLiteral settings .date (ofDate d')) [] id state) = _
      rw [read]
      rfl
    | _ => cases same
  | _ => exact has.elim

end Value

namespace Session

/-- An expression that comes to a value and leaves the state as it is. -/
theorem evaluate_of_advance {s : Session} {e : Expr} {v : Value} {n : Nat}
    (last : Config.advance s.settings n ⟨.eval e, [], Memory.global, s.state⟩ =
      ⟨.value v, [], Memory.global, s.state⟩) {fuel : Nat} (enough : n ≤ fuel) :
    s.evaluate fuel e = some (.ok v, s) := by
  have halted :
      (Config.advance s.settings n ⟨.eval e, [], Memory.global, s.state⟩).halted = true := by
    rw [last]
    rfl
  unfold evaluate Config.run
  dsimp only
  rw [Config.advance_of_le halted enough, last]
  rfl

end Session

/-- A program that writes an expression and does nothing else, wherever it stands. -/
theorem Stmt.eq_output {body : List Stmt} {value : Expr} {span : Span}
    (same : body.map Stmt.unplaced = [.output value span]) :
    ∃ e span, body = [.output e span] ∧ e.unplaced = value := by
  obtain ⟨s, rfl, sameStmt⟩ := List.map_eq_singleton_iff.mp same
  cases s with
  | output e span =>
    obtain ⟨sameValue, -⟩ := Stmt.output.inj sameStmt
    exact ⟨e, span, rfl, sameValue⟩
  | _ => cases sameStmt

def Value.outputLine (v : Value) : List UInt8 :=
  ("OUTPUT " ++ v.shown).toUTF8.toList

theorem Program.ofBytes_outputLine (v : Value) :
    ofBytes v.outputLine = ofText ("OUTPUT ".toList ++ v.shown.toList) := by
  rw [ofBytes, Value.outputLine, ← String.ofList_toList (s := "OUTPUT " ++ v.shown),
    Text.toUTF8_ofList, Text.decode_utf8, String.toList_append]

/-- What `OUTPUT` writes for a value is an expression of the language. Its line is one statement, and
in every session with all types, a fresh one or not, the expression comes to the value again and
changes nothing. -/
theorem Value.HasLiteral.reads_back {v : Value} (has : v.HasLiteral) :
    ∃ p e span, Program.ofBytes v.outputLine = .ok p ∧ p.body = [.output e span] ∧
      ∀ s : Session, (∀ kind ∈ Builtins.optionalKinds, s.settings.builtins.enabled kind = true) →
        ∀ fuel ≥ 3, s.evaluate fuel e = some (.ok v, s) := by
  obtain ⟨p, read, body⟩ := Program.ofText_output has.scans has.written
  obtain ⟨e, span, isOutput, same⟩ := Stmt.eq_output body
  refine ⟨p, e, span, (Program.ofBytes_outputLine v).trans read, isOutput, ?_⟩
  intro s all fuel enough
  have dates : s.settings.builtins.enabled .date = true := all .date (by simp [Builtins.optionalKinds])
  exact Session.evaluate_of_advance (has.advance same dates) enough

/-- The least number, which is no negated literal, and the last day that can be written. -/
theorem Value.HasLiteral.reads_back_extremes :
    Session.start {} = .ok Sample.fresh ∧
      (integer Int64.minValue).HasLiteral ∧ (date ⟨9999, 12, 31⟩).HasLiteral ∧
      (∃ p e span, Program.ofBytes (integer Int64.minValue).outputLine = .ok p ∧
        p.body = [.output e span] ∧
        Sample.fresh.evaluate 3 e = some (.ok (integer Int64.minValue), Sample.fresh)) ∧
      ∃ p e span, Program.ofBytes (date ⟨9999, 12, 31⟩).outputLine = .ok p ∧
        p.body = [.output e span] ∧
        Sample.fresh.evaluate 3 e = some (.ok (date ⟨9999, 12, 31⟩), Sample.fresh) := by
  have least : (integer Int64.minValue).HasLiteral := trivial
  have day : (date ⟨9999, 12, 31⟩).HasLiteral := ⟨Date.flaw?_eq_none.mp (by decide), by decide⟩
  have all : ∀ kind ∈ Builtins.optionalKinds,
      Sample.fresh.settings.builtins.enabled kind = true := by decide
  obtain ⟨p, e, span, read, body, evaluates⟩ := Value.HasLiteral.reads_back least
  obtain ⟨q, f, place, read', body', evaluates'⟩ := Value.HasLiteral.reads_back day
  exact ⟨Sample.started, least, day,
    ⟨p, e, span, read, body, evaluates Sample.fresh all 3 (Nat.le_refl 3)⟩,
    q, f, place, read', body', evaluates' Sample.fresh all 3 (Nat.le_refl 3)⟩

end Pseudocode
