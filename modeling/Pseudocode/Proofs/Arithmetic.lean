import Mathlib.Algebra.Group.Nat.Defs
import Mathlib.Algebra.Ring.Int.Defs
import Mathlib.Tactic.ByContra
import Pseudocode.Operator

/-! # INTEGER arithmetic is exact

An INTEGER is an integer from -2^63 up to, but not including, 2^63. The operators compute with words
that wrap around, and tell from the wrapped result whether it is the right one. For a sum and a
difference the signs tell. A product is divided again: a wrapped product is off by a multiple of
2^64, and no remainder is as large as that. -/

namespace Pseudocode

namespace Integer

def Fits (n : Int) : Prop :=
  -2 ^ 63 ≤ n ∧ n < 2 ^ 63

instance (n : Int) : Decidable (Fits n) :=
  inferInstanceAs (Decidable (_ ∧ _))

def ofInt? (n : Int) : Option Int64 :=
  if Fits n then some (.ofInt n) else none

variable {l r m : Int64} {n : Int}

theorem fits_toInt (m : Int64) : Fits m.toInt :=
  ⟨m.le_toInt, m.toInt_lt⟩

theorem ofInt?_toInt (m : Int64) : ofInt? m.toInt = some m := by
  rw [ofInt?, if_pos (fits_toInt m), Int64.ofInt_toInt]

/-- A word that wraps around is not changed by that if the integer is an INTEGER. -/
theorem Fits.bmod_eq (fits : Fits n) : n.bmod (2 ^ 64) = n := by
  unfold Fits at fits
  exact Int.bmod_eq_of_le (by omega) (by omega)

/-- A wrapped result is exact if the check refuses it just when it is not an INTEGER. -/
theorem checked_eq {refused : Prop} [Decidable refused] (wrapped : m.toInt = n.bmod (2 ^ 64))
    (tells : refused ↔ ¬ Fits n) : (if refused then none else some m) = ofInt? n := by
  by_cases fits : Fits n
  · rw [if_neg (fun no => tells.mp no fits), ← ofInt?_toInt m, wrapped, fits.bmod_eq]
  · rw [if_pos (tells.mpr fits), ofInt?, if_neg fits]

theorem add?_eq (l r : Int64) : add? l r = ofInt? (l.toInt + r.toInt) := by
  apply checked_eq (Int64.toInt_add l r)
  have := fits_toInt l
  have := fits_toInt r
  simp only [Bool.or_eq_true, Bool.and_eq_true, decide_eq_true_eq, Int64.lt_iff_toInt_lt,
    Int64.toInt_zero, Int64.toInt_add, Int.bmod_def, Fits] at *
  omega

theorem subtract?_eq (l r : Int64) : subtract? l r = ofInt? (l.toInt - r.toInt) := by
  apply checked_eq (Int64.toInt_sub l r)
  have := fits_toInt l
  have := fits_toInt r
  simp only [Bool.or_eq_true, Bool.and_eq_true, decide_eq_true_eq, Int64.lt_iff_toInt_lt,
    Int64.toInt_zero, Int64.toInt_sub, Int.bmod_def, Fits] at *
  omega

theorem eq_minValue_iff : m = Int64.minValue ↔ m.toInt = -2 ^ 63 := by
  rw [← Int64.toInt_minValue, Int64.toInt_inj]

theorem eq_minusOne_iff : m = -1 ↔ m.toInt = -1 := by
  rw [← Int64.toInt_inj]
  rfl

theorem negate?_eq (m : Int64) : negate? m = ofInt? (-m.toInt) := by
  apply checked_eq (Int64.toInt_neg m)
  have := fits_toInt m
  simp only [eq_minValue_iff, Fits] at *
  omega

theorem ne_zero_iff : m ≠ 0 ↔ m.toInt ≠ 0 :=
  not_congr Int64.toInt_inj.symm

/-- A remainder is smaller than its divisor. -/
theorem natAbs_tmod_lt (n : Int) {k : Int} (nonzero : k ≠ 0) : (n.tmod k).natAbs < k.natAbs := by
  rw [Int.natAbs_tmod]
  exact Nat.mod_lt _ (Int.natAbs_pos.mpr nonzero)

/-- A remainder has the sign of the dividend, unless there is none. -/
theorem sign_tmod (n k : Int) : n.tmod k = 0 ∨ (n.tmod k).sign = n.sign := by
  have sign := Int.sign_tmod n k
  split at sign
  · exact .inl (Int.sign_eq_zero_iff_zero.mp sign)
  · exact .inr sign

/-- The word quotient is the truncated one, with one exception. -/
theorem toInt_div (exception : ¬ (l = Int64.minValue ∧ r = -1)) :
    (l / r).toInt = l.toInt.tdiv r.toInt := by
  rcases not_and_or.mp exception with other | other
  · exact Int64.toInt_div_of_ne_left l r other
  · exact Int64.toInt_div_of_ne_right l r other

/-- Dividing a wrapped product again gives the first factor only if the product was not wrapped. -/
theorem fits_of_div_eq (nonzero : r ≠ 0) (exception : ¬ (l = Int64.minValue ∧ r = -1))
    (again : l * r / r = l) : Fits (l.toInt * r.toInt) := by
  have product := Int64.toInt_mul l r
  have quotient : (l * r).toInt.tdiv r.toInt = l.toInt := by
    rw [← toInt_div, again]
    rintro ⟨isLeast, rfl⟩
    -- The quotient would wrap around to the least INTEGER, which is the exception.
    refine exception ⟨?_, rfl⟩
    rw [← again, isLeast]
    decide
  have whole := Int.tdiv_mul_add_tmod (l * r).toInt r.toInt
  have small := natAbs_tmod_lt (l * r).toInt (ne_zero_iff.mp nonzero)
  rw [quotient] at whole
  have range := fits_toInt r
  obtain ⟨k, off⟩ := Int.dvd_bmod_sub_self (x := l.toInt * r.toInt) (m := 2 ^ 64)
  have fits := fits_toInt (l * r)
  rw [← product] at off
  unfold Fits at range
  have exact_ : (l * r).toInt = l.toInt * r.toInt := by omega
  rwa [exact_] at fits

theorem div_eq_of_fits (nonzero : r ≠ 0) (fits : Fits (l.toInt * r.toInt)) : l * r / r = l := by
  rw [← Int64.toInt_inj, Int64.toInt_div, Int64.toInt_mul, fits.bmod_eq,
    Int.mul_tdiv_cancel _ (ne_zero_iff.mp nonzero), (fits_toInt l).bmod_eq]

theorem multiply?_eq (l r : Int64) : multiply? l r = ofInt? (l.toInt * r.toInt) := by
  unfold multiply?
  by_cases zero : l = 0 ∨ r = 0
  · have product : (l * r).toInt = l.toInt * r.toInt := by
      rcases zero with rfl | rfl <;> simp
    rw [if_pos (by simpa using zero), ← product, ofInt?_toInt]
  · rw [if_neg (by simpa using zero)]
    obtain ⟨-, nonzero⟩ := not_or.mp zero
    apply checked_eq (Int64.toInt_mul l r)
    simp only [Bool.or_eq_true, Bool.and_eq_true, decide_eq_true_eq]
    constructor
    · rintro ((other | ⟨rfl, rfl⟩) | ⟨rfl, rfl⟩) fits
      · exact other (div_eq_of_fits nonzero fits)
      · revert fits; decide
      · revert fits; decide
    · intro wrapped
      by_contra passed
      simp only [not_or, not_not] at passed
      obtain ⟨⟨again, -⟩, exception⟩ := passed
      exact wrapped (fits_of_div_eq nonzero (fun both => exception both.symm) again)

/-- Only the opposite of the least INTEGER is a quotient that is too large. -/
theorem fits_tdiv_iff (l r : Int64) :
    Fits (l.toInt.tdiv r.toInt) ↔ ¬ (l = Int64.minValue ∧ r = -1) := by
  constructor
  · rintro fits ⟨rfl, rfl⟩
    revert fits
    decide
  · intro exception
    rw [← toInt_div exception]
    exact fits_toInt _

theorem quotient?_eq (l r : Int64) : quotient? l r = ofInt? (l.toInt.tdiv r.toInt) := by
  apply checked_eq (Int64.toInt_div l r)
  rw [fits_tdiv_iff, not_not, Bool.and_eq_true, decide_eq_true_eq, decide_eq_true_eq]

theorem toInt_modulo (l r : Int64) : (modulo l r).toInt = l.toInt.tmod r.toInt := by
  unfold modulo
  split
  case isTrue minusOne =>
    rw [eq_minusOne_iff.mp minusOne, Int.tmod_neg, Int.tmod_one]
    rfl
  case isFalse => exact Int64.toInt_mod l r

end Integer

/-! ## Operators -/

def Fails (kind : FaultKind) (result : Except Cause Value) : Prop :=
  ∃ cause, cause.kind = kind ∧ result = .error cause

/-- The operation gives the integer `n` if that is an INTEGER, and overflows otherwise. -/
def Exact (n : Int) (result : Except Cause Value) : Prop :=
  if Integer.Fits n then ∃ m : Int64, m.toInt = n ∧ result = .ok (.integer m)
  else Fails .integerOverflow result

theorem not_fails_ok (kind : FaultKind) (v : Value) : ¬ Fails kind (.ok v) := by
  rintro ⟨cause, -, same⟩
  cases same

theorem fails_error {cause : Cause} {kind : FaultKind} :
    Fails kind (.error cause) ↔ cause.kind = kind := by
  constructor
  · rintro ⟨_, isKind, same⟩
    cases same
    exact isKind
  · intro isKind
    exact ⟨cause, isKind, rfl⟩

/-- The INTEGER that was computed, or the cause why there is none. -/
def Integer.orElse (cause : Cause) : Option Int64 → Except Cause Value
  | some m => .ok (.integer m)
  | none => .error cause

theorem exact_orElse {cause : Cause} (overflows : cause.kind = .integerOverflow) (n : Int) :
    Exact n (Integer.orElse cause (Integer.ofInt? n)) := by
  unfold Exact Integer.ofInt?
  split
  case isTrue fits => exact ⟨.ofInt n, Int64.toInt_ofInt_of_le fits.1 fits.2, rfl⟩
  case isFalse => exact ⟨cause, overflows, rfl⟩

namespace Exact

variable {n : Int} {result : Except Cause Value}

theorem overflows_iff (exact_ : Exact n result) :
    Fails .integerOverflow result ↔ ¬ Integer.Fits n := by
  unfold Exact at exact_
  split at exact_
  case isTrue fits =>
    obtain ⟨m, -, rfl⟩ := exact_
    simp only [not_fails_ok, fits, not_true]
  case isFalse wrapped => simp only [exact_, wrapped, not_false_iff]

theorem not_divisionByZero (exact_ : Exact n result) : ¬ Fails .divisionByZero result := by
  unfold Exact at exact_
  split at exact_
  · obtain ⟨m, -, rfl⟩ := exact_
    exact not_fails_ok _ _
  · obtain ⟨cause, overflows, rfl⟩ := exact_
    rw [fails_error, overflows]
    decide

end Exact

theorem UnaryOp.negate_exact (m : Int64) : Exact (-m.toInt) (negate.apply (.integer m)) := by
  change Exact _ (Integer.orElse (.negationOverflow m) (Integer.negate? m))
  rw [Integer.negate?_eq]
  exact exact_orElse rfl _

namespace BinaryOp

variable {l r : Int64} {onIntegers? : Int64 → Int64 → Option Int64}

theorem arithmetic_exact (op : BinaryOp) (onReals : Float → Float → Float) {n : Int}
    (result : onIntegers? l r = Integer.ofInt? n) :
    Exact n (op.arithmetic onIntegers? onReals (.integer l) (.integer r)) := by
  change Exact n (Integer.orElse (.overflow l op r) (onIntegers? l r))
  rw [result]
  exact exact_orElse rfl n

theorem integerDivision_zero (op : BinaryOp) (l : Int64) :
    Fails .divisionByZero (op.integerDivision onIntegers? (.integer l) (.integer 0)) :=
  ⟨.zeroDivisor op, rfl, rfl⟩

theorem integerDivision_nonzero (op : BinaryOp) (nonzero : r ≠ 0) :
    op.integerDivision onIntegers? (.integer l) (.integer r) =
      Integer.orElse (.overflow l op r) (onIntegers? l r) := by
  simp only [integerDivision, if_neg nonzero]
  rfl

theorem quotient_exact (nonzero : r ≠ 0) :
    Exact (l.toInt.tdiv r.toInt) (quotient.apply (.integer l) (.integer r)) := by
  rw [apply, integerDivision_nonzero _ nonzero, Integer.quotient?_eq]
  exact exact_orElse rfl _

theorem quotient_divisionByZero_iff (l r : Int64) :
    Fails .divisionByZero (quotient.apply (.integer l) (.integer r)) ↔ r = 0 := by
  constructor
  · intro fails
    by_contra nonzero
    exact (quotient_exact nonzero).not_divisionByZero fails
  · rintro rfl
    rw [apply]
    exact integerDivision_zero _ l

theorem quotient_overflows_iff (l r : Int64) :
    Fails .integerOverflow (quotient.apply (.integer l) (.integer r)) ↔
      l = Int64.minValue ∧ r = -1 := by
  by_cases zero : r = 0
  · subst zero
    have other : ¬ (l = Int64.minValue ∧ (0 : Int64) = -1) := by
      rintro ⟨-, same⟩
      revert same
      decide
    simp only [other, iff_false]
    exact fun fails => by cases fails_error.mp fails
  · rw [(quotient_exact zero).overflows_iff, Integer.fits_tdiv_iff, not_not]

theorem modulo_apply (nonzero : r ≠ 0) :
    modulo.apply (.integer l) (.integer r) = .ok (.integer (Integer.modulo l r)) := by
  rw [apply, integerDivision_nonzero _ nonzero]
  rfl

theorem modulo_divisionByZero_iff (l r : Int64) :
    Fails .divisionByZero (modulo.apply (.integer l) (.integer r)) ↔ r = 0 := by
  constructor
  · intro fails
    by_contra nonzero
    rw [modulo_apply nonzero] at fails
    exact not_fails_ok _ _ fails
  · rintro rfl
    rw [apply]
    exact integerDivision_zero _ l

/-- INTEGER arithmetic gives the mathematical result, or reports that it is none or no INTEGER. -/
theorem integers_exact (l r : Int64) :
    Exact (l.toInt + r.toInt) (add.apply (.integer l) (.integer r)) ∧
    Exact (l.toInt - r.toInt) (subtract.apply (.integer l) (.integer r)) ∧
    Exact (l.toInt * r.toInt) (multiply.apply (.integer l) (.integer r)) ∧
    Exact (-l.toInt) (UnaryOp.negate.apply (.integer l)) ∧
    (Fails .divisionByZero (quotient.apply (.integer l) (.integer r)) ↔ r = 0) ∧
    (Fails .divisionByZero (modulo.apply (.integer l) (.integer r)) ↔ r = 0) ∧
    (Fails .integerOverflow (quotient.apply (.integer l) (.integer r)) ↔
      l = Int64.minValue ∧ r = -1) ∧
    (r ≠ 0 → ¬ (l = Int64.minValue ∧ r = -1) → ∃ q : Int64, q.toInt = l.toInt.tdiv r.toInt ∧
      quotient.apply (.integer l) (.integer r) = .ok (.integer q)) ∧
    (r ≠ 0 → ∃ m : Int64, modulo.apply (.integer l) (.integer r) = .ok (.integer m) ∧
      m.toInt.natAbs < r.toInt.natAbs ∧ (m.toInt = 0 ∨ m.toInt.sign = l.toInt.sign) ∧
      l.toInt = l.toInt.tdiv r.toInt * r.toInt + m.toInt) := by
  refine ⟨arithmetic_exact add (· + ·) (Integer.add?_eq l r),
    arithmetic_exact subtract (· - ·) (Integer.subtract?_eq l r),
    arithmetic_exact multiply (· * ·) (Integer.multiply?_eq l r), UnaryOp.negate_exact l,
    quotient_divisionByZero_iff l r, modulo_divisionByZero_iff l r, quotient_overflows_iff l r,
    ?quotient, ?modulo⟩
  case quotient =>
    intro nonzero exception
    have result : Exact _ _ := quotient_exact nonzero (l := l)
    rwa [Exact, if_pos ((Integer.fits_tdiv_iff l r).mpr exception)] at result
  case modulo =>
    intro nonzero
    refine ⟨Integer.modulo l r, modulo_apply nonzero, ?_⟩
    rw [Integer.toInt_modulo]
    exact ⟨Integer.natAbs_tmod_lt _ (Integer.ne_zero_iff.mp nonzero), Integer.sign_tmod _ _,
      (Int.tdiv_mul_add_tmod _ _).symm⟩

/-- The least INTEGER divided by three, truncated toward zero. -/
theorem integers_exact_least :
    (∃ q : Int64, q.toInt = -3074457345618258602 ∧
      quotient.apply (.integer Int64.minValue) (.integer 3) = .ok (.integer q)) ∧
    ∃ m : Int64, modulo.apply (.integer Int64.minValue) (.integer 3) = .ok (.integer m) ∧
      m.toInt.natAbs < 3 ∧ (m.toInt = 0 ∨ m.toInt.sign = -1) ∧
      -9223372036854775808 = -3074457345618258602 * 3 + m.toInt := by
  obtain ⟨-, -, -, -, -, -, -, quotient, modulo⟩ := integers_exact Int64.minValue 3
  exact ⟨quotient (by decide) (by decide), modulo (by decide)⟩

end BinaryOp

end Pseudocode
