import Pseudocode.Decimal.Nearest
import Mathlib.Algebra.Group.Nat.Defs
import Mathlib.Algebra.Order.Field.Power
import Mathlib.Data.Rat.Cast.Order
import Mathlib.Order.Monotone.Basic
import Mathlib.Tactic.FieldSimp
import Mathlib.Tactic.Linarith
import Mathlib.Tactic.Positivity
import Mathlib.Tactic.Ring

/-! # The double nearest to a fraction

In the order of their bits the doubles increase, first by the least of them, and twice as fast each
time that 52 binary digits have been counted through. What `nearestBits?` gives is the nearest of
them, and the even one of two that are equally near. -/

namespace Pseudocode.Decimal

/-- The double with the bits `n`, in steps of the least one. -/
def steps (n : Nat) : Nat :=
  if n < 2 ^ 52 then n else (2 ^ 52 + n % 2 ^ 52) * 2 ^ (n / 2 ^ 52 - 1)

/-- How many steps `q` is away from the double with the bits `n`. -/
def distance (q : ℚ) (n : Nat) : ℚ :=
  |(steps n : ℚ) - q * 2 ^ 1074|

/-- No double is nearer to `q` than the one with the bits `n`, and another one that is as near is odd.
The doubles are taken to go on without a largest one. -/
structure Nearest (q : ℚ) (n : Nat) : Prop where
  le : ∀ m, distance q n ≤ distance q m
  even : ∀ m ≠ n, distance q n = distance q m → n % 2 = 0

/-! ## Steps -/

theorem steps_eq {k m : Nat} (le : m ≤ 2 ^ 53) (normal : k = 0 ∨ 2 ^ 52 ≤ m) :
    steps (k * 2 ^ 52 + m) = m * 2 ^ k := by
  unfold steps
  rcases Nat.lt_or_ge m (2 ^ 52) with low | high
  · obtain rfl : k = 0 := normal.resolve_right (Nat.not_le_of_lt low)
    rw [Nat.zero_mul, Nat.zero_add, if_pos low, Nat.pow_zero, Nat.mul_one]
  · rw [if_neg (by omega)]
    rcases Nat.lt_or_eq_of_le le with below | rfl
    · have place : (k * 2 ^ 52 + m) / 2 ^ 52 - 1 = k := by omega
      have rest : 2 ^ 52 + (k * 2 ^ 52 + m) % 2 ^ 52 = m := by omega
      rw [place, rest]
    · have place : (k * 2 ^ 52 + 2 ^ 53) / 2 ^ 52 - 1 = k + 1 := by omega
      have rest : 2 ^ 52 + (k * 2 ^ 52 + 2 ^ 53) % 2 ^ 52 = 2 ^ 52 := by omega
      rw [place, rest, pow_succ]
      ring

/-- The bits of a double tell its exponent and its significand. -/
theorem exists_place (n : Nat) :
    ∃ k m, n = k * 2 ^ 52 + m ∧ m < 2 ^ 53 ∧ (k = 0 ∨ 2 ^ 52 ≤ m) :=
  ⟨n / 2 ^ 52 - 1, n - (n / 2 ^ 52 - 1) * 2 ^ 52, by omega, by omega, by omega⟩

theorem steps_strictMono : StrictMono steps := by
  refine strictMono_nat_of_lt_succ fun n => ?_
  obtain ⟨k, m, rfl, below, normal⟩ := exists_place n
  rw [steps_eq (Nat.le_of_lt below) normal, Nat.add_assoc, steps_eq below (by omega)]
  exact Nat.mul_lt_mul_of_pos_right (Nat.lt_succ_self m) (by positivity)

/-! ## Rounding -/

theorem Nearest.unique {q : ℚ} {n m : Nat} (first : Nearest q n) (second : Nearest q m) : n = m := by
  by_contra other
  wlog less : n < m generalizing n m
  · exact this second first (Ne.symm other) (by omega)
  have same := le_antisymm (first.le m) (second.le n)
  have even := first.even m (Ne.symm other) same
  have even' := second.even n other same.symm
  have lower : (steps n : ℚ) < steps (n + 1) := by
    exact_mod_cast steps_strictMono (Nat.lt_succ_self n)
  have upper : (steps (n + 1) : ℚ) < steps m := by exact_mod_cast steps_strictMono (by omega)
  -- What lies between two doubles that are equally near is nearer.
  have between := first.le (n + 1)
  unfold distance at same between
  generalize q * 2 ^ 1074 = x at same between
  grind

theorem roundHalfEven_half (num : Nat) {den : Nat} (pos : 0 < den) :
    |(roundHalfEven num den : ℚ) - num / den| ≤ 1 / 2 ∧
      (|(roundHalfEven num den : ℚ) - num / den| = 1 / 2 → roundHalfEven num den % 2 = 0) := by
  have pos' : (0 : ℚ) < den := by exact_mod_cast pos
  have whole : (num : ℚ) / den = (num / den : Nat) + (num % den : Nat) / den := by
    have := congrArg (Nat.cast : Nat → ℚ) (Nat.div_add_mod num den)
    push_cast at this
    field_simp
    linarith
  have part : (0 : ℚ) ≤ (num % den : Nat) / den := by positivity
  have one : ((num % den : Nat) : ℚ) / den < 1 := by
    rw [div_lt_one pos']
    exact_mod_cast Nat.mod_lt num pos
  have less : 2 * (num % den) < den ↔ ((num % den : Nat) : ℚ) / den < 1 / 2 := by
    rw [div_lt_div_iff₀ pos' two_pos, one_mul, mul_comm]
    exact_mod_cast Iff.rfl
  have more : den < 2 * (num % den) ↔ 1 / 2 < ((num % den : Nat) : ℚ) / den := by
    rw [div_lt_div_iff₀ two_pos pos', one_mul, mul_comm]
    exact_mod_cast Iff.rfl
  rw [roundHalfEven, whole]
  simp only [less, more]
  generalize ((num % den : Nat) : ℚ) / den = f at *
  generalize num / den = c
  split_ifs <;> push_cast <;> constructor <;> grind

section Half

variable {x : ℚ} {m n : Nat} (half : |(m : ℚ) - x| ≤ 1 / 2)

include half

/-- A number at most one half away is the nearest, and if another one is as near, it is just that
far away. -/
theorem near_of_half (j : Nat) :
    |(m : ℚ) - x| ≤ |(j : ℚ) - x| ∧
      (j ≠ m → |(m : ℚ) - x| = |(j : ℚ) - x| → |(m : ℚ) - x| = 1 / 2) := by
  by_cases same : j = m
  · exact ⟨same ▸ le_rfl, fun other => absurd same other⟩
  have apart : 1 ≤ |(j : ℚ) - m| := by
    exact_mod_cast Int.one_le_abs (sub_ne_zero.mpr (Nat.cast_injective.ne same : (j : Int) ≠ m))
  have triangle := abs_sub_le (j : ℚ) x m
  rw [abs_sub_comm x m] at triangle
  exact ⟨by linarith, fun _ tie => by linarith⟩

theorem le_of_half (le : n ≤ x) : n ≤ m := by
  by_contra small
  have small : (m : ℚ) + 1 ≤ n := by exact_mod_cast Nat.lt_of_not_le small
  linarith [(abs_le.mp half).1]

theorem ge_of_half (le : x ≤ n) : m ≤ n := by
  by_contra large
  have large : (n : ℚ) + 1 ≤ m := by exact_mod_cast Nat.lt_of_not_le large
  linarith [(abs_le.mp half).2]

end Half

/-- The same of doubles, if the exponent is that of the doubles around the number. -/
theorem steps_near_of_half {x : ℚ} {k m : Nat} (le : m ≤ 2 ^ 53) (normal : k = 0 ∨ 2 ^ 52 ≤ m)
    (large : k = 0 ∨ 2 ^ 52 ≤ x / 2 ^ k) (half : |(m : ℚ) - x / 2 ^ k| ≤ 1 / 2) (n : Nat) :
    |(steps (k * 2 ^ 52 + m) : ℚ) - x| ≤ |(steps n : ℚ) - x| ∧
      (n ≠ k * 2 ^ 52 + m → |(steps (k * 2 ^ 52 + m) : ℚ) - x| = |(steps n : ℚ) - x| →
        |(m : ℚ) - x / 2 ^ k| = 1 / 2) := by
  have unit : (0 : ℚ) < 2 ^ k := by positivity
  have isSteps := steps_eq le normal
  have scaled (j : Nat) : |((j * 2 ^ k : Nat) : ℚ) - x| = |(j : ℚ) - x / 2 ^ k| * 2 ^ k := by
    rw [← abs_of_pos unit, ← abs_mul, abs_of_pos unit, sub_mul, div_mul_cancel₀ _ unit.ne',
      Nat.cast_mul, Nat.cast_pow, Nat.cast_ofNat]
  obtain ⟨k', m', rfl, below, normal'⟩ := exists_place n
  rcases Nat.lt_or_ge k' k with lower | upper
  -- Doubles of a lower exponent are further away than the least one of the exponent `k`.
  · have beyond : steps (k' * 2 ^ 52 + m') < 2 ^ 52 * 2 ^ k := by
      rw [← steps_eq (by decide) (.inr le_rfl)]
      exact steps_strictMono (by omega)
    have beyond : (steps (k' * 2 ^ 52 + m') : ℚ) < (2 ^ 52 * 2 ^ k : Nat) := by
      exact_mod_cast beyond
    have large : ((2 ^ 52 * 2 ^ k : Nat) : ℚ) ≤ x := by
      exact_mod_cast (le_div_iff₀ unit).mp (large.resolve_left (Nat.ne_zero_of_lt lower))
    have least : |((m * 2 ^ k : Nat) : ℚ) - x| ≤ |((2 ^ 52 * 2 ^ k : Nat) : ℚ) - x| := by
      rw [scaled, scaled, mul_le_mul_iff_left₀ unit]
      exact (near_of_half half _).1
    rw [abs_of_nonpos (sub_nonpos.mpr large), ← isSteps] at least
    rw [abs_of_neg (sub_neg.mpr (beyond.trans_le large))]
    exact ⟨by linarith, fun _ tie => by linarith⟩
  · obtain ⟨i, rfl⟩ := Nat.exists_eq_add_of_le upper
    have isSteps' : steps ((k + i) * 2 ^ 52 + m') = m' * 2 ^ i * 2 ^ k := by
      rw [steps_eq (Nat.le_of_lt below) normal', pow_add]
      ring
    obtain ⟨near, even⟩ := near_of_half half (m' * 2 ^ i)
    rw [isSteps, isSteps', scaled, scaled, mul_le_mul_iff_left₀ unit, mul_left_inj' unit.ne']
    refine ⟨near, fun other => even fun same => other ?_⟩
    apply steps_strictMono.injective
    rw [isSteps', same, isSteps]

theorem scaleDown_eq (num : Nat) {den : Nat} (pos : 0 < den) (e : Int) :
    0 < (scaleDown num den e).2 ∧
      ((scaleDown num den e).1 : ℚ) / (scaleDown num den e).2 = num / den / 2 ^ e := by
  unfold scaleDown
  split
  case isTrue nonneg =>
    obtain ⟨k, rfl⟩ := Int.eq_ofNat_of_zero_le nonneg
    simp only [Int.toNat_natCast, Nat.pow_eq, zpow_natCast]
    push_cast
    exact ⟨by positivity, (div_div ..).symm⟩
  case isFalse negative =>
    obtain ⟨k, isNeg⟩ := Int.eq_ofNat_of_zero_le (show 0 ≤ -e by omega)
    simp only [isNeg, Int.toNat_natCast, Nat.pow_eq]
    rw [show e = -(k : Int) by omega, zpow_neg, zpow_natCast, div_inv_eq_mul]
    push_cast
    exact ⟨pos, by ring⟩

/-- The binary logarithms of two numbers tell their quotient but for a factor of two. -/
theorem div_bounds {num den : Nat} (some : num ≠ 0) (pos : den ≠ 0) :
    (2 : ℚ) ^ ((num.log2 : Int) - den.log2 - 1) ≤ num / den ∧
      (num : ℚ) / den < 2 ^ ((num.log2 : Int) - den.log2 + 1) := by
  have low : (2 : ℚ) ^ num.log2 ≤ num := by exact_mod_cast Nat.log2_self_le some
  have high : (num : ℚ) < 2 ^ (num.log2 + 1) := by exact_mod_cast Nat.lt_log2_self
  have low' : (2 : ℚ) ^ den.log2 ≤ den := by exact_mod_cast Nat.log2_self_le pos
  have high' : (den : ℚ) ≤ 2 ^ (den.log2 + 1) := by exact_mod_cast Nat.lt_log2_self.le
  rw [sub_sub, zpow_sub₀ two_ne_zero, sub_add_eq_add_sub, zpow_sub₀ two_ne_zero]
  have pos' : (0 : ℚ) < den := by exact_mod_cast Nat.pos_of_ne_zero pos
  exact_mod_cast And.intro (div_le_div₀ num.cast_nonneg low pos' high')
    (div_lt_div₀ high low' (by positivity) (by positivity))

theorem lastPlace_spec {num den : Nat} (some : num ≠ 0) (pos : 0 < den) :
    -1074 ≤ lastPlace num den ∧ (num : ℚ) / den / 2 ^ lastPlace num den < 2 ^ 53 ∧
      (lastPlace num den = -1074 ∨ 2 ^ 52 ≤ (num : ℚ) / den / 2 ^ lastPlace num den) := by
  obtain ⟨low, high⟩ := div_bounds some pos.ne'
  unfold lastPlace
  generalize isGuess : max ((num.log2 : Int) - den.log2 - 53) (-1074) = guess
  obtain ⟨pos', scaled⟩ := scaleDown_eq num pos guess
  have test : (scaleDown num den guess).1 / (scaleDown num den guess).2 < 2 * leastNormal ↔
      (num : ℚ) / den / 2 ^ guess < 2 ^ 53 := by
    rw [Nat.div_lt_iff_lt_mul pos', ← scaled, div_lt_iff₀ (by exact_mod_cast pos')]
    exact_mod_cast Iff.rfl
  have unit (e : Int) : (0 : ℚ) < 2 ^ e := by positivity
  dsimp only
  split
  case isTrue small =>
    refine ⟨by omega, test.mp small, ?_⟩
    rcases le_or_gt ((num.log2 : Int) - den.log2 - 53) (-1074) with least | normal
    · exact .inl (by omega)
    · refine .inr ?_
      rw [le_div_iff₀ (unit _)]
      calc (2 : ℚ) ^ 52 * 2 ^ guess = 2 ^ ((num.log2 : Int) - den.log2 - 1) := by
            rw [← zpow_natCast, ← zpow_add₀ two_ne_zero]
            congr 1
            push_cast
            omega
        _ ≤ num / den := low
  case isFalse large =>
    rw [test, not_lt, le_div_iff₀ (unit _)] at large
    refine ⟨by omega, ?_, .inr ?_⟩
    · rw [div_lt_iff₀ (unit _)]
      calc (num : ℚ) / den < 2 ^ ((num.log2 : Int) - den.log2 + 1) := high
        _ ≤ 2 ^ ((53 : Nat) + (guess + 1)) := zpow_le_zpow_right₀ one_le_two (by omega)
        _ = 2 ^ 53 * 2 ^ (guess + 1) := by rw [zpow_add₀ two_ne_zero, zpow_natCast]
    · rw [le_div_iff₀ (unit _), zpow_add_one₀ two_ne_zero]
      linarith

/-- The exponent and the significand make the bits, also when the significand has got one more digit
by rounding. -/
theorem nearestBits?_eq {num den k m : Nat} (some : num ≠ 0) (isPlace : lastPlace num den + 1074 = k)
    (isRounded : roundHalfEven (scaleDown num den (lastPlace num den)).1
      (scaleDown num den (lastPlace num den)).2 = m)
    (le : m ≤ 2 ^ 53) (normal : k = 0 ∨ 2 ^ 52 ≤ m) :
    nearestBits? num den =
      if k * 2 ^ 52 + m < 2047 * 2 ^ 52 then .some (k * 2 ^ 52 + m).toUInt64 else none := by
  have isLeast : leastNormal = 2 ^ 52 := rfl
  have place : (lastPlace num den + 1075).toNat = k + 1 := by omega
  have next : (lastPlace num den + 1 + 1075).toNat = k + 2 := by omega
  simp only [nearestBits?, some, if_false, isRounded, isLeast]
  by_cases carried : m = 2 * 2 ^ 52
  · simp only [carried, if_true, next, lt_irrefl, if_false, Nat.sub_self, Nat.add_zero, ← Nat.add_mul]
    split_ifs <;> first | rfl | omega
  · simp only [carried, if_false, place]
    rcases Nat.lt_or_ge m (2 ^ 52) with low | high
    · obtain rfl : k = 0 := by omega
      rw [if_pos low, if_pos (by omega), Nat.zero_mul, Nat.zero_add]
    · rw [if_neg (Nat.not_lt_of_le high),
        show (k + 1) * 2 ^ 52 + (m - 2 ^ 52) = k * 2 ^ 52 + m by omega]
      split_ifs <;> first | rfl | omega

theorem exists_nearest (num : Nat) {den : Nat} (pos : 0 < den) :
    ∃ n, Nearest (num / den) n ∧
      nearestBits? num den = if n < 2047 * 2 ^ 52 then some n.toUInt64 else none := by
  by_cases none : num = 0
  · subst none
    refine ⟨0, ⟨fun m => ?_, fun _ _ _ => rfl⟩, rfl⟩
    have zero : distance ((0 : Nat) / den) 0 = 0 := by simp [distance, steps]
    rw [zero]
    exact abs_nonneg _
  obtain ⟨least, below, normal⟩ := lastPlace_spec none pos
  obtain ⟨k, isPlace⟩ := Int.eq_ofNat_of_zero_le (show 0 ≤ lastPlace num den + 1074 by omega)
  obtain ⟨pos', scaled⟩ := scaleDown_eq num pos (lastPlace num den)
  obtain ⟨half, even⟩ := roundHalfEven_half (scaleDown num den (lastPlace num den)).1 pos'
  have unit : (2 : ℚ) ^ k = 2 ^ lastPlace num den * 2 ^ 1074 := by
    rw [← zpow_natCast, ← isPlace, zpow_add₀ two_ne_zero]
    rfl
  have same : (num : ℚ) / den * 2 ^ 1074 / 2 ^ k = num / den / 2 ^ lastPlace num den := by
    rw [unit, mul_div_mul_right _ _ (by positivity)]
  rw [scaled, ← same] at half even
  rw [← same] at below normal
  generalize isRounded : roundHalfEven _ _ = m at half even
  have le : m ≤ 2 ^ 53 := ge_of_half half (by exact_mod_cast below.le)
  have large := normal.imp_left fun isLeast => show k = 0 by omega
  have normal : k = 0 ∨ 2 ^ 52 ≤ m :=
    large.imp_right fun large => le_of_half half (by exact_mod_cast large)
  have near := steps_near_of_half le normal large half
  refine ⟨k * 2 ^ 52 + m, ⟨fun n => (near n).1, fun n other tie => ?_⟩, ?_⟩
  · have := even ((near n).2 other tie)
    omega
  · exact nearestBits?_eq none isPlace isRounded le normal

theorem nearest?_eq_some_iff {mantissa places : Nat} {x : Float} :
    nearest? mantissa places = some x ↔
      ∃ n, Nearest (mantissa / 10 ^ places) n ∧ n < 2047 * 2 ^ 52 ∧ Float.ofBits n.toUInt64 = x := by
  obtain ⟨n, nearest, found⟩ := exists_nearest mantissa (show 0 < 10 ^ places by positivity)
  push_cast at nearest
  unfold nearest?
  rw [Nat.pow_eq, found]
  constructor
  · intro isSome
    split at isSome
    case isTrue finite => exact ⟨n, nearest, finite, Option.some.inj isSome⟩
    case isFalse => cases isSome
  · rintro ⟨m, nearest', finite, rfl⟩
    obtain rfl := nearest.unique nearest'
    rw [if_pos finite]
    rfl

end Pseudocode.Decimal
