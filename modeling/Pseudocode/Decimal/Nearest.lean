/-! # The double nearest to a decimal

A decimal is read exactly, as a quotient of two natural numbers, and rounded once: to the nearest
double, and to the one with the even significand when two are equally near. -/

namespace Pseudocode.Decimal

/-- The least significand of a normal double. It has 53 binary digits. -/
def leastNormal : Nat := 4503599627370496

/-- The natural number nearest to `num / den`; a tie goes to the even one. -/
def roundHalfEven (num den : Nat) : Nat :=
  let quotient := num / den
  let remainder := num % den
  if 2 * remainder < den then quotient
  else if den < 2 * remainder then quotient + 1
  else if quotient % 2 = 0 then quotient
  else quotient + 1

/-- The numerator and denominator of `num / den / 2 ^ e`. -/
def scaleDown (num den : Nat) (e : Int) : Nat × Nat :=
  if 0 ≤ e then (num, den * Nat.pow 2 e.toNat) else (num * Nat.pow 2 (-e).toNat, den)

/-- The exponent of the last place of the doubles around `num / den`, where `0 < num`. -/
def lastPlace (num den : Nat) : Int :=
  let guess := max ((num.log2 : Int) - den.log2 - 53) (-1074)
  let (n, d) := scaleDown num den guess
  if n / d < 2 * leastNormal then guess else guess + 1

/-- The bits of the double nearest to `num / den`, unless that is beyond the largest one. -/
def nearestBits? (num den : Nat) : Option UInt64 :=
  if num = 0 then some 0
  else
    let e := lastPlace num den
    let (n, d) := scaleDown num den e
    let significand := roundHalfEven n d
    let carried := significand = 2 * leastNormal
    let e := if carried then e + 1 else e
    let significand := if carried then leastNormal else significand
    if significand < leastNormal then some significand.toUInt64
    else
      let biased := (e + 1075).toNat
      if 2047 ≤ biased then none
      else some (biased * leastNormal + (significand - leastNormal)).toUInt64

/-- The double nearest to `mantissa / 10 ^ places`, unless that is beyond the largest one. -/
def nearest? (mantissa places : Nat) : Option Float :=
  (nearestBits? mantissa (Nat.pow 10 places)).map Float.ofBits

end Pseudocode.Decimal
