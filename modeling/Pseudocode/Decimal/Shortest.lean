import Pseudocode.Decimal.Nearest

/-! # The shortest decimal of a double

Every double is the nearest one to a whole interval of reals. Its shortest decimal is the one with
the fewest digits in that interval, and of those the nearest to the double; a tie goes to the even
last digit. All of it is exact arithmetic on natural numbers. -/

namespace Pseudocode

/-- The number `digits * 10 ^ exponent`. -/
structure Decimal where
  digits : Nat
  exponent : Int
  deriving Repr, DecidableEq

namespace Decimal

/-- A positive double `significand * 2 ^ exponent`. The doubles below it are twice as dense when
`halved`. -/
structure Binary where
  significand : Nat
  exponent : Int
  halved : Bool
  deriving Repr, DecidableEq

/-- Takes the sign off the bits of a finite double and splits the rest. -/
def Binary.ofBits (bits : UInt64) : Binary :=
  let field : Nat := bits.toNat / leastNormal % 2048
  let fraction : Nat := bits.toNat % leastNormal
  if field = 0 then ⟨fraction, -1074, false⟩
  else ⟨leastNormal + fraction, (field : Int) - 1075, fraction = 0 && 1 < field⟩

structure Fraction where
  num : Nat
  den : Nat

namespace Fraction

/-- The fraction times `base ^ e`. -/
def scale (q : Fraction) (base : Nat) (e : Int) : Fraction :=
  if 0 ≤ e then ⟨q.num * Nat.pow base e.toNat, q.den⟩
  else ⟨q.num, q.den * Nat.pow base (-e).toNat⟩

def lt (a b : Fraction) : Bool :=
  a.num * b.den < b.num * a.den

/-- The exponent of the leading decimal digit of a positive fraction. -/
def leading (q : Fraction) : Int :=
  if q.den ≤ q.num then ((Nat.toDigits 10 (q.num / q.den)).length : Int) - 1
  else -((Nat.toDigits 10 ((q.den + q.num - 1) / q.num - 1)).length : Int)

end Fraction

def Binary.value (b : Binary) : Fraction :=
  Fraction.scale ⟨b.significand, 1⟩ 2 b.exponent

/-- The lower end of the reals that round to the double. -/
def Binary.low (b : Binary) : Fraction :=
  if b.halved then Fraction.scale ⟨4 * b.significand - 1, 1⟩ 2 (b.exponent - 2)
  else Fraction.scale ⟨2 * b.significand - 1, 1⟩ 2 (b.exponent - 1)

def Binary.high (b : Binary) : Fraction :=
  Fraction.scale ⟨2 * b.significand + 1, 1⟩ 2 (b.exponent - 1)

/-- Whether a real rounds to the double. The ends of the interval do when the significand is
even. -/
def Binary.admits (b : Binary) (q : Fraction) : Bool :=
  if b.significand % 2 = 0 then !(q.lt b.low) && !(b.high.lt q)
  else b.low.lt q && q.lt b.high

/-- The decimal with last place `10 ^ e` that rounds to the double and is nearest to it, if some
decimal with that last place does. Only the two neighbours of the double can. -/
def Binary.onGrid? (b : Binary) (e : Int) : Option Decimal :=
  let scaled := b.value.scale 10 (-e)
  let below := scaled.num / scaled.den
  let above := below + 1
  let admitsBelow := b.admits (Fraction.scale ⟨below, 1⟩ 10 e)
  let admitsAbove := b.admits (Fraction.scale ⟨above, 1⟩ 10 e)
  let twiceRest := 2 * (scaled.num % scaled.den)
  let upward := scaled.den < twiceRest || (twiceRest = scaled.den && below % 2 = 1)
  if admitsBelow && admitsAbove then some ⟨if upward then above else below, e⟩
  else if admitsBelow then some ⟨below, e⟩
  else if admitsAbove then some ⟨above, e⟩
  else none

/-- Moves the zeros at the end of the digits into the exponent. -/
def trimmed (d : Decimal) : Decimal :=
  go d.digits d.digits d.exponent
where
  /-- The first argument bounds the number of zeros. -/
  go : Nat → Nat → Int → Decimal
    | 0, digits, exponent => ⟨digits, exponent⟩
    | bound + 1, digits, exponent =>
      if digits ≠ 0 ∧ digits % 10 = 0 then go bound (digits / 10) (exponent + 1)
      else ⟨digits, exponent⟩

/-- The shortest decimal of a positive double: the first grid on which some decimal rounds to it.
Seventeen digits always suffice. -/
def Binary.shortest (b : Binary) : Decimal :=
  let leading := b.value.leading
  let grids := (List.range 17).map fun (k : Nat) => leading - k
  match grids.findSome? b.onGrid? with
  | some decimal => decimal.trimmed
  | none => ⟨b.significand, 0⟩

end Decimal

end Pseudocode
