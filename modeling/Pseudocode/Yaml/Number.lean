import Pseudocode.Decimal.Nearest
import Pseudocode.Decimal.Shortest
import Pseudocode.Text.Numeral

/-! # Numbers in structured text

A plain scalar is an integer if it can be read as one, with underscores anywhere among its digits.
Otherwise it may be a decimal fraction, which is read as a double and then cut off at the point. -/

namespace Pseudocode.Yaml

/-- A decimal fraction: `digits * 10 ^ exponent`, with its sign. -/
structure Fraction where
  negative : Bool
  digits : List Char
  exponent : Int

def ofDigits (digits : List Char) : Nat :=
  digits.foldl (fun n c => n * 10 + (c.toNat - '0'.toNat)) 0

def splitSign : List Char → Bool × List Char
  | '-' :: rest => (true, rest)
  | '+' :: rest => (false, rest)
  | text => (false, text)

/-- The exponent at the end of a fraction: nothing, or `e` and an integer. -/
def exponent? : List Char → Option Int
  | [] => some 0
  | c :: rest =>
    let (negative, digits) := splitSign rest
    if (c = 'e' || c = 'E') && !digits.isEmpty && digits.all Char.isDigit then
      some (if negative then -(ofDigits digits : Int) else ofDigits digits)
    else none

/-- Reads a decimal fraction. There is a digit before the point, or one behind it. -/
def Fraction.ofText? (text : List Char) : Option Fraction :=
  let (negative, body) := splitSign text
  let whole := body.takeWhile Char.isDigit
  let afterWhole := body.dropWhile Char.isDigit
  let (places, afterPlaces) := match afterWhole with
    | '.' :: rest => (rest.takeWhile Char.isDigit, rest.dropWhile Char.isDigit)
    | rest => ([], rest)
  if whole.isEmpty && places.isEmpty then none
  else (exponent? afterPlaces).map fun e => ⟨negative, whole ++ places, e - places.length⟩

/-- The bits of the double nearest to the fraction without its sign, unless that is beyond the largest
one. Fractions that are far too large or too small are told by the number of their digits. -/
def Fraction.bits? (f : Fraction) : Option UInt64 :=
  let digits := f.digits.dropWhile (· = '0')
  let size := digits.length + f.exponent
  if digits.isEmpty || size < -400 then some 0
  else if 400 < size then none
  else if 0 ≤ f.exponent then Decimal.nearestBits? (ofDigits digits * Nat.pow 10 f.exponent.toNat) 1
  else Decimal.nearestBits? (ofDigits digits) (Nat.pow 10 (-f.exponent).toNat)

/-- The smallest integer of 64 bits. It also stands for what is below all of them. -/
def lowest : Int := -Numeral.half

/-- The integer that is left of a fraction when it is cut off at the point. -/
def Fraction.integer? (f : Fraction) : Option Int :=
  f.bits?.bind fun bits =>
    let b := Decimal.Binary.ofBits bits
    let n := b.value.num / b.value.den
    if f.negative then some (if Numeral.half ≤ n then lowest else -(n : Int))
    else if n < Numeral.half then some n
    else if n = Numeral.half then some lowest
    else none

/-- The integer that a plain scalar stands for. -/
def integer? (text : String) : Option Int :=
  if text ∈ ["-.inf", "-.Inf", "-.INF"] then some lowest
  else
    match text.toList with
    | '.' :: rest => (Fraction.ofText? ('.' :: rest)).bind Fraction.integer?
    | c :: rest =>
      if c.isDigit || c = '-' || c = '+' then
        let plain := (c :: rest).filter (· ≠ '_')
        match Numeral.spaced (String.ofList plain) with
        | .ok n => some n
        | .error _ =>
          let (base, digits) := Numeral.base plain
          if c.isDigit && (Numeral.magnitude base digits).toBool then none
          else (Fraction.ofText? plain).bind Fraction.integer?
      else none
    | [] => none

end Pseudocode.Yaml
