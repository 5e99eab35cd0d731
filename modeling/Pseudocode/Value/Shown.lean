import Pseudocode.Decimal.Shortest
import Pseudocode.Text.Bytes
import Pseudocode.Value

/-! # The text of a value

What `OUTPUT` writes for a value. -/

namespace Pseudocode

namespace Decimal

/-- The digits in positional notation, with at least one digit on each side of the point. -/
def positional (d : Decimal) : String :=
  let digits := toString d.digits
  if 0 ≤ d.exponent then digits ++ "".pushn '0' d.exponent.toNat ++ ".0"
  else
    let places := (-d.exponent).toNat
    let padded := "".pushn '0' (places + 1 - digits.length) ++ digits
    let whole := padded.length - places
    String.ofList (padded.toList.take whole) ++ "." ++ String.ofList (padded.toList.drop whole)

def leadingExponent (d : Decimal) : Int :=
  d.exponent + ((toString d.digits).length : Int) - 1

/-- The digits with a point after the first and a power of ten, whose exponent has a sign and at
least two digits. -/
def scientific (d : Decimal) : String :=
  let digits := (toString d.digits).toList
  let mantissa := match digits with
    | first :: second :: rest => String.ofList (first :: '.' :: second :: rest)
    | short => String.ofList short
  let e := d.leadingExponent
  let sign := if e < 0 then "-" else "+"
  mantissa ++ "e" ++ sign ++ Date.padded 2 e.natAbs

/-- Positional notation from four places after the point to sixteen before it. -/
def shown (d : Decimal) : String :=
  let e := d.leadingExponent
  if -4 ≤ e ∧ e < 16 then d.positional else d.scientific

end Decimal

/-- The text of a REAL: the fewest digits that read back as the same number. -/
def realShown (x : Float) : String :=
  if x.isNaN then "nan"
  else
    let sign := if 9223372036854775808 ≤ x.toBits.toNat then "-" else ""
    if x.isInf then sign ++ "inf"
    else
      let b := Decimal.Binary.ofBits x.toBits
      if b.significand = 0 then sign ++ "0.0" else sign ++ b.shortest.shown

/-- The character with this code, or the replacement character if there is none. -/
def charOfCode (code : Int32) : Char :=
  let n := code.toInt
  if 0 ≤ n ∧ n.toNat.isValidChar then Char.ofNat n.toNat else Text.replacement

def Value.shown : Value → String
  | nothing => ""
  | integer n => toString n.toInt
  | real x => realShown x
  | string s => s
  | char code => String.singleton (charOfCode code)
  | boolean true => "TRUE"
  | boolean false => "FALSE"
  | date d => d.shown
  | procedure r => "<procedure " ++ r.name ++ ">"
  | function r _ => "<function " ++ r.name ++ ">"
  | type t => "<type " ++ t.name ++ ">"

end Pseudocode
