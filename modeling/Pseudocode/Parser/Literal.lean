import Pseudocode.Date
import Pseudocode.Decimal.Nearest

/-! # What literals mean

Literals may be written with the digits of any script, but only those of ASCII have a value. -/

namespace Pseudocode.Literal

/-- The number that ASCII digits spell. -/
def ofDigits (digits : List Char) : Nat :=
  digits.foldl (fun n c => n * 10 + (c.toNat - '0'.toNat)) 0

/-- The value of an integer literal, unless it is beyond the largest INTEGER. -/
def integer? (text : String) : Option Int64 :=
  let digits := text.toList
  let n := ofDigits digits
  if digits.all Char.isDigit && n < 9223372036854775808 then some (Int64.ofNat n) else none

/-- The value of a real literal, unless it is beyond the largest REAL. -/
def real? (text : String) : Option Float :=
  let whole := text.toList.takeWhile (· ≠ '.')
  let fraction := (text.toList.dropWhile (· ≠ '.')).drop 1
  if whole.all Char.isDigit && fraction.all Char.isDigit then
    Decimal.nearest? (ofDigits (whole ++ fraction)) fraction.length
  else none

/-- The number that some bytes spell, or 0 if one of them is no ASCII digit. -/
def ofBytes (bytes : List UInt8) : Int :=
  let digits := bytes.map fun b => Char.ofNat b.toNat
  if digits.all Char.isDigit then ofDigits digits else 0

/-- The numbers of a date literal. They stand at fixed bytes of its UTF-8 text, which are its fixed
characters only when all its digits are ASCII. -/
def date (text : String) : Date :=
  let bytes := text.toUTF8.toList
  { day := ofBytes (bytes.take 2)
    month := ofBytes ((bytes.drop 3).take 2)
    year := ofBytes ((bytes.drop 6).take 4) }

end Pseudocode.Literal
