/-! # Dates

A date is three numbers. Not every such triple is a date of the language: `Date.flaw?` says what is
wrong with the others, and of several flaws it reports the day's before the month's and the month's
before the year's. -/

namespace Pseudocode

structure Date where
  year : Int
  month : Int
  day : Int
  deriving Repr, DecidableEq

namespace Date

/-- What is wrong with a triple of numbers that is no date. -/
inductive Flaw where
  | day (n : Int)
  | month (n : Int)
  | year (n : Int)
  deriving Repr, DecidableEq

def Flaw.message : Flaw → String
  | day n => s!"date day {n} out of range 1..31"
  | month n => s!"date month {n} out of range 1..12"
  | year n => s!"date year {n} must be after 1973"

def flaw? (d : Date) : Option Flaw :=
  if d.day < 1 ∨ 31 < d.day then some (.day d.day)
  else if d.month < 1 ∨ 12 < d.month then some (.month d.month)
  else if d.year ≤ 1973 then some (.year d.year)
  else none

/-- `n` in decimal, with zeros in front up to `width` characters, the sign included. -/
def padded (width : Nat) (n : Int) : String :=
  let digits := toString n.natAbs
  let sign := if n < 0 then "-" else ""
  let zeros := "".pushn '0' (width - sign.length - digits.length)
  sign ++ zeros ++ digits

/-- The date as it is written, `dd/mm/yyyy`. -/
def shown (d : Date) : String :=
  padded 2 d.day ++ "/" ++ padded 2 d.month ++ "/" ++ padded 4 d.year

end Date

end Pseudocode
