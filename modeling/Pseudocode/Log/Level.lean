import Pseudocode.Text.Numeral

/-! # Log levels

A level is a number; the usual ones have names. Entries below the level of a log are left out. -/

namespace Pseudocode

/-- How important an entry is, or has to be. -/
structure LogLevel where
  number : Int
  deriving Repr, DecidableEq

namespace LogLevel

def trace : LogLevel := ⟨-1⟩
def debug : LogLevel := ⟨0⟩
def warn : LogLevel := ⟨2⟩

/-- The levels that have names. No name at all is a level, too. -/
def named : List (String × LogLevel) :=
  [("trace", trace), ("debug", debug), ("info", ⟨1⟩), ("warn", warn), ("error", ⟨3⟩),
   ("fatal", ⟨4⟩), ("panic", ⟨5⟩), ("", ⟨6⟩), ("disabled", ⟨7⟩)]

inductive Flaw where
  | unknown (text : String)
  | outOfBounds (n : Int)
  deriving Repr, DecidableEq

def Flaw.message : Flaw → String
  | unknown text => s!"Unknown Level String: '{text}', defaulting to NoLevel"
  | outOfBounds n => s!"Out-Of-Bounds Level: '{n}', defaulting to NoLevel"

/-- Reads the level that a text names. -/
abbrev Reader := String → Except Flaw LogLevel

/-- The lower-case letter that `c` is a form of, for the letters of ASCII. The long s and the Kelvin
sign are forms of s and k. -/
def foldCase (c : Char) : Char :=
  if c = '\u017f' then 's' else if c = '\u212a' then 'k' else c.toLower

/-- The level that a text names, in upper or lower case, or spells as a decimal number. -/
def ofText (text : String) : Except Flaw LogLevel :=
  match named.find? (·.1.toList = text.toList.map foldCase) with
  | some (_, level) => .ok level
  | none =>
    match Numeral.decimal text with
    | .error _ => .error (.unknown text)
    | .ok n => if -128 ≤ n ∧ n ≤ 127 then .ok ⟨n⟩ else .error (.outOfBounds n)

def shown (l : LogLevel) : String :=
  match named.find? (·.2 = l) with
  | some (name, _) => name
  | none => toString l.number

/-- Whether a log of this level takes an entry of the other one. -/
def takes (l entry : LogLevel) : Bool :=
  l.number ≤ entry.number

def min (a b : LogLevel) : LogLevel :=
  if a.number < b.number then a else b

end LogLevel

end Pseudocode
