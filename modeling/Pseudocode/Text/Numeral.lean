/-! # Integers in text

Two ways to write an integer of 64 bits. Settings of levels are plain decimals. Settings of counts may
also name their base, `0b`, `0o`, `0x` or a leading zero for octal, and set digits apart by
underscores. -/

namespace Pseudocode.Numeral

/-- Why a text is no integer. -/
inductive Flaw where
  | malformed
  | outOfRange
  deriving Repr, DecidableEq

/-- How many integers of 64 bits are not negative. -/
def half : Nat := 9223372036854775808

/-- The value of a digit, letters standing for ten and more. -/
def digit? (c : Char) : Option Nat :=
  if '0' ≤ c ∧ c ≤ '9' then some (c.toNat - '0'.toNat)
  else if 'a' ≤ c ∧ c ≤ 'z' then some (c.toNat - 'a'.toNat + 10)
  else if 'A' ≤ c ∧ c ≤ 'Z' then some (c.toNat - 'A'.toNat + 10)
  else none

/-- Reads digits after those that spell `acc`. The first fault met from the left counts. -/
def magnitudeFrom (base acc : Nat) : List Char → Except Flaw Nat
  | [] => .ok acc
  | c :: rest =>
    match digit? c with
    | none => .error .malformed
    | some d =>
      if base ≤ d then .error .malformed
      else if 2 * half ≤ acc * base + d then .error .outOfRange
      else magnitudeFrom base (acc * base + d) rest

/-- The number that the digits spell; no digit at all spells zero. -/
def magnitude (base : Nat) (digits : List Char) : Except Flaw Nat :=
  magnitudeFrom base 0 digits

def withSign (negative : Bool) (n : Nat) : Except Flaw Int :=
  if negative then if half < n then .error .outOfRange else .ok (-n)
  else if half ≤ n then .error .outOfRange else .ok n

/-- Takes the sign off, and reads what follows, which must not be empty. -/
def signed (read : List Char → Except Flaw Nat) (text : List Char) : Except Flaw Int :=
  let (negative, body) := match text with
    | '-' :: rest => (true, rest)
    | '+' :: rest => (false, rest)
    | _ => (false, text)
  if body.isEmpty then .error .malformed
  else (read body).bind (withSign negative)

def decimal (text : String) : Except Flaw Int :=
  signed (magnitude 10) text.toList

/-- The base that a text names, and its digits. A letter names the base only if a digit may follow. -/
def base (body : List Char) : Nat × List Char :=
  match body with
  | '0' :: letter :: rest =>
    if rest.isEmpty then (8, letter :: rest)
    else if letter = 'b' ∨ letter = 'B' then (2, rest)
    else if letter = 'o' ∨ letter = 'O' then (8, rest)
    else if letter = 'x' ∨ letter = 'X' then (16, rest)
    else (8, letter :: rest)
  | '0' :: rest => (8, rest)
  | _ => (10, body)

/-- Whether every underscore stands between two digits. The base counts as a digit, which is what
`after` says about the place before the text. -/
def wellSpaced (after : Bool) : List Char → Bool
  | [] => after
  | '_' :: rest => after && wellSpaced false rest
  | _ :: rest => wellSpaced true rest

/-- An integer that may name its base and set its digits apart. -/
def spaced (text : String) : Except Flaw Int :=
  signed (fun body => do
    let (b, digits) := base body
    let n ← magnitude b (digits.filter (· ≠ '_'))
    if '_' ∈ digits ∧ ¬ wellSpaced (body.head? = some '0') digits then .error .malformed
    else .ok n) text.toList

end Pseudocode.Numeral
