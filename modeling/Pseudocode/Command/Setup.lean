import Pseudocode.Command.Flags
import Pseudocode.Manifest
import Pseudocode.Text.Case
import Pseudocode.Text.Classes

/-! # How a command runs programs

The manifest sets the defaults and the flags override them. -/

namespace Pseudocode

structure Setup where
  /-- The optional types to enable; all of them if nothing is said. -/
  types : Option (List String)
  /-- How many calls may be open at once; 0 stands for the default. -/
  maxDepth : Int
  level : LogLevel
  deriving Repr, DecidableEq

namespace Setup

inductive Refusal where
  | depthNotPositive (n : Int)
  | depthTooLarge (n : Int)
  | logLevel (text : String) (flaw : LogLevel.Flaw)
  deriving Repr, DecidableEq

def Refusal.message : Refusal → String
  | depthNotPositive n => s!"--max-depth must be positive, got {n}"
  | depthTooLarge n =>
    let limit := Options.deepest
    s!"--max-depth may not exceed {limit}, got {n}"
  | logLevel text flaw => "invalid log level " ++ Text.quoted text ++ ": " ++ flaw.message

/-- The names in a list with commas: trimmed, in upper case, and without the empty ones. -/
def typesOf (list : String) : List String :=
  ((list.toList.splitOn ',').map fun part =>
    Text.upper (String.ofList (Text.trimChars part))).filter (· ≠ "")

/-- The number of calls that a flag allows. -/
def depthOf (flag : Option Int) (fallback : Int) : Except Refusal Int :=
  match flag with
  | none => .ok fallback
  | some n =>
    if n ≤ 0 then .error (.depthNotPositive n)
    else if Options.deepest < n then .error (.depthTooLarge n)
    else .ok n

/-- The level that a text names, apart from blanks and case. -/
def levelOf (readLevel : LogLevel.Reader) (text : String) : Except Refusal LogLevel :=
  match readLevel (Text.lower (Text.trim text)) with
  | .ok level => .ok level
  | .error flaw => .error (.logLevel text flaw)

def defaultLevel : String := "warn"

/-- Merges the manifest, if there is one, with the flags. -/
def of (readLevel : LogLevel.Reader) (manifest : Option Manifest) (flags : Flags) :
    Except Refusal Setup := do
  let m := manifest.getD {}
  let maxDepth ← depthOf flags.maxDepth m.maxDepth
  let fallback := if m.logLevel = "" then defaultLevel else m.logLevel
  let level ← levelOf readLevel (flags.logLevel.getD fallback)
  let types := match flags.coreTypes with
    | some list => some (typesOf list)
    | none => m.enabledTypes
  return { types, maxDepth, level }

/-- The level below which no log at all takes an entry. A setup lowers it to its own level. -/
def sharedLevel (s : Setup) (before : LogLevel) : LogLevel :=
  s.level.min before

/-- The options of a session. Runs are logged if any entry would be shown. -/
def options (s : Setup) : Options :=
  { types := s.types, maxDepth := s.maxDepth, logged := s.level.takes .debug }

end Setup

end Pseudocode
