import Pseudocode.Log.Level
import Pseudocode.Machine.Basic

/-! # Log lines

A log line has a time, a level, a message and named values. -/

namespace Pseudocode

structure LogLine where
  level : LogLevel
  message : String
  /-- The values, in increasing order of their names. -/
  fields : List (String × String)
  deriving Repr, DecidableEq

namespace LogLine

/-- Whether a value can be mistaken for more than one if it is not quoted. -/
def needsQuotes (text : String) : Bool :=
  text.toList.any fun c => c ≤ ' ' || '~' < c || c = '\\' || c = '"'

def valueShown (text : String) : String :=
  if needsQuotes text then Text.quoted text else text

def tag (level : LogLevel) : String :=
  if level = .trace then "TRC" else if level = .debug then "DBG" else "???"

/-- The time of day on a clock with twelve hours. -/
def clockShown (hour minute : Nat) : String :=
  let hours := if hour % 12 = 0 then 12 else hour % 12
  let half := if hour < 12 then "AM" else "PM"
  toString hours ++ ":" ++ Date.padded 2 minute ++ half

def shown (l : LogLine) (clock : String) : String :=
  let values := l.fields.map fun (name, value) => " " ++ name ++ "=" ++ valueShown value
  clock ++ " " ++ tag l.level ++ " " ++ l.message ++ String.join values

end LogLine

def LogEntry.line : LogEntry → LogLine
  | runStart statements => ⟨.debug, "run start", [("statements", toString statements)]⟩
  | enter callee depth arguments =>
    ⟨.trace, "enter",
      [("args", toString arguments), ("callee", callee), ("depth", toString depth)]⟩
  | leave callee depth => ⟨.trace, "leave", [("callee", callee), ("depth", toString depth)]⟩
  | runFailed message => ⟨.debug, "run failed", [("error", message)]⟩
  | runFinished liveSlots => ⟨.debug, "run finished", [("live_slots", toString liveSlots)]⟩

end Pseudocode
