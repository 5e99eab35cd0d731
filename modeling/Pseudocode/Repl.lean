import Pseudocode.Parser.Statement
import Pseudocode.Session
import Pseudocode.Text.Bytes
import Pseudocode.Text.Case
import Pseudocode.Text.Classes
import Pseudocode.Text.Lines

/-! # The prompt

Lines are read one at a time. Every complete chunk runs in the same session, so what one chunk
declares the next can use, and a chunk that fails does not end the dialogue. -/

namespace Pseudocode

/-! ## Chunks

Lines typed at the prompt are gathered until they make a chunk: a command, or a text that more lines
could not complete. -/

namespace Chunk

/-- Whether the text is addressed to the prompt and not to the language. -/
def isCommand (source : String) : Bool :=
  (Text.trimChars source.toList).head? = some ':'

/-- Whether the text breaks off before its last statement is complete. -/
def breaksOff (source : String) : Bool :=
  match Program.ofText source.toList with
  | .ok _ => false
  | .error e => e.incomplete

/-- Whether more lines are asked for. -/
def isOpen (source : String) : Bool :=
  !isCommand source && breaksOff source

/-- The lines gathered so far, which may be none, with one more. -/
def extend (gathered line : String) : String :=
  if gathered = "" then line else gathered ++ "\n" ++ line

end Chunk

/-! ## The history

What was typed at the prompt is kept in a file, one entry a line. -/

namespace History

def limit : Nat := 1000

/-- The latest entries, as many as are kept. -/
def keep (entries : List String) : List String :=
  entries.drop (entries.length - limit)

/-- Adds an entry, unless it repeats the last one. -/
def add (entries : List String) (entry : String) : List String :=
  if entries.getLast? = some entry then entries else keep (entries ++ [entry])

/-- The entries of a file. A line that is too long or not well-formed ends them. -/
def ofBytes (bytes : List UInt8) : List String :=
  let lines := (Lines.pieces bytes).takeWhile fun line => !line.partly && Text.wellFormed line.bytes
  keep (lines.map fun line => String.ofList (Text.decode line.bytes))

def toBytes (entries : List String) : List UInt8 :=
  (String.join (entries.map (· ++ "\n"))).toUTF8.toList

end History

/-! ## The dialogue -/

/-- What answers a prompt. -/
inductive Reply where
  | line (text : String)
  /-- The prompt was interrupted. -/
  | interrupted
  /-- There is no more input. -/
  | ended
  deriving Repr, DecidableEq

structure Repl where
  session : Session
  /-- The lines of the chunk that is being typed; empty between chunks. -/
  gathered : String := ""
  /-- The prompts that were answered. -/
  prompts : Array String := #[]
  /-- The complaints about chunks. -/
  complaints : Array String := #[]
  /-- The chunks that were run or refused, each on one line. -/
  history : Array String := #[]
  closed : Bool := false

namespace Repl

def prompt (r : Repl) : String :=
  if r.gathered = "" then "pseudo> " else "   ...> "

/-- Writes a line, unless the output takes no more. -/
def say (r : Repl) (text : String) : Repl :=
  let state := r.session.state
  { r with session.state := { state with sink := state.sink.write (text ++ "\n") } }

def complain (r : Repl) (text : String) : Repl :=
  { r with complaints := r.complaints.push text }

def onOneLine (source : String) : String :=
  source.map fun c => if c = '\n' then ' ' else c

def obey (r : Repl) (command : String) : Repl :=
  if command = ":quit" ∨ command = ":q" then { r with closed := true }
  else r.say "unknown command. Type :quit to exit."

/-- Runs a chunk. Nothing comes back if that takes more than `fuel` steps. -/
def execute (fuel : Nat) (r : Repl) (source : String) : Option Repl :=
  let r := { r with history := r.history.push (onOneLine source) }
  match Program.ofText source.toList with
  | .error e => some (r.complain e.message)
  | .ok program => do
    let (result, session) ← r.session.execute fuel (some program)
    let r := { r with session }
    match result with
    | .ok _ => return r
    | .error f => return r.complain ("runtime error: " ++ f.shown)

def submit (fuel : Nat) (r : Repl) (source : String) : Option Repl :=
  let text := Text.trim source
  if text = "" then some r
  else if Chunk.isCommand source then some (r.obey (Text.lower text))
  else r.execute fuel source

def feed (fuel : Nat) (r : Repl) (reply : Reply) : Option Repl :=
  let r := { r with prompts := r.prompts.push r.prompt }
  match reply with
  | .ended => some { r.say "" with closed := true }
  | .interrupted => some { r with gathered := "" }
  | .line text =>
    let source := Chunk.extend r.gathered text
    if Chunk.isOpen source then some { r with gathered := source }
    else submit fuel { r with gathered := "" } source

/-- Feeds replies until the dialogue is closed, at the latest when they run out. What comes back with
the dialogue are the replies it left. -/
def converse (fuel : Nat) (r : Repl) : List Reply → Option (Repl × List Reply)
  | [] => if r.closed then some (r, []) else (r.feed fuel .ended).map (·, [])
  | reply :: rest =>
    if r.closed then some (r, reply :: rest)
    else do (← r.feed fuel reply).converse fuel rest

end Repl

end Pseudocode
