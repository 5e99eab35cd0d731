import Pseudocode.Machine.Step

/-! # Sessions

A session runs programs one after the other on the same memory. A program that fails leaves what it
did until then, and the session goes on. -/

namespace Pseudocode

/-- How a session is set up. -/
structure Options where
  /-- The optional types to enable; all of them if nothing is said. -/
  types : Option (List String) := none
  /-- The number of calls that may be open at once; 0 stands for the default. -/
  maxDepth : Int := 0
  /-- Whether runs are logged. -/
  logged : Bool := false
  /-- How many texts the output takes. -/
  maxWrites : Option Nat := none

namespace Options

/-- How many calls may be open at once if nothing is said. -/
def defaultDepth : Nat := 10000

/-- The largest number of calls that may be allowed to be open at once. -/
def deepest : Nat := 100000

end Options

/-- Settings that stay, and a state that programs change. -/
structure Session where
  settings : Settings
  state : State

inductive Global where
  /-- A variable, with its value if it has one. -/
  | cell (type : Ty) (value : Option Value)
  | constant (value : Value)

namespace Session

def refuse {α : Type} (reason : Failure) : Except Failure α :=
  .error (.within "interpreter" reason)

/-- A fresh session: the global scope holds the built-in types and nothing else. -/
def start (options : Options) : Except Failure Session :=
  if options.maxDepth < 0 then
    refuse (.plain s!"max call depth must be positive, got {options.maxDepth}")
  else if Options.deepest < options.maxDepth then
    let limit := Options.deepest
    refuse (.plain s!"max call depth {options.maxDepth} exceeds the limit of {limit}")
  else
    match Builtins.ofNames options.types with
    | .error reason => refuse reason
    | .ok builtins =>
      match (builtins.install Memory.global).run {} with
      | .error fault _ => refuse (.within "install built-in types" (.fault fault))
      | .ok _ memory =>
        let depth := options.maxDepth.toNat
        .ok {
          settings := {
            builtins
            maxDepth := if depth = 0 then Options.defaultDepth else depth
            logged := options.logged }
          state := { memory, sink := { limit := options.maxWrites } } }

def note (s : Session) (entry : LogEntry) : Session :=
  { s with state := s.state.note s.settings entry }

def begin (s : Session) (program : Program) : Config :=
  let s := s.note (.runStart program.body.length)
  ⟨.run program.body, [], Memory.global, s.state⟩

/-- What comes of a program that has run to its end. -/
def conclude (settings : Settings) (c : Config) : Except Failure Unit × Session :=
  let s : Session := ⟨settings, c.state⟩
  match c.control with
  | .failing f => (.error f, s.note (.runFailed f.shown))
  | .returning _ span => (.error ((Failure.of .returnOutside).withSpan span), s)
  | _ => (.ok (), s.note (.runFinished s.state.memory.store.live))

/-- Runs a program, or fails if there is none. Nothing comes back if the program does not end within
`fuel` steps. -/
def execute (fuel : Nat) (s : Session) (program : Option Program) :
    Option (Except Failure Unit × Session) :=
  match program with
  | none => some (.error .noProgram, s)
  | some program => (Config.run s.settings fuel (s.begin program)).map (conclude s.settings)

/-- Evaluates an expression in the global scope. -/
def evaluate (fuel : Nat) (s : Session) (e : Expr) : Option (Except Failure Value × Session) :=
  (Config.run s.settings fuel ⟨.eval e, [], Memory.global, s.state⟩).map fun c =>
    let s := { s with state := c.state }
    match c.control with
    | .value v => (.ok v, s)
    | .failing f => (.error (f.withSpan e.span), s)
    | _ => (.error .noExpression, s)

/-- The text written after the first `start` writes. -/
def outputSince (s : Session) (start : Nat) : String :=
  String.join (s.state.sink.written.toList.drop start)

def live (s : Session) : Nat :=
  s.state.memory.store.live

/-- What a binding of the global scope stands for. -/
def globalOf (m : Memory) : Binding → Global
  | .constant v => .constant v
  | .slot h => .cell (m.store.typeOf h) ((m.store.cell? h).bind (·.value))

/-- The global names in increasing order, without the enabled built-in types. -/
def globals (s : Session) : List (String × Global) :=
  let m := s.state.memory
  let builtin := s.settings.builtins.kinds.map Kind.name
  ((m.keys Memory.global).filter fun name => !builtin.contains name).filterMap fun name =>
    (m.resolve? Memory.global name).map fun b => (name, globalOf m b)

end Session

end Pseudocode
