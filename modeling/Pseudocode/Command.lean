import Pseudocode.Checkout
import Pseudocode.Command.Setup
import Pseudocode.Manifest.Decode
import Pseudocode.Manifest.Find
import Pseudocode.Repl

/-! # Commands

What the words on the command line do: run a program, open the prompt, fetch a program, or tell about
the tool. A command ends with a code, which is 0 if all went well. -/

namespace Pseudocode.Command

def version : String := "pseudo 0.1.0"

def usage : String :=
  "Usage:\n" ++
  "  pseudo run [flags] [file.pseudo]\n" ++
  "  pseudo [flags] <file.pseudo>\n" ++
  "  pseudo repl [flags]\n" ++
  "  pseudo fetch\n" ++
  "  pseudo version\n" ++
  "\n" ++
  "Flags:\n" ++
  "  --max-depth N       maximum nested procedure/function calls\n" ++
  "  --log-level LEVEL   trace, debug, info, warn or error\n" ++
  "  --core-types LIST   optional built-ins to enable, e.g. STRING,DATE\n"

def banner : String := "pseudo REPL (" ++ version ++ "). Type :quit to exit."

/-- The file in the home directory that holds the history of the prompt. -/
def historyFile : String := ".pseudo_history"

variable {m : Type → Type} [Monad m] [Host m]

def fail (text : String) : m Nat := do
  Host.complain (text ++ "\n")
  return 1

/-- Goes on with the flags and the arguments behind them, if the flags can be read. -/
def withFlags (command : String) (args : List String) (go : Flags → List String → m Nat) : m Nat :=
  match Flags.read {} args with
  | .error flaw => do
    Host.complain (flaw.report command)
    return 2
  | .ok (flags, rest) => go flags rest

def loadManifest (path : String) : m (Except Manifest.Fault Manifest) := do
  if path = "" then return .error .emptyPath
  let path := ((← Host.directory).resolve path).shown
  return Manifest.ofFile path (← Host.read path)

/-- Goes on with the manifest for `start`, if there is one, unless it cannot be read. -/
def withManifest (start : String) (go : Option Manifest → m Nat) : m Nat := do
  match ← Manifest.find Host.kindOf (← Host.directory) start with
  | .error .notFound => go none
  | .error fault => fail ("failed to load manifest: " ++ fault.message)
  | .ok path =>
    match ← loadManifest path with
    | .error fault => fail ("failed to load manifest: " ++ fault.message)
    | .ok manifest => go (some manifest)

def withSetup (manifest : Option Manifest) (flags : Flags) (go : Setup → m Nat) : m Nat :=
  match Setup.of LogLevel.ofText manifest flags with
  | .error refusal => fail refusal.message
  | .ok setup => go setup

def withSession (setup : Setup) (go : Session → m Nat) : m Nat :=
  match Session.start setup.options with
  | .error failure => fail failure.shown
  | .ok session => go session

def withCache (go : String → m Nat) : m Nat := do
  match ← Checkout.defaultCache with
  | none => fail Checkout.noHome
  | some cache => go cache

/-- Hands on what was written and logged, and forgets it. -/
def flush (level : LogLevel) (s : State) : m State := do
  Host.print (String.join s.sink.written.toList)
  s.log.toList.forM fun entry => Host.log level entry.line
  return { s with sink := { s.sink with written := #[] }, log := #[] }

def endless : String := "the program does not end"

def loadProgram (path : String) : m (Except String Program) := do
  match ← Host.read path with
  | .error fault => return .error s!"read {path}: {fault.message}"
  | .ok bytes =>
    match Program.ofBytes bytes with
    | .error e => return .error s!"{path}: {e.message}"
    | .ok program => return .ok program

/-- How many steps are taken before what was written is handed on. -/
def stride : Nat := 100000

/-- Runs to the end, in at most `strides` strides. -/
def watch (settings : Settings) (level : LogLevel) (c : Config) : (strides : Nat) → m (Option Config)
  | 0 => return none
  | strides + 1 => do
    let c := c.advance settings stride
    let c := { c with state := ← flush level c.state }
    if c.halted then return some c else watch settings level c strides

def execute (fuel : Nat) (setup : Setup) (path : String) : m Nat := do
  match ← loadProgram path with
  | .error reason => fail ("failed to load program: " ++ reason)
  | .ok program =>
    withSession setup fun session => do
      Host.log setup.level ⟨.debug, "executing", [("entry", path)]⟩
      match ← watch session.settings setup.level (session.begin program) fuel with
      | none => fail endless
      | some c =>
        let (result, session) := Session.conclude session.settings c
        discard (flush setup.level session.state)
        match result with
        | .ok _ => return 0
        | .error failure => fail ("runtime error: " ++ failure.shown)

/-- `run`: runs a file, or the entry program of the manifest. -/
def runEntry (fuel : Nat) (args : List String) : m Nat :=
  withFlags "run" args fun flags rest => do
    if 1 < rest.length then
      fail ("unexpected arguments: " ++ " ".intercalate (rest.drop 1))
    else
      withManifest (rest.head?.getD ".") fun manifest =>
        match rest.head?, manifest with
        | none, none =>
          fail ("pseudo run requires a source file (" ++ Manifest.fileName ++ " not found)")
        | some path, manifest =>
          withSetup manifest flags fun setup => execute fuel setup path
        | none, some manifest =>
          withSetup (some manifest) flags fun setup =>
            withCache fun cache => do
              match ← Checkout.entryOf cache setup.level manifest with
              | .error reason => fail ("failed to resolve entry: " ++ reason)
              | .ok path => execute fuel setup path

/-- `fetch`: fetches the program that the manifest names. -/
def runFetch (args : List String) : m Nat :=
  withFlags "fetch" args fun flags rest =>
    if !rest.isEmpty then
      fail ("pseudo fetch does not take arguments (received " ++ " ".intercalate rest ++ ")")
    else
      withManifest "." fun manifest =>
        match (manifest.bind Manifest.source).bind Source.git with
        | none =>
          fail ("pseudo fetch requires a " ++ Manifest.fileName ++ " with a source.git section")
        | some git =>
          withSetup manifest flags fun setup =>
            withCache fun cache => do
              match ← Checkout.fetch cache setup.level (some git) with
              | .error fault => fail ("fetch failed: " ++ fault.message)
              | .ok checkout =>
                Host.print (checkout.commit ++ " " ++ checkout.directory.shown ++ "\n")
                return 0

def nextReply : m Reply := do
  match ← Host.nextLine with
  | none => return .ended
  | some piece => return .line (String.ofList (Text.decode piece.bytes))

/-- The dialogue at the prompt, of at most `lines` lines. -/
def converse (fuel : Nat) (level : LogLevel) (r : Repl) : (lines : Nat) → m Repl
  | 0 => return r
  | lines + 1 => do
    if r.closed then return r
    Host.print r.prompt
    match r.feed fuel (← nextReply) with
    | none =>
      Host.complain (endless ++ "\n")
      return r
    | some next =>
      let state ← flush level next.session.state
      (next.complaints.toList.drop r.complaints.size).forM fun text => Host.complain (text ++ "\n")
      converse fuel level { next with session.state := state } lines

/-- `repl`: opens the prompt. -/
def runRepl (fuel : Nat) (args : List String) : m Nat :=
  withFlags "repl" args fun flags rest =>
    if !rest.isEmpty then
      fail ("pseudo repl does not take arguments (received " ++ " ".intercalate rest ++ ")")
    else
      withManifest "." fun manifest =>
        withSetup manifest flags fun setup =>
          withSession setup fun session => do
            Host.print (banner ++ "\n")
            let home := (← Host.environment "HOME").getD ""
            let path := ((Path.ofText home).join historyFile).shown
            let history := History.ofBytes ((← Host.read path).toOption.getD [])
            let r ← converse fuel setup.level { session } fuel
            Host.write path (History.toBytes (r.history.foldl History.add history))
            return 0

/-- Carries out a command line. Programs run for at most `fuel` steps. -/
def run (fuel : Nat) (args : List String) : m Nat :=
  match args with
  | [] => runEntry fuel []
  | word :: rest =>
    if word ∈ ["--help", "-h", "help"] then do
      Host.print usage
      return 0
    else if word ∈ ["--version", "-V", "version"] then do
      Host.print (version ++ "\n")
      return 0
    else if word = "run" then runEntry fuel rest
    else if word = "repl" then runRepl fuel rest
    else if word = "fetch" then runFetch rest
    else runEntry fuel args

end Pseudocode.Command
