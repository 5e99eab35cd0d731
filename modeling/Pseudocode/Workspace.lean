import Pseudocode.FileTree
import Pseudocode.Host

/-! # Commands on a tree of files

The place of a command as a value: a tree of files, the environment and the input, and the texts
written so far. -/

namespace Pseudocode

structure Workspace where
  tree : FileTree
  /-- The directory in which commands run. -/
  directory : Path
  environment : List (String × String) := []
  input : List UInt8 := []
  output : String := ""
  errors : String := ""
  clock : String := ""
  /-- The number that the name of a temporary directory ends in. -/
  ticket : Nat := 0
  /-- What comes of cloning the repository with a name. -/
  repositories : String → Except String Repository := fun _ => .error "repository not found"

namespace Workspace

/-- What a command does to a workspace. -/
abbrev Action := StateM Workspace

def nextLine : Action (Option Lines.Piece) := fun w =>
  match w.input with
  | [] => (none, w)
  | input =>
    let (piece, rest) := Lines.next input
    (some piece, { w with input := rest })

/-- Changes the tree, unless that fails. -/
def change (edit : FileTree → Path → Except FileError FileTree) : Action (Except FileError Unit) :=
  fun w =>
    match edit w.tree w.directory with
    | .error e => (.error e, w)
    | .ok tree => (.ok (), { w with tree })

def unused (path front : String) : Action (Except FileFault String) := fun w =>
  let name := ((Path.ofText path).join (front ++ toString w.ticket)).shown
  match w.tree.makeDirectory w.directory name with
  | .error e => (.error ⟨"mkdir", name, e⟩, w)
  | .ok _ => (.ok name, w)

/-- Clones a repository. The new directory stays empty until a commit is checked out. -/
def clone (url path : String) : Action (Except String Repository) := do
  match (← get).repositories url with
  | .error reason => return .error reason
  | .ok repository =>
    match ← change fun tree directory => tree.makeDirectory directory path with
    | .error e => return .error e.message
    | .ok _ => return .ok repository

def checkOut (path : String) (repository : Repository) (commit : Commit) :
    Action (Except String Unit) := do
  match repository.entries commit with
  | .error reason => return .error reason
  | .ok entries =>
    match ← change fun tree directory => tree.refill directory path entries with
    | .error e => return .error e.message
    | .ok _ => return .ok ()

instance : Host Action where
  directory := return (← get).directory
  environment name := return (← get).environment.lookup name
  kindOf path := return (← get).tree.kindOf (← get).directory path
  read path := return (← get).tree.read (← get).directory path
  entries path := return (← get).tree.entriesOf (← get).directory path
  makeDirectory path := change fun tree directory => tree.makeDirectory directory path
  write path bytes := discard (change fun tree directory => tree.write directory path bytes)
  unused := unused
  rename old new := change fun tree directory => tree.rename directory old new
  remove path := discard (change fun tree directory => tree.remove directory path)
  clone := clone
  checkOut := checkOut
  nextLine := nextLine
  print text := modify fun w => { w with output := w.output ++ text }
  complain text := modify fun w => { w with errors := w.errors ++ text }
  clock := return (← get).clock

end Workspace

end Pseudocode
