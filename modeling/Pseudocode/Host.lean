import Pseudocode.File
import Pseudocode.Log.Line
import Pseudocode.Path
import Pseudocode.Repository
import Pseudocode.Text.Lines

/-! # What a command needs

Commands read files, variables of the environment and lines of input, and they write texts. They are
written for every monad in which that can be done, so that they can be run on the machine they are
for and on a tree of files that is a value. -/

namespace Pseudocode

class Host (m : Type → Type) where
  /-- The directory in which the command runs. -/
  directory : m Path
  /-- The value of a variable of the environment. -/
  environment : String → m (Option String)
  kindOf : String → m (Except FileError FileKind)
  /-- The bytes of a file. -/
  read : String → m (Except FileFault (List UInt8))
  /-- The entries of a directory in increasing order of their names. -/
  entries : String → m (Except FileError (List (String × FileKind)))
  makeDirectory : String → m (Except FileError Unit)
  /-- Writes a file; a failure to do so goes unnoticed. -/
  write : String → List UInt8 → m Unit
  /-- A path in a directory at which there is nothing yet. Its last name starts with a text. -/
  unused : (directory front : String) → m (Except FileFault String)
  rename : (old new : String) → m (Except FileError Unit)
  /-- Removes what a path leads to; a failure to do so goes unnoticed. -/
  remove : String → m Unit
  /-- Clones a repository into a new directory. -/
  clone : (url path : String) → m (Except String Repository)
  /-- Makes the directory of a clone the working copy of a commit. -/
  checkOut : (path : String) → Repository → Commit → m (Except String Unit)
  /-- The next line of the input. -/
  nextLine : m (Option Lines.Piece)
  /-- Writes to the output. -/
  print : String → m Unit
  /-- Writes to where errors go. -/
  complain : String → m Unit
  /-- The time of day, as log lines show it. -/
  clock : m String

namespace Host

variable {m : Type → Type} [Monad m] [Host m]

/-- Writes a log line, if the log takes it. -/
def log (level : LogLevel) (line : LogLine) : m Unit := do
  if level.takes line.level then
    complain (line.shown (← clock (m := m)) ++ "\n")

/-- Makes the directories of a list of paths, each of which is the parent of the next. -/
def makeEach : List Path → m (Except FileFault Unit)
  | [] => return .ok ()
  | path :: deeper => do
    match ← kindOf path.shown with
    | .ok .directory => makeEach deeper
    | .ok .file => return .error ⟨"mkdir", path.shown, .notDirectory⟩
    | .error _ =>
      match ← makeDirectory path.shown with
      | .ok _ => makeEach deeper
      | .error e => return .error ⟨"mkdir", path.shown, e⟩

/-- Makes a directory and those above it, as far as they are missing. -/
def makeDirectories (path : Path) : m (Except FileFault Unit) :=
  makeEach (path.ancestors.reverse.drop 1)

end Host

end Pseudocode
