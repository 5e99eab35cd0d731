import Pseudocode.Manifest

/-! # Finding the manifest

The manifest of a program is the nearest one: it lies in the directory of the program or in one above
it. -/

namespace Pseudocode.Manifest

inductive FindFault where
  | notFound
  | unknowable (fault : FileFault)
  deriving Repr, DecidableEq

def FindFault.message : FindFault → String
  | notFound => fileName ++ " not found"
  | unknowable fault => s!"stat {fault.path}: {fault.message}"

variable {m : Type → Type} [Monad m]

/-- The manifest in the first of the directories that has one. A directory that only has the name of
a manifest is passed over; what cannot be told ends the search. -/
def nearest (kindOf : String → m (Except FileError FileKind)) :
    List Path → m (Except FindFault String)
  | [] => return .error .notFound
  | directory :: above => do
    let candidate := (directory.join fileName).shown
    match ← kindOf candidate with
    | .ok .file => return .ok candidate
    | .ok .directory | .error .missing => nearest kindOf above
    | .error e => return .error (.unknowable ⟨"stat", candidate, e⟩)

/-- The manifest for what `start` leads to from a directory: a file, a directory or nothing at all. -/
def find (kindOf : String → m (Except FileError FileKind)) (directory : Path) (start : String) :
    m (Except FindFault String) := do
  let here := directory.resolve start
  match ← kindOf here.shown with
  | .ok .file => nearest kindOf here.parent.ancestors
  | _ => nearest kindOf here.ancestors

end Pseudocode.Manifest
