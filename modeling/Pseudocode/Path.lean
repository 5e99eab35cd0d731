/-! # Paths

Paths are cleaned as text, without looking at files: empty parts and `.` vanish, and `..` takes back
the part before it. So `..` stays only at the front of a relative path. -/

namespace Pseudocode

/-- A cleaned path: the names on the way from the root, or from where one is. -/
structure Path where
  absolute : Bool
  names : List String
  deriving Repr, DecidableEq

namespace Path

/-- The parts of a text between its slashes, without the empty ones. -/
def parts (text : String) : List String :=
  ((text.toList.splitOn '/').filter (!·.isEmpty)).map String.ofList

/-- One step further along a path. The names passed so far are listed backwards. -/
def step (absolute : Bool) (passed : List String) (part : String) : List String :=
  if part = "" ∨ part = "." then passed
  else if part = ".." then
    match passed with
    | [] => if absolute then [] else [".."]
    | last :: before => if last = ".." then ".." :: passed else before
  else part :: passed

/-- The names left after cleaning. -/
def clean (absolute : Bool) (parts : List String) : List String :=
  (parts.foldl (step absolute) []).reverse

def isAbsolute (text : String) : Bool :=
  text.toList.head? = some '/'

def ofText (text : String) : Path :=
  ⟨isAbsolute text, clean (isAbsolute text) (parts text)⟩

def shown (p : Path) : String :=
  if p.absolute then "/" ++ "/".intercalate p.names
  else if p.names.isEmpty then "."
  else "/".intercalate p.names

/-- The path that a text leads to from `p`. A slash at the front of the text means nothing. -/
def join (p : Path) (text : String) : Path :=
  ⟨p.absolute, clean p.absolute (p.names ++ parts text)⟩

/-- The path that a text leads to from a directory, or from the root if it starts there. -/
def resolve (directory : Path) (text : String) : Path :=
  if isAbsolute text then ofText text else directory.join text

def parent (p : Path) : Path :=
  ⟨p.absolute, p.names.dropLast⟩

/-- What a text says before its last slash. -/
def directoryOf (text : String) : Path :=
  ofText (String.ofList (text.toList.reverse.dropWhile (· ≠ '/')).reverse)

/-- The path and the paths above it, the nearest first. -/
def ancestors (p : Path) : List Path :=
  (List.range (p.names.length + 1)).reverse.map fun n => ⟨p.absolute, p.names.take n⟩

end Path

end Pseudocode
