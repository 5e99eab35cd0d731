import Pseudocode.File
import Pseudocode.Path

/-! # Trees of files

A tree of files as a value, and how paths lead through it. Unlike the cleaning of a path, following
one looks at every part: each part but the last has to be a directory, `..` included. -/

namespace Pseudocode

/-- A file, or a directory with its entries in increasing order of their names. -/
inductive FileTree where
  | file (bytes : List UInt8)
  | directory (entries : List (String × FileTree))

namespace FileTree

def kind : FileTree → FileKind
  | file _ => .file
  | directory _ => .directory

/-- Adds an entry, or replaces the one of that name. -/
def put (name : String) (t : FileTree) : List (String × FileTree) → List (String × FileTree)
  | [] => [(name, t)]
  | (other, u) :: rest =>
    if name < other then (name, t) :: (other, u) :: rest
    else if name = other then (name, t) :: rest
    else (other, u) :: put name t rest

def at? (t : FileTree) : List String → Option FileTree
  | [] => some t
  | name :: rest =>
    match t with
    | file _ => none
    | directory entries =>
      match entries.lookup name with
      | none => none
      | some child => child.at? rest

/-- Puts a tree below the names. The directories on the way are made if they are missing. -/
def set (t : FileTree) (new : FileTree) : List String → FileTree
  | [] => new
  | name :: rest =>
    match t with
    | file bytes => file bytes
    | directory entries =>
      let child := (entries.lookup name).getD (directory [])
      directory (put name (child.set new rest) entries)

/-- Takes away what is below the names. The root stays. -/
def erase (t : FileTree) : List String → FileTree
  | [] => t
  | name :: rest =>
    match t with
    | file bytes => file bytes
    | directory entries =>
      match entries.lookup name with
      | none => directory entries
      | some child =>
        if rest = [] then directory (entries.filter (·.1 ≠ name))
        else directory (put name (child.erase rest) entries)

def longestName : Nat := 255

def longestPath : Nat := 4095

/-- Follows the parts of a path from the tree `here`, whose names are listed backwards. -/
def follow (root : FileTree) (passed : List String) (here : FileTree) :
    List String → Except FileError (List String × FileTree)
  | [] => .ok (passed.reverse, here)
  | part :: rest =>
    match here with
    | file _ => .error .notDirectory
    | directory entries =>
      if part = "." then follow root passed here rest
      else if part = ".." then
        match root.at? (passed.drop 1).reverse with
        | none => .error .missing
        | some above => follow root (passed.drop 1) above rest
      else if longestName < part.utf8ByteSize then .error .nameTooLong
      else
        match entries.lookup part with
        | none => .error .missing
        | some next => follow root (part :: passed) next rest

/-- The parts that have to be followed. A slash at the end asks for a directory. -/
def partsOf (text : String) : List String :=
  Path.parts text ++ (if text.toList.getLast? = some '/' then ["."] else [])

/-- Whether a text is refused before it is followed. -/
def refusal? (text : String) : Option FileError :=
  if '\x00' ∈ text.toList then some .invalidArgument
  else if text = "" then some .missing
  else if longestPath < text.utf8ByteSize then some .nameTooLong
  else none

/-- Follows parts from the root, or from a directory. -/
def followFrom (root : FileTree) (directory : Path) (absolute : Bool) (parts : List String) :
    Except FileError (List String × FileTree) :=
  let start := if absolute then [] else directory.names
  match root.at? start with
  | none => .error .missing
  | some here => root.follow start.reverse here parts

/-- The tree that a text leads to, and the names it is found under. -/
def locate (root : FileTree) (directory : Path) (text : String) :
    Except FileError (List String × FileTree) :=
  match refusal? text with
  | some e => .error e
  | none => root.followFrom directory (Path.isAbsolute text) (partsOf text)

def kindOf (root : FileTree) (directory : Path) (text : String) : Except FileError FileKind :=
  (root.locate directory text).map (·.2.kind)

def read (root : FileTree) (directory : Path) (text : String) : Except FileFault (List UInt8) :=
  match root.locate directory text with
  | .error e => .error ⟨"open", text, e⟩
  | .ok (_, .directory _) => .error ⟨"read", text, .isDirectory⟩
  | .ok (_, .file bytes) => .ok bytes

def entriesOf (root : FileTree) (directory : Path) (text : String) :
    Except FileError (List (String × FileKind)) :=
  match root.locate directory text with
  | .error e => .error e
  | .ok (_, .file _) => .error .notDirectory
  | .ok (_, .directory entries) => .ok (entries.map fun (name, t) => (name, t.kind))

/-- The names under which a new entry would stand. -/
def placeFor (root : FileTree) (directory : Path) (text : String) : Except FileError (List String) :=
  match refusal? text with
  | some e => .error e
  | none =>
    match (partsOf text).getLast? with
    | none => .error .taken
    | some last =>
      match root.followFrom directory (Path.isAbsolute text) (partsOf text).dropLast with
      | .error e => .error e
      | .ok (_, .file _) => .error .notDirectory
      | .ok (names, .directory _) =>
        if last = "." ∨ last = ".." then .error .taken
        else if longestName < last.utf8ByteSize then .error .nameTooLong
        else .ok (names ++ [last])

def makeDirectory (root : FileTree) (directory : Path) (text : String) : Except FileError FileTree := do
  let names ← root.placeFor directory text
  match root.at? names with
  | some _ => .error .taken
  | none => .ok (root.set (.directory []) names)

def write (root : FileTree) (directory : Path) (text : String) (bytes : List UInt8) :
    Except FileError FileTree := do
  let names ← root.placeFor directory text
  match root.at? names with
  | some (.directory _) => .error .isDirectory
  | _ => .ok (root.set (.file bytes) names)

/-- The tree in which a directory holds other entries. -/
def refill (root : FileTree) (directory : Path) (text : String) (entries : List (String × FileTree)) :
    Except FileError FileTree := do
  let (names, _) ← root.locate directory text
  return root.set (.directory entries) names

def remove (root : FileTree) (directory : Path) (text : String) : Except FileError FileTree := do
  let (names, _) ← root.locate directory text
  return root.erase names

/-- The tree in which what was found under one text is found under another. -/
def rename (root : FileTree) (directory : Path) (old new : String) : Except FileError FileTree := do
  let (names, moved) ← root.locate directory old
  let place ← root.placeFor directory new
  match root.at? place with
  | some _ => .error .taken
  | none => .ok ((root.erase names).set moved place)

end FileTree

end Pseudocode
