import Pseudocode.Manifest
import Pseudocode.Text.Bytes
import Pseudocode.Text.Case
import Pseudocode.Text.Classes
import Pseudocode.Yaml.Node
import Pseudocode.Yaml.Number

/-! # Reading manifests

A manifest is a mapping with known keys. A key may be left out or stand for nothing; it may not be
there twice. -/

namespace Pseudocode

namespace Yaml.Node

def sameKey : Node → Node → Bool
  | scalar a _, scalar b _ => a = b
  | sequence _, sequence _ | mapping _, mapping _ => true
  | _, _ => false

/-- The entries of a mapping whose keys are all among the known ones. Entries whose key stands for
nothing are passed over. -/
def known (names : List String) : List (Node × Node) → Except Problem (List (String × Node))
  | [] => .ok []
  | (key, value) :: rest =>
    match key with
    | scalar text _ =>
      if rest.any (sameKey key ·.1) then .error (.repeatedKey text)
      else if key.isNull then known names rest
      else if text ∈ names then (known names rest).map ((text, value) :: ·)
      else .error (.unknownKey text)
    | _ => .error (.wrongKind "a name")

/-- The fields of a record with these names. Nothing at all is a record without fields. -/
def fields (names : List String) (n : Node) : Except Problem (List (String × Node)) :=
  match n with
  | mapping entries => known names entries
  | _ => if n.isNull then .ok [] else .error (.wrongKind "a mapping")

/-- The text of a scalar; empty if it stands for nothing. -/
def text (n : Node) : Except Problem String :=
  match n with
  | scalar text _ => .ok (if n.isNull then "" else text)
  | _ => .error (.wrongKind "a text")

/-- An integer; 0 if the node stands for nothing. -/
def integer (n : Node) : Except Problem Int :=
  match n with
  | scalar text true =>
    if n.isNull then .ok 0
    else match integer? text with
      | some k => .ok k
      | none => .error (.wrongKind "an integer")
  | _ => .error (.wrongKind "an integer")

/-- The trimmed texts of a list, without the empty ones. A single text is a list of one. -/
def texts : Node → Except Problem (List String)
  | scalar text _ => .ok ([Text.trim text].filter (· ≠ ""))
  | sequence items => do
    let all ← items.mapM text
    return (all.map Text.trim).filter (· ≠ "")
  | mapping _ => .error (.wrongKind "a list")

/-- Reads a node unless it stands for nothing. -/
def optional {α : Type} (read : Node → Except Problem α) (n : Node) : Except Problem (Option α) :=
  if n.isNull then .ok none else (read n).map some

end Yaml.Node

namespace Manifest

open Yaml (Node Problem)

/-- The node under a key, or what stands for nothing. -/
def fieldOf (fields : List (String × Node)) (name : String) : Node :=
  (fields.lookup name).getD .missing

def textOf (fields : List (String × Node)) (name : String) : Except Problem String :=
  (fieldOf fields name).text.map Text.trim

def gitOfNode (n : Node) : Except Problem GitSource := do
  let fields ← n.fields ["url", "rev", "tag", "branch", "path"]
  return {
    url := ← textOf fields "url"
    rev := ← textOf fields "rev"
    tag := ← textOf fields "tag"
    branch := ← textOf fields "branch"
    path := ← textOf fields "path" }

def sourceOfNode (n : Node) : Except Problem Source := do
  let fields ← n.fields ["git"]
  return { git := ← (fieldOf fields "git").optional gitOfNode }

def ofNode (path : String) (n : Node) : Except Problem Manifest := do
  let fields ← n.fields ["name", "entry", "types", "max_call_depth", "log_level", "source"]
  let types ← (fieldOf fields "types").optional Node.texts
  return {
    path
    name := ← textOf fields "name"
    entry := ← textOf fields "entry"
    types := (types.getD []).map Text.upper
    typesGiven := types.isSome
    maxDepth := ← (fieldOf fields "max_call_depth").integer
    logLevel := Text.lower (← textOf fields "log_level")
    source := ← (fieldOf fields "source").optional sourceOfNode }

/-- The manifest at `path` that a text spells, if nothing is wrong with it. -/
def ofText (path : String) (text : List Char) : Except Fault Manifest :=
  match Node.ofText text with
  | .error problem => .error (.unreadable path problem.message)
  | .ok none => .error (.empty path)
  | .ok (some node) =>
    match ofNode path node with
    | .error problem => .error (.unreadable path problem.message)
    | .ok m =>
      let issues := m.issues LogLevel.ofText
      if issues.isEmpty then .ok m else .error (.invalid issues)

/-- The manifest at `path` that a file holds. Unlike programs, manifests have to be well-formed
UTF-8. -/
def ofFile (path : String) : Except FileFault (List UInt8) → Except Fault Manifest
  | .error fault =>
    if fault.operation = "open" then .error (.unopened fault)
    else .error (.unreadable path fault.message)
  | .ok bytes =>
    if Text.wellFormed bytes then ofText path (Text.decode bytes)
    else .error (.unreadable path "invalid UTF-8")

end Manifest

end Pseudocode
