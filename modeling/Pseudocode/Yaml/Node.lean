import Pseudocode.Yaml.Scan

/-! # Nodes

The tree that tokens spell: scalars, sequences and mappings. What is left out where a node belongs is
the empty plain scalar. -/

namespace Pseudocode.Yaml

inductive Node where
  | scalar (text : String) (plain : Bool)
  | sequence (items : List Node)
  | mapping (entries : List (Node × Node))

namespace Node

/-- What stands for a node that is left out. -/
def missing : Node := scalar "" true

def isNull : Node → Bool
  | scalar text true => text ∈ ["", "~", "null", "Null", "NULL"]
  | _ => false

/-- Reads tokens from the left. -/
abbrev Reader := StateT (List Token) (Except Problem)

def peek : Reader Token := do
  match ← get with
  | [] => throw .expectedNode
  | .broken problem :: _ => throw problem
  | t :: _ => return t

def advance : Reader Unit :=
  modify (·.drop 1)

/-- Reads a node, unless the next token is one of those that may follow a node that is left out. -/
def orMissing (followers : List Token) (read : Reader Node) : Reader Node := do
  if (← peek) ∈ followers then return missing else read

mutual

/-- A node. Indented blocks count as nodes only where `blocks`, and entries that are indented no
further than the key they belong to only where `bare`. -/
def node (blocks bare : Bool) : (fuel : Nat) → Reader Node
  | 0 => throw .nestedTooDeep
  | fuel + 1 => do
    match ← peek with
    | .scalar text plain =>
      advance
      return .scalar text plain
    | .openBracket =>
      advance
      return .sequence (← bracketItems true fuel)
    | .openBrace =>
      advance
      return .mapping (← braceEntries true fuel)
    | .entry => if bare then return .sequence (← bareItems fuel) else throw .expectedNode
    | .sequenceStart =>
      if blocks then
        advance
        return .sequence (← blockItems fuel)
      else throw .expectedNode
    | .mappingStart =>
      if blocks then
        advance
        return .mapping (← blockEntries fuel)
      else throw .expectedNode
    | _ => throw .expectedNode

/-- The entries of a block, up to its end. -/
def blockItems : (fuel : Nat) → Reader (List Node)
  | 0 => throw .nestedTooDeep
  | fuel + 1 => do
    match ← peek with
    | .entry =>
      advance
      let item ← orMissing [.entry, .blockEnd] (node true false fuel)
      return item :: (← blockItems fuel)
    | .blockEnd =>
      advance
      return []
    | _ => throw .expectedEntry

/-- Entries in the column of the key that they belong to. -/
def bareItems : (fuel : Nat) → Reader (List Node)
  | 0 => throw .nestedTooDeep
  | fuel + 1 => do
    match ← peek with
    | .entry =>
      advance
      let item ← orMissing [.entry, .key, .value, .blockEnd] (node true false fuel)
      return item :: (← bareItems fuel)
    | _ => return []

/-- The keys and values of a block, up to its end. -/
def blockEntries : (fuel : Nat) → Reader (List (Node × Node))
  | 0 => throw .nestedTooDeep
  | fuel + 1 => do
    let followers := [Token.key, .value, .blockEnd]
    let t ← peek
    if t = .blockEnd then
      advance
      return []
    else if t = .key then
      advance
      let key ← orMissing followers (node true true fuel)
      let value ← if (← peek) = .value then do
          advance
          orMissing followers (node true true fuel)
        else pure missing
      return (key, value) :: (← blockEntries fuel)
    else throw .expectedKey

/-- The items between brackets, up to the closing one. A key among them is a mapping of its own. -/
def bracketItems (first : Bool) : (fuel : Nat) → Reader (List Node)
  | 0 => throw .nestedTooDeep
  | fuel + 1 => do
    if (← peek) = .closeBracket then
      advance
      return []
    else
      if !first then
        if (← peek) = .comma then advance else throw .expectedBracket
      match ← peek with
      | .closeBracket =>
        advance
        return []
      | .key =>
        advance
        let followers := [Token.comma, .closeBracket]
        let key ← orMissing (.value :: followers) (node false false fuel)
        let value ← if (← peek) = .value then do
            advance
            orMissing followers (node false false fuel)
          else pure missing
        return .mapping [(key, value)] :: (← bracketItems false fuel)
      | _ =>
        let item ← node false false fuel
        return item :: (← bracketItems false fuel)

/-- The keys and values between braces, up to the closing one. -/
def braceEntries (first : Bool) : (fuel : Nat) → Reader (List (Node × Node))
  | 0 => throw .nestedTooDeep
  | fuel + 1 => do
    if (← peek) = .closeBrace then
      advance
      return []
    else
      if !first then
        if (← peek) = .comma then advance else throw .expectedBracket
      match ← peek with
      | .closeBrace =>
        advance
        return []
      | .key =>
        advance
        let followers := [Token.comma, .closeBrace]
        let key ← orMissing (.value :: followers) (node false false fuel)
        let value ← if (← peek) = .value then do
            advance
            orMissing followers (node false false fuel)
          else pure missing
        return (key, value) :: (← braceEntries false fuel)
      | _ =>
        let key ← node false false fuel
        return (key, missing) :: (← braceEntries false fuel)

end

/-- How many tokens are read ahead of the end of a document. -/
def lookahead : Nat := 3

/-- What keeps the text behind a document from being read ahead. -/
def problemAhead (rest : List Token) : Option Problem :=
  (rest.take lookahead).findSome? fun t => match t with
    | .broken problem => some problem
    | _ => none

/-- The first document of a text; nothing if there is none. -/
def ofText (text : List Char) : Except Problem (Option Node) :=
  let tokens := Token.scan text
  let fuel := 2 * tokens.length + 2
  let root : Reader (Option Node) := do
    match ← peek with
    | .ended => return none
    | .documentStart =>
      advance
      return some (← orMissing [.documentStart, .documentEnd, .ended] (node true false fuel))
    | _ => return some (← node true false fuel)
  match root.run tokens with
  | .error problem => .error problem
  | .ok (document, rest) =>
    match problemAhead rest with
    | some problem => .error problem
    | none => .ok document

end Node

end Pseudocode.Yaml
