import Pseudocode.Yaml.Token

/-! # From text to tokens

The text is read once from the left. Along the way the columns of the open blocks are kept, and for
every bracket level the scalar or bracket that will be a key if a colon follows. -/

namespace Pseudocode.Yaml

/-- A token that is a key if a colon follows on its line. -/
structure Candidate where
  /-- The number of tokens before it. -/
  slot : Nat
  line : Nat
  column : Nat
  index : Nat
  /-- Whether the token can be nothing but a key. -/
  required : Bool

/-- How far the text is read. -/
structure Reading where
  mark : Mark
  tokens : Array Token := #[]
  /-- The columns of the open blocks, the innermost first. -/
  indents : List Nat := []
  /-- The candidate at every open bracket, the innermost first. -/
  brackets : List (Option Candidate) := []
  /-- The candidate outside of brackets. -/
  outside : Option Candidate := none
  /-- Whether a key may start here. -/
  keyAllowed : Bool := true

namespace Reading

def inBrackets (r : Reading) : Bool :=
  !r.brackets.isEmpty

/-- The column after that of the innermost block. -/
def innerColumn (r : Reading) : Nat :=
  match r.indents with
  | [] => 0
  | column :: _ => column + 1

/-- The candidate at the innermost bracket. -/
def candidate? (r : Reading) : Option Candidate :=
  match r.brackets with
  | [] => r.outside
  | c :: _ => c

def setCandidate (r : Reading) (c : Option Candidate) : Reading :=
  match r.brackets with
  | [] => { r with outside := c }
  | _ :: more => { r with brackets := c :: more }

def dropCandidate (r : Reading) : Except Problem Reading :=
  if r.candidate?.any (·.required) then .error .keyWithoutColon
  else .ok (r.setCandidate none)

/-- Makes the next token the candidate, if a key may start here. -/
def saveCandidate (r : Reading) : Except Problem Reading :=
  if r.keyAllowed then do
    let r ← r.dropCandidate
    let m := r.mark
    return r.setCandidate (some {
      slot := r.tokens.size, line := m.line, column := m.column, index := m.index
      required := !r.inBrackets && r.innerColumn = m.column + 1 })
  else .ok r

/-- How far behind the start of a key its colon may stand. -/
def keyReach : Nat := 1024

/-- The candidate, if a colon here makes it a key. -/
def liveCandidate (r : Reading) : Except Problem (Option Candidate) :=
  match r.candidate? with
  | none => .ok none
  | some c =>
    if c.line < r.mark.line ∨ c.index + keyReach < r.mark.index then
      if c.required then .error .keyWithoutColon else .ok none
    else .ok (some c)

def push (r : Reading) (t : Token) : Reading :=
  { r with tokens := r.tokens.push t }

/-- Puts a token in front of the one at `slot`. -/
def insert (r : Reading) (slot : Nat) (t : Token) : Reading :=
  { r with tokens := r.tokens.insertIdxIfInBounds slot t }

/-- Opens a block at a column that is further to the right. Its first token goes to `slot`. -/
def openBlock (r : Reading) (column slot : Nat) (t : Token) : Reading :=
  if !r.inBrackets && r.innerColumn ≤ column then
    { r.insert slot t with indents := column :: r.indents }
  else r

/-- Closes blocks: the tokens that do so are as many as the columns that are dropped. -/
def closeWhile (ends : Nat → Bool) : List Nat → Array Token → List Nat × Array Token
  | [], tokens => ([], tokens)
  | column :: more, tokens =>
    if ends column then closeWhile ends more (tokens.push .blockEnd) else (column :: more, tokens)

/-- Closes the blocks whose columns are of this kind, up to the first one that is not. -/
def closeBlocks (r : Reading) (ends : Nat → Bool) : Reading :=
  if r.inBrackets then r
  else
    let (indents, tokens) := closeWhile ends r.indents r.tokens
    { r with indents, tokens }

/-- Passes blanks, comments and line breaks. Outside of brackets a tab is no blank where a key may
start. A comment takes the comments on the lines below with it. -/
def skipFiller (r : Reading) : (fuel : Nat) → Reading
  | 0 => r
  | fuel + 1 =>
    let m := r.mark
    match m.rest with
    | [] => r
    | c :: _ =>
      if c = ' ' || (c = '\t' && (r.inBrackets || !r.keyAllowed))
          || (c = '\ufeff' && m.column = 0) then
        { r with mark := m.skip 1 }.skipFiller fuel
      else if c = '#' then
        let m := m.skipLine
        let (_, below) := Gap.pass {} m m.rest.length
        let m := if below.rest.head? = some '#' then below else m
        { r with mark := m }.skipFiller fuel
      else if isBreak c then
        { r with mark := m.skipBreak, keyAllowed := r.keyAllowed || !r.inBrackets }.skipFiller fuel
      else r

/-- Takes a token of `width` characters. -/
def take (r : Reading) (width : Nat) (t : Token) (keyAllowed : Bool) : Reading :=
  { r.push t with mark := r.mark.skip width, keyAllowed }

def readDocumentMark (r : Reading) (t : Token) : Except Problem Reading := do
  let r ← (r.closeBlocks fun _ => true).dropCandidate
  return r.take 3 t false

def readOpen (r : Reading) (t : Token) : Except Problem Reading := do
  let r ← r.saveCandidate
  return { r.take 1 t true with brackets := none :: r.brackets }

def readClose (r : Reading) (t : Token) : Except Problem Reading := do
  let r ← r.dropCandidate
  return { r.take 1 t false with brackets := r.brackets.drop 1 }

def readComma (r : Reading) : Except Problem Reading := do
  let r ← r.dropCandidate
  return r.take 1 .comma true

/-- A dash in front of an entry. -/
def readEntry (r : Reading) : Except Problem Reading := do
  if !r.inBrackets && !r.keyAllowed then .error .entryNotAllowed
  let r := r.openBlock r.mark.column r.tokens.size .sequenceStart
  let r ← r.dropCandidate
  return r.take 1 .entry true

/-- A question mark in front of a key. -/
def readKey (r : Reading) : Except Problem Reading := do
  if !r.inBrackets && !r.keyAllowed then .error .keyNotAllowed
  let r := r.openBlock r.mark.column r.tokens.size .mappingStart
  let r ← r.dropCandidate
  return r.take 1 .key (!r.inBrackets)

/-- A colon in front of a value. It makes the candidate a key. -/
def readValue (r : Reading) : Except Problem Reading := do
  match ← r.liveCandidate with
  | some c =>
    let r := (r.insert c.slot .key).openBlock c.column c.slot .mappingStart
    return (r.setCandidate none).take 1 .value false
  | none =>
    if !r.inBrackets && !r.keyAllowed then .error .valueNotAllowed
    let r := r.openBlock r.mark.column r.tokens.size .mappingStart
    return (r.setCandidate none).take 1 .value (!r.inBrackets)

def readScalar (r : Reading) (plain : Bool) (read : Mark → Except Problem Scalar) :
    Except Problem Reading := do
  let r ← r.saveCandidate
  let s ← read r.mark
  return { r.push (.scalar (String.ofList s.text) plain) with
    mark := s.mark, keyAllowed := s.passedBreak }

/-- The characters that cannot start a plain scalar. -/
def indicators : List Char :=
  ['-', '?', ':', ',', '[', ']', '{', '}', '#', '&', '*', '!', '|', '>', '\'', '"', '%', '@', '\x60']

/-- Reads the token that starts with `c`, which is followed by `rest`. -/
def readToken (r : Reading) (c : Char) (rest : List Char) : Except Problem Reading :=
  let plain := r.readScalar true fun m =>
    readPlain r.inBrackets r.innerColumn [] {} m (m.rest.length + 1)
  let quoted := r.readScalar false fun m => readQuoted c [] (m.skip 1) (m.rest.length + 1)
  if r.mark.column = 0 && c = '%' then .error .unsupported
  else if r.mark.atDocumentMark then
    r.readDocumentMark (if c = '-' then .documentStart else .documentEnd)
  else if c = '[' then r.readOpen .openBracket
  else if c = '{' then r.readOpen .openBrace
  else if c = ']' then r.readClose .closeBracket
  else if c = '}' then r.readClose .closeBrace
  else if c = ',' then r.readComma
  else if c = '-' then if atGap rest then r.readEntry else plain
  else if c = '?' then if r.inBrackets || atGap rest then r.readKey else plain
  else if c = ':' then if r.inBrackets || atGap rest then r.readValue else plain
  else if c = '\'' || c = '"' then quoted
  else if c ∈ ['*', '&', '!', '|', '>'] then .error .unsupported
  else if c ∈ indicators || atGap (c :: rest) then .error .noToken
  else plain

def readAll (r : Reading) : (fuel : Nat) → Array Token
  | 0 => r.tokens
  | fuel + 1 =>
    let r := r.skipFiller (r.mark.rest.length + 1)
    let r := r.closeBlocks fun column => r.mark.column < column
    match r.mark.rest with
    | [] =>
      match (r.closeBlocks fun _ => true).dropCandidate with
      | .ok r => r.tokens.push .ended
      | .error problem => r.tokens.push (.broken problem)
    | c :: rest =>
      match r.readToken c rest with
      | .ok r => r.readAll fuel
      | .error problem => r.tokens.push (.broken problem)

end Reading

/-- The tokens of a text. The last one says whether the text was read to its end. -/
def Token.scan (text : List Char) : List Token :=
  let text := if text.head? = some '\ufeff' then text.drop 1 else text
  if text.all isAllowed then (Reading.readAll { mark := { rest := text } } (text.length + 1)).toList
  else [.broken .controlCharacter]

end Pseudocode.Yaml
