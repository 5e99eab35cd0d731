/-! # Tokens of structured text

Settings are written in a common format of nested mappings and sequences. Nesting shows by indentation
or by brackets, and scalars are plain or quoted.

Tokens make the indentation explicit: a token opens every indented block, and another one closes it.
Whether a scalar is a key shows only at the colon behind it, so the tokens in front of a key are put
in afterwards. -/

namespace Pseudocode.Yaml

/-- Why a text does not follow the format. -/
inductive Problem where
  | controlCharacter
  | noToken
  | unsupported
  | keyWithoutColon
  | entryNotAllowed
  | keyNotAllowed
  | valueNotAllowed
  | unclosedQuote
  | documentInQuote
  | unknownEscape
  | tabInIndentation
  | expectedNode
  | expectedEntry
  | expectedKey
  | expectedBracket
  | wrongKind (wanted : String)
  | unknownKey (name : String)
  | repeatedKey (name : String)
  /-- The bound on nested nodes was reached; it grows with the text, so that it never is. -/
  | nestedTooDeep
  deriving Repr, DecidableEq

def Problem.message : Problem → String
  | controlCharacter => "control characters are not allowed"
  | noToken => "found character that cannot start any token"
  | unsupported => "found an unsupported construct"
  | keyWithoutColon => "could not find expected ':'"
  | entryNotAllowed => "block sequence entries are not allowed in this context"
  | keyNotAllowed => "mapping keys are not allowed in this context"
  | valueNotAllowed => "mapping values are not allowed in this context"
  | unclosedQuote => "found unexpected end of stream"
  | documentInQuote => "found unexpected document indicator"
  | unknownEscape => "found unknown escape character"
  | tabInIndentation => "found a tab character that violates indentation"
  | expectedNode => "did not find expected node content"
  | expectedEntry => "did not find expected '-' indicator"
  | expectedKey => "did not find expected key"
  | expectedBracket => "did not find expected ',' or closing bracket"
  | wrongKind wanted => "expected " ++ wanted
  | unknownKey name => "unknown key " ++ name
  | repeatedKey name => "repeated key " ++ name
  | nestedTooDeep => "nested too deep"

inductive Token where
  /-- `---` -/
  | documentStart
  /-- `...` -/
  | documentEnd
  /-- An indented block of entries starts. -/
  | sequenceStart
  /-- An indented block of keys and values starts. -/
  | mappingStart
  /-- An indented block ends. -/
  | blockEnd
  | openBracket
  | closeBracket
  | openBrace
  | closeBrace
  | comma
  /-- A dash in front of an entry. -/
  | entry
  /-- A key comes next. -/
  | key
  /-- A value comes next. -/
  | value
  | scalar (text : String) (plain : Bool)
  | ended
  /-- The text cannot be read any further. -/
  | broken (problem : Problem)
  deriving Repr, DecidableEq

/-! ## Characters -/

def isBreak (c : Char) : Bool :=
  c = '\n' || c = '\r' || c = '\u0085' || c = '\u2028' || c = '\u2029'

def isSpace (c : Char) : Bool :=
  c = ' ' || c = '\t'

/-- Whether a word ends here. -/
def atGap : List Char → Bool
  | [] => true
  | c :: _ => isSpace c || isBreak c

def isAllowed (c : Char) : Bool :=
  let n := c.toNat
  n = 0x9 || n = 0xA || n = 0xD || (0x20 ≤ n && n ≤ 0x7E) || n = 0x85 || (0xA0 ≤ n && n ≤ 0xFFFD)
    || 0x10000 ≤ n

/-- What a line break counts as inside a scalar. -/
def breakChar (c : Char) : Char :=
  if c = '\u2028' || c = '\u2029' then c else '\n'

/-! ## Places in a text -/

structure Mark where
  rest : List Char
  line : Nat := 0
  column : Nat := 0
  /-- The number of characters before the place. -/
  index : Nat := 0

namespace Mark

def skip (m : Mark) (n : Nat) : Mark :=
  { m with rest := m.rest.drop n, column := m.column + n, index := m.index + n }

def skipBreak (m : Mark) : Mark :=
  match m.rest with
  | '\r' :: '\n' :: rest => ⟨rest, m.line + 1, 0, m.index + 2⟩
  | _ :: rest => ⟨rest, m.line + 1, 0, m.index + 1⟩
  | [] => m

/-- Whether three dashes or three dots stand at the start of the line. -/
def atDocumentMark (m : Mark) : Bool :=
  m.column = 0 && match m.rest with
    | '-' :: '-' :: '-' :: rest => atGap rest
    | '.' :: '.' :: '.' :: rest => atGap rest
    | _ => false

def skipLine (m : Mark) : Mark :=
  m.skip (m.rest.takeWhile (!isBreak ·)).length

end Mark

/-! ## Scalars -/

/-- What separates two words of a scalar: blanks on one line, or line breaks. -/
structure Gap where
  blanks : List Char := []
  breaks : List Char := []

namespace Gap

/-- What a gap leaves in the text. One line break becomes a blank; of several the first vanishes. -/
def folded (g : Gap) : List Char :=
  match g.breaks with
  | [] => g.blanks
  | ['\n'] => [' ']
  | '\n' :: more => more
  | breaks => breaks

/-- Passes a gap, of which `g` is passed already. -/
def pass (g : Gap) (m : Mark) : (fuel : Nat) → Gap × Mark
  | 0 => (g, m)
  | fuel + 1 =>
    match m.rest with
    | [] => (g, m)
    | c :: _ =>
      if isSpace c then
        let g := if g.breaks.isEmpty then { g with blanks := g.blanks ++ [c] } else g
        g.pass (m.skip 1) fuel
      else if isBreak c then
        pass { blanks := [], breaks := g.breaks ++ [breakChar c] } m.skipBreak fuel
      else (g, m)

/-- Whether a gap has a tab before the column `indent` of a line that it starts. -/
def tabBefore (indent : Nat) : (column : Nat) → (onNewLine : Bool) → List Char → Bool
  | _, _, [] => false
  | column, onNewLine, c :: rest =>
    if isBreak c then tabBefore indent 0 true rest
    else if isSpace c then
      (onNewLine && c = '\t' && column < indent) || tabBefore indent (column + 1) onNewLine rest
    else false

end Gap

/-- A scalar that was read, and what follows it. -/
structure Scalar where
  text : List Char
  mark : Mark
  /-- Whether the scalar is followed by a line break that was passed, too. -/
  passedBreak : Bool := false

/-- Whether a plain word ends at these characters. -/
def endsPlain (inBrackets : Bool) : List Char → Bool
  | [] => true
  | c :: rest =>
    isSpace c || isBreak c || (c = ':' && atGap rest) || (inBrackets && c ∈ [',', '?', '[', ']', '{', '}'])

def plainWord (inBrackets : Bool) : List Char → List Char
  | [] => []
  | c :: rest => if endsPlain inBrackets (c :: rest) then [] else c :: plainWord inBrackets rest

/-- Reads the words of a plain scalar, of which `text` is read already and `gap` is passed. The lines
of a scalar outside brackets are indented at least by `indent`. -/
def readPlain (inBrackets : Bool) (indent : Nat) (text : List Char) (gap : Gap) (m : Mark) :
    (fuel : Nat) → Except Problem Scalar
  | 0 => .ok ⟨text, m, !gap.breaks.isEmpty⟩
  | fuel + 1 =>
    if m.atDocumentMark || m.rest.head? = some '#' then .ok ⟨text, m, !gap.breaks.isEmpty⟩
    else
      let word := plainWord inBrackets m.rest
      let text' := if word.isEmpty then text else text ++ gap.folded ++ word
      let gap := if word.isEmpty then gap else {}
      let m := m.skip word.length
      match m.rest with
      | [] => .ok ⟨text', m, !gap.breaks.isEmpty⟩
      | c :: _ =>
        if !(isSpace c || isBreak c) then .ok ⟨text', m, !gap.breaks.isEmpty⟩
        else if Gap.tabBefore indent m.column false m.rest then .error .tabInIndentation
        else
          let (gap, m) := gap.pass m m.rest.length
          if !inBrackets && m.column < indent then .ok ⟨text', m, !gap.breaks.isEmpty⟩
          else readPlain inBrackets indent text' gap m fuel

/-- What a character means after a backslash. -/
def escape? : Char → Option Char
  | '0' => some '\x00'
  | 'a' => some '\x07'
  | 'b' => some '\x08'
  | 't' | '\t' => some '\t'
  | 'n' => some '\n'
  | 'v' => some '\x0b'
  | 'f' => some '\x0c'
  | 'r' => some '\r'
  | 'e' => some '\x1b'
  | ' ' => some ' '
  | '"' => some '"'
  | '\'' => some '\''
  | '/' => some '/'
  | '\\' => some '\\'
  | 'N' => some '\u0085'
  | '_' => some '\u00a0'
  | 'L' => some '\u2028'
  | 'P' => some '\u2029'
  | _ => none

/-- How many hexadecimal digits follow a backslash and the character. -/
def escapeWidth? : Char → Option Nat
  | 'x' => some 2
  | 'u' => some 4
  | 'U' => some 8
  | _ => none

def hexDigit? (c : Char) : Option Nat :=
  if '0' ≤ c ∧ c ≤ '9' then some (c.toNat - '0'.toNat)
  else if 'a' ≤ c ∧ c ≤ 'f' then some (c.toNat - 'a'.toNat + 10)
  else if 'A' ≤ c ∧ c ≤ 'F' then some (c.toNat - 'A'.toNat + 10)
  else none

def hexChar? (width : Nat) (cs : List Char) : Option Char :=
  let digits := (cs.take width).filterMap hexDigit?
  let n := digits.foldl (fun n d => n * 16 + d) 0
  if digits.length = width ∧ n.isValidChar then some (Char.ofNat n) else none

/-- Reads a scalar up to the closing `quote`, after `text`. Only between double quotes a backslash
escapes. -/
def readQuoted (quote : Char) (text : List Char) (m : Mark) : (fuel : Nat) → Except Problem Scalar
  | 0 => .error .unclosedQuote
  | fuel + 1 =>
    if m.atDocumentMark then .error .documentInQuote
    else match m.rest with
      | [] => .error .unclosedQuote
      | c :: rest =>
        if isSpace c || isBreak c then
          let (gap, m) := Gap.pass {} m m.rest.length
          readQuoted quote (text ++ gap.folded) m fuel
        else if c = quote then
          if quote = '\'' && rest.head? = some '\'' then
            readQuoted quote (text ++ ['\'']) (m.skip 2) fuel
          else .ok ⟨text, m.skip 1, false⟩
        else if quote = '"' && c = '\\' then
          match rest with
          | [] => .error .unknownEscape
          | e :: digits =>
            if isBreak e then
              let (gap, m) := Gap.pass {} (m.skip 1).skipBreak rest.length
              readQuoted quote (text ++ gap.breaks) m fuel
            else match escape? e, escapeWidth? e with
              | some c, _ => readQuoted quote (text ++ [c]) (m.skip 2) fuel
              | none, some width =>
                match hexChar? width digits with
                | some c => readQuoted quote (text ++ [c]) (m.skip (2 + width)) fuel
                | none => .error .unknownEscape
              | none, none => .error .unknownEscape
        else readQuoted quote (text ++ [c]) (m.skip 1) fuel

end Pseudocode.Yaml
