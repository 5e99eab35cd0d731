import Pseudocode.SyntaxError

/-! # Reading tokens

A parser reads tokens from a cursor and either moves it on or reports why the tokens do not fit. The
cursor always stands on a token: from the last one, the end of the input, it does not move. -/

namespace Pseudocode

/-- A place in a list of tokens. -/
structure Cursor where
  /-- The token before this one, or this one at the start. -/
  last : Token
  /-- The token the cursor stands on. -/
  here : Token
  /-- The tokens after it. -/
  rest : List Token
  deriving Repr, DecidableEq

namespace Cursor

/-- The next place, or this one at the last token. -/
def next (c : Cursor) : Cursor :=
  match c.rest with
  | [] => c
  | token :: rest => ⟨c.here, token, rest⟩

def ofTokens? : List Token → Option Cursor
  | [] => none
  | token :: rest => some ⟨token, token, rest⟩

end Cursor

/-- Reads an `α` from the tokens at a cursor. -/
abbrev Parser := StateT Cursor (Except SyntaxError)

namespace Parser

def peek : Parser Token :=
  return (← get).here

def peekLexeme : Parser Lexeme :=
  return (← get).here.lexeme

/-- Moves on, and gives the token moved over. -/
def advance : Parser Token :=
  modifyGet fun c => (c.here, c.next)

/-- Reports that the token `t` does not fit. At the end of the input more lines could help. -/
def fail {α : Type} (t : Token) (cause : SyntaxError.Cause) : Parser α :=
  throw ⟨t.start, cause, t.isEnd⟩

def failWanting {α : Type} (wanted : Wanted) : Parser α := do
  let t ← peek
  fail t (.expected wanted t.lexeme)

/-- The span from the token `start` to the last token moved over. -/
def spanFrom (start : Token) : Parser Span :=
  return ⟨start.start, (← get).last.stop⟩

def atKeyword (word : Keyword) : Parser Bool :=
  return (← peekLexeme) = .keyword word

def atSymbol (sign : Symbol) : Parser Bool :=
  return (← peekLexeme) = .symbol sign

/-- Moves over a keyword that has to be there. -/
def keyword (word : Keyword) : Parser Token := do
  if ← atKeyword word then advance else failWanting (.keyword word)

def symbol (sign : Symbol) : Parser Token := do
  if ← atSymbol sign then advance else failWanting (.symbol sign)

/-- Moves over the symbol if it is there, and says whether it was. -/
def optionalSymbol (sign : Symbol) : Parser Bool := do
  if ← atSymbol sign then
    let _ ← advance
    return true
  else return false

end Parser

end Pseudocode
