import Pseudocode.Token

/-! # Malformed sources

Why a text is no program, and where that shows. An error is incomplete when it shows at the end of
the input: more lines could still make the text a program. -/

namespace Pseudocode

/-- What the grammar wants at some place. -/
inductive Wanted where
  | expression
  | identifier
  | endOfLine
  | keyword (word : Keyword)
  | symbol (sign : Symbol)
  /-- The sign between a constant's name and its value. -/
  | constantSign
  /-- The arrow after the name that starts an assignment. -/
  | arrowAfter (name : String)
  deriving Repr, DecidableEq

def Wanted.shown : Wanted → String
  | expression => "expression"
  | identifier => "identifier"
  | endOfLine => "end of line"
  | keyword word => word.spelling
  | symbol sign => s!"'{sign.spelling}'"
  | constantSign => "'=' in constant declaration"
  | arrowAfter name => s!"'<-' after '{name}'"

namespace SyntaxError

inductive Cause where
  | unexpectedCharacter (c : Char)
  /-- A quoted literal that its line does not close. -/
  | unterminated (kind : TokenKind)
  | integerOutOfRange (digits : String)
  | invalidReal (text : String)
  | expected (wanted : Wanted) (found : Lexeme)
  | unexpectedAtStart (found : Lexeme)
  /-- The input ends before one of the closing keywords. -/
  | unclosed (closers : List Keyword)
  /-- Only a literal gives a constant its type. -/
  | constantNeedsType (name : String)
  | nextMismatch (closing opening : String)
  /-- The bound on nested constructs was reached; it grows with the input, so that it never is. -/
  | nestedTooDeep
  deriving Repr, DecidableEq

def Cause.message : Cause → String
  | unexpectedCharacter c => "unexpected character " ++ Text.quotedOne c
  | unterminated kind => s!"unterminated {kind.name} literal"
  | integerOutOfRange digits => s!"integer literal {digits} out of range"
  | invalidReal text => s!"invalid real literal {text}"
  | expected wanted found => s!"expected {wanted.shown}, found {found.shown}"
  | unexpectedAtStart found => s!"unexpected {found.shown} at start of statement"
  | unclosed closers =>
    "expected " ++ " or ".intercalate (closers.map Keyword.spelling) ++ " before end of input"
  | constantNeedsType name => s!"constant '{name}' needs an explicit type"
  | nextMismatch closing opening => s!"NEXT {closing} does not match FOR {opening}"
  | nestedTooDeep => "nested too deep"

end SyntaxError

structure SyntaxError where
  position : Position
  cause : SyntaxError.Cause
  /-- Whether more lines could still make the text a program. -/
  incomplete : Bool := false
  deriving Repr, DecidableEq

def SyntaxError.message (e : SyntaxError) : String :=
  s!"syntax error at line {e.position.line}, column {e.position.column}: {e.cause.message}"

end Pseudocode
