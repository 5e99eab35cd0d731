import Pseudocode.Span
import Pseudocode.Text.Quoted

/-! # Tokens

The words of the language: keywords, symbols, identifiers and literals, the end of a line and the
end of the input. A token is a lexeme with the place it was read from. -/

namespace Pseudocode

inductive Keyword where
  | declare | constant | output | call | return_ | returns
  | if_ | then_ | else_ | endIf
  | for_ | to_ | step | next | endFor
  | while_ | do_ | endWhile
  | procedure | endProcedure | function | endFunction
  | byRef | ref | byVal
  | and | or | not | mod | div
  | true_ | false_
  deriving Repr, DecidableEq

namespace Keyword

def spelling : Keyword → String
  | declare => "DECLARE"
  | constant => "CONSTANT"
  | output => "OUTPUT"
  | call => "CALL"
  | return_ => "RETURN"
  | returns => "RETURNS"
  | if_ => "IF"
  | then_ => "THEN"
  | else_ => "ELSE"
  | endIf => "ENDIF"
  | for_ => "FOR"
  | to_ => "TO"
  | step => "STEP"
  | next => "NEXT"
  | endFor => "ENDFOR"
  | while_ => "WHILE"
  | do_ => "DO"
  | endWhile => "ENDWHILE"
  | procedure => "PROCEDURE"
  | endProcedure => "ENDPROCEDURE"
  | function => "FUNCTION"
  | endFunction => "ENDFUNCTION"
  | byRef => "BYREF"
  | ref => "REF"
  | byVal => "BYVAL"
  | and => "AND"
  | or => "OR"
  | not => "NOT"
  | mod => "MOD"
  | div => "DIV"
  | true_ => "TRUE"
  | false_ => "FALSE"

def all : List Keyword :=
  [declare, constant, output, call, return_, returns, if_, then_, else_, endIf, for_, to_, step, next,
   endFor, while_, do_, endWhile, procedure, endProcedure, function, endFunction, byRef, ref, byVal,
   and, or, not, mod, div, true_, false_]

def ofSpelling? (word : String) : Option Keyword :=
  all.find? (·.spelling = word)

end Keyword

/-- An operator sign or a punctuation mark. -/
inductive Symbol where
  | assign | lessEqual | notEqual | less | greaterEqual | greater | equal
  | plus | minus | times | divide | join
  | leftParen | rightParen | comma | colon
  deriving Repr, DecidableEq

namespace Symbol

def spelling : Symbol → String
  | assign => "<-"
  | lessEqual => "<="
  | notEqual => "<>"
  | less => "<"
  | greaterEqual => ">="
  | greater => ">"
  | equal => "="
  | plus => "+"
  | minus => "-"
  | times => "*"
  | divide => "/"
  | join => "&"
  | leftParen => "("
  | rightParen => ")"
  | comma => ","
  | colon => ":"

/-- Whether the symbol is a punctuation mark and not an operator sign. -/
def isPunctuation : Symbol → Bool
  | leftParen | rightParen | comma | colon => true
  | _ => false

end Symbol

inductive TokenKind where
  | endOfInput | endOfLine | identifier | keyword | integer | real | string | char | date
  | operator | punctuation
  deriving Repr, DecidableEq

def TokenKind.name : TokenKind → String
  | endOfInput => "end of input"
  | endOfLine => "end of line"
  | identifier => "identifier"
  | keyword => "keyword"
  | integer => "integer"
  | real => "real"
  | string => "string"
  | char => "char"
  | date => "date"
  | operator => "operator"
  | punctuation => "punctuation"

/-- What a token says, without its place. -/
inductive Lexeme where
  | endOfInput
  | endOfLine
  | identifier (name : String)
  | keyword (word : Keyword)
  /-- Digits of any script. -/
  | integer (digits : String)
  /-- Digits, a point, digits. -/
  | real (text : String)
  /-- What stands between the double quotes. -/
  | string (body : String)
  /-- What stands between the single quotes. -/
  | char (body : String)
  /-- Ten characters, `dd/mm/yyyy`. -/
  | date (text : String)
  | symbol (sign : Symbol)
  deriving Repr, DecidableEq

namespace Lexeme

def kind : Lexeme → TokenKind
  | endOfInput => .endOfInput
  | endOfLine => .endOfLine
  | identifier _ => .identifier
  | keyword _ => .keyword
  | integer _ => .integer
  | real _ => .real
  | string _ => .string
  | char _ => .char
  | date _ => .date
  | symbol s => if s.isPunctuation then .punctuation else .operator

def text : Lexeme → String
  | endOfInput => ""
  | endOfLine => "\n"
  | identifier name => name
  | keyword word => word.spelling
  | integer digits => digits
  | real text => text
  | string body => body
  | char body => body
  | date text => text
  | symbol s => s.spelling

def shown : Lexeme → String
  | endOfInput => TokenKind.endOfInput.name
  | endOfLine => TokenKind.endOfLine.name
  | string body => Text.quoted body
  | l => s!"'{l.text}'"

end Lexeme

structure Token where
  lexeme : Lexeme
  start : Position
  stop : Position
  deriving Repr, DecidableEq

namespace Token

def span (t : Token) : Span :=
  ⟨t.start, t.stop⟩

def isEnd (t : Token) : Bool :=
  t.lexeme = .endOfInput

end Token

end Pseudocode
