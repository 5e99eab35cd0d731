import Pseudocode.Parser.Expression
import Pseudocode.Text.Bytes
import Pseudocode.Token.Scan

/-! # Reading statements and programs

A statement ends with its line. The body of a compound statement is a block, which ends before the
keyword that closes it. Inside `DO … WHILE`, a line that starts with `WHILE` and ends with `DO` opens
a loop of its own; any other line that starts with `WHILE` holds the condition of the enclosing
one. -/

namespace Pseudocode

namespace Cursor

/-- The last token before the line ends, of those from `last` on. -/
def lastOfLine (last : Token) : List Token → Token
  | [] => last
  | t :: rest => if t.lexeme = .endOfLine || t.isEnd then last else lastOfLine t rest

/-- Moves over the line ends at the cursor. -/
def skipLineEnds (last here : Token) : List Token → Cursor
  | [] => ⟨last, here, []⟩
  | t :: rest =>
    if here.lexeme = .endOfLine then skipLineEnds here t rest else ⟨last, here, t :: rest⟩

end Cursor

/-- What ends a block. -/
inductive Ending where
  /-- The end of the input. -/
  | input
  /-- One of these keywords. -/
  | words (closers : List Keyword)
  /-- A line with the condition of the loop that holds the block. -/
  | condition
  deriving Repr, DecidableEq

namespace Ending

/-- The keywords that are missing when the input ends inside the block. -/
def closers : Ending → List Keyword
  | input => []
  | words closers => closers
  | condition => [.while_]

/-- Whether the block ends where the cursor stands. -/
def reached (e : Ending) (c : Cursor) : Bool :=
  match e with
  | input => false
  | words closers => closers.any fun word => c.here.lexeme = .keyword word
  | condition =>
    c.here.lexeme = .keyword .while_ && (Cursor.lastOfLine c.here c.rest).lexeme ≠ .keyword .do_

end Ending

/-- The type that a literal, with or without signs in front, gives an untyped constant. -/
def Expr.literalType? : Expr → Option String
  | integer _ _ => some "INTEGER"
  | real _ _ => some "REAL"
  | string _ _ => some "STRING"
  | char _ _ => some "CHAR"
  | boolean _ _ => some "BOOLEAN"
  | date _ _ => some "DATE"
  | unary .negate operand _ => operand.literalType?
  | _ => none

namespace Parser

def skipLineEnds : Parser Unit :=
  modify fun c => Cursor.skipLineEnds c.last c.here c.rest

/-- A statement has to end here. -/
def endOfStatement : Parser Unit := do
  match ← peekLexeme with
  | .endOfLine =>
    let _ ← advance
    return ()
  | .endOfInput => return ()
  | _ => failWanting .endOfLine

/-- Ends the statement that began at `start`. -/
def finish (start : Token) (statement : Span → Stmt) : Parser Stmt := do
  let span ← spanFrom start
  endOfStatement
  return statement span

def typeName : Parser Expr :=
  Expr.name <$> identifier

/-- `DECLARE name : type` -/
def declaration : Parser Stmt := do
  let start ← advance
  let name ← identifier
  let _ ← symbol .colon
  let declared ← typeName
  finish start (.declare name declared)

def constantType : Parser (Option Expr) := do
  if ← optionalSymbol .colon then some <$> typeName else return none

/-- `CONSTANT name = value`, with a type after the name or with a literal for the value. -/
def constantDeclaration : Parser Stmt := do
  let start ← advance
  let name ← identifier
  let written ← constantType
  if !(← atSymbol .equal) && !(← atSymbol .assign) then failWanting .constantSign
  else
    let _ ← advance
    let valueStart ← peek
    let value ← expression
    match written with
    | some declared => finish start (.constant name declared value)
    | none =>
      match value.literalType? with
      | some implied => finish start (.constant name (.name ⟨implied, value.span⟩) value)
      | none => fail valueStart (.constantNeedsType name.name)

/-- `name <- value` -/
def assignment : Parser Stmt := do
  let start ← peek
  let target ← identifier
  if ← atSymbol .assign then
    let _ ← advance
    let value ← expression
    finish start (.assign target value)
  else failWanting (.arrowAfter target.name)

/-- `OUTPUT value` -/
def outputStatement : Parser Stmt := do
  let start ← advance
  let value ← expression
  finish start (.output value)

/-- `CALL name` or `CALL name(arguments)` -/
def callStatement : Parser Stmt := do
  let start ← advance
  let callee ← identifier
  if ← atSymbol .leftParen then
    let given ← arguments
    finish start (.call callee (some given))
  else finish start (.call callee none)

/-- `RETURN` or `RETURN value` -/
def returnStatement : Parser Stmt := do
  let start ← advance
  match ← peekLexeme with
  | .endOfLine | .endOfInput => finish start (.returning none)
  | _ =>
    let value ← expression
    finish start (.returning (some value))

/-- `IF condition THEN … ENDIF`, perhaps with `ELSE …`. -/
def ifStatement (block : Ending → Parser (List Stmt)) : Parser Stmt := do
  let start ← advance
  let condition ← expression
  skipLineEnds
  let _ ← keyword .then_
  let consequent ← block (.words [.else_, .endIf])
  if ← atKeyword .else_ then
    let _ ← advance
    let alternate ← block (.words [.endIf])
    let _ ← keyword .endIf
    finish start (.ifElse condition consequent alternate)
  else
    let _ ← keyword .endIf
    finish start (.ifThen condition consequent)

def loopStep : Parser (Option Expr) := do
  if ← atKeyword .step then
    let _ ← advance
    some <$> expression
  else return none

/-- Closes a loop over `counter`: `ENDFOR`, or `NEXT` with or without the counter's name. -/
def closeFor (counter : Ident) : Parser Unit := do
  if ← atKeyword .next then
    let _ ← advance
    let t ← peek
    match t.lexeme with
    | .identifier name =>
      if name = counter.name then
        let _ ← advance
        return ()
      else fail t (.nextMismatch name counter.name)
    | _ => return ()
  else
    let _ ← advance
    return ()

/-- `FOR counter <- first TO last …`, perhaps with `STEP step`. -/
def forStatement (block : Ending → Parser (List Stmt)) : Parser Stmt := do
  let start ← advance
  let counter ← identifier
  let _ ← symbol .assign
  let first ← expression
  let _ ← keyword .to_
  let last ← expression
  let step ← loopStep
  let body ← block (.words [.endFor, .next])
  closeFor counter
  finish start (.forLoop counter first last step body)

/-- `WHILE condition … ENDWHILE`; the line may end in `DO`. -/
def whileStatement (block : Ending → Parser (List Stmt)) : Parser Stmt := do
  let start ← advance
  let condition ← expression
  if ← atKeyword .do_ then
    let _ ← advance
  let body ← block (.words [.endWhile])
  let _ ← advance
  finish start (.whileLoop condition body)

/-- `DO … WHILE condition` -/
def doStatement (block : Ending → Parser (List Stmt)) : Parser Stmt := do
  let start ← advance
  let body ← block .condition
  let _ ← advance
  let condition ← expression
  finish start (.doWhile body condition)

/-- The marker in front of a parameter, if there is one: whether it asks for a reference. -/
def Marker.ofLexeme? : Lexeme → Option Bool
  | .keyword .byRef | .keyword .ref => some true
  | .keyword .byVal => some false
  | _ => none

/-- One parameter. Without a marker it is passed as the one before it, `byRef` or not. -/
def parameter (byRef : Bool) : Parser Param := do
  let start ← peek
  let marker := Marker.ofLexeme? start.lexeme
  if marker.isSome then
    let _ ← advance
  let name ← identifier
  let _ ← symbol .colon
  let declared ← typeName
  return ⟨name, declared, marker.getD byRef, ← spanFrom start⟩

/-- At least one parameter, and the parenthesis that closes the list. -/
def moreParameters (bound : Nat) (byRef : Bool) : Parser (List Param) :=
  match bound with
  | 0 => tooDeep
  | bound + 1 => do
    let param ← parameter byRef
    if ← optionalSymbol .comma then
      let rest ← moreParameters bound param.byRef
      return param :: rest
    else
      let _ ← symbol .rightParen
      return [param]

/-- The parameters in parentheses, or none without parentheses. -/
def parameters : Parser (List Param) := do
  if ← optionalSymbol .leftParen then
    if ← optionalSymbol .rightParen then return []
    else moreParameters ((← get).rest.length + 1) false
  else return []

/-- `PROCEDURE name(parameters) … ENDPROCEDURE` -/
def procedureStatement (block : Ending → Parser (List Stmt)) : Parser Stmt := do
  let start ← advance
  let id ← identifier
  let params ← parameters
  let body ← block (.words [.endProcedure])
  let _ ← advance
  finish start (.procedure id params body)

/-- `FUNCTION name(parameters) RETURNS type … ENDFUNCTION` -/
def functionStatement (block : Ending → Parser (List Stmt)) : Parser Stmt := do
  let start ← advance
  let id ← identifier
  let params ← parameters
  let _ ← keyword .returns
  let result ← typeName
  let body ← block (.words [.endFunction])
  let _ ← advance
  finish start (.function id params result body)

/-- One statement, whose inner blocks are read by `block`. -/
def statementWith (block : Ending → Parser (List Stmt)) : Parser Stmt := do
  let t ← peek
  match t.lexeme with
  | .identifier _ => assignment
  | .keyword .declare => declaration
  | .keyword .constant => constantDeclaration
  | .keyword .output => outputStatement
  | .keyword .call => callStatement
  | .keyword .return_ => returnStatement
  | .keyword .if_ => ifStatement block
  | .keyword .for_ => forStatement block
  | .keyword .while_ => whileStatement block
  | .keyword .do_ => doStatement block
  | .keyword .procedure => procedureStatement block
  | .keyword .function => functionStatement block
  | found => fail t (.unexpectedAtStart found)

/-- The statements up to the end of the block, which is left for the statement that holds it. -/
def block (bound : Nat) (ending : Ending) : Parser (List Stmt) :=
  match bound with
  | 0 => tooDeep
  | bound + 1 => do
    skipLineEnds
    let c ← get
    if c.here.isEnd then
      if ending.closers.isEmpty then return []
      else fail c.here (.unclosed ending.closers)
    else if ending.reached c then return []
    else
      let statement ← statementWith (block bound)
      let rest ← block bound ending
      return statement :: rest

def programBody : Parser (List Stmt) := do
  block ((← get).rest.length + 2) .input

end Parser

namespace Program

def spanOf (tokens : List Token) : Span :=
  match tokens.head?, tokens.getLast? with
  | some first, some last => ⟨first.start, last.stop⟩
  | _, _ => .zero

def ofTokens (tokens : List Token) : Except SyntaxError Program :=
  match Cursor.ofTokens? tokens with
  | none => .ok ⟨[], .zero⟩
  | some start => (Parser.programBody.run start).map fun (body, _) => ⟨body, spanOf tokens⟩

def ofText (source : List Char) : Except SyntaxError Program := do
  ofTokens (← Token.scan source)

def ofBytes (source : List UInt8) : Except SyntaxError Program :=
  ofText (Text.decode source)

end Program

end Pseudocode
