import Pseudocode.Parser.Basic
import Pseudocode.Parser.Literal
import Pseudocode.Tree

/-! # Reading expressions

Binary operators have six levels and group to the left within one. `NOT` stands between `AND` and the
comparisons, the sign `-` binds tighter than every binary operator. Parentheses leave no node.

The recursion is bounded by a number that grows with the tokens left, so the bound is never the reason
why an expression is refused. -/

namespace Pseudocode

/-- How tightly a binary operator binds, loosest first. -/
inductive Level where
  | or | and | comparison | join | sum | product
  deriving Repr, DecidableEq

def Level.tighter? : Level → Option Level
  | or => some and
  | and => some comparison
  | comparison => some join
  | join => some sum
  | sum => some product
  | product => none

/-- The level of an operator of the language. -/
def BinaryOp.level? : BinaryOp → Option Level
  | or => some .or
  | and => some .and
  | equal | notEqual | less | greater | lessEqual | greaterEqual => some .comparison
  | join => some .join
  | add | subtract => some .sum
  | multiply | divide | modulo | quotient => some .product
  | unknown _ => none

def Lexeme.binaryOp? : Lexeme → Option BinaryOp
  | keyword .or => some .or
  | keyword .and => some .and
  | keyword .mod => some .modulo
  | keyword .div => some .quotient
  | symbol .equal => some .equal
  | symbol .notEqual => some .notEqual
  | symbol .less => some .less
  | symbol .greater => some .greater
  | symbol .lessEqual => some .lessEqual
  | symbol .greaterEqual => some .greaterEqual
  | symbol .join => some .join
  | symbol .plus => some .add
  | symbol .minus => some .subtract
  | symbol .times => some .multiply
  | symbol .divide => some .divide
  | _ => none

/-- The binary operator of this level that the lexeme writes. -/
def Level.operator? (level : Level) (l : Lexeme) : Option BinaryOp :=
  l.binaryOp?.filter (·.level? = some level)

/-- The digits of the one INTEGER that has no positive counterpart. They are a literal only right
after a sign. -/
def leastMagnitude : String := "9223372036854775808"

namespace Parser

def identifier : Parser Ident := do
  let t ← peek
  match t.lexeme with
  | .identifier name =>
    let _ ← advance
    return ⟨name, t.span⟩
  | _ => failWanting .identifier

/-- Gives up because the bound on the recursion is reached. -/
def tooDeep {α : Type} : Parser α := do
  fail (← peek) .nestedTooDeep

mutual

/-- An expression whose operators outside parentheses bind at least as tightly as `level`. -/
def levelExpr (bound : Nat) (level : Level) : Parser Expr :=
  match bound with
  | 0 => tooDeep
  | bound + 1 => do
    if level = .comparison && (← atKeyword .not) then
      let start ← advance
      let operand ← levelExpr bound level
      return .unary .not operand (← spanFrom start)
    else
      let start ← peek
      let left ← operandExpr bound level
      chainExpr bound level start left

/-- An operand of the operators of `level`. -/
def operandExpr (bound : Nat) (level : Level) : Parser Expr :=
  match bound with
  | 0 => tooDeep
  | bound + 1 =>
    match level.tighter? with
    | some tighter => levelExpr bound tighter
    | none => unaryExpr bound

/-- Adds to `left`, which began at `start`, the operators of `level` that follow and their
operands. -/
def chainExpr (bound : Nat) (level : Level) (start : Token) (left : Expr) : Parser Expr :=
  match bound with
  | 0 => tooDeep
  | bound + 1 => do
    match level.operator? (← peekLexeme) with
    | none => return left
    | some op =>
      let _ ← advance
      let right ← operandExpr bound level
      chainExpr bound level start (.binary op left right (← spanFrom start))

/-- A primary expression with any number of signs in front. -/
def unaryExpr (bound : Nat) : Parser Expr :=
  match bound with
  | 0 => tooDeep
  | bound + 1 => do
    if ← atSymbol .minus then
      let start ← advance
      let t ← peek
      if t.lexeme = .integer leastMagnitude then
        let literal ← advance
        return .integer Int64.minValue ⟨start.start, literal.stop⟩
      else
        let operand ← unaryExpr bound
        return .unary .negate operand (← spanFrom start)
    else primaryExpr bound

/-- A literal, a name, a call or a parenthesised expression. -/
def primaryExpr (bound : Nat) : Parser Expr :=
  match bound with
  | 0 => tooDeep
  | bound + 1 => do
    let t ← peek
    match t.lexeme with
    | .integer digits =>
      let _ ← advance
      match Literal.integer? digits with
      | some n => return .integer n t.span
      | none => fail t (.integerOutOfRange digits)
    | .real text =>
      let _ ← advance
      match Literal.real? text with
      | some x => return .real x t.span
      | none => fail t (.invalidReal text)
    | .string body =>
      let _ ← advance
      return .string body t.span
    | .char body =>
      let _ ← advance
      return .char body t.span
    | .date text =>
      let _ ← advance
      return .date (Literal.date text) t.span
    | .keyword .true_ =>
      let _ ← advance
      return .boolean true t.span
    | .keyword .false_ =>
      let _ ← advance
      return .boolean false t.span
    | .identifier name =>
      let _ ← advance
      if ← atSymbol .leftParen then
        let arguments ← argumentExprs bound
        return .call ⟨name, t.span⟩ arguments (← spanFrom t)
      else return .name ⟨name, t.span⟩
    | .symbol .leftParen =>
      let _ ← advance
      let inner ← levelExpr bound .or
      let _ ← symbol .rightParen
      return inner
    | found => fail t (.expected .expression found)

/-- Arguments in parentheses, with commas between them. -/
def argumentExprs (bound : Nat) : Parser (List Expr) :=
  match bound with
  | 0 => tooDeep
  | bound + 1 => do
    let _ ← symbol .leftParen
    if ← optionalSymbol .rightParen then return []
    else moreArguments bound

/-- At least one argument, and the parenthesis that closes the list. -/
def moreArguments (bound : Nat) : Parser (List Expr) :=
  match bound with
  | 0 => tooDeep
  | bound + 1 => do
    let argument ← levelExpr bound .or
    if ← optionalSymbol .comma then
      let rest ← moreArguments bound
      return argument :: rest
    else
      let _ ← symbol .rightParen
      return [argument]

end

/-- Expressions do not go on beyond their line, and twenty recursions between two moves of the cursor
are more than the grammar ever takes. -/
def recursionBound (c : Cursor) : Nat :=
  20 * ((c.rest.takeWhile (·.lexeme ≠ .endOfLine)).length + 2)

def expression : Parser Expr := do
  levelExpr (recursionBound (← get)) .or

def arguments : Parser (List Expr) := do
  argumentExprs (recursionBound (← get))

end Parser

end Pseudocode
