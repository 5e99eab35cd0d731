import Pseudocode.Date
import Pseudocode.Span

/-! # Program trees

Expressions, statements and programs. Every node knows its span. A tree need not come from a source
text: it may hold operators that the language does not have, and holes where an expression is
missing. -/

namespace Pseudocode

structure Ident where
  name : String
  span : Span
  deriving Repr, DecidableEq

inductive UnaryOp where
  | negate
  | not
  /-- No operator of the language. -/
  | unknown (sign : String)
  deriving Repr, DecidableEq

namespace UnaryOp

def sign : UnaryOp → String
  | negate => "-"
  | not => "NOT"
  | unknown s => s

def ofSign (s : String) : UnaryOp :=
  match s with
  | "-" => negate
  | "NOT" => not
  | _ => unknown s

end UnaryOp

inductive BinaryOp where
  | or
  | and
  | equal | notEqual | less | greater | lessEqual | greaterEqual
  | join
  | add | subtract
  | multiply | divide | modulo | quotient
  /-- No operator of the language. -/
  | unknown (sign : String)
  deriving Repr, DecidableEq

namespace BinaryOp

def sign : BinaryOp → String
  | or => "OR"
  | and => "AND"
  | equal => "="
  | notEqual => "<>"
  | less => "<"
  | greater => ">"
  | lessEqual => "<="
  | greaterEqual => ">="
  | join => "&"
  | add => "+"
  | subtract => "-"
  | multiply => "*"
  | divide => "/"
  | modulo => "MOD"
  | quotient => "DIV"
  | unknown s => s

def ofSign (s : String) : BinaryOp :=
  match s with
  | "OR" => or
  | "AND" => and
  | "=" => equal
  | "<>" => notEqual
  | "<" => less
  | ">" => greater
  | "<=" => lessEqual
  | ">=" => greaterEqual
  | "&" => join
  | "+" => add
  | "-" => subtract
  | "*" => multiply
  | "/" => divide
  | "MOD" => modulo
  | "DIV" => quotient
  | _ => unknown s

end BinaryOp

inductive Expr where
  /-- A place where an expression is missing. -/
  | hole
  | name (id : Ident)
  | integer (value : Int64) (span : Span)
  | real (value : Float) (span : Span)
  | string (value : String) (span : Span)
  /-- The text between the quotes, which need not be one character. -/
  | char (text : String) (span : Span)
  | boolean (value : Bool) (span : Span)
  /-- Three numbers, which need not be a date. -/
  | date (value : Date) (span : Span)
  | unary (op : UnaryOp) (operand : Expr) (span : Span)
  | binary (op : BinaryOp) (left right : Expr) (span : Span)
  | call (callee : Ident) (arguments : List Expr) (span : Span)
  deriving Repr

/-- Where the expression stands; a hole stands nowhere. -/
def Expr.span : Expr → Span
  | hole => .zero
  | name id => id.span
  | integer _ s | real _ s | string _ s | char _ s | boolean _ s | date _ s => s
  | unary _ _ s | binary _ _ _ s | call _ _ s => s

structure Param where
  name : Ident
  declared : Expr
  byRef : Bool
  span : Span
  deriving Repr

inductive Stmt where
  | declare (name : Ident) (declared : Expr) (span : Span)
  | constant (name : Ident) (declared value : Expr) (span : Span)
  | assign (target : Ident) (value : Expr) (span : Span)
  | output (value : Expr) (span : Span)
  /-- `none` when the call is written without parentheses. -/
  | call (callee : Ident) (arguments : Option (List Expr)) (span : Span)
  | returning (value : Option Expr) (span : Span)
  | ifThen (condition : Expr) (consequent : List Stmt) (span : Span)
  | ifElse (condition : Expr) (consequent alternate : List Stmt) (span : Span)
  | forLoop (counter : Ident) (first last : Expr) (step : Option Expr) (body : List Stmt)
      (span : Span)
  | whileLoop (condition : Expr) (body : List Stmt) (span : Span)
  | doWhile (body : List Stmt) (condition : Expr) (span : Span)
  | procedure (id : Ident) (params : List Param) (body : List Stmt) (span : Span)
  | function (id : Ident) (params : List Param) (result : Expr) (body : List Stmt) (span : Span)
  deriving Repr

def Stmt.span : Stmt → Span
  | declare _ _ s | constant _ _ _ s | assign _ _ s | output _ s | call _ _ s | returning _ s => s
  | ifThen _ _ s | ifElse _ _ _ s | forLoop _ _ _ _ _ s | whileLoop _ _ s | doWhile _ _ s => s
  | procedure _ _ _ s | function _ _ _ _ s => s

structure Program where
  body : List Stmt
  span : Span
  deriving Repr

end Pseudocode
