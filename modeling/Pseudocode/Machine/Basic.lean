import Pseudocode.Builtins

/-! # Configurations of the machine

Programs run on a machine with an explicit control stack. A configuration holds what is being done
now, the frames that wait for it, the scope it is done in, and the state that programs change: the
memory, the text written so far, the log and the number of open calls.

Every moment of a run is a configuration, also while arguments are being bound and while a failure
unwinds the stack. -/

namespace Pseudocode

inductive LogEntry where
  | runStart (statements : Nat)
  /-- The depth counts the call itself. -/
  | enter (callee : String) (depth arguments : Nat)
  | leave (callee : String) (depth : Nat)
  | runFailed (message : String)
  | runFinished (liveSlots : Nat)
  deriving Repr, DecidableEq

/-- What stays the same during a session. -/
structure Settings where
  builtins : Builtins
  /-- The number of calls that may be open at once. -/
  maxDepth : Nat
  /-- Whether runs are logged. -/
  logged : Bool := false

structure Sink where
  /-- The texts written so far. -/
  written : Array String := #[]
  /-- How many texts are taken before every further one is refused. -/
  limit : Option Nat := none

namespace Sink

def closed (s : Sink) : Bool :=
  s.limit.any (· ≤ s.written.size)

/-- Takes one more text, unless the sink is closed. -/
def write (s : Sink) (text : String) : Sink :=
  if s.closed then s else { s with written := s.written.push text }

end Sink

/-- What programs change. -/
structure State where
  memory : Memory := {}
  sink : Sink := {}
  log : Array LogEntry := #[]
  /-- The number of open calls. -/
  depth : Nat := 0

/-- Adds an entry to the log if runs are logged. -/
def State.note (s : State) (settings : Settings) (entry : LogEntry) : State :=
  if settings.logged then { s with log := s.log.push entry } else s

/-- A call whose arguments are being bound. -/
structure Call where
  routine : Routine
  /-- The type of the results, for a function. -/
  result : Option Ty
  /-- The scope in which the arguments are bound. -/
  callee : ScopeId
  /-- The parameters that are still to be bound, and their arguments. -/
  params : List Formal
  arguments : List Expr

namespace Call

/-- The call once its next argument is bound. -/
def rest (call : Call) : Call :=
  { call with params := call.params.drop 1, arguments := call.arguments.drop 1 }

def span (call : Call) : Span :=
  (call.arguments.head?.map Expr.span).getD .zero

end Call

/-- A definition whose types are being resolved. -/
structure Definition where
  id : Ident
  /-- The parameters that are still to be resolved. -/
  pending : List Param
  /-- The resolved parameters, the latest first. -/
  resolved : List Formal
  /-- The type expression of the results, for a function. -/
  result : Option Expr
  body : List Stmt

/-- A `FOR` statement whose bounds are being evaluated. -/
structure Loop where
  counter : Ident
  last : Expr
  step : Option Expr
  body : List Stmt

/-- A `FOR` loop that runs. -/
structure Progression where
  counter : Ident
  slot : Handle
  current : Int64
  last : Int64
  step : Int64
  body : List Stmt

namespace Progression

/-- Whether the next round of a progression runs. -/
def continues (p : Progression) : Bool :=
  (0 < p.step && p.current ≤ p.last) || (p.step < 0 && p.last ≤ p.current)

/-- The next round of a progression, unless its counter would leave INTEGER. -/
def next? (p : Progression) : Option Progression :=
  if (0 < p.step && Int64.maxValue - p.step < p.current)
      || (p.step < 0 && p.current < Int64.minValue - p.step) then none
  else some { p with current := p.current + p.step }

end Progression

/-- What waits for the end of what is being done. -/
inductive Frame where
  /-- The operand of a unary operator is being evaluated. -/
  | unary (op : UnaryOp)
  /-- The left operand is being evaluated; the right one comes next. -/
  | left (op : BinaryOp) (right : Expr)
  /-- The right operand is being evaluated. -/
  | right (op : BinaryOp) (left : Value)
  /-- The next argument of a call is being evaluated. -/
  | argument (call : Call)
  /-- The type of a variable is being resolved. -/
  | declaredType (name : Ident) (declared : Expr)
  /-- The type of a constant is being resolved; its value comes next. -/
  | constantType (name : Ident) (declared value : Expr)
  | constantValue (name : Ident) (type : Ty)
  | assign (target : Ident)
  | output
  | returning (span : Span)
  | branch (consequent alternate : List Stmt)
  | loopFirst (loop : Loop)
  | loopLast (loop : Loop) (first : Int64)
  | loopStep (loop : Loop) (first last : Int64)
  /-- The body of a `FOR` loop is running. -/
  | loopBody (progression : Progression)
  | whileTest (condition : Expr) (body : List Stmt)
  | whileBody (condition : Expr) (body : List Stmt)
  | doTest (body : List Stmt) (condition : Expr)
  | doBody (body : List Stmt) (condition : Expr)
  /-- The type of the next parameter is being resolved. -/
  | paramType (definition : Definition)
  /-- The type of a function's results is being resolved. -/
  | resultType (definition : Definition)
  /-- A statement with this span is running; the rest of its block comes next. -/
  | block (rest : List Stmt) (span : Span)
  /-- The body of a routine is running, called from the scope `caller`. -/
  | invocation (routine : Routine) (result : Option Ty) (callee caller : ScopeId)

/-- What is being done. -/
inductive Control where
  | eval (e : Expr)
  | exec (s : Stmt)
  | run (block : List Stmt)
  /-- The next argument of a call is to be bound. -/
  | bind (call : Call)
  /-- The next type of a definition is to be resolved. -/
  | define (definition : Definition)
  /-- The next round of a `FOR` loop is to be decided. -/
  | iterate (progression : Progression)
  /-- An expression has this value. -/
  | value (v : Value)
  /-- A statement or block has run to its end. -/
  | done
  /-- A `RETURN` with this span is on its way to the routine it leaves. -/
  | returning (v : Option Value) (span : Span)
  /-- A failure is on its way up. -/
  | failing (f : Failure)

/-- A moment of a run. -/
structure Config where
  control : Control
  /-- The frames that wait, the innermost first. -/
  stack : List Frame
  /-- The scope in which names are looked up and declared. -/
  scope : ScopeId
  state : State

namespace Config

/-- Whether the run is over: nothing waits, and nothing is left to do. -/
def halted (c : Config) : Bool :=
  match c.stack, c.control with
  | [], .value _ | [], .done | [], .returning _ _ | [], .failing _ => true
  | _, _ => false

end Config

end Pseudocode
