import Pseudocode.Text.Quoted
import Pseudocode.Value

/-! # What goes wrong in a run

A fault is a cause together with what was learnt about it on the way up: the name it concerns and the
place it happened at. The first to know either wins: later annotations do not replace earlier ones. -/

namespace Pseudocode

inductive FaultKind where
  | undefinedIdentifier | duplicateDeclaration | uninitializedSlotRead | typeMismatch
  | arityMismatch | missingReturn | invalidLiteral | stackExhausted | notAVariable
  | divisionByZero | integerOverflow | invalidStep | returnOutsideFunction
  /-- A kind that runs do not produce. -/
  | other (name : String)
  deriving Repr, DecidableEq

def FaultKind.name : FaultKind → String
  | undefinedIdentifier => "UndefinedIdentifier"
  | duplicateDeclaration => "DuplicateDeclaration"
  | uninitializedSlotRead => "UninitializedSlotRead"
  | typeMismatch => "TypeMismatch"
  | arityMismatch => "ArityMismatch"
  | missingReturn => "MissingReturn"
  | invalidLiteral => "InvalidLiteral"
  | stackExhausted => "StackExhausted"
  | notAVariable => "NotAVariable"
  | divisionByZero => "DivisionByZero"
  | integerOverflow => "IntegerOverflow"
  | invalidStep => "InvalidStep"
  | returnOutsideFunction => "ReturnOutsideFunction"
  | other name => name

def FaultKind.ofName (name : String) : FaultKind :=
  let known := [undefinedIdentifier, duplicateDeclaration, uninitializedSlotRead, typeMismatch,
    arityMismatch, missingReturn, invalidLiteral, stackExhausted, notAVariable, divisionByZero,
    integerOverflow, invalidStep, returnOutsideFunction]
  (known.find? (·.name = name)).getD (other name)

/-- The parts of a `FOR` line that have to be INTEGER. -/
inductive LoopPart where
  | start | stop | step
  deriving Repr, DecidableEq

def LoopPart.name : LoopPart → String
  | start => "FOR start"
  | stop => "FOR end"
  | step => "FOR step"

/-- Why a run cannot go on. Values appear as messages describe them. -/
inductive Cause where
  | undefinedIdentifier (name : String)
  | undefinedVariable (name : String)
  | isConstant (name : String)
  | alreadyDeclared (name : String)
  | notLive (slot : Int)
  | unassigned (type : Ty)
  | notMember (type : Ty) (found : String)
  | referenceType (param : String) (wanted found : Ty)
  | referenceArgument (param : String)
  /-- The name is empty when the type is not written as a name. -/
  | notAType (name found : String)
  | notAProcedure (name found : String)
  | notAFunction (name found : String)
  | condition (found : String)
  | loopPart (part : LoopPart) (found : String)
  | zeroStep
  | arity (callee : String) (wanted given : Nat)
  | tooDeep (callee : String) (limit : Nat)
  | noReturn (callee : String)
  | emptyReturn (callee : String)
  | returnOutside
  | divisionByZero
  /-- `MOD` or `DIV` by zero. -/
  | zeroDivisor (op : BinaryOp)
  | overflow (left : Int64) (op : BinaryOp) (right : Int64)
  | negationOverflow (n : Int64)
  | operand (op : UnaryOp) (wanted found : String)
  | operands (op : BinaryOp) (wanted left right : String)
  | incomparable (left right : String)
  | unknownUnary (sign : String)
  | unknownBinary (sign : String)
  | literalDisabled (kind : Kind)
  | charLength (text : String)
  | date (flaw : Date.Flaw)
  | cannotBuild (kind : Kind) (source : String)
  | cannotConstruct (type : Ty)
  /-- A cause that runs do not produce. -/
  | other (kind : FaultKind) (identifier message : String)
  deriving Repr, DecidableEq

namespace Cause

def kind : Cause → FaultKind
  | undefinedIdentifier _ | undefinedVariable _ => .undefinedIdentifier
  | isConstant _ => .notAVariable
  | alreadyDeclared _ => .duplicateDeclaration
  | notLive _ | unassigned _ => .uninitializedSlotRead
  | notMember _ _ | referenceType _ _ _ | referenceArgument _ | notAType _ _ | notAProcedure _ _
  | notAFunction _ _ | condition _ | loopPart _ _ | operand _ _ _ | operands _ _ _ _
  | incomparable _ _ | unknownUnary _ | unknownBinary _ => .typeMismatch
  | zeroStep => .invalidStep
  | arity _ _ _ => .arityMismatch
  | tooDeep _ _ => .stackExhausted
  | noReturn _ | emptyReturn _ => .missingReturn
  | returnOutside => .returnOutsideFunction
  | divisionByZero | zeroDivisor _ => .divisionByZero
  | overflow _ _ _ | negationOverflow _ => .integerOverflow
  | literalDisabled _ | charLength _ | date _ | cannotBuild _ _ | cannotConstruct _ =>
    .invalidLiteral
  | other kind _ _ => kind

/-- The name that the cause itself concerns; empty if there is none. -/
def identifier : Cause → String
  | undefinedIdentifier name | undefinedVariable name | isConstant name | alreadyDeclared name
  | referenceType name _ _ | referenceArgument name | notAType name _ | notAProcedure name _
  | notAFunction name _ | arity name _ _ | tooDeep name _ | noReturn name | emptyReturn name
  | other _ name _ => name
  | _ => ""

def message : Cause → String
  | undefinedIdentifier name => s!"undefined identifier '{name}'"
  | undefinedVariable name => s!"undefined variable '{name}'"
  | isConstant name => s!"'{name}' is a constant"
  | alreadyDeclared name => s!"'{name}' is already declared in this scope"
  | notLive slot => s!"slot {slot} is not live"
  | unassigned type => s!"slot of type {type.name} read before assignment"
  | notMember type found => s!"expected {type.name}, got {found}"
  | referenceType param wanted found =>
    s!"reference parameter '{param}' expects a {wanted.name} variable, got {found.name}"
  | referenceArgument param => s!"reference parameter '{param}' requires a variable argument"
  | notAType _ found => s!"expected a type, got {found}"
  | notAProcedure name found => s!"'{name}' is {found}, not a procedure"
  | notAFunction name found => s!"'{name}' is {found}, not a function"
  | condition found => s!"condition must be BOOLEAN, got {found}"
  | loopPart part found => s!"{part.name} must be INTEGER, got {found}"
  | zeroStep => "FOR step must not be zero"
  | arity callee wanted given => s!"'{callee}' expects {wanted} arguments, got {given}"
  | tooDeep callee limit => s!"call depth exceeded {limit} while calling '{callee}'"
  | noReturn callee => s!"function '{callee}' finished without RETURN"
  | emptyReturn callee => s!"function '{callee}' reached RETURN without a value"
  | returnOutside => "RETURN outside procedure or function"
  | divisionByZero => "division by zero"
  | zeroDivisor op => s!"{op.sign} by zero"
  | overflow left op right => s!"{left.toInt} {op.sign} {right.toInt} overflows INTEGER"
  | negationOverflow n => s!"negating {n.toInt} overflows INTEGER"
  | operand op wanted found => s!"{op.sign} expects a {wanted} operand, got {found}"
  | operands op wanted left right =>
    s!"{op.sign} expects {wanted} operands, got {left} and {right}"
  | incomparable left right => s!"cannot compare {left} with {right}"
  | unknownUnary sign => s!"unknown unary operator {sign}"
  | unknownBinary sign => s!"unknown binary operator {sign}"
  | literalDisabled kind => s!"{kind.name} literals are not enabled"
  | charLength text => "CHAR literal " ++ Text.quoted text ++ " must hold exactly one character"
  | date flaw => flaw.message
  | cannotBuild kind source => s!"cannot build {kind.name} from {source}"
  | cannotConstruct type => s!"type {type.name} cannot construct values"
  | other _ _ message => message

end Cause

/-- A cause with the name it concerns and the place it happened at. -/
structure Fault where
  cause : Cause
  /-- The names put in front of the message, the outermost first. -/
  labels : List String := []
  /-- The name concerned; empty if none is known. -/
  identifier : String
  span : Span := .zero
  deriving Repr, DecidableEq

namespace Fault

def of (cause : Cause) : Fault where
  cause := cause
  identifier := cause.identifier

/-- The message, with the names in front of it. -/
def message (f : Fault) : String :=
  f.labels.foldr (fun name text => s!"'{name}': " ++ text) f.cause.message

/-- Notes the place, unless one is known. -/
def withSpan (f : Fault) (span : Span) : Fault :=
  if f.span.isZero then { f with span } else f

/-- Notes the name concerned, unless one is known. -/
def annotate (f : Fault) (name : String) : Fault :=
  if f.identifier = "" then { f with identifier := name, labels := name :: f.labels } else f

def shown (f : Fault) : String :=
  let place := if f.span.isZero then "" else " at " ++ f.span.shown
  let detail := if f.message = "" then "" else ": " ++ f.message
  f.cause.kind.name ++ place ++ detail

end Fault

/-- A reason why something failed: a fault of the program, or something else. -/
inductive Failure where
  | fault (f : Fault)
  | plain (text : String)
  /-- A failure told as part of a larger one. The text is that of the moment of telling. -/
  | wrapped (text : String) (inner : Failure)
  deriving Repr, DecidableEq

namespace Failure

def shown : Failure → String
  | fault f => f.shown
  | plain text => text
  | wrapped text _ => text

/-- Tells a failure as part of a larger one. -/
def within (context : String) (inner : Failure) : Failure :=
  wrapped (context ++ ": " ++ inner.shown) inner

def noProgram : Failure := within "interpreter" (plain "nil program")

def noExpression : Failure := within "interpreter" (plain "nil expression")

def output : Failure := within "output" (plain "sink closed")

def of (cause : Cause) : Failure := fault (.of cause)

def fault? : Failure → Option Fault
  | fault f => some f
  | plain _ => none
  | wrapped _ inner => inner.fault?

def mapFault (change : Fault → Fault) : Failure → Failure
  | fault f => fault (change f)
  | plain text => plain text
  | wrapped text inner => wrapped text (inner.mapFault change)

def withSpan (f : Failure) (span : Span) : Failure :=
  f.mapFault (·.withSpan span)

def annotate (f : Failure) (name : String) : Failure :=
  f.mapFault (·.annotate name)

def kind? (f : Failure) : Option FaultKind :=
  f.fault?.map (·.cause.kind)

end Failure

end Pseudocode
