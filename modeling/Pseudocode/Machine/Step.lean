import Pseudocode.Machine.Basic
import Pseudocode.Operator
import Pseudocode.Value.Build

/-! # Steps of the machine

`Config.step` takes a configuration to the next one. A value, the end of a statement, a `RETURN` and a
failure are handed to the innermost frame, each by a function of its own. -/

namespace Pseudocode

namespace Config

/-- A failure of which only the cause is known starts on its way up. -/
def fail (cause : Cause) (stack : List Frame) (scope : ScopeId) (state : State) : Config :=
  ⟨.failing (.of cause), stack, scope, state⟩

/-- A value, or the failure to compute it. -/
def ofResult (result : Except Cause Value) (stack : List Frame) (scope : ScopeId) (state : State) :
    Config :=
  match result with
  | .ok v => ⟨.value v, stack, scope, state⟩
  | .error cause => fail cause stack scope state

/-- Works on the memory, and goes on with what comes of it. -/
def access {α : Type} (state : State) (action : Memory.Action α) (onOk : α → State → Config)
    (onFault : Fault → State → Config) : Config :=
  match state with
  | ⟨memory, sink, log, depth⟩ =>
    match action.run memory with
    | .ok a memory => onOk a ⟨memory, sink, log, depth⟩
    | .error fault memory => onFault fault ⟨memory, sink, log, depth⟩

/-- Works on the memory; a fault starts on its way up. -/
def tryAccess {α : Type} (state : State) (action : Memory.Action α) (stack : List Frame)
    (scope : ScopeId) (onOk : α → State → Config) : Config :=
  access state action onOk fun fault state => ⟨.failing (.fault fault), stack, scope, state⟩

/-- A literal of an optional type, which has to be enabled. -/
def optionalLiteral (settings : Settings) (kind : Kind) (result : Except Cause Value) :
    Except Cause Value :=
  if settings.builtins.enabled kind then result else .error (.literalDisabled kind)

/-- Begins a call. The depth is checked before the number of arguments, and both before any argument
is evaluated. -/
def beginCall (settings : Settings) (routine : Routine) (result : Option Ty)
    (arguments : List Expr) (stack : List Frame) (scope : ScopeId) (state : State) : Config :=
  if settings.maxDepth ≤ state.depth then
    fail (.tooDeep routine.name settings.maxDepth) stack scope state
  else if arguments.length ≠ routine.params.length then
    fail (.arity routine.name routine.params.length arguments.length) stack scope state
  else
    tryAccess state (Memory.child routine.home routine.name) stack scope fun callee state =>
      ⟨.bind ⟨routine, result, callee, routine.params, arguments⟩, stack, scope, state⟩

def evaluate (settings : Settings) (e : Expr) (stack : List Frame) (scope : ScopeId)
    (state : State) : Config :=
  match e with
  | .hole => ⟨.failing .noExpression, stack, scope, state⟩
  | .name id =>
    tryAccess state (Memory.lookup scope id.name) stack scope fun v state =>
      ⟨.value v, stack, scope, state⟩
  | .integer n _ => ⟨.value (.integer n), stack, scope, state⟩
  | .real x _ => ⟨.value (.real x), stack, scope, state⟩
  | .boolean b _ => ⟨.value (.boolean b), stack, scope, state⟩
  | .string s _ => ofResult (optionalLiteral settings .string (.ok (.string s))) stack scope state
  | .char text _ =>
    ofResult (optionalLiteral settings .char (Value.ofCharText text)) stack scope state
  | .date d _ => ofResult (optionalLiteral settings .date (Value.ofDate d)) stack scope state
  | .unary op operand _ => ⟨.eval operand, .unary op :: stack, scope, state⟩
  | .binary op left right _ => ⟨.eval left, .left op right :: stack, scope, state⟩
  | .call callee arguments _ =>
    tryAccess state (Memory.lookup scope callee.name) stack scope fun v state =>
      match v with
      | .function routine result =>
        beginCall settings routine (some result) arguments stack scope state
      | other => fail (.notAFunction callee.name other.described) stack scope state

def execute (settings : Settings) (s : Stmt) (stack : List Frame) (scope : ScopeId)
    (state : State) : Config :=
  match s with
  | .declare name declared _ => ⟨.eval declared, .declaredType name declared :: stack, scope, state⟩
  | .constant name declared value _ =>
    ⟨.eval declared, .constantType name declared value :: stack, scope, state⟩
  | .assign target value _ => ⟨.eval value, .assign target :: stack, scope, state⟩
  | .output value _ => ⟨.eval value, .output :: stack, scope, state⟩
  | .call callee arguments _ =>
    tryAccess state (Memory.lookup scope callee.name) stack scope fun v state =>
      match v with
      | .procedure routine =>
        beginCall settings routine none (arguments.getD []) stack scope state
      | .function routine result =>
        beginCall settings routine (some result) (arguments.getD []) stack scope state
      | other => fail (.notAProcedure callee.name other.described) stack scope state
  | .returning none span => ⟨.returning none span, stack, scope, state⟩
  | .returning (some value) span => ⟨.eval value, .returning span :: stack, scope, state⟩
  | .ifThen condition consequent _ =>
    ⟨.eval condition, .branch consequent [] :: stack, scope, state⟩
  | .ifElse condition consequent alternate _ =>
    ⟨.eval condition, .branch consequent alternate :: stack, scope, state⟩
  | .forLoop counter first last step body _ =>
    ⟨.eval first, .loopFirst ⟨counter, last, step, body⟩ :: stack, scope, state⟩
  | .whileLoop condition body _ =>
    ⟨.eval condition, .whileTest condition body :: stack, scope, state⟩
  | .doWhile body condition _ => ⟨.run body, .doBody body condition :: stack, scope, state⟩
  | .procedure id params body _ => ⟨.define ⟨id, params, [], none, body⟩, stack, scope, state⟩
  | .function id params result body _ =>
    ⟨.define ⟨id, params, [], some result, body⟩, stack, scope, state⟩

/-- Gives up a call whose argument `argument` cannot be bound. -/
def abandon (call : Call) (argument : Span) (f : Failure) (stack : List Frame) (scope : ScopeId)
    (state : State) : Config :=
  tryAccess state (do Memory.release call.callee; Memory.dropScope) stack scope fun _ state =>
    ⟨.failing (f.withSpan argument), stack, scope, state⟩

/-- Binds the next argument of a call, or enters the routine when all are bound. A parameter passed by
reference becomes another name of the variable that the argument names. -/
def bindNext (settings : Settings) (call : Call) (stack : List Frame) (scope : ScopeId)
    (state : State) : Config :=
  match call.params, call.arguments with
  | param :: _, argument :: _ =>
    if param.byRef then
      match argument with
      | .name id =>
        let action := do
          let slot ← Memory.lookupVariable scope id.name
          Memory.bindReference call.callee param.name param.type slot
        access state action (fun _ state => ⟨.bind call.rest, stack, scope, state⟩)
          fun fault state => abandon call argument.span (.fault fault) stack scope state
      | _ =>
        abandon call argument.span (.of (.referenceArgument param.name)) stack scope state
    else ⟨.eval argument, .argument call :: stack, scope, state⟩
  | _, _ =>
    let depth := state.depth + 1
    let entry := .enter call.routine.name depth call.routine.params.length
    let state := { state with depth }.note settings entry
    let frame := .invocation call.routine call.result call.callee scope
    ⟨.run call.routine.body, frame :: stack, call.callee, state⟩

/-- Leaves a routine: its variables are released and its scope is forgotten. -/
def leave (settings : Settings) (routine : Routine) (callee caller : ScopeId) (control : Control)
    (stack : List Frame) (state : State) : Config :=
  let state := state.note settings (.leave routine.name state.depth)
  let state := { state with depth := state.depth - 1 }
  tryAccess state (do Memory.release callee; Memory.dropScope) stack caller fun _ state =>
    ⟨control, stack, caller, state⟩

/-- Resolves the next type of a definition, or declares the routine when all are resolved. -/
def defineNext (d : Definition) (stack : List Frame) (scope : ScopeId) (state : State) : Config :=
  match d.pending, d.result with
  | param :: _, _ => ⟨.eval param.declared, .paramType d :: stack, scope, state⟩
  | [], some result => ⟨.eval result, .resultType d :: stack, scope, state⟩
  | [], none =>
    let routine := ⟨d.id.name, d.resolved.reverse, d.body, scope⟩
    let action := Memory.declareConstant scope d.id.name (.of .procedure) (.procedure routine)
    tryAccess state action stack scope fun _ state => ⟨.done, stack, scope, state⟩

/-- Runs the next round of a progression, or ends the loop. -/
def iterate (p : Progression) (stack : List Frame) (scope : ScopeId) (state : State) : Config :=
  if p.continues then
    access state (Memory.writeAs p.counter.name p.slot (.integer p.current))
      (fun _ state => ⟨.run p.body, .loopBody p :: stack, scope, state⟩)
      fun fault state =>
        ⟨.failing (.fault (fault.withSpan p.counter.span)), stack, scope, state⟩
  else ⟨.done, stack, scope, state⟩

def beginLoop (loop : Loop) (first last step : Int64) (stack : List Frame) (scope : ScopeId)
    (state : State) : Config :=
  if step = 0 then fail .zeroStep stack scope state
  else
    tryAccess state (Memory.lookupVariable scope loop.counter.name) stack scope fun slot state =>
      ⟨.iterate ⟨loop.counter, slot, first, last, step, loop.body⟩, stack, scope, state⟩

/-- The type that a type expression evaluated to. -/
def asType (e : Expr) (v : Value) : Except Cause Ty :=
  let name := match e with
    | .name id => id.name
    | _ => ""
  match v with
  | .type .absent => .error (.notAType name v.described)
  | .type t => .ok t
  | _ => .error (.notAType name v.described)

/-- Goes on with the type that a type expression evaluated to. -/
def withType (e : Expr) (v : Value) (stack : List Frame) (scope : ScopeId) (state : State)
    (onOk : Ty → State → Config) : Config :=
  match asType e v with
  | .ok t => onOk t state
  | .error cause => fail cause stack scope state

def withTruth (v : Value) (stack : List Frame) (scope : ScopeId) (state : State)
    (onOk : Bool → State → Config) : Config :=
  match v with
  | .boolean b => onOk b state
  | other => fail (.condition other.described) stack scope state

def withInteger (part : LoopPart) (v : Value) (stack : List Frame) (scope : ScopeId)
    (state : State) (onOk : Int64 → State → Config) : Config :=
  match v with
  | .integer n => onOk n state
  | other => fail (.loopPart part other.described) stack scope state

/-- Hands a value to the innermost frame. A frame that waits for the end of a statement drops it. -/
def give (v : Value) (frame : Frame) (stack : List Frame) (scope : ScopeId) (state : State) :
    Config :=
  match frame with
  | .unary op => ofResult (op.apply v) stack scope state
  | .left op right => ⟨.eval right, .right op v :: stack, scope, state⟩
  | .right op left => ofResult (op.apply left v) stack scope state
  | .argument call =>
    match call.params with
    | param :: _ =>
      access state (Memory.bindValue call.callee param.name param.type v)
        (fun _ state => ⟨.bind call.rest, stack, scope, state⟩)
        fun fault state => abandon call call.span (.fault fault) stack scope state
    | [] => ⟨.bind call, stack, scope, state⟩
  | .declaredType name declared =>
    withType declared v stack scope state fun t state =>
      tryAccess state (Memory.declareVariable scope name.name t) stack scope fun _ state =>
        ⟨.done, stack, scope, state⟩
  | .constantType name declared value =>
    withType declared v stack scope state fun t state =>
      ⟨.eval value, .constantValue name t :: stack, scope, state⟩
  | .constantValue name t =>
    tryAccess state (Memory.declareConstant scope name.name t v) stack scope fun _ state =>
      ⟨.done, stack, scope, state⟩
  | .assign target =>
    tryAccess state (Memory.assign scope target.name v) stack scope fun _ state =>
      ⟨.done, stack, scope, state⟩
  | .output =>
    if state.sink.closed then ⟨.failing .output, stack, scope, state⟩
    else
      let state := { state with sink := state.sink.write (v.shown ++ "\n") }
      ⟨.done, stack, scope, state⟩
  | .returning span => ⟨.returning (some v) span, stack, scope, state⟩
  | .branch consequent alternate =>
    withTruth v stack scope state fun b state =>
      ⟨.run (if b then consequent else alternate), stack, scope, state⟩
  | .loopFirst loop =>
    withInteger .start v stack scope state fun first state =>
      ⟨.eval loop.last, .loopLast loop first :: stack, scope, state⟩
  | .loopLast loop first =>
    withInteger .stop v stack scope state fun last state =>
      match loop.step with
      | some step => ⟨.eval step, .loopStep loop first last :: stack, scope, state⟩
      | none => beginLoop loop first last 1 stack scope state
  | .loopStep loop first last =>
    withInteger .step v stack scope state fun step state =>
      beginLoop loop first last step stack scope state
  | .whileTest condition body =>
    withTruth v stack scope state fun b state =>
      if b then ⟨.run body, .whileBody condition body :: stack, scope, state⟩
      else ⟨.done, stack, scope, state⟩
  | .doTest body condition =>
    withTruth v stack scope state fun b state =>
      if b then ⟨.run body, .doBody body condition :: stack, scope, state⟩
      else ⟨.done, stack, scope, state⟩
  | .paramType d =>
    match d.pending with
    | param :: rest =>
      match asType param.declared v with
      | .ok t =>
        let formal := ⟨param.name.name, t, param.byRef⟩
        let next := { d with pending := rest, resolved := formal :: d.resolved }
        ⟨.define next, stack, scope, state⟩
      | .error cause => ⟨.failing ((Failure.of cause).withSpan param.span), stack, scope, state⟩
    | [] => ⟨.define d, stack, scope, state⟩
  | .resultType d =>
    withType (d.result.getD .hole) v stack scope state fun t state =>
      let routine := ⟨d.id.name, d.resolved.reverse, d.body, scope⟩
      let action := Memory.declareConstant scope d.id.name (.of .function) (.function routine t)
      tryAccess state action stack scope fun _ state => ⟨.done, stack, scope, state⟩
  | .loopBody _ | .whileBody _ _ | .doBody _ _ | .block _ _ | .invocation _ _ _ _ =>
    ⟨.done, frame :: stack, scope, state⟩

/-- Tells the innermost frame that what it waits for has run to its end. A function must not end so:
it has to `RETURN`. -/
def finish (settings : Settings) (frame : Frame) (stack : List Frame) (scope : ScopeId)
    (state : State) : Config :=
  match frame with
  | .block rest _ => ⟨.run rest, stack, scope, state⟩
  | .loopBody p =>
    match p.next? with
    | some next => ⟨.iterate next, stack, scope, state⟩
    | none => ⟨.done, stack, scope, state⟩
  | .whileBody condition body =>
    ⟨.eval condition, .whileTest condition body :: stack, scope, state⟩
  | .doBody body condition => ⟨.eval condition, .doTest body condition :: stack, scope, state⟩
  | .invocation routine none callee caller =>
    leave settings routine callee caller .done stack state
  | .invocation routine (some _) callee caller =>
    leave settings routine callee caller (.failing (.of (.noReturn routine.name))) stack state
  | _ => ⟨.done, stack, scope, state⟩

/-- What a function gives for a `RETURN` with this span. -/
def returned (routine : Routine) (result : Ty) (v : Option Value) (span : Span) : Control :=
  match v with
  | none => .failing ((Failure.of (.emptyReturn routine.name)).withSpan span)
  | some v =>
    if result.accepts v then .value v
    else
      let failure := Failure.of (.notMember result v.described)
      .failing ((failure.annotate routine.name).withSpan span)

/-- Hands a `RETURN` to the innermost frame. It leaves the innermost routine and nothing else. -/
def unwind (settings : Settings) (v : Option Value) (span : Span) (frame : Frame)
    (stack : List Frame) (scope : ScopeId) (state : State) : Config :=
  match frame with
  | .invocation routine none callee caller =>
    leave settings routine callee caller .done stack state
  | .invocation routine (some result) callee caller =>
    leave settings routine callee caller (returned routine result v span) stack state
  | _ => ⟨.returning v span, stack, scope, state⟩

/-- Hands a failure to the innermost frame, which may add the place of what it waits for. -/
def propagate (settings : Settings) (f : Failure) (frame : Frame) (stack : List Frame)
    (scope : ScopeId) (state : State) : Config :=
  match frame with
  | .block _ span => ⟨.failing (f.withSpan span), stack, scope, state⟩
  | .argument call => abandon call call.span f stack scope state
  | .paramType d =>
    let span := (d.pending.head?.map Param.span).getD .zero
    ⟨.failing (f.withSpan span), stack, scope, state⟩
  | .invocation routine _ callee caller =>
    leave settings routine callee caller (.failing f) stack state
  | _ => ⟨.failing f, stack, scope, state⟩

/-- The next moment of a run. A halted run stays where it is. -/
def step (settings : Settings) (c : Config) : Config :=
  match c with
  | ⟨.eval e, stack, scope, state⟩ => evaluate settings e stack scope state
  | ⟨.exec s, stack, scope, state⟩ => execute settings s stack scope state
  | ⟨.run [], stack, scope, state⟩ => ⟨.done, stack, scope, state⟩
  | ⟨.run (s :: rest), stack, scope, state⟩ =>
    ⟨.exec s, .block rest s.span :: stack, scope, state⟩
  | ⟨.bind call, stack, scope, state⟩ => bindNext settings call stack scope state
  | ⟨.define d, stack, scope, state⟩ => defineNext d stack scope state
  | ⟨.iterate p, stack, scope, state⟩ => iterate p stack scope state
  | ⟨.value v, frame :: stack, scope, state⟩ => give v frame stack scope state
  | ⟨.done, frame :: stack, scope, state⟩ => finish settings frame stack scope state
  | ⟨.returning v span, frame :: stack, scope, state⟩ =>
    unwind settings v span frame stack scope state
  | ⟨.failing f, frame :: stack, scope, state⟩ => propagate settings f frame stack scope state
  | ⟨control, [], scope, state⟩ => ⟨control, [], scope, state⟩

/-- The moment `n` steps on, or the end of the run if that comes first. -/
def advance (settings : Settings) : (n : Nat) → Config → Config
  | 0, c => c
  | n + 1, c => if c.halted then c else advance settings n (c.step settings)

/-- The end of a run, if it is reached within `fuel` steps. -/
def run (settings : Settings) (fuel : Nat) (c : Config) : Option Config :=
  let c := c.advance settings fuel
  if c.halted then some c else none

end Config

end Pseudocode
