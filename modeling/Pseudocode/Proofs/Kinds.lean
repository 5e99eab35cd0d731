import Pseudocode.Proofs.Outcomes

/-! # Kinds of expressions

Every expression without calls has at most one kind, which can be told from the kinds of the names in
it: that of the type of a variable, that of the value of a constant. The kind is what counts for
evaluation. An expression that has none cannot be evaluated, and one that has a kind gives a value of
this kind, unless it meets with a mishap: a variable is not set yet, a number is out of range, the
divisor is zero, or a literal is not one of the language. -/

namespace Pseudocode

/-! ## The kind of an expression -/

namespace Kind

def isNumeric : Kind → Bool
  | integer | real => true
  | _ => false

def isText : Kind → Bool
  | string | char => true
  | _ => false

/-- Values of these kinds can be told apart, but they are no numbers. -/
def isLabel : Kind → Bool
  | string | char | boolean | date => true
  | _ => false

end Kind

/-- The kind of the result for an operand of this kind, if the operator takes it. -/
def UnaryOp.kind? : UnaryOp → Kind → Option Kind
  | negate, k => if k.isNumeric then some k else none
  | not, k => if k = .boolean then some .boolean else none
  | unknown _, _ => none

/-- The kind of the result for operands of these kinds, if the operator takes them. -/
def BinaryOp.kind? (op : BinaryOp) (k k' : Kind) : Option Kind :=
  match op with
  | add | subtract | multiply =>
    if k.isNumeric && k'.isNumeric then some (if k = .real || k' = .real then .real else .integer)
    else none
  | divide => if k.isNumeric && k'.isNumeric then some .real else none
  | modulo | quotient => if k = .integer && k' = .integer then some .integer else none
  | join => if k.isText && k'.isText then some .string else none
  | less | greater | lessEqual | greaterEqual =>
    if k.isNumeric && k'.isNumeric then some .boolean else none
  | equal | notEqual =>
    if k.isNumeric && k'.isNumeric || k = k' && k.isLabel then some .boolean else none
  | and | or => if k = .boolean && k' = .boolean then some .boolean else none
  | unknown _ => none

namespace Expr

def isCallFree : Expr → Bool
  | unary _ operand _ => operand.isCallFree
  | binary _ left right _ => left.isCallFree && right.isCallFree
  | call _ _ _ => false
  | _ => true

/-- The kind of an expression whose names have these kinds. -/
def kind? (names : String → Option Kind) : Expr → Option Kind
  | name id => names id.name
  | integer _ _ => some .integer
  | real _ _ => some .real
  | string _ _ => some .string
  | char _ _ => some .char
  | boolean _ _ => some .boolean
  | date _ _ => some .date
  | unary op operand _ => (operand.kind? names).bind op.kind?
  | binary op left right _ =>
    (left.kind? names).bind fun k => (right.kind? names).bind fun k' => op.kind? k k'
  | hole | call _ _ _ => none

end Expr

def Ty.kind? : Ty → Option Kind
  | of kind => some kind
  | bare _ | absent => none

def Memory.kindOf? (m : Memory) (id : ScopeId) (name : String) : Option Kind :=
  match m.resolve? id name with
  | some (.constant v) => v.kind?
  | some (.slot h) => (m.store.typeOf h).kind?
  | none => none

/-- What may go wrong although the kinds are right. -/
def FaultKind.isMishap : FaultKind → Bool
  | uninitializedSlotRead | divisionByZero | integerOverflow | invalidLiteral => true
  | _ => false

/-! ## Operators -/

def Failure.isMishap (f : Failure) : Bool :=
  f.kind?.any FaultKind.isMishap

namespace Control

def ofResult : Except Cause Value → Control
  | .ok v => .value v
  | .error cause => .failing (.of cause)

/-- A value of the kind, or a mishap; without a kind, a failure. -/
inductive Answers : Option Kind → Control → Prop where
  | value {v : Value} {kind : Kind} : v.kind? = some kind → Answers (some kind) (.value v)
  | mishap {kind : Option Kind} {f : Failure} : f.isMishap = true → Answers kind (.failing f)
  | kindless (f : Failure) : Answers none (.failing f)

theorem Answers.value_or_failing {kind : Option Kind} {outcome : Control}
    (answers : Answers kind outcome) :
    (∃ v k, outcome = .value v ∧ kind = some k ∧ v.kind? = some k) ∨
      ∃ f, outcome = .failing f ∧ (kind.isSome = true → f.isMishap = true) := by
  cases answers with
  | value isKind => exact .inl ⟨_, _, rfl, rfl, isKind⟩
  | mishap isMishap => exact .inr ⟨_, rfl, fun _ => isMishap⟩
  | kindless f => exact .inr ⟨f, rfl, fun isKind => by cases isKind⟩

end Control

open Control (Answers)

namespace Value

variable {v l r : Value} {k k' : Kind}

theorem toReal?_isSome (isKind : v.kind? = some k) : v.toReal?.isSome = k.isNumeric := by
  cases v <;> cases isKind <;> rfl

theorem toText?_isSome (isKind : v.kind? = some k) : v.toText?.isSome = k.isText := by
  cases v <;> cases isKind <;> rfl

theorem compareNumbers?_isSome (left : l.kind? = some k) (right : r.kind? = some k') :
    (compareNumbers? l r).isSome = (k.isNumeric && k'.isNumeric) := by
  cases l <;> cases left <;> cases r <;> cases right <;> rfl

theorem equals?_isSome (left : l.kind? = some k) (right : r.kind? = some k') :
    (l.equals? r).isSome = (k.isNumeric && k'.isNumeric || k = k' && k.isLabel) := by
  cases l <;> cases left <;> cases r <;> cases right <;> rfl

end Value

theorem UnaryOp.apply_answers (op : UnaryOp) {v : Value} {k : Kind} (isKind : v.kind? = some k) :
    Answers (op.kind? k) (.ofResult (op.apply v)) := by
  cases op with
  | negate =>
    cases v with
    | integer n =>
      cases isKind
      change Answers (some .integer) _
      unfold apply
      dsimp only
      split
      · exact .value rfl
      · exact .mishap rfl
    | real x =>
      cases isKind
      exact .value rfl
    | nothing => cases isKind
    | _ =>
      cases isKind
      exact .kindless _
  | not =>
    cases v with
    | boolean b =>
      cases isKind
      exact .value rfl
    | nothing => cases isKind
    | _ =>
      cases isKind
      exact .kindless _
  | unknown sign => exact .kindless _

namespace BinaryOp

variable {l r : Value} {k k' : Kind} (left : l.kind? = some k) (right : r.kind? = some k')
  (op : BinaryOp)

include left right op

theorem arithmetic_answers (onIntegers? : Int64 → Int64 → Option Int64)
    (onReals : Float → Float → Float) :
    Answers (if k.isNumeric && k'.isNumeric then
        some (if k = .real || k' = .real then .real else .integer) else none)
      (.ofResult (op.arithmetic onIntegers? onReals l r)) := by
  rw [← Value.toReal?_isSome left, ← Value.toReal?_isSome right]
  cases l with
  | integer m =>
    cases left
    cases r with
    | integer n =>
      cases right
      change Answers (some .integer) _
      unfold arithmetic
      dsimp only
      split
      · exact .value rfl
      · exact .mishap rfl
    | real y =>
      cases right
      exact .value rfl
    | _ => exact .kindless _
  | real x =>
    cases left
    cases r with
    | integer | real =>
      cases right
      exact .value rfl
    | _ => exact .kindless _
  | _ => exact .kindless _

theorem division_answers :
    Answers (if k.isNumeric && k'.isNumeric then some .real else none)
      (.ofResult (op.division l r)) := by
  rw [← Value.toReal?_isSome left, ← Value.toReal?_isSome right]
  unfold division
  cases l.toReal? with
  | none => exact .kindless _
  | some x =>
    cases r.toReal? with
    | none => exact .kindless _
    | some y =>
      change Answers (some .real) (.ofResult (if y == 0 then _ else _))
      split
      · exact .mishap rfl
      · exact .value rfl

theorem integerDivision_answers (result? : Int64 → Int64 → Option Int64) :
    Answers (if k = .integer && k' = .integer then some .integer else none)
      (.ofResult (op.integerDivision result? l r)) := by
  cases l with
  | integer m =>
    cases left
    cases r with
    | integer n =>
      cases right
      change Answers (some .integer) _
      unfold integerDivision
      dsimp only
      split
      · exact .mishap rfl
      · split
        · exact .value rfl
        · exact .mishap rfl
    | nothing => cases right
    | _ =>
      cases right
      exact .kindless _
  | nothing => cases left
  | _ =>
    cases left
    exact .kindless _

theorem concatenation_answers :
    Answers (if k.isText && k'.isText then some .string else none)
      (.ofResult (op.concatenation l r)) := by
  rw [← Value.toText?_isSome left, ← Value.toText?_isSome right]
  unfold concatenation
  cases l.toText? with
  | none => exact .kindless _
  | some a =>
    cases r.toText? with
    | none => exact .kindless _
    | some b => exact .value rfl

theorem comparison_answers (holds : Ordering → Bool) :
    Answers (if k.isNumeric && k'.isNumeric then some .boolean else none)
      (.ofResult (op.comparison holds l r)) := by
  rw [← Value.compareNumbers?_isSome left right]
  unfold comparison
  cases Value.compareNumbers? l r with
  | none => exact .kindless _
  | some ordering => exact .value rfl

omit op in
theorem equality_answers (holds : Bool → Bool) :
    Answers (if k.isNumeric && k'.isNumeric || k = k' && k.isLabel then some .boolean else none)
      (.ofResult (equality holds l r)) := by
  rw [← Value.equals?_isSome left right]
  unfold equality
  cases l.equals? r with
  | none => exact .kindless _
  | some same => exact .value rfl

theorem logic_answers (holds : Bool → Bool → Bool) :
    Answers (if k = .boolean && k' = .boolean then some .boolean else none)
      (.ofResult (op.logic holds l r)) := by
  cases l with
  | boolean a =>
    cases left
    cases r with
    | boolean b =>
      cases right
      exact .value rfl
    | nothing => cases right
    | _ =>
      cases right
      exact .kindless _
  | nothing => cases left
  | _ =>
    cases left
    exact .kindless _

theorem apply_answers : Answers (op.kind? k k') (.ofResult (op.apply l r)) := by
  cases op with
  | add | subtract | multiply => exact arithmetic_answers left right _ _ _
  | divide => exact division_answers left right _
  | modulo => exact integerDivision_answers left right _ fun m n => some (Integer.modulo m n)
  | quotient => exact integerDivision_answers left right _ _
  | join => exact concatenation_answers left right _
  | less | greater | lessEqual | greaterEqual => exact comparison_answers left right _ _
  | equal | notEqual => exact equality_answers left right _
  | and | or => exact logic_answers left right _ _
  | unknown sign => exact .kindless _

end BinaryOp

/-! ## Names and literals -/

theorem Value.Fits.kind?_isSome {m : Memory} {id : ScopeId} {v : Value} (fits : v.Fits m id) :
    v.kind?.isSome = true := by
  cases v with
  | nothing => exact fits.elim
  | _ => rfl

theorem Failure.isMishap_annotate (cause : Cause) (name : String) :
    (Failure.fault ((Fault.of cause).annotate name)).isMishap = cause.kind.isMishap := by
  simp [isMishap, kind?, fault?, Fault.annotate_cause, Fault.of]

/-- Looking up a name gives a value of the kind of the name, and the memory stays as it is. -/
theorem Memory.Sound.lookup_answers {m : Memory} (sound : m.Sound) (id : ScopeId) (name : String) :
    Yields ((Memory.lookup id name).run m)
      (fun v m' => m' = m ∧ Answers (m.kindOf? id name) (.value v))
      (fun f m' => m' = m ∧ Answers (m.kindOf? id name) (.failing (.fault f))) := by
  rw [lookup_run, kindOf?]
  cases resolved : m.resolve? id name with
  | none => exact ⟨rfl, .kindless _⟩
  | some b =>
    cases b with
    | constant v =>
      obtain ⟨a, -, binds⟩ := resolve?_onChain resolved
      obtain ⟨kind, isKind⟩ :=
        Option.isSome_iff_exists.mp (sound.constants a name v binds).kind?_isSome
      refine ⟨rfl, ?_⟩
      dsimp only
      rw [isKind]
      exact .value isKind
    | slot h =>
      obtain ⟨cell, found⟩ := Store.live_iff.mp (sound.live_of_resolve? resolved)
      obtain ⟨-, typed⟩ := sound.cells h cell found
      simp only [Store.get, Store.typeOf, found, Option.map_some, Option.getD_some]
      cases held : cell.value with
      | none =>
        refine ⟨rfl, .mishap ?_⟩
        rw [Failure.isMishap_annotate]
        rfl
      | some v =>
        refine ⟨rfl, ?_⟩
        obtain ⟨kind, isType, isKind⟩ := Value.kind?_of_accepts (typed v held).1
        rw [isType]
        exact .value isKind

theorem Value.ofCharText_answers (text : String) :
    Answers (some .char) (.ofResult (ofCharText text)) := by
  unfold ofCharText
  split
  · exact .value rfl
  · exact .mishap rfl

theorem Value.ofDate_answers (d : Date) : Answers (some .date) (.ofResult (ofDate d)) := by
  unfold ofDate
  split
  · exact .mishap rfl
  · exact .value rfl

namespace Config

variable {settings : Settings} {id : ScopeId} {state : State}

theorem ofResult_control (result : Except Cause Value) (stack : List Frame) :
    ofResult result stack id state = ⟨.ofResult result, stack, id, state⟩ := by
  cases result <;> rfl

theorem optionalLiteral_answers {kind : Kind} {result : Except Cause Value}
    (answers : Answers (some kind) (.ofResult result)) :
    Answers (some kind) (.ofResult (optionalLiteral settings kind result)) := by
  unfold optionalLiteral
  split
  · exact answers
  · exact .mishap rfl

/-! ## Evaluation -/

/-- The configuration comes to an outcome of the kind for the frames that wait, in the scope and the
state that are given. -/
def Evaluates (settings : Settings) (kind : Option Kind) (stack : List Frame) (id : ScopeId)
    (state : State) (c : Config) : Prop :=
  ∃ n outcome, outcome.Answers kind ∧ c.advance settings n = ⟨outcome, stack, id, state⟩

namespace Evaluates

variable {kind kind' : Option Kind} {stack : List Frame} {c : Config}

theorem here {outcome : Control} (answers : outcome.Answers kind) :
    Evaluates settings kind stack id state ⟨outcome, stack, id, state⟩ :=
  ⟨0, outcome, answers, rfl⟩

theorem ofResult {result : Except Cause Value} (answers : Answers kind (.ofResult result)) :
    Evaluates settings kind stack id state (ofResult result stack id state) :=
  ofResult_control result stack ▸ here answers

theorem of_advance (n : Nat)
    (evaluates : Evaluates settings kind stack id state (c.advance settings n)) :
    Evaluates settings kind stack id state c := by
  obtain ⟨m, outcome, answers, ends⟩ := evaluates
  exact ⟨n + m, outcome, answers, (advance_add c n m).trans ends⟩

theorem of_step (evaluates : Evaluates settings kind stack id state (c.step settings)) :
    Evaluates settings kind stack id state c :=
  of_advance 1 ((advance_step c 0).symm ▸ evaluates)

/-- The operand is evaluated for a frame that waits for its value and lets a failure pass. -/
theorem under {frame : Frame}
    (operand : Evaluates settings kind (frame :: stack) id state c)
    (failing : ∀ f, propagate settings f frame stack id state = ⟨.failing f, stack, id, state⟩)
    (kindless : kind = none → kind' = none)
    (value : ∀ v k, kind = some k → v.kind? = some k →
      Evaluates settings kind' stack id state (give v frame stack id state)) :
    Evaluates settings kind' stack id state c := by
  have fails (f : Failure) (answers : Answers kind' (.failing f)) :
      Evaluates settings kind' stack id state ⟨.failing f, frame :: stack, id, state⟩ := by
    apply of_step
    change Evaluates settings kind' stack id state (propagate settings f frame stack id state)
    rw [failing]
    exact here answers
  obtain ⟨n, outcome, answers, ends⟩ := operand
  apply of_advance n
  rw [ends]
  cases answers with
  | value isKind => exact of_step (value _ _ rfl isKind)
  | mishap isMishap => exact fails _ (.mishap isMishap)
  | kindless f => exact fails f (kindless rfl ▸ .kindless f)

end Evaluates

/-- Every expression without calls comes to a value of its kind, or to a mishap, and leaves the state
as it is; without a kind it fails. -/
theorem eval_evaluates (sound : state.memory.Sound) {e : Expr} (callFree : e.isCallFree = true)
    (stack : List Frame) :
    Evaluates settings (e.kind? (state.memory.kindOf? id)) stack id state
      ⟨.eval e, stack, id, state⟩ := by
  apply Evaluates.of_step
  change Evaluates settings _ stack id state (evaluate settings e stack id state)
  cases e with
  | hole => exact .here (.kindless _)
  | integer | real | boolean => exact .here (.value rfl)
  | string => exact .ofResult (optionalLiteral_answers (.value rfl))
  | char text => exact .ofResult (optionalLiteral_answers (Value.ofCharText_answers text))
  | date d => exact .ofResult (optionalLiteral_answers (Value.ofDate_answers d))
  | name x =>
    refine access_of (P := Evaluates settings _ stack id state) (sound.lookup_answers id x.name)
      ?_ ?_
    · rintro v m ⟨rfl, answers⟩
      exact .here answers
    · rintro f m ⟨rfl, answers⟩
      exact .here answers
  | unary op operand =>
    have first := eval_evaluates sound (e := operand) callFree (.unary op :: stack)
    refine first.under (fun _ => rfl) ?_ fun v k isKind isKind' => ?_
    · intro kindless
      rw [Expr.kind?, kindless, Option.bind_none]
    · rw [Expr.kind?, isKind, Option.bind_some]
      exact .ofResult (op.apply_answers isKind')
  | binary op left right =>
    obtain ⟨leftFree, rightFree⟩ := Bool.and_eq_true_iff.mp callFree
    have first := eval_evaluates sound leftFree (.left op right :: stack)
    refine first.under (fun _ => rfl) ?_ fun l k isKind isKind' => ?_
    · intro kindless
      rw [Expr.kind?, kindless, Option.bind_none]
    · have second := eval_evaluates sound rightFree (.right op l :: stack)
      refine second.under (fun _ => rfl) ?_ fun r k' isRight isRight' => ?_
      · intro kindless
        rw [Expr.kind?, isKind, Option.bind_some, kindless, Option.bind_none]
      · rw [Expr.kind?, isKind, isRight, Option.bind_some, Option.bind_some]
        exact .ofResult (BinaryOp.apply_answers isKind' isRight' op)
  | call => cases callFree

/-- What is found for an expression that is evaluated alone is found above other frames too. -/
theorem Evaluates.ends {kind : Option Kind} {e : Expr}
    (evaluates : Evaluates settings kind [] id state ⟨.eval e, [], id, state⟩)
    (stack : List Frame) :
    ∃ n outcome, outcome.Answers kind ∧
      Ends settings ⟨.eval e, stack, id, state⟩ n outcome ∧
      advance settings n ⟨.eval e, stack, id, state⟩ = ⟨outcome, stack, id, state⟩ := by
  obtain ⟨n, outcome, answers, last⟩ := evaluates
  have halted : halted ⟨outcome, [], id, state⟩ = true := by cases answers <;> rfl
  obtain ⟨k, ends, reached⟩ := Comes.ends ⟨halted, n, last⟩ stack
  exact ⟨k, outcome, answers, ends, reached⟩

end Config

/-- At every moment of a session, in whatever scope and whatever waits for it, an expression without
calls gives a value of its kind or fails. It has a kind if it gives a value, and if it has one it fails
by a mishap only. The state stays as it is. -/
theorem Session.Reached.kind_sound {options : Options} {s : Session} (reached : Reached options s)
    {c : Config} (passes : s.Passes c) (id : ScopeId) (stack : List Frame) {e : Expr}
    (callFree : e.isCallFree = true) :
    let kind := e.kind? (c.state.memory.kindOf? id)
    ∃ n outcome, Config.Ends s.settings ⟨.eval e, stack, id, c.state⟩ n outcome ∧
      Config.advance s.settings n ⟨.eval e, stack, id, c.state⟩ = ⟨outcome, stack, id, c.state⟩ ∧
      ((∃ v k, outcome = .value v ∧ kind = some k ∧ v.kind? = some k) ∨
        ∃ f, outcome = .failing f ∧ (kind.isSome = true → f.isMishap = true)) := by
  intro kind
  have sound : c.state.memory.Sound := (reached.idle.passes passes).2.settled.memory
  obtain ⟨n, outcome, answers, ends, last⟩ := (Config.eval_evaluates sound callFree []).ends stack
  exact ⟨n, outcome, ends, last, answers.value_or_failing⟩

namespace Sample

def ratio : Expr :=
  .binary .less (.binary .divide (named "n") (named "r") .zero) (.integer 1 .zero) .zero

end Sample

/-- In the scope of the procedure the comparison has a kind; but `r` is not set yet. -/
theorem Session.Reached.kind_sound_sample :
    let settings := Sample.fresh.settings
    let state := Sample.calling.state
    let id := Sample.calling.scope
    Reached {} Sample.fresh ∧ Sample.fresh.Passes Sample.calling ∧
      Sample.ratio.isCallFree = true ∧
      Sample.ratio.kind? (state.memory.kindOf? id) = some .boolean ∧
      ∃ n outcome, Config.Ends settings ⟨.eval Sample.ratio, Sample.calling.stack, id, state⟩ n
          outcome ∧
        Config.advance settings n ⟨.eval Sample.ratio, Sample.calling.stack, id, state⟩ =
          ⟨outcome, Sample.calling.stack, id, state⟩ ∧
        ((∃ v, outcome = .value v ∧ v.kind? = some .boolean) ∨
          ∃ f, outcome = .failing f ∧ f.isMishap = true) := by
  intro settings state id
  have fresh : Reached {} Sample.fresh := ⟨_, Sample.started, .refl⟩
  have passes : Sample.fresh.Passes Sample.calling :=
    ⟨.program (some Sample.program), _, 40, rfl, rfl⟩
  have kind : Sample.ratio.kind? (state.memory.kindOf? id) = some .boolean := by decide +kernel
  obtain ⟨n, outcome, ends, last, answers⟩ := Reached.kind_sound fresh passes id
    Sample.calling.stack (e := Sample.ratio) rfl
  refine ⟨fresh, passes, rfl, kind, n, outcome, ends, last, ?_⟩
  rcases answers with ⟨v, k, isValue, isKind, same⟩ | ⟨f, fails, mishap⟩
  · cases kind.symm.trans isKind
    exact .inl ⟨v, isValue, same⟩
  · exact .inr ⟨f, fails, mishap (by rw [kind]; rfl)⟩

end Pseudocode
