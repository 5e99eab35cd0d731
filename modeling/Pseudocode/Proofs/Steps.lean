import Pseudocode.Machine.Step

/-! # The parts of a step

A step works on the memory, goes on with something that was computed or fails, or hands on what it
was given. These parts are described here without regard to any property of configurations, so that
a property which steps keep has to be shown for the parts and not for each of their uses. -/

namespace Pseudocode

/-- Whether the control is what comes of an expression or a statement. -/
def Control.isOutcome : Control → Bool
  | .value _ | .done | .returning _ _ | .failing _ => true
  | _ => false

/-- Whether an expression has given this value, which is told of INTEGER and STRING values. -/
def Control.gives : Value → Control → Bool
  | .integer m, .value (.integer n) => m = n
  | .string s, .value (.string t) => s = t
  | _, _ => false

theorem Control.eq_of_gives {v : Value} {control : Control} (gives : control.gives v = true) :
    control = .value v := by
  unfold Control.gives at gives
  split at gives
  · rw [of_decide_eq_true gives]
  · rw [of_decide_eq_true gives]
  · cases gives

theorem eq_ok_of_toOption {ε α : Type} {x : Except ε α} {a : α} (isSome : x.toOption = some a) :
    x = .ok a := by
  cases x with
  | error => cases isSome
  | ok b =>
    cases isSome
    rfl

/-- The next round of a loop differs in the counter only. -/
theorem Progression.eq_of_next? {p next : Progression} (found : p.next? = some next) :
    next = { p with current := p.current + p.step } := by
  unfold next? at found
  split at found <;> cases found
  rfl

namespace Config

variable {settings : Settings} {stack : List Frame} {id : ScopeId} {state : State}

/-! ## Work on the memory -/

variable {α : Type} {m : Memory} {c : Config} {P : Config → Prop} {onFault : Fault → State → Config}

/-- What holds of every configuration that may go on holds of the one that does. -/
theorem access_all {action : Memory.Action α} {onOk : α → State → Config}
    (ok : ∀ a state, P (onOk a state)) (fault : ∀ f state, P (onFault f state)) :
    P (access state action onOk onFault) := by
  unfold access
  dsimp only
  split
  · exact ok _ _
  · exact fault _ _

/-- Work on the memory changes nothing else of the state. -/
theorem access_each {α : Type} {action : Memory.Action α} {onOk : α → State → Config}
    (ok : ∀ a m, P (onOk a { state with memory := m }))
    (fault : ∀ f m, P (onFault f { state with memory := m })) :
    P (access state action onOk onFault) := by
  unfold access
  dsimp only
  split
  · exact ok _ _
  · exact fault _ _

theorem access_ok {action : Memory.Action α} {a : α} (ran : action.run state.memory = .ok a m)
    (onOk : α → State → Config) (onFault : Fault → State → Config) :
    access state action onOk onFault = onOk a { state with memory := m } := by
  unfold access
  simp only [ran]

theorem access_error {action : Memory.Action α} {f : Fault}
    (ran : action.run state.memory = .error f m) (onOk : α → State → Config)
    (onFault : Fault → State → Config) :
    access state action onOk onFault = onFault f { state with memory := m } := by
  unfold access
  simp only [ran]

theorem tryAccess_ok {action : Memory.Action α} {a : α} (ran : action.run state.memory = .ok a m)
    (stack : List Frame) (id : ScopeId) (onOk : α → State → Config) :
    tryAccess state action stack id onOk = onOk a { state with memory := m } :=
  access_ok ran ..

theorem tryAccess_error {action : Memory.Action α} {f : Fault}
    (ran : action.run state.memory = .error f m) (stack : List Frame) (id : ScopeId)
    (onOk : α → State → Config) :
    tryAccess state action stack id onOk =
      ⟨.failing (.fault f), stack, id, { state with memory := m }⟩ :=
  access_error ran ..

/-! ## Results -/

def orFail {α : Type} (result : Except Cause α) (stack : List Frame) (scope : ScopeId)
    (state : State) (onOk : α → State → Config) : Config :=
  match result with
  | .ok a => onOk a state
  | .error cause => fail cause stack scope state

def asTruth : Value → Except Cause Bool
  | .boolean b => .ok b
  | other => .error (.condition other.described)

def asInteger (part : LoopPart) : Value → Except Cause Int64
  | .integer n => .ok n
  | other => .error (.loopPart part other.described)

theorem ofResult_eq (result : Except Cause Value) :
    ofResult result stack id state =
      orFail result stack id state fun v state => ⟨.value v, stack, id, state⟩ := by
  cases result <;> rfl

theorem withType_eq (e : Expr) (v : Value) (onOk : Ty → State → Config) :
    withType e v stack id state onOk = orFail (asType e v) stack id state onOk := by
  unfold withType
  cases asType e v <;> rfl

theorem withTruth_eq (v : Value) (onOk : Bool → State → Config) :
    withTruth v stack id state onOk = orFail (asTruth v) stack id state onOk := by
  cases v <;> rfl

theorem withInteger_eq (part : LoopPart) (v : Value) (onOk : Int64 → State → Config) :
    withInteger part v stack id state onOk = orFail (asInteger part v) stack id state onOk := by
  cases v <;> rfl

theorem optionalLiteral_eq_ok_iff {kind : Kind} {result : Except Cause Value} {v : Value} :
    optionalLiteral settings kind result = .ok v ↔
      settings.builtins.enabled kind = true ∧ result = .ok v := by
  unfold optionalLiteral
  split <;> simp_all

/-- A `RETURN` from a function gives a member of the result type, or a failure. -/
theorem returned_cases (routine : Routine) (result : Ty) (v : Option Value) (span : Span) :
    (∃ w, v = some w ∧ result.accepts w = true ∧ returned routine result v span = .value w) ∨
      ∃ f, returned routine result v span = .failing f := by
  cases v with
  | none => exact .inr ⟨_, rfl⟩
  | some w =>
    unfold returned
    dsimp only
    split
    case isTrue accepted => exact .inl ⟨w, rfl, accepted, rfl⟩
    case isFalse => exact .inr ⟨_, rfl⟩

/-! ## Runs -/

theorem halted_iff : c.halted = true ↔ c.stack = [] ∧ c.control.isOutcome = true := by
  obtain ⟨control, stack, id, state⟩ := c
  cases stack <;> cases control <;> simp [halted, Control.isOutcome]

theorem advance_succ (running : c.halted = false) (n : Nat) :
    c.advance settings (n + 1) = (c.step settings).advance settings n := by
  rw [advance, if_neg (Bool.eq_false_iff.mp running)]

theorem advance_halted (halted : c.halted = true) (n : Nat) : c.advance settings n = c := by
  cases n with
  | zero => rfl
  | succ n => rw [advance, if_pos halted]

/-- A property that every step keeps holds as far as a run goes. -/
theorem advance_induction (keeps : ∀ c, P c → P (c.step settings)) (n : Nat) (first : P c) :
    P (c.advance settings n) := by
  induction n generalizing c with
  | zero => exact first
  | succ n ih =>
    unfold advance
    split
    · exact first
    · exact ih (keeps c first)

end Config

end Pseudocode
