import Pseudocode.Proofs.Configurations
import Pseudocode.Proofs.Nodes
import Pseudocode.Proofs.Moves

/-! # What runs keep to

A policy says which statements may run, of which kinds values may be computed, and of which kinds
they may be kept in variables and constants. It reaches into what a configuration holds: the bodies
of routines, the types of their parameters and results, the blocks and values that wait on the
stack. A policy is closed if what it allows leads to nothing that it forbids, and then every step
keeps to it. -/

namespace Pseudocode

/-! ## Kinds of results -/

/-- If there is a result, its kind cannot be switched off. -/
def Basic (result : Except Cause Value) : Prop :=
  ∀ v, result = .ok v → ∃ kind ∈ Builtins.always, v.kind? = some kind

namespace Basic

theorem error (cause : Cause) : Basic (.error cause) := by
  intro v same
  cases same

theorem ok {v : Value} {kind : Kind} (isKind : v.kind? = some kind)
    (member : kind ∈ Builtins.always) : Basic (.ok v) := by
  rintro _ ⟨⟩
  exact ⟨kind, member, isKind⟩

theorem integer (n : Int64) : Basic (.ok (.integer n)) :=
  .ok rfl (by decide)

theorem real (x : Float) : Basic (.ok (.real x)) :=
  .ok rfl (by decide)

theorem boolean (b : Bool) : Basic (.ok (.boolean b)) :=
  .ok rfl (by decide)

end Basic

theorem Answered.basic {result : Except Cause Value} (answered : Answered result) :
    Basic result := by
  cases answered with
  | integer n => exact .integer n
  | real x => exact .real x
  | boolean b => exact .boolean b
  | refused => exact .error _

theorem UnaryOp.apply_basic (op : UnaryOp) (v : Value) : Basic (op.apply v) := by
  rcases op.apply_cases v with answered | ⟨sign, rfl⟩
  · exact answered.basic
  · exact .error _

/-- An operator gives a value of a basic kind, or it is `&` and gives a STRING. -/
theorem BinaryOp.apply_basic (op : BinaryOp) (l r : Value) :
    Basic (op.apply l r) ∨ op = .join ∧ ∀ v, op.apply l r = .ok v →
      ∃ a b, l.toText? = some a ∧ r.toText? = some b ∧ v = .string (a ++ b) := by
  rcases op.apply_cases l r with answered | ⟨isJoin, a, b, left, right, gives⟩ | ⟨sign, rfl⟩
  · exact .inl answered.basic
  · exact .inr ⟨isJoin, fun v same => ⟨a, b, left, right, Except.ok.inj (same.symm.trans gives)⟩⟩
  · exact .inl (.error _)

/-! ## What a policy allows -/

structure Policy where
  /-- The statements that may run. -/
  runs : Stmt → Prop
  /-- The kinds of values that may be computed. -/
  computes : Kind → Prop
  /-- The kinds of values that variables and constants may hold. -/
  keeps : Kind → Prop

namespace Policy

variable (policy : Policy)

/-- The statements of the block may run. -/
def Allows (block : List Stmt) : Prop :=
  ∀ s ∈ block, policy.runs s

/-- Values of the type may be kept. -/
def Admits (t : Ty) : Prop :=
  ∀ kind, t = .of kind → policy.keeps kind

/-- The routine may be called. -/
structure Trusts (r : Routine) : Prop where
  params : ∀ p ∈ r.params, policy.Admits p.type
  body : policy.Allows r.body

/-- What is inside the value is allowed. -/
def Clears : Value → Prop
  | .procedure r => policy.Trusts r
  | .function r result => policy.Trusts r ∧ policy.Admits result
  | .type t => policy.Admits t
  | _ => True

/-- The value is of one of these kinds, and what is inside it is allowed. -/
structure Passes (kinds : Kind → Prop) (v : Value) : Prop where
  kind : ∀ kind, v.kind? = some kind → kinds kind
  inside : policy.Clears v

abbrev Computes (v : Value) : Prop := policy.Passes policy.computes v

abbrev Keeps (v : Value) : Prop := policy.Passes policy.keeps v

/-- What the policy allows leads to nothing that it forbids. -/
structure Closed (settings : Settings) : Prop where
  blocks : ∀ s, policy.runs s → ∀ block ∈ s.blocks, policy.Allows block
  kept : ∀ kind, policy.keeps kind → policy.computes kind
  enabled : ∀ kind, settings.builtins.enabled kind = true → policy.computes kind
  procedure : policy.keeps .procedure
  function : policy.keeps .function
  joined : policy.computes .char → policy.computes .string

end Policy

structure Call.Obeys (policy : Policy) (call : Call) : Prop where
  body : policy.Allows call.routine.body
  params : ∀ p ∈ call.params, policy.Admits p.type
  result : ∀ t, call.result = some t → policy.Admits t

structure Definition.Obeys (policy : Policy) (d : Definition) : Prop where
  resolved : ∀ p ∈ d.resolved, policy.Admits p.type
  body : policy.Allows d.body

def Frame.Obeys (policy : Policy) : Frame → Prop
  | .right _ v => policy.Computes v
  | .argument call => call.Obeys policy
  | .constantValue _ type => policy.Admits type
  | .branch consequent alternate => policy.Allows consequent ∧ policy.Allows alternate
  | .loopFirst loop | .loopLast loop _ | .loopStep loop _ _ => policy.Allows loop.body
  | .loopBody p => policy.Allows p.body
  | .whileTest _ body | .whileBody _ body | .doTest body _ | .doBody body _ => policy.Allows body
  | .paramType d | .resultType d => d.Obeys policy
  | .block rest _ => policy.Allows rest
  | .invocation _ result _ _ => ∀ t, result = some t → policy.Admits t
  | _ => True

def Control.Obeys (policy : Policy) : Control → Prop
  | .exec s => policy.runs s
  | .run block => policy.Allows block
  | .bind call => call.Obeys policy
  | .define d => d.Obeys policy
  | .iterate p => policy.Allows p.body
  | .value v => policy.Computes v
  | .returning v _ => ∀ w, v = some w → policy.Computes w
  | _ => True

structure Memory.Obeys (policy : Policy) (m : Memory) : Prop where
  constants : ∀ id name v, m.Binds id name (.constant v) → policy.Keeps v
  types : ∀ h cell, m.store.cell? h = some cell → policy.Admits cell.type
  contents : ∀ h cell v, m.store.cell? h = some cell → cell.value = some v → policy.Keeps v

/-- What a configuration holds apart from its control is allowed. -/
structure Policy.Backs (policy : Policy) (stack : List Frame) (state : State) : Prop where
  frames : ∀ frame ∈ stack, frame.Obeys policy
  memory : state.memory.Obeys policy

structure Config.Obeys (policy : Policy) (c : Config) : Prop where
  control : c.control.Obeys policy
  backed : policy.Backs c.stack c.state

/-! ## Values -/

theorem Value.toText?_kind {v : Value} {text : String} (isText : v.toText? = some text) :
    v.kind? = some .string ∨ v.kind? = some .char := by
  cases v with
  | string => exact .inl rfl
  | char => exact .inr rfl
  | _ => cases isText

namespace Policy

variable {policy : Policy} {settings : Settings} {v : Value} {t : Ty} {kind : Kind}

theorem Passes.of_kind {kinds : Kind → Prop} (isKind : v.kind? = some kind)
    (allowed : kinds kind) (inside : policy.Clears v) : policy.Passes kinds v := by
  constructor
  · intro other isOther
    cases isKind.symm.trans isOther
    exact allowed
  · exact inside

/-- A value that a type accepts may be kept if the type is admitted. -/
theorem Computes.keeps (computes : policy.Computes v) (admits : policy.Admits t)
    (accepted : t.accepts v = true) : policy.Keeps v := by
  obtain ⟨kind, isType, isKind⟩ := Value.kind?_of_accepts accepted
  exact .of_kind isKind (admits kind isType) computes.inside

variable (closed : policy.Closed settings)

include closed

theorem Keeps.computes (keeps : policy.Keeps v) : policy.Computes v :=
  ⟨fun kind isKind => closed.kept kind (keeps.kind kind isKind), keeps.inside⟩

omit closed in
/-- There is nothing inside a value of a data type. -/
theorem Passes.of_isData {kinds : Kind → Prop} (isKind : v.kind? = some kind)
    (data : kind.isData = true) (allowed : kinds kind) : policy.Passes kinds v := by
  apply Passes.of_kind isKind allowed
  cases v with
  | procedure | function | type =>
    cases isKind
    cases data
  | _ => trivial

theorem Closed.computes_basic {result : Except Cause Value} (basic : Basic result)
    (gives : result = .ok v) : policy.Computes v := by
  obtain ⟨kind, member, isKind⟩ := basic v gives
  exact .of_isData isKind (Builtins.isData_always kind member)
    (closed.enabled kind (settings.builtins.enabled_always member))

theorem Closed.computes_literal (kind : Kind) {result : Except Cause Value}
    (data : kind.isData = true) (right : ∀ v, result = .ok v → v.kind? = some kind)
    (gives : Config.optionalLiteral settings kind result = .ok v) : policy.Computes v := by
  obtain ⟨enabled, gives⟩ := Config.optionalLiteral_eq_ok_iff.mp gives
  exact .of_isData (right v gives) data (closed.enabled kind enabled)

/-- An operator computes nothing that is forbidden from operands that are allowed. -/
theorem Closed.computes_binary (op : BinaryOp) {l r : Value} (left : policy.Computes l)
    (gives : op.apply l r = .ok v) : policy.Computes v := by
  rcases op.apply_basic l r with basic | ⟨-, joins⟩
  · exact closed.computes_basic basic gives
  · obtain ⟨a, b, isText, -, rfl⟩ := joins v gives
    have text : policy.computes .string := by
      rcases Value.toText?_kind isText with isString | isChar
      · exact left.kind .string isString
      · exact closed.joined (left.kind .char isChar)
    exact .of_kind rfl text trivial

theorem Closed.computes_unary (op : UnaryOp) {operand : Value} (gives : op.apply operand = .ok v) :
    policy.Computes v :=
  closed.computes_basic (op.apply_basic operand) gives

end Policy

/-! ## Memory -/

/-- An allocated cell is new and unset, and the others stay. -/
theorem Store.cell?_of_allocate {s : Store} {type : Ty} {h : Handle} {cell : Cell}
    (found : (s.allocate type).2.cell? h = some cell) :
    cell = { type } ∨ s.cell? h = some cell := by
  cases h with
  | negSucc i => cases found
  | ofNat i =>
    unfold allocate at found
    split at found
    · simp only [cell?, Array.getElem?_setIfInBounds] at found
      split at found
      · split at found
        · cases found
          exact .inl rfl
        · cases found
      · exact .inr found
    · simp only [cell?, Array.getElem?_push] at found
      split at found
      · cases found
        exact .inl rfl
      · exact .inr found

namespace Memory

variable {policy : Policy} {settings : Settings} {m : Memory} {id : ScopeId} {name : String}
  {type : Ty} {v : Value}

namespace Obeys

variable (obeys : m.Obeys policy)

include obeys

theorem opened (parent : ScopeId) (label : String) : (m.opened parent label).Obeys policy :=
  ⟨fun id name v binds => obeys.constants id name v (binds_opened.mp binds), obeys.types,
    obeys.contents⟩

theorem extended_constants {b : Binding} (new : ∀ v, b = .constant v → policy.Keeps v)
    (id : ScopeId) (name : String) (cells : List Handle) (store : Store) (id' : ScopeId)
    (name' : String) (v : Value)
    (binds : (m.extended id name b cells store).Binds id' name' (.constant v)) :
    policy.Keeps v := by
  rcases of_binds_extended binds with old | rfl
  · exact obeys.constants id' name' v old
  · exact new v rfl

theorem bound {b : Binding} (new : ∀ v, b = .constant v → policy.Keeps v) (id : ScopeId)
    (name : String) : (m.bound id name b).Obeys policy :=
  ⟨obeys.extended_constants new id name [] m.store, obeys.types, obeys.contents⟩

theorem boundReference (id : ScopeId) (name : String) (h : Handle) :
    (m.bound id name (.slot h)).Obeys policy :=
  obeys.bound (fun _ same => by cases same) id name

theorem declared (admits : policy.Admits type) (id : ScopeId) (name : String) :
    (m.declared id name type).Obeys policy := by
  constructor
  · exact obeys.extended_constants (fun _ same => by cases same) id name _ _
  · intro h cell found
    rcases Store.cell?_of_allocate found with rfl | before
    · exact admits
    · exact obeys.types h cell before
  · intro h cell v found isValue
    rcases Store.cell?_of_allocate found with rfl | before
    · cases isValue
    · exact obeys.contents h cell v before isValue

theorem written {h : Handle} (live : m.store.Live h) (keeps : policy.Keeps v) :
    (m.written h v).Obeys policy := by
  have changed (h' : Handle) (cell : Cell) (found : (m.written h v).store.cell? h' = some cell) :
      (∃ before, m.store.cell? h = some before ∧ cell = { before with value := some v }) ∨
        m.store.cell? h' = some cell := by
    rw [cell?_written live] at found
    split at found
    · obtain ⟨before, isBefore, rfl⟩ := Option.map_eq_some_iff.mp found
      exact .inl ⟨before, isBefore, rfl⟩
    · exact .inr found
  constructor
  · exact obeys.constants
  · intro h' cell found
    rcases changed h' cell found with ⟨before, isBefore, rfl⟩ | same
    · exact obeys.types h before isBefore
    · exact obeys.types h' cell same
  · intro h' cell w found isValue
    rcases changed h' cell found with ⟨before, isBefore, rfl⟩ | same
    · cases isValue
      exact keeps
    · exact obeys.contents h' cell w same isValue

end Obeys

/-- Whether or not the operation succeeds, the memory it leaves behind is allowed. -/
abbrev Respects {α : Type} (policy : Policy) (r : EStateM.Result Fault Memory α) : Prop :=
  Yields r (fun _ m => m.Obeys policy) (fun _ m => m.Obeys policy)

variable (obeys : m.Obeys policy)

include obeys

theorem lookup_obeys (id : ScopeId) (name : String) :
    Yields ((lookup id name).run m) (fun v m' => m'.Obeys policy ∧ policy.Keeps v)
      (fun _ m' => m'.Obeys policy) := by
  rw [lookup_run]
  split
  case h_1 => exact obeys
  case h_2 v resolved =>
    obtain ⟨a, -, binds⟩ := resolve?_onChain resolved
    exact ⟨obeys, obeys.constants a name v binds⟩
  case h_3 h resolved =>
    split
    case h_1 v read =>
      obtain ⟨cell, found, isValue⟩ := Store.get_eq_ok_iff.mp read
      exact ⟨obeys, obeys.contents h cell v found isValue⟩
    case h_2 => exact obeys

theorem lookupVariable_obeys (id : ScopeId) (name : String) :
    Respects policy ((lookupVariable id name).run m) := by
  rw [lookupVariable_run]
  split <;> exact obeys

theorem declareVariable_obeys (id : ScopeId) (name : String) (admits : policy.Admits type) :
    Respects policy ((declareVariable id name type).run m) := by
  rw [declareVariable_run]
  split
  · exact obeys
  · exact obeys.declared admits id name

theorem declareConstant_obeys (id : ScopeId) (name : String)
    (keeps : type.accepts v = true → policy.Keeps v) :
    Respects policy ((declareConstant id name type v).run m) := by
  rw [declareConstant_run]
  split
  case isTrue => exact obeys
  case isFalse =>
    split
    case isTrue accepted =>
      apply obeys.bound
      rintro _ ⟨⟩
      exact keeps accepted
    case isFalse => exact obeys

theorem writeAs_obeys (name : String) (h : Handle) (computes : policy.Computes v) :
    Respects policy ((writeAs name h v).run m) := by
  rw [writeAs_run]
  split
  case h_1 => exact obeys
  case h_2 allowed =>
    obtain ⟨cell, found, accepted⟩ := Store.refusal?_eq_none_iff.mp allowed
    have keeps := computes.keeps (obeys.types h cell found) accepted
    exact obeys.written (Store.live_iff.mpr ⟨cell, found⟩) keeps

theorem assign_obeys (id : ScopeId) (name : String) (computes : policy.Computes v) :
    Respects policy ((assign id name v).run m) :=
  (lookupVariable_obeys obeys id name).bind fun h _ obeys => writeAs_obeys obeys name h computes

theorem bindValue_obeys (id : ScopeId) (name : String) (admits : policy.Admits type)
    (computes : policy.Computes v) : Respects policy ((bindValue id name type v).run m) :=
  (declareVariable_obeys obeys id name admits).bind fun h _ obeys =>
    writeAs_obeys obeys name h computes

theorem passReference_obeys (caller : ScopeId) (x : String) (callee : ScopeId) (name : String)
    (type : Ty) : Respects policy ((passReference caller x callee name type).run m) := by
  apply (lookupVariable_obeys obeys caller x).bind
  intro h m' obeys
  rw [bindReference_run]
  split
  · exact obeys
  · split
    · exact obeys.boundReference callee name h
    · exact obeys

theorem close_obeys (id : ScopeId) : Respects policy ((close id).run m) := by
  -- The cells that stay are those that the released scope does not own.
  have stays (h : Handle) (cell : Cell)
      (found : (m.store.releaseAll (((m.scopes[id]?).map (·.owned)).getD [])).cell? h = some cell) :
      m.store.cell? h = some cell := by
    rw [Store.cell?_releaseAll] at found
    split at found
    · cases found
    · exact found
  constructor
  · exact fun id' name v binds => obeys.constants id' name v (of_binds_close rfl binds)
  · exact fun h cell found => obeys.types h cell (stays h cell found)
  · exact fun h cell v found => obeys.contents h cell v (stays h cell found)

end Memory

/-! ## Steps -/

theorem Definition.Obeys.trusts {policy : Policy} {d : Definition} (obeys : d.Obeys policy)
    (home : ScopeId) : policy.Trusts ⟨d.id.name, d.resolved.reverse, d.body, home⟩ :=
  ⟨fun p member => obeys.resolved p (List.mem_reverse.mp member), obeys.body⟩

theorem Call.Obeys.rest {policy : Policy} {call : Call} (obeys : call.Obeys policy) :
    call.rest.Obeys policy :=
  ⟨obeys.body, fun p member => obeys.params p (List.mem_of_mem_drop member), obeys.result⟩

namespace Policy.Backs

variable {policy : Policy} {stack : List Frame} {state : State} {frame : Frame}

theorem top (backs : policy.Backs (frame :: stack) state) : frame.Obeys policy :=
  backs.frames frame List.mem_cons_self

theorem pop (backs : policy.Backs (frame :: stack) state) : policy.Backs stack state :=
  ⟨(List.forall_mem_cons.mp backs.frames).2, backs.memory⟩

variable (backs : policy.Backs stack state)

include backs

theorem push (new : frame.Obeys policy) : policy.Backs (frame :: stack) state :=
  ⟨List.forall_mem_cons.mpr ⟨new, backs.frames⟩, backs.memory⟩

theorem of_memory {state' : State} (memory : state'.memory.Obeys policy) :
    policy.Backs stack state' :=
  ⟨backs.frames, memory⟩

theorem note (settings : Settings) (entry : LogEntry) :
    policy.Backs stack (state.note settings entry) := by
  apply backs.of_memory
  rw [State.note_memory]
  exact backs.memory

end Policy.Backs

namespace Config

variable {settings : Settings} {policy : Policy} {stack : List Frame} {id : ScopeId} {state : State}

namespace Obeys

theorem admits_of_asType {e : Expr} {v : Value} {t : Ty} (computes : policy.Computes v)
    (isType : asType e v = .ok t) : policy.Admits t := by
  unfold asType at isType
  dsimp only at isType
  split at isType
  · cases isType
  · cases isType
    exact computes.inside
  · cases isType

section

variable (backs : policy.Backs stack state)

include backs

theorem failing (f : Failure) : Obeys policy ⟨.failing f, stack, id, state⟩ :=
  ⟨trivial, backs⟩

theorem done : Obeys policy ⟨.done, stack, id, state⟩ :=
  ⟨trivial, backs⟩

variable {α : Type}

theorem tryAccess {action : Memory.Action α} {onOk : α → State → Config} {good : α → Memory → Prop}
    (yields : Memory.Yields (action.run state.memory) good (fun _ m => m.Obeys policy))
    (ok : ∀ a m, good a m → (onOk a { state with memory := m }).Obeys policy) :
    (tryAccess state action stack id onOk).Obeys policy :=
  access_of yields ok fun _ _ memory => .failing (backs.of_memory memory) _

theorem tryAccess_done {action : Memory.Action α}
    (respects : Memory.Respects policy (action.run state.memory)) :
    (Config.tryAccess state action stack id fun _ state => ⟨.done, stack, id, state⟩).Obeys
      policy :=
  .tryAccess backs respects fun _ _ memory => .done (backs.of_memory memory)

theorem orFail {result : Except Cause α} {onOk : α → State → Config}
    (ok : ∀ a, result = .ok a → (onOk a state).Obeys policy) :
    (orFail result stack id state onOk).Obeys policy := by
  cases result with
  | ok a => exact ok a rfl
  | error cause => exact .failing backs _

theorem ofResult {result : Except Cause Value}
    (computes : ∀ v, result = .ok v → policy.Computes v) :
    (ofResult result stack id state).Obeys policy := by
  rw [ofResult_eq]
  exact .orFail backs fun v gives => ⟨computes v gives, backs⟩

theorem beginCall {routine : Routine} (trusts : policy.Trusts routine) {result : Option Ty}
    (admits : ∀ t, result = some t → policy.Admits t) (arguments : List Expr) :
    (beginCall settings routine result arguments stack id state).Obeys policy := by
  unfold Config.beginCall
  split
  · exact .failing backs _
  · split
    · exact .failing backs _
    · exact ⟨⟨trusts.body, trusts.params, admits⟩, backs.of_memory (backs.memory.opened _ _)⟩

theorem evaluate (closed : policy.Closed settings) (e : Expr) :
    (evaluate settings e stack id state).Obeys policy := by
  cases e with
  | hole => exact .failing backs _
  | name x =>
    apply tryAccess backs (Memory.lookup_obeys backs.memory id x.name)
    rintro v m ⟨memory, keeps⟩
    exact ⟨keeps.computes closed, backs.of_memory memory⟩
  | integer n =>
    exact ⟨closed.computes_basic (.integer n) rfl, backs⟩
  | real x =>
    exact ⟨closed.computes_basic (.real x) rfl, backs⟩
  | boolean b =>
    exact ⟨closed.computes_basic (.boolean b) rfl, backs⟩
  | string s =>
    apply ofResult backs
    intro v gives
    exact closed.computes_literal .string rfl (by rintro _ ⟨⟩; rfl) gives
  | char text =>
    apply ofResult backs
    intro v gives
    exact closed.computes_literal .char rfl (fun _ => Value.ofCharText_kind) gives
  | date d =>
    apply ofResult backs
    intro v gives
    exact closed.computes_literal .date rfl (fun _ => Value.ofDate_kind) gives
  | unary | binary => exact ⟨trivial, backs.push trivial⟩
  | call callee arguments =>
    apply tryAccess backs (Memory.lookup_obeys backs.memory id callee.name)
    rintro v m ⟨memory, keeps⟩
    have backs : policy.Backs stack { state with memory := m } := backs.of_memory memory
    cases v with
    | function routine result =>
      obtain ⟨trusts, admits⟩ := keeps.inside
      exact .beginCall backs trusts (fun _ same => by cases same; exact admits) arguments
    | _ => exact .failing backs _

theorem execute (closed : policy.Closed settings) {s : Stmt} (runs : policy.runs s) :
    (execute settings s stack id state).Obeys policy := by
  have allows (block : List Stmt) (member : block ∈ s.blocks) : policy.Allows block :=
    closed.blocks s runs block member
  cases s with
  | declare | constant | assign | output => exact ⟨trivial, backs.push trivial⟩
  | call callee arguments =>
    apply tryAccess backs (Memory.lookup_obeys backs.memory id callee.name)
    rintro v m ⟨memory, keeps⟩
    have backs : policy.Backs stack { state with memory := m } := backs.of_memory memory
    cases v with
    | procedure routine =>
      exact .beginCall backs keeps.inside (fun _ same => by cases same) _
    | function routine result =>
      obtain ⟨trusts, admits⟩ := keeps.inside
      exact .beginCall backs trusts (fun _ same => by cases same; exact admits) _
    | _ => exact .failing backs _
  | returning value =>
    cases value with
    | none => exact ⟨(fun _ same => by cases same), backs⟩
    | some e => exact ⟨trivial, backs.push trivial⟩
  | ifThen condition consequent =>
    have taken := allows consequent (by simp [Stmt.blocks])
    exact ⟨trivial, backs.push ⟨taken, List.forall_mem_nil _⟩⟩
  | ifElse condition consequent alternate =>
    have taken := allows consequent (by simp [Stmt.blocks])
    have otherwise := allows alternate (by simp [Stmt.blocks])
    exact ⟨trivial, backs.push ⟨taken, otherwise⟩⟩
  | forLoop counter first last step body =>
    have inner : policy.Allows body := allows body (by simp [Stmt.blocks])
    exact ⟨trivial, backs.push inner⟩
  | whileLoop condition body =>
    have inner : policy.Allows body := allows body (by simp [Stmt.blocks])
    exact ⟨trivial, backs.push inner⟩
  | doWhile body condition =>
    have inner : policy.Allows body := allows body (by simp [Stmt.blocks])
    exact ⟨inner, backs.push inner⟩
  | procedure name params body | function name params result body =>
    exact ⟨⟨List.forall_mem_nil _, allows body (by simp [Stmt.blocks])⟩, backs⟩

theorem abandon (call : Call) (argument : Span) (f : Failure) :
    (abandon call argument f stack id state).Obeys policy :=
  .tryAccess backs (Memory.close_obeys backs.memory call.callee) fun _ _ memory =>
    .failing (backs.of_memory memory) _

theorem bindNext {call : Call} (obeys : call.Obeys policy) :
    (bindNext settings call stack id state).Obeys policy := by
  unfold Config.bindNext
  split
  case h_1 param params argument arguments paramsEq argumentsEq =>
    split
    · split
      case h_1 x =>
        apply access_of (Memory.passReference_obeys backs.memory id x.name call.callee param.name
          param.type)
        · intro _ m memory
          exact ⟨obeys.rest, backs.of_memory memory⟩
        · intro fault m memory
          exact .abandon (backs.of_memory memory) call _ _
      case h_2 => exact .abandon backs call _ _
    · exact ⟨trivial, backs.push obeys⟩
  case h_2 =>
    have entered : policy.Backs stack { state with depth := state.depth + 1 } :=
      backs.of_memory backs.memory
    exact ⟨obeys.body, (entered.note settings _).push obeys.result⟩

theorem leave (routine : Routine) (callee caller : ScopeId) {control : Control}
    (obeys : control.Obeys policy) :
    (leave settings routine callee caller control stack state).Obeys policy := by
  have noted := backs.note settings (.leave routine.name state.depth)
  have lowered : policy.Backs stack
      { state.note settings (.leave routine.name state.depth) with
        depth := (state.note settings (.leave routine.name state.depth)).depth - 1 } :=
    noted.of_memory noted.memory
  apply tryAccess lowered (Memory.close_obeys lowered.memory callee)
  intro _ m memory
  exact ⟨obeys, backs.of_memory memory⟩

theorem defineNext (closed : policy.Closed settings) {d : Definition} (obeys : d.Obeys policy) :
    (defineNext d stack id state).Obeys policy := by
  unfold Config.defineNext
  split
  · exact ⟨trivial, backs.push obeys⟩
  · exact ⟨trivial, backs.push obeys⟩
  · apply tryAccess_done backs
    apply Memory.declareConstant_obeys backs.memory
    exact fun _ => .of_kind rfl closed.procedure (obeys.trusts id)

theorem iterate (closed : policy.Closed settings) {p : Progression}
    (allows : policy.Allows p.body) : (iterate p stack id state).Obeys policy := by
  unfold Config.iterate
  split
  · have counts : policy.Computes (.integer p.current) := closed.computes_basic (.integer _) rfl
    apply access_of (Memory.writeAs_obeys backs.memory p.counter.name p.slot counts)
    · intro _ m memory
      exact ⟨allows, (backs.of_memory memory).push allows⟩
    · intro fault m memory
      exact .failing (backs.of_memory memory) _
  · exact .done backs

theorem beginLoop {loop : Loop} (allows : policy.Allows loop.body) (first last step : Int64) :
    (beginLoop loop first last step stack id state).Obeys policy := by
  unfold Config.beginLoop
  split
  · exact .failing backs _
  · apply tryAccess backs (Memory.lookupVariable_obeys backs.memory id _)
    intro _ m memory
    exact ⟨allows, backs.of_memory memory⟩

end

section

variable {frame : Frame} (backs : policy.Backs (frame :: stack) state)

include backs

theorem give (closed : policy.Closed settings) {v : Value} (computes : policy.Computes v) :
    (give v frame stack id state).Obeys policy := by
  have top := backs.top
  have below := backs.pop
  cases frame with
  | unary op =>
    exact .ofResult below fun _ => closed.computes_unary op
  | left op operand => exact ⟨trivial, below.push computes⟩
  | right op operand =>
    exact .ofResult below fun _ => closed.computes_binary op top
  | argument call =>
    unfold Config.give
    dsimp only
    split
    case h_1 param params paramsEq =>
      have admits : policy.Admits param.type :=
        top.params param (by rw [paramsEq]; exact List.mem_cons_self)
      apply access_of
        (Memory.bindValue_obeys below.memory call.callee param.name admits computes)
      · intro _ m memory
        exact ⟨top.rest, below.of_memory memory⟩
      · intro fault m memory
        exact .abandon (below.of_memory memory) call _ _
    case h_2 => exact ⟨top, below⟩
  | declaredType name declared =>
    rw [Config.give, withType_eq]
    apply orFail below
    intro t isType
    exact tryAccess_done below
      (Memory.declareVariable_obeys below.memory id _ (admits_of_asType computes isType))
  | constantType name declared value =>
    rw [Config.give, withType_eq]
    apply orFail below
    intro t isType
    have admits : policy.Admits t := admits_of_asType computes isType
    exact ⟨trivial, below.push admits⟩
  | constantValue name t =>
    exact tryAccess_done below
      (Memory.declareConstant_obeys below.memory id _ fun accepted => computes.keeps top accepted)
  | assign target => exact tryAccess_done below (Memory.assign_obeys below.memory id _ computes)
  | output =>
    unfold Config.give
    dsimp only
    split
    · exact .failing below _
    · exact .done (below.of_memory below.memory)
  | returning span =>
    constructor
    · rintro _ ⟨⟩
      exact computes
    · exact below
  | branch consequent alternate =>
    rw [Config.give, withTruth_eq]
    apply orFail below
    intro b _
    cases b with
    | true => exact ⟨top.1, below⟩
    | false => exact ⟨top.2, below⟩
  | loopFirst loop =>
    rw [Config.give, withInteger_eq]
    exact .orFail below fun n _ => ⟨trivial, below.push top⟩
  | loopLast loop first =>
    rw [Config.give, withInteger_eq]
    apply orFail below
    intro n _
    split
    · exact ⟨trivial, below.push top⟩
    · exact .beginLoop below top first n 1
  | loopStep loop first last =>
    rw [Config.give, withInteger_eq]
    exact .orFail below fun n _ => .beginLoop below top first last n
  | whileTest condition body | doTest body condition =>
    rw [Config.give, withTruth_eq]
    apply orFail below
    intro b _
    split
    · exact ⟨top, below.push top⟩
    · exact .done below
  | paramType d =>
    unfold Config.give
    dsimp only
    split
    case h_1 param rest pending =>
      split
      case h_1 t isType =>
        have new : policy.Admits t := admits_of_asType computes isType
        exact ⟨⟨List.forall_mem_cons.mpr ⟨new, top.resolved⟩, top.body⟩, below⟩
      case h_2 => exact .failing below _
    case h_2 => exact ⟨top, below⟩
  | resultType d =>
    rw [Config.give, withType_eq]
    apply orFail below
    intro t isType
    have admits : policy.Admits t := admits_of_asType computes isType
    apply tryAccess_done below
    apply Memory.declareConstant_obeys below.memory
    exact fun _ => .of_kind rfl closed.function ⟨top.trusts id, admits⟩
  | loopBody | whileBody | doBody | block | invocation => exact .done backs

theorem finish : (finish settings frame stack id state).Obeys policy := by
  have top := backs.top
  have below := backs.pop
  cases frame with
  | block rest span => exact ⟨top, below⟩
  | loopBody p =>
    unfold Config.finish
    dsimp only
    split
    case h_1 next found =>
      have allows : policy.Allows next.body := by
        rw [Progression.eq_of_next? found]
        exact top
      exact ⟨allows, below⟩
    case h_2 => exact .done below
  | whileBody condition body | doBody body condition => exact ⟨trivial, below.push top⟩
  | invocation routine result callee caller =>
    cases result with
    | none => exact .leave below routine callee caller trivial
    | some t => exact .leave below routine callee caller trivial
  | _ => exact .done below

theorem unwind {v : Option Value} {span : Span} (computes : ∀ w, v = some w → policy.Computes w) :
    (unwind settings v span frame stack id state).Obeys policy := by
  have below := backs.pop
  cases frame with
  | invocation routine result callee caller =>
    cases result with
    | none => exact .leave below routine callee caller trivial
    | some t =>
      apply leave below
      rcases returned_cases routine t v span with ⟨w, isSome, -, gives⟩ | ⟨f, fails⟩
      · rw [gives]
        exact computes w isSome
      · rw [fails]
        trivial
  | _ => exact ⟨computes, below⟩

theorem propagate (f : Failure) : (propagate settings f frame stack id state).Obeys policy := by
  have below := backs.pop
  cases frame with
  | argument call => exact .abandon below call _ f
  | invocation routine result callee caller => exact .leave below routine callee caller trivial
  | _ => exact .failing below _

end

theorem step {c : Config} (obeys : c.Obeys policy) (closed : policy.Closed settings) :
    (c.step settings).Obeys policy := by
  obtain ⟨control, stack, id, state⟩ := c
  obtain ⟨allowed, backs⟩ := obeys
  cases control with
  | eval e => exact .evaluate backs closed e
  | exec s => exact .execute backs closed allowed
  | run block =>
    cases block with
    | nil => exact .done backs
    | cons s rest =>
      obtain ⟨first, later⟩ := List.forall_mem_cons.mp allowed
      exact ⟨first, backs.push later⟩
  | bind call => exact .bindNext backs allowed
  | define d => exact .defineNext backs closed allowed
  | iterate p => exact .iterate backs closed allowed
  | value v =>
    cases stack with
    | nil => exact ⟨allowed, backs⟩
    | cons frame rest => exact .give backs closed allowed
  | done =>
    cases stack with
    | nil => exact .done backs
    | cons frame rest => exact .finish backs
  | returning v span =>
    cases stack with
    | nil => exact ⟨allowed, backs⟩
    | cons frame rest => exact .unwind backs allowed
  | failing f =>
    cases stack with
    | nil => exact .failing backs f
    | cons frame rest => exact .propagate backs f

end Obeys

theorem advance_obeys {c : Config} (closed : policy.Closed settings) (obeys : c.Obeys policy)
    (n : Nat) : (c.advance settings n).Obeys policy :=
  advance_induction (P := Obeys policy) (fun _ kept => kept.step closed) n obeys

end Config

end Pseudocode
