import Pseudocode.Proofs.Preservation
import Pseudocode.Proofs.Rendering

/-! # Where the parts of a run come from

A run does nothing but what is written in the programs of its session: every expression, statement
and parameter that is on its stack, and every body of a routine that is bound to a name, is a node
of one of them. `Config.From` says so of a configuration, and every step keeps it. It also says of a
failure on its way up what its cause can be, and that its place, once it has one, is that of such a
node. -/

namespace Pseudocode

/-! ## Nodes of texts -/

/-- The nodes of texts that were read: with a node there are its children, and every node can be
written and has a place. -/
structure Textual (nodes : List TreeNode) : Prop where
  children : ∀ n ∈ nodes, ∀ child ∈ n.children, child ∈ nodes
  printable : ∀ n ∈ nodes, n.isPrintable true = true
  spans : ∀ n ∈ nodes, n.span ≠ .zero

/-- The nodes whose places faults are given: statements, parameters, arguments and the counters of
`FOR` loops. -/
inductive TreeNode.Marks : TreeNode → TreeNode → Prop where
  | statement {s : Stmt} : Marks (.stmt s) (.stmt s)
  | parameter {p : Param} : Marks (.param p) (.param p)
  | argument {callee : Ident} {arguments : List Expr} {span : Span} {e : Expr} :
      e ∈ arguments → Marks (.expr (.call callee arguments span)) (.expr e)
  | passed {callee : Ident} {arguments : List Expr} {span : Span} {e : Expr} :
      e ∈ arguments → Marks (.stmt (.call callee (some arguments) span)) (.expr e)
  | counter {counter : Ident} {first last : Expr} {step : Option Expr} {body : List Stmt}
      {span : Span} :
      Marks (.stmt (.forLoop counter first last step body span)) (.expr (.name counter))

/-- One of the nodes marks this one. -/
def Marked (nodes : List TreeNode) (n : TreeNode) : Prop :=
  ∃ m ∈ nodes, m.Marks n

/-- The span is the place of a marked node. -/
def Placed (nodes : List TreeNode) (span : Span) : Prop :=
  ∃ n, Marked nodes n ∧ n.span = span

/-- The statements of the block are among the nodes. -/
def Listed (nodes : List TreeNode) (block : List Stmt) : Prop :=
  ∀ s ∈ block, .stmt s ∈ nodes

namespace Textual

variable {nodes : List TreeNode}

variable (text : Textual nodes)

include text

theorem expr_child {e child : Expr} (isNode : .expr e ∈ nodes) (isChild : child ∈ e.children) :
    .expr child ∈ nodes :=
  text.children _ isNode _ (List.mem_map_of_mem isChild)

theorem stmt_expr {s : Stmt} {e : Expr} (isNode : .stmt s ∈ nodes) (inside : e ∈ s.exprs) :
    .expr e ∈ nodes := by
  refine text.children _ isNode _ (List.mem_append_left _ (List.mem_append_left _ ?_))
  exact List.mem_map_of_mem inside

theorem stmt_param {s : Stmt} {p : Param} (isNode : .stmt s ∈ nodes) (inside : p ∈ s.params) :
    .param p ∈ nodes := by
  refine text.children _ isNode _ (List.mem_append_left _ (List.mem_append_right _ ?_))
  exact List.mem_map_of_mem inside

theorem stmt_block {s : Stmt} {block : List Stmt} (isNode : .stmt s ∈ nodes)
    (inside : block ∈ s.blocks) : Listed nodes block := by
  intro inner member
  refine text.children _ isNode _ (List.mem_append_right _ ?_)
  exact List.mem_map_of_mem (List.mem_flatten.mpr ⟨block, inside, member⟩)

theorem param_declared {p : Param} (isNode : .param p ∈ nodes) : .expr p.declared ∈ nodes :=
  text.children _ isNode _ (by simp [TreeNode.children])

theorem mem_of_marked {n : TreeNode} (marked : Marked nodes n) : n ∈ nodes := by
  obtain ⟨m, isNode, marks⟩ := marked
  cases marks with
  | statement | parameter => exact isNode
  | argument member => exact text.expr_child isNode (by simp [Expr.children, member])
  | passed member => exact text.stmt_expr isNode (by simp [Stmt.exprs, member])
  | counter => exact text.stmt_expr isNode (by simp [Stmt.exprs])

theorem placed_ne {span : Span} (placed : Placed nodes span) : span ≠ .zero := by
  obtain ⟨n, marked, rfl⟩ := placed
  exact text.spans n (text.mem_of_marked marked)

end Textual

variable {nodes : List TreeNode}

theorem Placed.stmt {s : Stmt} (isNode : .stmt s ∈ nodes) : Placed nodes s.span :=
  ⟨_, ⟨_, isNode, .statement⟩, rfl⟩

/-! ## Faults -/

/-- The fault has no place yet or that of a marked node. Its cause is not internal, unless a handle
has no cell. -/
structure Fault.From (nodes : List TreeNode) (f : Fault) : Prop where
  placed : f.span ≠ .zero → Placed nodes f.span
  proper : f.cause.isInternal = true → ∃ h, f.cause = .notLive h

/-- The output is closed, or there is a fault from these nodes. -/
inductive Failure.From (nodes : List TreeNode) : Failure → Prop where
  | output : Failure.From nodes .output
  | fault {f : Fault} : f.From nodes → Failure.From nodes (.fault f)

namespace Fault

variable {nodes : List TreeNode} {f : Fault} {cause : Cause} {span : Span}

theorem From.of (proper : cause.isInternal = true → ∃ h, cause = .notLive h) :
    (Fault.of cause).From nodes :=
  ⟨fun placed => (placed rfl).elim, proper⟩

theorem From.annotate (isFrom : f.From nodes) (name : String) : (f.annotate name).From nodes := by
  constructor
  · have same : (f.annotate name).span = f.span := by
      unfold Fault.annotate
      split <;> rfl
    rw [same]
    exact isFrom.placed
  · rw [annotate_cause]
    exact isFrom.proper

/-- A place that is noted counts only if there was none before. -/
theorem withSpan_span (f : Fault) (span : Span) :
    (f.withSpan span).span = if f.span = .zero then span else f.span := by
  simp only [Fault.withSpan, Span.isZero, decide_eq_true_eq]
  split <;> rfl

theorem From.withSpan (isFrom : f.From nodes) (known : span ≠ .zero → Placed nodes span) :
    (f.withSpan span).From nodes := by
  constructor
  · rw [withSpan_span]
    split
    · exact known
    · exact isFrom.placed
  · rw [withSpan_cause]
    exact isFrom.proper

theorem From.not_internal (isFrom : f.From nodes) (tame : f.cause.Tame) :
    f.cause.isInternal = false := by
  refine Bool.eq_false_iff.mpr fun internal => ?_
  obtain ⟨h, same⟩ := isFrom.proper internal
  exact tame h same

end Fault

namespace Failure

variable {nodes : List TreeNode} {f : Failure} {cause : Cause} {span : Span}

theorem From.of (proper : cause.isInternal = true → ∃ h, cause = .notLive h) :
    (Failure.of cause).From nodes :=
  .fault (.of proper)

theorem From.of_proper (proper : cause.isInternal = false) : (Failure.of cause).From nodes :=
  .of fun internal => absurd internal (Bool.eq_false_iff.mp proper)

theorem From.annotate (isFrom : f.From nodes) (name : String) : (f.annotate name).From nodes := by
  cases isFrom with
  | output => exact .output
  | fault isFrom => exact .fault (isFrom.annotate name)

theorem From.withSpan (isFrom : f.From nodes) (known : span ≠ .zero → Placed nodes span) :
    (f.withSpan span).From nodes := by
  cases isFrom with
  | output => exact .output
  | fault isFrom => exact .fault (isFrom.withSpan known)

end Failure

/-! ## What operators refuse -/

theorem Answered.proper {cause : Cause} (answered : Answered (.error cause)) :
    cause.isInternal = false := by
  cases answered with
  | refused proper => exact proper

theorem UnaryOp.apply_proper {op : UnaryOp} {v : Value} {cause : Cause} (known : op.isKnown = true)
    (failed : op.apply v = .error cause) : cause.isInternal = false := by
  rcases op.apply_cases v with answered | ⟨sign, rfl⟩
  · exact (failed ▸ answered).proper
  · cases known

theorem BinaryOp.apply_proper {op : BinaryOp} {l r : Value} {cause : Cause}
    (known : op.isKnown = true) (failed : op.apply l r = .error cause) :
    cause.isInternal = false := by
  rcases op.apply_cases l r with answered | ⟨-, a, b, -, -, gives⟩ | ⟨sign, rfl⟩
  · exact (failed ▸ answered).proper
  · cases failed.symm.trans gives
  · cases known

/-! ## What a configuration holds -/

/-- If the value is a routine, its body is among the nodes. -/
def Value.From (nodes : List TreeNode) : Value → Prop
  | procedure r | function r _ => Listed nodes r.body
  | _ => True

theorem Value.Plain.isFrom {v : Value} (plain : v.Plain) (nodes : List TreeNode) :
    v.From nodes := by
  cases v with
  | procedure | function => exact plain.elim
  | _ => trivial

structure Call.From (nodes : List TreeNode) (call : Call) : Prop where
  body : Listed nodes call.routine.body
  arguments : ∀ e ∈ call.arguments, Marked nodes (.expr e)

structure Definition.From (nodes : List TreeNode) (d : Definition) : Prop where
  pending : ∀ p ∈ d.pending, .param p ∈ nodes
  result : ∀ e, d.result = some e → .expr e ∈ nodes
  body : Listed nodes d.body

structure Loop.From (nodes : List TreeNode) (loop : Loop) : Prop where
  counter : Marked nodes (.expr (.name loop.counter))
  last : .expr loop.last ∈ nodes
  step : ∀ e, loop.step = some e → .expr e ∈ nodes
  body : Listed nodes loop.body

structure Progression.From (nodes : List TreeNode) (p : Progression) : Prop where
  counter : Marked nodes (.expr (.name p.counter))
  body : Listed nodes p.body

def Frame.From (nodes : List TreeNode) : Frame → Prop
  | .unary op => op.isKnown = true
  | .left op operand => op.isKnown = true ∧ .expr operand ∈ nodes
  | .right op _ => op.isKnown = true
  | .argument call => call.From nodes
  | .constantType _ _ value => .expr value ∈ nodes
  | .returning span => Placed nodes span
  | .branch consequent alternate => Listed nodes consequent ∧ Listed nodes alternate
  | .loopFirst loop | .loopLast loop _ | .loopStep loop _ _ => loop.From nodes
  | .loopBody p => p.From nodes
  | .whileTest condition body | .whileBody condition body | .doTest body condition
  | .doBody body condition => .expr condition ∈ nodes ∧ Listed nodes body
  | .paramType d | .resultType d => d.From nodes
  | .block rest span => Listed nodes rest ∧ Placed nodes span
  | .declaredType _ _ | .constantValue _ _ | .assign _ | .output | .invocation _ _ _ _ => True

def Control.From (nodes : List TreeNode) : Control → Prop
  | .eval e => .expr e ∈ nodes
  | .exec s => .stmt s ∈ nodes
  | .run block => Listed nodes block
  | .bind call => call.From nodes
  | .define d => d.From nodes
  | .iterate p => p.From nodes
  | .value v => v.From nodes
  | .done => True
  | .returning v span => (∀ w, v = some w → w.From nodes) ∧ Placed nodes span
  | .failing f => f.From nodes

/-- The routines among the constants have their bodies among the nodes. -/
def Memory.From (nodes : List TreeNode) (m : Memory) : Prop :=
  ∀ id name v, m.Binds id name (.constant v) → v.From nodes

/-- What a configuration holds apart from its control. -/
structure Behind (nodes : List TreeNode) (stack : List Frame) (state : State) : Prop where
  frames : ∀ frame ∈ stack, frame.From nodes
  memory : state.memory.From nodes

structure Config.From (nodes : List TreeNode) (c : Config) : Prop where
  control : c.control.From nodes
  behind : Behind nodes c.stack c.state

theorem Call.From.rest {call : Call} (isFrom : call.From nodes) : call.rest.From nodes :=
  ⟨isFrom.body, fun e member => isFrom.arguments e (List.mem_of_mem_drop member)⟩

theorem Call.From.span {call : Call} (isFrom : call.From nodes) (some : call.span ≠ .zero) :
    Placed nodes call.span := by
  obtain ⟨routine, result, callee, params, arguments⟩ := call
  cases arguments with
  | nil => exact (some rfl).elim
  | cons e rest => exact ⟨_, isFrom.arguments e List.mem_cons_self, rfl⟩

/-! ## Memory -/

namespace Memory

variable {nodes : List TreeNode} {m : Memory} {id : ScopeId} {name : String} {type : Ty}

namespace From

variable (isFrom : m.From nodes)

include isFrom

theorem opened (parent : ScopeId) (label : String) : (m.opened parent label).From nodes :=
  fun id name v binds => isFrom id name v (binds_opened.mp binds)

theorem written (h : Handle) (v : Value) : (m.written h v).From nodes :=
  isFrom

theorem extended {b : Binding} (new : ∀ v, b = .constant v → v.From nodes) (id : ScopeId)
    (name : String) (cells : List Handle) (store : Store) :
    (m.extended id name b cells store).From nodes := by
  intro id' name' v binds
  rcases of_binds_extended binds with old | rfl
  · exact isFrom id' name' v old
  · exact new v rfl

theorem boundReference (id : ScopeId) (name : String) (h : Handle) :
    (m.bound id name (.slot h)).From nodes :=
  isFrom.extended (fun _ same => by cases same) id name _ _

theorem declared (id : ScopeId) (name : String) (type : Ty) :
    (m.declared id name type).From nodes :=
  isFrom.extended (fun _ same => by cases same) id name _ _

end From

/-- A fault from these nodes, with a memory from them. -/
abbrev Fails (nodes : List TreeNode) (fault : Fault) (m : Memory) : Prop :=
  m.From nodes ∧ fault.From nodes

variable (isFrom : m.From nodes)

include isFrom

theorem lookup_from (sound : m.Sound) (id : ScopeId) (name : String) :
    Yields ((lookup id name).run m) (fun v m' => m'.From nodes ∧ v.From nodes) (Fails nodes) := by
  rw [lookup_run]
  split
  case h_1 => exact ⟨isFrom, .of nofun⟩
  case h_2 v resolved =>
    obtain ⟨a, -, binds⟩ := resolve?_onChain resolved
    exact ⟨isFrom, isFrom a name v binds⟩
  case h_3 h resolved =>
    split
    case h_1 v read => exact ⟨isFrom, (sound.get_plain read).isFrom nodes⟩
    case h_2 cause failed =>
      refine ⟨isFrom, Fault.From.annotate (.of fun internal => ?_) name⟩
      rcases Store.get_eq_error failed with ⟨-, rfl⟩ | ⟨type, rfl⟩
      · exact ⟨h, rfl⟩
      · cases internal

theorem lookupVariable_from (id : ScopeId) (name : String) :
    Yields ((lookupVariable id name).run m) (fun _ m' => m'.From nodes) (Fails nodes) := by
  rw [lookupVariable_run]
  split
  · exact ⟨isFrom, .of nofun⟩
  · exact ⟨isFrom, .of nofun⟩
  · exact isFrom

theorem declareVariable_from (id : ScopeId) (name : String) (type : Ty) :
    Yields ((declareVariable id name type).run m) (fun _ m' => m'.From nodes) (Fails nodes) := by
  rw [declareVariable_run]
  split
  · exact ⟨isFrom, .of nofun⟩
  · exact isFrom.declared id name type

theorem declareConstant_from (id : ScopeId) (name : String) (type : Ty) {v : Value}
    (new : v.From nodes) :
    Yields ((declareConstant id name type v).run m) (fun _ m' => m'.From nodes) (Fails nodes) := by
  rw [declareConstant_run]
  split
  · exact ⟨isFrom, .of nofun⟩
  · split
    · refine isFrom.extended ?_ id name _ _
      rintro _ ⟨⟩
      exact new
    · exact ⟨isFrom, Fault.From.annotate (.of fun internal => by cases internal) name⟩

theorem writeAs_from (name : String) (h : Handle) (v : Value) :
    Yields ((writeAs name h v).run m) (fun _ m' => m'.From nodes) (Fails nodes) := by
  rw [writeAs_run]
  split
  case h_1 cause refused =>
    refine ⟨isFrom, Fault.From.annotate (.of fun internal => ?_) name⟩
    rcases Store.refusal?_eq_some refused with ⟨-, rfl⟩ | ⟨type, rfl⟩
    · exact ⟨h, rfl⟩
    · cases internal
  case h_2 => exact isFrom.written h v

theorem assign_from (id : ScopeId) (name : String) (v : Value) :
    Yields ((assign id name v).run m) (fun _ m' => m'.From nodes) (Fails nodes) :=
  (lookupVariable_from isFrom id name).bind fun h _ isFrom => writeAs_from isFrom name h v

theorem bindValue_from (id : ScopeId) (name : String) (type : Ty) (v : Value) :
    Yields ((bindValue id name type v).run m) (fun _ m' => m'.From nodes) (Fails nodes) :=
  (declareVariable_from isFrom id name type).bind fun h _ isFrom => writeAs_from isFrom name h v

theorem passReference_from (caller : ScopeId) (x : String) (callee : ScopeId) (name : String)
    (type : Ty) :
    Yields ((passReference caller x callee name type).run m) (fun _ m' => m'.From nodes)
      (Fails nodes) := by
  refine (lookupVariable_from isFrom caller x).bind fun h m' isFrom => ?_
  rw [bindReference_run]
  split
  · exact ⟨isFrom, .of nofun⟩
  · split
    · exact isFrom.boundReference callee name h
    · exact ⟨isFrom, .of nofun⟩

theorem close_from (id : ScopeId) :
    Yields ((close id).run m) (fun _ m' => m'.From nodes) (fun _ _ => False) :=
  fun id' name v binds => isFrom id' name v (of_binds_close rfl binds)

end Memory

/-! ## Steps -/

namespace Behind

variable {nodes : List TreeNode} {stack : List Frame} {state : State} {frame : Frame}

theorem top (behind : Behind nodes (frame :: stack) state) : frame.From nodes :=
  behind.frames frame List.mem_cons_self

theorem pop (behind : Behind nodes (frame :: stack) state) : Behind nodes stack state :=
  ⟨(List.forall_mem_cons.mp behind.frames).2, behind.memory⟩

variable (behind : Behind nodes stack state)

include behind

theorem push (new : frame.From nodes) : Behind nodes (frame :: stack) state :=
  ⟨List.forall_mem_cons.mpr ⟨new, behind.frames⟩, behind.memory⟩

theorem of_memory {state' : State} (memory : state'.memory.From nodes) :
    Behind nodes stack state' :=
  ⟨behind.frames, memory⟩

theorem note (settings : Settings) (entry : LogEntry) :
    Behind nodes stack (state.note settings entry) := by
  refine behind.of_memory ?_
  rw [State.note_memory]
  exact behind.memory

end Behind

namespace Config

variable {settings : Settings} {nodes : List TreeNode} {stack : List Frame} {id : ScopeId}
  {state : State} {cause : Cause} {v : Value} {result : Except Cause Value} {α : Type}

theorem optionalLiteral_proper {kind : Kind}
    (proper : result = .error cause → cause.isInternal = false)
    (failed : optionalLiteral settings kind result = .error cause) : cause.isInternal = false := by
  unfold optionalLiteral at failed
  split at failed
  · exact proper failed
  · cases failed
    rfl

theorem ofCharText_proper {text : String} (failed : Value.ofCharText text = .error cause) :
    cause.isInternal = false := by
  unfold Value.ofCharText at failed
  split at failed <;> cases failed
  rfl

theorem ofDate_proper {d : Date} (failed : Value.ofDate d = .error cause) :
    cause.isInternal = false := by
  unfold Value.ofDate at failed
  split at failed <;> cases failed
  rfl

theorem asType_proper {e : Expr} (failed : asType e v = .error cause) :
    cause.isInternal = false := by
  unfold asType at failed
  dsimp only at failed
  split at failed <;> cases failed
  all_goals rfl

theorem asTruth_proper (failed : asTruth v = .error cause) : cause.isInternal = false := by
  cases v <;> cases failed <;> rfl

theorem asInteger_proper {part : LoopPart} (failed : asInteger part v = .error cause) :
    cause.isInternal = false := by
  cases v <;> cases failed <;> rfl

section

variable (behind : Behind nodes stack state)

include behind

theorem fail_from (proper : cause.isInternal = false) : (fail cause stack id state).From nodes :=
  ⟨.of_proper proper, behind⟩

theorem orFail_from {result : Except Cause α} {onOk : α → State → Config}
    (proper : ∀ cause, result = .error cause → cause.isInternal = false)
    (ok : ∀ a, result = .ok a → (onOk a state).From nodes) :
    (orFail result stack id state onOk).From nodes := by
  cases result with
  | ok a => exact ok a rfl
  | error cause => exact fail_from behind (proper cause rfl)

theorem ofResult_from (computed : Computed result)
    (proper : ∀ cause, result = .error cause → cause.isInternal = false) :
    (ofResult result stack id state).From nodes := by
  rw [ofResult_eq]
  refine orFail_from behind proper fun v gives => ⟨?_, behind⟩
  subst gives
  exact Value.Plain.isFrom computed nodes

theorem tryAccess_from {action : Memory.Action α} {onOk : α → State → Config}
    {good : α → Memory → Prop}
    (yields : Memory.Yields (action.run state.memory) good (Memory.Fails nodes))
    (ok : ∀ a m, good a m → (onOk a { state with memory := m }).From nodes) :
    (tryAccess state action stack id onOk).From nodes :=
  access_of yields ok fun _ _ fails => ⟨.fault fails.2, behind.of_memory fails.1⟩

theorem tryAccess_done {action : Memory.Action α}
    (yields : Memory.Yields (action.run state.memory) (fun _ m => m.From nodes)
      (Memory.Fails nodes)) :
    (tryAccess state action stack id fun _ state => ⟨.done, stack, id, state⟩).From nodes :=
  tryAccess_from behind yields fun _ _ memory => ⟨trivial, behind.of_memory memory⟩

theorem beginCall_from {routine : Routine} (body : Listed nodes routine.body) (result : Option Ty)
    {arguments : List Expr} (marked : ∀ e ∈ arguments, Marked nodes (.expr e)) :
    (beginCall settings routine result arguments stack id state).From nodes := by
  unfold beginCall
  split
  · exact fail_from behind rfl
  · split
    · exact fail_from behind rfl
    · exact ⟨⟨body, marked⟩, behind.of_memory (behind.memory.opened _ _)⟩

theorem evaluate_from (text : Textual nodes) (sound : state.memory.Sound) {e : Expr}
    (isNode : .expr e ∈ nodes) : (evaluate settings e stack id state).From nodes := by
  cases e with
  | hole => cases text.printable _ isNode
  | name x =>
    refine tryAccess_from behind (Memory.lookup_from behind.memory sound id x.name) ?_
    intro v m found
    exact ⟨found.2, behind.of_memory found.1⟩
  | integer | real | boolean => exact ⟨trivial, behind⟩
  | string s =>
    exact ofResult_from behind (optionalLiteral_computed settings .string trivial) fun _ =>
      optionalLiteral_proper nofun
  | char s =>
    exact ofResult_from behind
      (optionalLiteral_computed settings .char (Value.ofCharText_computed s)) fun _ =>
      optionalLiteral_proper ofCharText_proper
  | date d =>
    exact ofResult_from behind
      (optionalLiteral_computed settings .date (Value.ofDate_computed d)) fun _ =>
      optionalLiteral_proper ofDate_proper
  | unary op operand span =>
    have known : op.isKnown = true := text.printable _ isNode
    exact ⟨text.expr_child isNode (by simp [Expr.children]), behind.push known⟩
  | binary op left right span =>
    have known : op.isKnown = true := text.printable _ isNode
    have operand (e : Expr) (member : e ∈ [left, right]) : .expr e ∈ nodes :=
      text.expr_child isNode member
    exact ⟨operand left (by simp), behind.push ⟨known, operand right (by simp)⟩⟩
  | call callee arguments span =>
    refine tryAccess_from behind (Memory.lookup_from behind.memory sound id callee.name) ?_
    rintro v m ⟨memory, isFrom⟩
    have behind : Behind nodes stack { state with memory := m } := behind.of_memory memory
    cases v with
    | function routine result =>
      exact beginCall_from behind isFrom _ fun e member => ⟨_, isNode, .argument member⟩
    | _ => exact fail_from behind rfl

theorem execute_from (text : Textual nodes) (sound : state.memory.Sound) {s : Stmt}
    (isNode : .stmt s ∈ nodes) : (execute settings s stack id state).From nodes := by
  have expr (e : Expr) (member : e ∈ s.exprs) : .expr e ∈ nodes := text.stmt_expr isNode member
  have block (body : List Stmt) (member : body ∈ s.blocks) : Listed nodes body :=
    text.stmt_block isNode member
  cases s with
  | declare name declared span =>
    exact ⟨expr declared (by simp [Stmt.exprs]), behind.push trivial⟩
  | constant name declared value span =>
    exact ⟨expr declared (by simp [Stmt.exprs]), behind.push (expr value (by simp [Stmt.exprs]))⟩
  | assign target value span | output value span =>
    exact ⟨expr value (by simp [Stmt.exprs]), behind.push trivial⟩
  | call callee arguments span =>
    have marked : ∀ e ∈ arguments.getD [], Marked nodes (.expr e) := by
      intro e member
      cases arguments with
      | none => cases member
      | some arguments => exact ⟨_, isNode, .passed member⟩
    refine tryAccess_from behind (Memory.lookup_from behind.memory sound id callee.name) ?_
    rintro v m ⟨memory, isFrom⟩
    have behind : Behind nodes stack { state with memory := m } := behind.of_memory memory
    cases v with
    | procedure routine => exact beginCall_from behind isFrom none marked
    | function routine result => exact beginCall_from behind isFrom (some result) marked
    | _ => exact fail_from behind rfl
  | returning value span =>
    cases value with
    | none => exact ⟨⟨nofun, .stmt isNode⟩, behind⟩
    | some e =>
      exact ⟨expr e (by simp [Stmt.exprs]), behind.push (Placed.stmt isNode)⟩
  | ifThen condition consequent span =>
    refine ⟨expr condition (by simp [Stmt.exprs]), behind.push ⟨?_, List.forall_mem_nil _⟩⟩
    exact block consequent (by simp [Stmt.blocks])
  | ifElse condition consequent alternate span =>
    refine ⟨expr condition (by simp [Stmt.exprs]), behind.push ⟨?_, ?_⟩⟩
    · exact block consequent (by simp [Stmt.blocks])
    · exact block alternate (by simp [Stmt.blocks])
  | forLoop counter first last step body span =>
    refine ⟨expr first (by simp [Stmt.exprs]), behind.push ⟨⟨_, isNode, .counter⟩, ?_, ?_, ?_⟩⟩
    · exact expr last (by simp [Stmt.exprs])
    · rintro e rfl
      exact expr e (by simp [Stmt.exprs])
    · exact block body (by simp [Stmt.blocks])
  | whileLoop condition body span =>
    have test := expr condition (by simp [Stmt.exprs])
    exact ⟨test, behind.push ⟨test, block body (by simp [Stmt.blocks])⟩⟩
  | doWhile body condition span =>
    have inner := block body (by simp [Stmt.blocks])
    exact ⟨inner, behind.push ⟨expr condition (by simp [Stmt.exprs]), inner⟩⟩
  | procedure name params body span =>
    refine ⟨⟨?_, nofun, block body (by simp [Stmt.blocks])⟩, behind⟩
    exact fun p member => text.stmt_param isNode member
  | function name params result body span =>
    refine ⟨⟨?_, ?_, block body (by simp [Stmt.blocks])⟩, behind⟩
    · exact fun p member => text.stmt_param isNode member
    · rintro _ ⟨⟩
      exact expr result (by simp [Stmt.exprs])

theorem abandon_from (call : Call) {argument : Span}
    (known : argument ≠ .zero → Placed nodes argument) {f : Failure} (isFrom : f.From nodes) :
    (abandon call argument f stack id state).From nodes := by
  unfold abandon tryAccess
  refine access_of (Memory.close_from behind.memory call.callee) ?_ fun _ _ never => never.elim
  exact fun _ m memory => ⟨isFrom.withSpan known, behind.of_memory memory⟩

theorem bindNext_from (text : Textual nodes) {call : Call} (isFrom : call.From nodes) :
    (bindNext settings call stack id state).From nodes := by
  unfold bindNext
  split
  case h_1 param params argument arguments paramsEq argumentsEq =>
    have marked : Marked nodes (.expr argument) :=
      isFrom.arguments argument (by rw [argumentsEq]; exact List.mem_cons_self)
    split
    · split
      case h_1 x =>
        refine access_of (Memory.passReference_from behind.memory id x.name call.callee param.name
          param.type) ?_ ?_
        · exact fun _ m memory => ⟨isFrom.rest, behind.of_memory memory⟩
        · intro fault m fails
          exact abandon_from (behind.of_memory fails.1) call (fun _ => ⟨_, marked, rfl⟩)
            (.fault fails.2)
      case h_2 =>
        exact abandon_from behind call (fun _ => ⟨_, marked, rfl⟩) (.of nofun)
    · exact ⟨text.mem_of_marked marked, behind.push isFrom⟩
  case h_2 =>
    have entered : Behind nodes stack { state with depth := state.depth + 1 } :=
      behind.of_memory behind.memory
    exact ⟨isFrom.body, (entered.note settings _).push trivial⟩

theorem leave_from (routine : Routine) (callee caller : ScopeId) {control : Control}
    (isFrom : control.From nodes) :
    (leave settings routine callee caller control stack state).From nodes := by
  unfold leave tryAccess
  have noted := behind.note settings (.leave routine.name state.depth)
  refine access_of (Memory.close_from noted.memory callee) ?_ fun _ _ never => never.elim
  exact fun _ m memory => ⟨isFrom, behind.of_memory memory⟩

theorem defineNext_from (text : Textual nodes) {d : Definition} (isFrom : d.From nodes) :
    (defineNext d stack id state).From nodes := by
  unfold defineNext
  split
  case h_1 param rest pending =>
    have isNode := isFrom.pending param (by rw [pending]; exact List.mem_cons_self)
    exact ⟨text.param_declared isNode, behind.push isFrom⟩
  case h_2 result _ isResult => exact ⟨isFrom.result result isResult, behind.push isFrom⟩
  case h_3 =>
    exact tryAccess_done behind (Memory.declareConstant_from behind.memory id _ _ isFrom.body)

theorem iterate_from {p : Progression} (isFrom : p.From nodes) :
    (iterate p stack id state).From nodes := by
  unfold iterate
  split
  · refine access_of (Memory.writeAs_from behind.memory p.counter.name p.slot _) ?_ ?_
    · exact fun _ m memory => ⟨isFrom.body, (behind.of_memory memory).push isFrom⟩
    · intro fault m fails
      exact ⟨.fault (fails.2.withSpan fun _ => ⟨_, isFrom.counter, rfl⟩), behind.of_memory fails.1⟩
  · exact ⟨trivial, behind⟩

theorem beginLoop_from {loop : Loop} (isFrom : loop.From nodes) (first last step : Int64) :
    (beginLoop loop first last step stack id state).From nodes := by
  unfold beginLoop
  split
  · exact fail_from behind rfl
  · refine tryAccess_from behind (Memory.lookupVariable_from behind.memory id _) ?_
    exact fun _ m memory => ⟨⟨isFrom.counter, isFrom.body⟩, behind.of_memory memory⟩

end

theorem returned_from (routine : Routine) (result : Ty) {v : Option Value} {span : Span}
    (isFrom : ∀ w, v = some w → w.From nodes) (placed : Placed nodes span) :
    (returned routine result v span).From nodes := by
  cases v with
  | none => exact Failure.From.withSpan (.of nofun) fun _ => placed
  | some w =>
    unfold returned
    dsimp only
    split
    · exact isFrom w rfl
    · have mismatch : (Failure.of (.notMember result w.described)).From nodes := .of nofun
      exact (mismatch.annotate routine.name).withSpan fun _ => placed

section

variable {frame : Frame} (behind : Behind nodes (frame :: stack) state)

include behind

theorem give_from (isFrom : v.From nodes) : (give v frame stack id state).From nodes := by
  have top := behind.top
  have below := behind.pop
  cases frame with
  | unary op =>
    exact ofResult_from below (op.apply_computed v) fun _ => UnaryOp.apply_proper top
  | left op operand => exact ⟨top.2, below.push top.1⟩
  | right op operand =>
    exact ofResult_from below (op.apply_computed operand v) fun _ => BinaryOp.apply_proper top
  | argument call =>
    unfold give
    dsimp only
    split
    · refine access_of (Memory.bindValue_from below.memory call.callee _ _ v) ?_ ?_
      · exact fun _ m memory => ⟨top.rest, below.of_memory memory⟩
      · intro fault m fails
        exact abandon_from (below.of_memory fails.1) call top.span (.fault fails.2)
    · exact ⟨top, below⟩
  | declaredType name declared =>
    rw [give, withType_eq]
    refine orFail_from below (fun _ => asType_proper) fun t _ => ?_
    exact tryAccess_done below (Memory.declareVariable_from below.memory id _ t)
  | constantType name declared value =>
    rw [give, withType_eq]
    exact orFail_from below (fun _ => asType_proper) fun t _ => ⟨top, below.push trivial⟩
  | constantValue name t =>
    exact tryAccess_done below (Memory.declareConstant_from below.memory id _ t isFrom)
  | assign target => exact tryAccess_done below (Memory.assign_from below.memory id _ v)
  | output =>
    unfold give
    dsimp only
    split
    · exact ⟨.output, below⟩
    · exact ⟨trivial, below.of_memory below.memory⟩
  | returning span =>
    refine ⟨⟨?_, top⟩, below⟩
    rintro _ ⟨⟩
    exact isFrom
  | branch consequent alternate =>
    rw [give, withTruth_eq]
    refine orFail_from below (fun _ => asTruth_proper) fun b _ => ⟨?_, below⟩
    cases b with
    | true => exact top.1
    | false => exact top.2
  | loopFirst loop =>
    rw [give, withInteger_eq]
    exact orFail_from below (fun _ => asInteger_proper) fun n _ => ⟨top.last, below.push top⟩
  | loopLast loop first =>
    rw [give, withInteger_eq]
    refine orFail_from below (fun _ => asInteger_proper) fun n _ => ?_
    split
    case h_1 step isStep => exact ⟨top.step step isStep, below.push top⟩
    case h_2 => exact beginLoop_from below top first n 1
  | loopStep loop first last =>
    rw [give, withInteger_eq]
    exact orFail_from below (fun _ => asInteger_proper) fun n _ =>
      beginLoop_from below top first last n
  | whileTest condition body | doTest body condition =>
    rw [give, withTruth_eq]
    refine orFail_from below (fun _ => asTruth_proper) fun b _ => ?_
    split
    · exact ⟨top.2, below.push top⟩
    · exact ⟨trivial, below⟩
  | paramType d =>
    unfold give
    dsimp only
    split
    case h_1 param rest pending =>
      obtain ⟨isNode, later⟩ : .param param ∈ nodes ∧ ∀ p ∈ rest, .param p ∈ nodes := by
        have pendings := top.pending
        rw [pending] at pendings
        exact List.forall_mem_cons.mp pendings
      split
      · exact ⟨⟨later, top.result, top.body⟩, below⟩
      case h_2 cause failed =>
        refine ⟨Failure.From.withSpan (.of_proper (asType_proper failed)) fun _ => ?_, below⟩
        exact ⟨_, ⟨_, isNode, .parameter⟩, rfl⟩
    case h_2 => exact ⟨top, below⟩
  | resultType d =>
    rw [give, withType_eq]
    refine orFail_from below (fun _ => asType_proper) fun t _ => ?_
    exact tryAccess_done below (Memory.declareConstant_from below.memory id _ _ top.body)
  | loopBody | whileBody | doBody | block | invocation => exact ⟨trivial, behind⟩

theorem finish_from : (finish settings frame stack id state).From nodes := by
  have top := behind.top
  have below := behind.pop
  cases frame with
  | block rest span => exact ⟨top.1, below⟩
  | loopBody p =>
    unfold finish
    dsimp only
    split
    case h_1 next found =>
      obtain rfl := Progression.eq_of_next? found
      exact ⟨⟨top.counter, top.body⟩, below⟩
    case h_2 => exact ⟨trivial, below⟩
  | whileBody condition body | doBody body condition => exact ⟨top.1, below.push top⟩
  | invocation routine result callee caller =>
    cases result with
    | none => exact leave_from below routine callee caller trivial
    | some t => exact leave_from below routine callee caller (.of nofun)
  | _ => exact ⟨trivial, below⟩

theorem unwind_from {v : Option Value} {span : Span} (isFrom : ∀ w, v = some w → w.From nodes)
    (placed : Placed nodes span) : (unwind settings v span frame stack id state).From nodes := by
  have below := behind.pop
  cases frame with
  | invocation routine result callee caller =>
    cases result with
    | none => exact leave_from below routine callee caller trivial
    | some t =>
      exact leave_from below routine callee caller (returned_from routine t isFrom placed)
  | _ => exact ⟨⟨isFrom, placed⟩, below⟩

theorem propagate_from {f : Failure} (isFrom : f.From nodes) :
    (propagate settings f frame stack id state).From nodes := by
  have top := behind.top
  have below := behind.pop
  cases frame with
  | block rest span => exact ⟨isFrom.withSpan fun _ => top.2, below⟩
  | argument call => exact abandon_from below call top.span isFrom
  | paramType d =>
    refine ⟨isFrom.withSpan fun some => ?_, below⟩
    obtain ⟨name, pending, resolved, result, body⟩ := d
    cases pending with
    | nil => exact (some rfl).elim
    | cons p rest => exact ⟨_, ⟨_, top.pending p List.mem_cons_self, .parameter⟩, rfl⟩
  | invocation routine result callee caller => exact leave_from below routine callee caller isFrom
  | _ => exact ⟨isFrom, below⟩

end

theorem step_from {c : Config} (text : Textual nodes) (sound : c.state.memory.Sound)
    (isFrom : c.From nodes) : (c.step settings).From nodes := by
  obtain ⟨control, stack, id, state⟩ := c
  obtain ⟨isFrom, behind⟩ := isFrom
  cases control with
  | eval e => exact evaluate_from behind text sound isFrom
  | exec s => exact execute_from behind text sound isFrom
  | run block =>
    cases block with
    | nil => exact ⟨trivial, behind⟩
    | cons s rest =>
      obtain ⟨isNode, later⟩ := List.forall_mem_cons.mp isFrom
      exact ⟨isNode, behind.push ⟨later, .stmt isNode⟩⟩
  | bind call => exact bindNext_from behind text isFrom
  | define d => exact defineNext_from behind text isFrom
  | iterate p => exact iterate_from behind isFrom
  | value v =>
    cases stack with
    | nil => exact ⟨isFrom, behind⟩
    | cons frame rest => exact give_from behind isFrom
  | done =>
    cases stack with
    | nil => exact ⟨trivial, behind⟩
    | cons frame rest => exact finish_from behind
  | returning v span =>
    cases stack with
    | nil => exact ⟨isFrom, behind⟩
    | cons frame rest => exact unwind_from behind isFrom.1 isFrom.2
  | failing f =>
    cases stack with
    | nil => exact ⟨isFrom, behind⟩
    | cons frame rest => exact propagate_from behind isFrom

end Config

end Pseudocode
