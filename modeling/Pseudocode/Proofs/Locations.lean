import Pseudocode.Proofs.Fragments
import Pseudocode.Proofs.Provenance
import Pseudocode.Proofs.Sequencing

/-! # Where failures are placed

A session is given programs that were read from texts, to run them or to evaluate expressions of
theirs. Whatever fails, the session tells a place in one of these texts, and a cause that has to do
with what is written there. The only other failure is that the output takes no more. -/

namespace Pseudocode

/-! ## Runs that end -/

/-- If the failure is a fault, it has a place. -/
def Failure.Located (f : Failure) : Prop :=
  ∀ fault, f = .fault fault → fault.span ≠ .zero

theorem Failure.From.located {nodes : List TreeNode} {f : Failure} (isFrom : f.From nodes)
    {span : Span} (known : span ≠ .zero) : (f.withSpan span).Located := by
  cases isFrom with
  | output =>
    intro fault same
    cases same
  | fault isFrom =>
    rintro _ ⟨⟩
    rw [Fault.withSpan_span]
    split
    · exact known
    case isFalse placed => exact placed

/-- What is done when nothing waits for a program: between two statements, or at its end. -/
def Control.Outermost : Control → Prop
  | .run _ | .done | .returning _ _ => True
  | .failing f => f.Located
  | _ => False

namespace Config

variable {settings : Settings} {nodes : List TreeNode} {c : Config}

/-- A moment of a program: above one of its statements, or with nothing that waits. -/
inductive Rooted : Config → Prop where
  | outermost {control : Control} {id : ScopeId} {state : State} : control.Outermost →
      Rooted ⟨control, [], id, state⟩
  | above {rest : List Stmt} {span : Span} (c : Config) : span ≠ .zero →
      Rooted (c.onto [.block rest span])

/-- A failure cannot get past the statement it comes of without a place. -/
theorem Rooted.step (rooted : c.Rooted) (text : Textual nodes) (isFrom : c.From nodes) :
    (c.step settings).Rooted := by
  cases rooted with
  | @outermost control id state outermost =>
    cases control with
    | run block =>
      cases block with
      | nil => exact .outermost trivial
      | cons s rest =>
        have isNode : .stmt s ∈ nodes := isFrom.control s List.mem_cons_self
        exact .above ⟨.exec s, [], id, state⟩ (text.spans _ isNode)
    | done | returning | failing => exact .outermost outermost
    | _ => exact outermost.elim
  | @above rest span c known =>
    cases halted : c.halted with
    | false =>
      rw [step_onto halted]
      exact .above _ known
    | true =>
      obtain ⟨control, stack, id, state⟩ := c
      obtain ⟨rfl, isOutcome⟩ := halted_iff.mp halted
      cases control with
      | value v => exact .above ⟨.done, [], id, state⟩ known
      | done | returning => exact .outermost trivial
      | failing f =>
        have failing : f.From nodes := isFrom.control
        exact .outermost (failing.located known)
      | _ => cases isOutcome

theorem Rooted.located (rooted : c.Rooted) (halted : c.halted = true) {f : Failure}
    (fails : c.control = .failing f) : f.Located := by
  cases rooted with
  | outermost outermost =>
    cases fails
    exact outermost
  | above c known =>
    have nothing := (halted_iff.mp halted).1
    simp [onto] at nothing

theorem Nested.step_onto {base : List Frame} (nested : (c.onto base).Nested) :
    ((c.step settings).onto base).Nested := by
  cases halted : c.halted with
  | false =>
    rw [← Config.step_onto halted]
    exact nested.step
  | true =>
    rw [step_halted halted]
    exact nested

/-- An expression does not end as a statement does: it might as well stand in an `OUTPUT`, which
cannot take such an end. -/
theorem endsPlainly_of_eval {e : Expr} {id : ScopeId} {state : State} {n : Nat}
    (halted : (advance settings n ⟨.eval e, [], id, state⟩).halted = true) :
    (advance settings n ⟨.eval e, [], id, state⟩).control.endsPlainly = false := by
  have nested : ((advance settings n ⟨.eval e, [], id, state⟩).onto [.output]).Nested :=
    advance_induction (P := fun c => (c.onto [.output]).Nested) (fun _ => Nested.step_onto) n
      ⟨nofun, fun _ => trivial, trivial⟩
  refine Bool.eq_false_iff.mpr fun ends => ?_
  have takes := nested.control ends
  rw [onto, (halted_iff.mp halted).1] at takes
  cases takes

/-- What steps keep of a run whose nodes come from texts. -/
theorem advance_from (text : Textual nodes) (nested : c.Nested) (sound : c.Sound settings.maxDepth)
    (isFrom : c.From nodes) (n : Nat) :
    (c.advance settings n).From nodes ∧ (c.Rooted → (c.advance settings n).Rooted) := by
  induction n generalizing c with
  | zero => exact ⟨isFrom, id⟩
  | succ n ih =>
    obtain ⟨later, rooted⟩ := ih nested.step (step_sound nested sound)
      (step_from text sound.settled.memory isFrom)
    rw [advance_step]
    exact ⟨later, fun now => rooted (now.step text isFrom)⟩

end Config

/-! ## More nodes -/

section Mono

variable {nodes more : List TreeNode}

theorem Value.From.mono {v : Value} (isFrom : v.From nodes) (subset : nodes ⊆ more) :
    v.From more := by
  cases v with
  | procedure | function => exact fun s member => subset (isFrom s member)
  | _ => trivial

theorem Memory.From.mono {m : Memory} (isFrom : m.From nodes) (subset : nodes ⊆ more) :
    m.From more :=
  fun id name v binds => (isFrom id name v binds).mono subset

theorem Textual.flatMap {programs : List Program} (each : ∀ p ∈ programs, Textual p.nodes) :
    Textual (programs.flatMap Program.nodes) := by
  refine ⟨?_, ?_, ?_⟩
  · intro n isNode child isChild
    obtain ⟨p, member, isNode⟩ := List.mem_flatMap.mp isNode
    exact List.mem_flatMap.mpr ⟨p, member, (each p member).children n isNode child isChild⟩
  · exact List.forall_mem_flatMap.mpr fun p member => (each p member).printable
  · exact List.forall_mem_flatMap.mpr fun p member => (each p member).spans

/-- A node that is marked in several programs together is marked in one of them. -/
theorem Marked.exists_program {programs : List Program} {n : TreeNode}
    (marked : Marked (programs.flatMap Program.nodes) n) : ∃ p ∈ programs, Marked p.nodes n := by
  obtain ⟨m, isNode, marks⟩ := marked
  obtain ⟨p, member, isNode⟩ := List.mem_flatMap.mp isNode
  exact ⟨p, member, m, isNode, marks⟩

end Mono

/-- What is read from a text has the nodes of a text. -/
theorem Program.textual {source : List UInt8} {p : Program} (parsed : ofBytes source = .ok p) :
    Textual p.nodes where
  children _ isNode _ isChild := mem_nodes_of_child isNode isChild
  printable := List.all_eq_true.mp (ofBytes_isPrintable parsed)
  spans n isNode := by
    obtain ⟨ts, stop, scanned, -, notEnd, composes⟩ := ofText_composes parsed
    exact (node_spans scanned notEnd composes isNode).1

/-! ## Sessions -/

/-- The request is to run the program or to evaluate an expression that stands in it. -/
inductive Request.Of (p : Program) : Request → Prop where
  | program : Request.Of p (.program (some p))
  | expression {e : Expr} : .expr e ∈ p.nodes → Request.Of p (.expression e)

/-- The session has served requests of these programs, the latest first, all of them read from
texts. -/
inductive History (options : Options) : List Program → Session → Prop where
  | start {s : Session} : Session.start options = .ok s → History options [] s
  | serve {programs : List Program} {s s' : Session} {source : List UInt8} {p : Program}
      {request : Request} {fuel : Nat} {answer : Answer} : History options programs s →
      Program.ofBytes source = .ok p → request.Of p → s.serve fuel request = some (answer, s') →
      History options (p :: programs) s'

namespace Session

variable {nodes : List TreeNode} {s s' : Session} {request : Request} {answered : Answer}
  {fuel : Nat} {settings : Settings} {limit : Nat} {c : Config} {e : Expr} {f : Failure}

theorem start_from {options : Options} (started : start options = .ok s) :
    s.state.memory.From nodes := by
  obtain ⟨builtins, memory, -, installed, rfl⟩ := start_ok started
  intro id name v bound
  obtain ⟨-, kind, -, -, same⟩ := (Builtins.install_binds installed id name _).mp bound
  cases same
  trivial

/-- What the first moment of a request holds comes from the nodes. -/
theorem first?_from {first : Config} {p : Program} (memory : s.state.memory.From nodes)
    (asks : request.Of p) (subset : p.nodes ⊆ nodes) (isFirst : s.first? request = some first) :
    first.From nodes := by
  have same := first?_memory isFirst
  cases asks with
  | program =>
    cases isFirst
    have body : Listed nodes p.body := fun _ member => subset (Program.mem_nodes member)
    exact ⟨body, List.forall_mem_nil _, same ▸ memory⟩
  | expression isNode =>
    cases isFirst
    exact ⟨subset isNode, List.forall_mem_nil _, memory⟩

/-- What a failure that is told may be. -/
def Told (nodes : List TreeNode) (request : Request) (f : Failure) : Prop :=
  f = .output ∨ ∃ fault, f = .fault fault ∧ fault.cause.isInternal = false ∧ fault.span ≠ .zero ∧
    (Placed nodes fault.span ∨ ∃ e, request = .expression e ∧ fault.span = e.span)

theorem told_of_located (isFrom : f.From nodes) (tame : f.Tame) (located : f.Located) :
    Told nodes request f := by
  cases isFrom with
  | output => exact .inl rfl
  | @fault fault isFrom =>
    have known := located fault rfl
    exact .inr ⟨fault, rfl, isFrom.not_internal (tame fault rfl), known,
      .inl (isFrom.placed known)⟩

/-- A fault of an expression that has no place gets that of the expression. -/
theorem told_withSpan (isFrom : f.From nodes) (tame : f.Tame) (known : e.span ≠ .zero) :
    Told nodes (.expression e) (f.withSpan e.span) := by
  have located := isFrom.located known
  cases isFrom with
  | output => exact .inl rfl
  | @fault fault isFrom =>
    refine .inr ⟨fault.withSpan e.span, rfl, ?_, located _ rfl, ?_⟩
    · rw [Fault.withSpan_cause]
      exact isFrom.not_internal (tame fault rfl)
    · rw [Fault.withSpan_span]
      split
      · exact .inr ⟨e, rfl, rfl⟩
      case isFalse placed => exact .inl (isFrom.placed placed)

theorem program_told (text : Textual nodes) (isFrom : c.From nodes) (sound : c.Sound limit)
    (rooted : c.Rooted) (halted : c.halted = true) {p : Program}
    (fails : (answer settings c (.program (some p))).1.failure? = some f) :
    Told nodes (.program (some p)) f := by
  have located (g : Failure) := rooted.located (f := g) halted
  obtain ⟨control, stack, id, state⟩ := c
  cases control with
  | failing g =>
    cases fails
    exact told_of_located isFrom.control sound.control (located f rfl)
  | returning v span =>
    cases fails
    have outside : (Failure.of .returnOutside).From nodes := .of nofun
    have placed : Placed nodes span := isFrom.control.2
    refine told_of_located (outside.withSpan fun _ => placed) ?_
      (outside.located (text.placed_ne placed))
    exact Failure.Tame.withSpan (.fault fun _ same => by cases same) span
  | _ => cases fails

theorem expression_told (isFrom : c.From nodes) (sound : c.Sound limit)
    (known : e.span ≠ .zero) (halted : c.halted = true) (plainly : c.control.endsPlainly = false)
    (fails : (answer settings c (.expression e)).1.failure? = some f) :
    Told nodes (.expression e) f := by
  have isOutcome := (Config.halted_iff.mp halted).2
  obtain ⟨control, stack, id, state⟩ := c
  cases control with
  | value v => cases fails
  | failing g =>
    cases fails
    exact told_withSpan isFrom.control sound.control known
  | done | returning => cases plainly
  | _ => cases isOutcome

/-- A request leaves nothing in the memory that does not come from the nodes, and what it tells does
too. -/
theorem serve_from {p : Program} (text : Textual nodes) (idle : s.Idle)
    (memory : s.state.memory.From nodes) (asks : request.Of p) (subset : p.nodes ⊆ nodes)
    (isServed : s.serve fuel request = some (answered, s')) :
    s'.state.memory.From nodes ∧ ∀ f, answered.failure? = some f → Told nodes request f := by
  rcases served isServed with ⟨nothing, -⟩ | ⟨first, isFirst, halted, same⟩
  · cases asks <;> cases nothing
  have begins := first?_from memory asks subset isFirst
  obtain ⟨nested, sound⟩ := first?_sound idle isFirst
  obtain ⟨isFrom, rooted⟩ := Config.advance_from text nested sound begins fuel
  have ended := (Config.advance_sound nested sound fuel).2
  obtain ⟨-, kept, -⟩ := answer_session s.settings (first.advance s.settings fuel) request
  rw [same] at kept
  refine ⟨kept ▸ isFrom.behind.memory, fun f fails => ?_⟩
  have answers : answered = (answer s.settings (first.advance s.settings fuel) request).1 :=
    (congrArg Prod.fst same).symm
  rw [answers] at fails
  cases asks with
  | program =>
    cases isFirst
    exact program_told text isFrom ended (rooted (.outermost trivial)) halted fails
  | expression isNode =>
    cases isFirst
    exact expression_told isFrom ended (text.spans _ (subset isNode)) halted
      (Config.endsPlainly_of_eval halted) fails

end Session

/-! ## Histories -/

/-- The kinds that faults of runs are of. -/
def FaultKind.isDeclared : FaultKind → Bool
  | other _ => false
  | _ => true

theorem Cause.kind_isDeclared {cause : Cause} (proper : cause.isInternal = false) :
    cause.kind.isDeclared = true := by
  cases cause with
  | notLive | unknownUnary | unknownBinary | cannotBuild | cannotConstruct | other => cases proper
  | _ => rfl

namespace History

variable {options : Options} {programs : List Program} {s s' : Session}

section

variable (history : History options programs s)

include history

theorem reached : Session.Reached options s := by
  induction history with
  | start started => exact ⟨_, started, .refl⟩
  | serve _ _ _ isServed ih =>
    obtain ⟨fresh, started, continues⟩ := ih
    exact ⟨fresh, started, .serve _ _ _ continues isServed⟩

theorem textual : ∀ p ∈ programs, Textual p.nodes := by
  induction history with
  | start => exact List.forall_mem_nil _
  | serve _ parsed _ _ ih => exact List.forall_mem_cons.mpr ⟨Program.textual parsed, ih⟩

theorem serve_from {p : Program} {request : Request} {fuel : Nat} {answered : Answer}
    (text : Textual p.nodes) (asks : request.Of p)
    (memory : s.state.memory.From (programs.flatMap Program.nodes))
    (isServed : s.serve fuel request = some (answered, s')) :
    s'.state.memory.From ((p :: programs).flatMap Program.nodes) ∧
      ∀ f, answered.failure? = some f →
        Session.Told ((p :: programs).flatMap Program.nodes) request f := by
  have all := Textual.flatMap (List.forall_mem_cons.mpr ⟨text, history.textual⟩)
  rw [List.flatMap_cons] at all ⊢
  exact Session.serve_from all history.reached.idle
    (memory.mono (List.subset_append_right _ _)) asks (List.subset_append_left _ _) isServed

/-- The routines of a session come from the programs that were given to it. -/
theorem memory_from : s.state.memory.From (programs.flatMap Program.nodes) := by
  induction history with
  | start started => exact Session.start_from started
  | serve history parsed asks isServed ih =>
    exact (history.serve_from (Program.textual parsed) asks ih isServed).1

end

/-- Failures of programs that were read are well placed and never internal. A failure is that of the
output, or it is a fault of a declared kind with the place of a statement, a parameter, an argument,
a loop counter or the evaluated expression in one of the texts. -/
theorem failures_placed {source : List UInt8} {p : Program} {request : Request} {fuel : Nat}
    {answered : Answer} {f : Failure} (history : History options programs s)
    (parsed : Program.ofBytes source = .ok p) (asks : request.Of p)
    (isServed : s.serve fuel request = some (answered, s')) (fails : answered.failure? = some f) :
    f = .output ∨ ∃ fault, f = .fault fault ∧ fault.cause.kind.isDeclared = true ∧
      fault.cause.isInternal = false ∧ fault.span ≠ .zero ∧
      ∃ q ∈ p :: programs, ∃ n ∈ q.nodes, fault.span = n.span ∧
        (Marked q.nodes n ∨ ∃ e, request = .expression e ∧ n = .expr e) := by
  have text := Program.textual parsed
  have told := (history.serve_from text asks history.memory_from isServed).2 f fails
  rcases told with isOutput | ⟨fault, isFault, proper, known, place⟩
  · exact .inl isOutput
  refine .inr ⟨fault, isFault, Cause.kind_isDeclared proper, proper, known, ?_⟩
  rcases place with ⟨n, marked, isSpan⟩ | ⟨e, rfl, isSpan⟩
  · obtain ⟨q, member, marked⟩ := marked.exists_program
    have each : ∀ q ∈ p :: programs, Textual q.nodes :=
      List.forall_mem_cons.mpr ⟨text, history.textual⟩
    exact ⟨q, member, n, (each q member).mem_of_marked marked, isSpan.symm, .inl marked⟩
  · cases asks with
    | expression isNode =>
      exact ⟨p, List.mem_cons_self, .expr e, isNode, isSpan, .inr ⟨e, rfl, rfl⟩⟩

namespace Sample

def defining : List UInt8 :=
  Text.utf8 ("FUNCTION next(n : INTEGER) RETURNS INTEGER\nRETURN n + 1\nENDFUNCTION\n" ++
    "OUTPUT next(TRUE)").toList

def asking : List UInt8 :=
  Text.utf8 "OUTPUT next(9223372036854775807)".toList

def limited : Options :=
  { types := some ["DATE"], maxDepth := 2 }

def shown? : List Stmt → Option Expr
  | .output e _ :: _ => some e
  | _ => none

theorem mem_of_shown? {p : Program} {e : Expr} (isShown : shown? p.body = some e) :
    .expr e ∈ p.nodes := by
  unfold shown? at isShown
  split at isShown
  case h_1 value span rest isBody =>
    cases isShown
    have isNode : .stmt (.output e span) ∈ p.nodes :=
      Program.mem_nodes (by rw [isBody]; exact List.mem_cons_self)
    exact Program.mem_nodes_of_child isNode (by simp [TreeNode.children, Stmt.exprs])
  case h_2 => cases isShown

def failure? : Option Failure := do
  let fresh ← (Session.start limited).toOption
  let first ← (Program.ofBytes defining).toOption
  let ran ← fresh.serve 100 (.program (some first))
  let second ← (Program.ofBytes asking).toOption
  let e ← shown? second.body
  let evaluated ← ran.2.serve 100 (.expression e)
  evaluated.1.failure?

theorem overflows : failure?.map (fun f => (f.kind?, f.fault?.map (·.span.start))) =
    some (some .integerOverflow, some ⟨2, 1⟩) := by
  decide +kernel

end Sample

/-- The sum in the function of the first text is too large when the second text calls it. -/
theorem failures_placed_sample :
    ∃ (first second : Program) (s s' : Session) (e : Expr) (answered : Answer) (fault : Fault),
      History Sample.limited [first] s ∧ Program.ofBytes Sample.asking = .ok second ∧
      .expr e ∈ second.nodes ∧ s.serve 100 (.expression e) = some (answered, s') ∧
      answered.failure? = some (.fault fault) ∧ fault.cause.kind = .integerOverflow ∧
      fault.span.start = ⟨2, 1⟩ ∧ ∃ q ∈ [second, first], ∃ n ∈ q.nodes, fault.span = n.span := by
  obtain ⟨f, fails, same⟩ := Option.map_eq_some_iff.mp Sample.overflows
  simp only [Sample.failure?, Option.bind_eq_bind, Option.bind_eq_some_iff] at fails
  obtain ⟨fresh, started, first, read, ⟨answer, s⟩, ran, second, parsed, e, isShown,
    ⟨answered, s'⟩, isServed, fails⟩ := fails
  have history : History Sample.limited [first] s :=
    .serve (.start (eq_ok_of_toOption started)) (eq_ok_of_toOption read) .program ran
  have parsed := eq_ok_of_toOption parsed
  have stands := Sample.mem_of_shown? isShown
  rcases failures_placed history parsed (.expression stands) isServed fails with
    isOutput | ⟨fault, rfl, placed⟩
  · rw [isOutput] at same
    cases same
  · obtain ⟨-, -, -, q, member, n, isNode, isSpan, -⟩ := placed
    simp only [Failure.kind?, Failure.fault?, Option.map_some, Prod.mk.injEq,
      Option.some.injEq] at same
    exact ⟨first, second, s, s', e, answered, fault, history, parsed, stands, isServed, fails,
      same.1, same.2, q, member, n, isNode, isSpan⟩

end History

end Pseudocode
