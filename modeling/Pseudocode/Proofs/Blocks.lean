import Pseudocode.Proofs.Nesting
import Pseudocode.Proofs.Outcomes

/-! # Equations between blocks

A block is its first part and then, if that neither fails nor returns, its second part. Nothing
after a `RETURN` runs. A `DO` loop is its body and then the `WHILE` loop with the same condition:
both loops go on in step, and only the frames in which they wait have other names. -/

namespace Pseudocode

/-! ## Places of failures -/

/-- The first place that is known stays. -/
theorem Fault.withSpan_withSpan (f : Fault) {span : Span} (known : span ≠ .zero) (other : Span) :
    (f.withSpan span).withSpan other = f.withSpan span := by
  by_cases free : f.span = .zero
  · simp [withSpan, Span.isZero, free, known]
  · simp [withSpan, Span.isZero, free]

theorem Failure.withSpan_withSpan (f : Failure) {span : Span} (known : span ≠ .zero)
    (other : Span) : (f.withSpan span).withSpan other = f.withSpan span := by
  induction f with
  | fault f => exact congrArg Failure.fault (f.withSpan_withSpan known other)
  | plain => rfl
  | wrapped text inner ih => exact congrArg (Failure.wrapped text) ih

/-- The outcome of a statement as its block hands it on: a failure gets the place of the
statement. -/
def Control.placedAt (span : Span) : Control → Control
  | .failing f => .failing (f.withSpan span)
  | outcome => outcome

namespace Config

variable {settings : Settings} {id : ScopeId} {state after : State} {outcome : Control}

/-! ## What an expression comes to -/

/-- An expression has a value or fails. -/
theorem Comes.eval {e : Expr} (comes : Comes settings (.eval e) id state outcome after) :
    (∃ v, outcome = .value v) ∨ ∃ f, outcome = .failing f := by
  -- Under a frame that waits for a value, nothing ends as a statement does.
  obtain ⟨n, reached⟩ := comes.reaches [.output]
  have begins : Nested ⟨.eval e, [.output], id, state⟩ := ⟨nofun, fun _ => trivial, trivial⟩
  have nested : Nested ⟨outcome, [.output], id, after⟩ :=
    reached ▸ advance_induction (P := Nested) (fun _ => Nested.step) n begins
  have isOutcome := comes.isOutcome
  cases outcome with
  | value v => exact .inl ⟨v, rfl⟩
  | failing f => exact .inr ⟨f, rfl⟩
  | done => cases nested.control rfl
  | returning => cases nested.control rfl
  | _ => cases isOutcome

/-- A `RETURN` statement returns or fails. -/
theorem Comes.returning {value : Option Expr} {span : Span}
    (comes : Comes settings (.exec (.returning value span)) id state outcome after) :
    outcome.succeeds = false := by
  cases value with
  | none =>
    have same := (halts_outcome_iff rfl).mp (comes_step.mpr comes)
    rw [same.1]
    rfl
  | some e =>
    obtain ⟨found, between, evaluated, later⟩ := halts_above.mp (comes_step.mpr comes)
    have next := halts_step.mpr later
    rcases evaluated.eval with ⟨v, rfl⟩ | ⟨f, rfl⟩
    · rw [((halts_outcome_iff rfl).mp next).1]
      rfl
    · rw [((halts_outcome_iff rfl).mp next).1]
      rfl

/-! ## Blocks in two parts -/

theorem comes_nil_iff :
    Comes settings (.run []) id state outcome after ↔ outcome = .done ∧ after = state := by
  rw [← comes_step]
  exact halts_outcome_iff rfl

/-- A block is its first statement and then, if that neither fails nor returns, the others. -/
theorem comes_cons_iff {s : Stmt} {rest : List Stmt} :
    Comes settings (.run (s :: rest)) id state outcome after ↔
      ∃ found between, Comes settings (.exec s) id state found between ∧
        (found.succeeds = true ∧ Comes settings (.run rest) id between outcome after ∨
          found.succeeds = false ∧ outcome = found.placedAt s.span ∧ after = between) := by
  rw [← comes_step]
  change Halts settings ⟨.exec s, [.block rest s.span], id, state⟩ _ ↔ _
  rw [halts_above]
  refine exists_congr fun found => exists_congr fun between => and_congr_right fun comes => ?_
  have isOutcome := comes.isOutcome
  rw [← halts_step]
  cases found with
  | value v =>
    rw [← halts_step]
    simp [Control.succeeds, step, give, finish, Comes]
  | done => simp [Control.succeeds, step, finish, Comes]
  | returning v span =>
    simp only [step, unwind, Control.succeeds, Control.placedAt]
    rw [halts_outcome_iff rfl]
    simp
  | failing f =>
    simp only [step, propagate, Control.succeeds, Control.placedAt]
    rw [halts_outcome_iff rfl]
    simp
  | _ => cases isOutcome

theorem Control.succeeds_placedAt (control : Control) (span : Span) :
    (control.placedAt span).succeeds = control.succeeds := by
  cases control <;> rfl

/-- A block is its first part and then, if that neither fails nor returns, its second part. -/
theorem comes_append_iff {first second : List Stmt} :
    Comes settings (.run (first ++ second)) id state outcome after ↔
      (∃ between, Comes settings (.run first) id state .done between ∧
        Comes settings (.run second) id between outcome after) ∨
      Comes settings (.run first) id state outcome after ∧ outcome.succeeds = false := by
  induction first generalizing state with
  | nil =>
    simp only [List.nil_append, comes_nil_iff, true_and]
    constructor
    · exact fun comes => .inl ⟨state, rfl, comes⟩
    · rintro (⟨between, rfl, comes⟩ | ⟨⟨rfl, -⟩, stopped⟩)
      · exact comes
      · cases stopped
  | cons s first ih =>
    simp only [List.cons_append, comes_cons_iff, ih]
    constructor
    · rintro ⟨found, between, runs, ⟨goesOn, later⟩ | ⟨stopped, rfl, rfl⟩⟩
      · rcases later with ⟨middle, ended, comes⟩ | ⟨comes, stopped⟩
        · exact .inl ⟨middle, ⟨found, between, runs, .inl ⟨goesOn, ended⟩⟩, comes⟩
        · exact .inr ⟨⟨found, between, runs, .inl ⟨goesOn, comes⟩⟩, stopped⟩
      · refine .inr ⟨⟨found, _, runs, .inr ⟨stopped, rfl, rfl⟩⟩, ?_⟩
        rw [Control.succeeds_placedAt, stopped]
    · rintro (⟨middle, ⟨found, between, runs, ended⟩, comes⟩ | ⟨⟨found, between, runs, ended⟩, _⟩)
      · rcases ended with ⟨goesOn, ended⟩ | ⟨stopped, isDone, -⟩
        · exact ⟨found, between, runs, .inl ⟨goesOn, .inl ⟨middle, ended, comes⟩⟩⟩
        · have succeeds := congrArg Control.succeeds isDone
          rw [Control.succeeds_placedAt, stopped] at succeeds
          cases succeeds
      · rcases ended with ⟨goesOn, ended⟩ | ⟨stopped, rfl, rfl⟩
        · exact ⟨found, between, runs, .inl ⟨goesOn, .inr ⟨ended, ‹_›⟩⟩⟩
        · exact ⟨found, _, runs, .inr ⟨stopped, rfl, rfl⟩⟩

/-- What stands after a `RETURN` makes no difference. -/
theorem comes_returning_iff {value : Option Expr} {span : Span} {rest : List Stmt} :
    Comes settings (.run (.returning value span :: rest)) id state outcome after ↔
      Comes settings (.run [.returning value span]) id state outcome after := by
  simp only [comes_cons_iff]
  refine exists_congr fun found => exists_congr fun between => and_congr_right fun comes => ?_
  simp [comes.returning]

/-- A failure of a block whose statements have places has a place. -/
theorem Comes.failing_placed {block : List Stmt} {f : Failure}
    (comes : Comes settings (.run block) id state (.failing f) after)
    (placed : ∀ s ∈ block, s.span ≠ .zero) (span : Span) : f.withSpan span = f := by
  induction block generalizing state with
  | nil => cases (comes_nil_iff.mp comes).1
  | cons s rest ih =>
    obtain ⟨known, others⟩ := List.forall_mem_cons.mp placed
    obtain ⟨found, between, -, ⟨-, later⟩ | ⟨-, same, -⟩⟩ := comes_cons_iff.mp comes
    · exact ih later others
    · cases found with
      | failing g =>
        cases same
        exact g.withSpan_withSpan known span
      | _ => cases same

/-! ## `DO` loops and `WHILE` loops -/

/-- Two moments that differ at most in the loop that waits above the frames `base`: on the left it
is a `DO` loop, on the right the `WHILE` loop with the same condition and body. -/
inductive SameLoop (body : List Stmt) (condition : Expr) (base : List Frame) :
    Config → Config → Prop where
  | test (c : Config) : SameLoop body condition base (c.onto (.doTest body condition :: base))
      (c.onto (.whileTest condition body :: base))
  | body (c : Config) : SameLoop body condition base (c.onto (.doBody body condition :: base))
      (c.onto (.whileBody condition body :: base))
  | same (c : Config) : SameLoop body condition base c c

variable {body : List Stmt} {condition : Expr} {base : List Frame} {c c' d : Config}

theorem SameLoop.step_test (isOutcome : outcome.isOutcome = true) :
    SameLoop body condition base
      (step settings ⟨outcome, .doTest body condition :: base, id, state⟩)
      (step settings ⟨outcome, .whileTest condition body :: base, id, state⟩) := by
  cases outcome with
  | value v =>
    cases v with
    | boolean b =>
      cases b with
      | true => exact .body ⟨.run body, [], id, state⟩
      | false => exact .same _
    | _ => exact .same _
  | done | returning | failing => exact .same _
  | _ => cases isOutcome

theorem SameLoop.step_body (isOutcome : outcome.isOutcome = true) :
    SameLoop body condition base
      (step settings ⟨outcome, .doBody body condition :: base, id, state⟩)
      (step settings ⟨outcome, .whileBody condition body :: base, id, state⟩) := by
  cases outcome with
  | value v => exact .body ⟨.done, [], id, state⟩
  | done => exact .test ⟨.eval condition, [], id, state⟩
  | returning | failing => exact .same _
  | _ => cases isOutcome

section

variable (same : SameLoop body condition base c c')

include same

theorem SameLoop.step : SameLoop body condition base (c.step settings) (c'.step settings) := by
  cases same with
  | same => exact .same _
  | test inner =>
    cases halted : inner.halted with
    | false =>
      rw [step_onto halted, step_onto halted]
      exact .test _
    | true =>
      obtain ⟨outcome, stack, id, state⟩ := inner
      obtain ⟨rfl, isOutcome⟩ := halted_iff.mp halted
      exact step_test isOutcome
  | body inner =>
    cases halted : inner.halted with
    | false =>
      rw [step_onto halted, step_onto halted]
      exact .body _
    | true =>
      obtain ⟨outcome, stack, id, state⟩ := inner
      obtain ⟨rfl, isOutcome⟩ := halted_iff.mp halted
      exact step_body isOutcome

theorem SameLoop.advance (n : Nat) :
    SameLoop body condition base (c.advance settings n) (c'.advance settings n) := by
  induction n generalizing c c' with
  | zero => exact same
  | succ n ih =>
    rw [advance_step, advance_step]
    exact ih same.step

/-- Nothing waits any more when a run has ended. -/
theorem SameLoop.halted_iff : (c.halted = true ∨ c'.halted = true) → c = c' := by
  have waits (inner : Config) (frame : Frame) : (inner.onto (frame :: base)).halted = false := by
    obtain ⟨control, stack, id, state⟩ := inner
    cases stack <;> rfl
  cases same with
  | same => exact fun _ => rfl
  | test inner | body inner => simp [waits]

theorem SameLoop.halts_iff : c.Halts settings d ↔ c'.Halts settings d := by
  refine and_congr_right fun halted => exists_congr fun n => ?_
  have later : SameLoop body condition base (c.advance settings n) (c'.advance settings n) :=
    same.advance n
  constructor
  · rintro rfl
    exact (later.halted_iff (.inl halted)).symm
  · rintro rfl
    exact later.halted_iff (.inr halted)

end

section DoLoop

variable {span : Span} {between : State}

/-- After its body a `DO` loop goes on as the `WHILE` loop does. -/
theorem halts_doBody_done :
    Halts settings ⟨.done, [.doBody body condition, .block [] span], id, state⟩ d ↔
      Halts settings ⟨.run [.whileLoop condition body span], [], id, state⟩ d := by
  have same : SameLoop body condition [.block [] span]
      ⟨.eval condition, [.doTest body condition, .block [] span], id, state⟩
      ⟨.eval condition, [.whileTest condition body, .block [] span], id, state⟩ :=
    .test ⟨.eval condition, [], id, state⟩
  let loop : Config := ⟨.run [.whileLoop condition body span], [], id, state⟩
  let ended : Config := ⟨.done, [.doBody body condition, .block [] span], id, state⟩
  calc ended.Halts settings d
    _ ↔ (ended.step settings).Halts settings d := halts_step.symm
    _ ↔ ((loop.step settings).step settings).Halts settings d := same.halts_iff
    _ ↔ (loop.step settings).Halts settings d := halts_step
    _ ↔ loop.Halts settings d := halts_step

/-- What stops the body of a `DO` loop stops the loop; the place that the body gave a failure
stays. -/
theorem halts_doBody_stopped {found : Control}
    (comes : Comes settings (.run body) id state found between) (stopped : found.succeeds = false)
    (placed : ∀ s ∈ body, s.span ≠ .zero) :
    Halts settings ⟨found, [.doBody body condition, .block [] span], id, between⟩
        ⟨outcome, [], id, after⟩ ↔
      outcome = found ∧ after = between := by
  rw [← halts_step, ← halts_step]
  cases found with
  | returning => exact halts_outcome_iff rfl
  | failing f =>
    change Halts settings ⟨.failing (f.withSpan span), [], id, between⟩ _ ↔ _
    rw [comes.failing_placed placed span]
    exact halts_outcome_iff rfl
  | _ => cases stopped

/-- A `DO` loop is its body and then the `WHILE` loop. -/
theorem comes_doWhile_iff (placed : ∀ s ∈ body, s.span ≠ .zero) :
    Comes settings (.run [.doWhile body condition span]) id state outcome after ↔
      Comes settings (.run (body ++ [.whileLoop condition body span])) id state outcome after := by
  rw [comes_append_iff, ← comes_step, ← halts_step]
  change Halts settings ⟨.run body, [.doBody body condition, .block [] span], id, state⟩ _ ↔ _
  rw [halts_above]
  constructor
  · rintro ⟨found, between, comes, later⟩
    rcases comes.block with rfl | stopped
    · exact .inl ⟨between, comes, halts_doBody_done.mp later⟩
    · obtain ⟨rfl, rfl⟩ := (halts_doBody_stopped comes stopped placed).mp later
      exact .inr ⟨comes, stopped⟩
  · rintro (⟨between, comes, later⟩ | ⟨comes, stopped⟩)
    · exact ⟨.done, between, comes, halts_doBody_done.mpr later⟩
    · exact ⟨outcome, after, comes, (halts_doBody_stopped comes stopped placed).mpr ⟨rfl, rfl⟩⟩

end DoLoop

/-! ## The equations -/

/-- Begun in this state and above these frames, the block comes to this outcome and leaves the state
`after`. -/
def BlockEnds (settings : Settings) (stack : List Frame) (id : ScopeId) (state : State)
    (block : List Stmt) (outcome : Control) (after : State) : Prop :=
  ∃ n, Ends settings ⟨.run block, stack, id, state⟩ n outcome ∧
    (advance settings n ⟨.run block, stack, id, state⟩).state = after

theorem blockEnds_iff {stack : List Frame} {block : List Stmt} :
    BlockEnds settings stack id state block outcome after ↔
      Comes settings (.run block) id state outcome after :=
  ends_iff_comes

/-- Wherever and in whatever state a block begins: it is its first part and then, unless that fails
or returns, its second part; nothing after a `RETURN` makes a difference; and a `DO` loop is its
body and then the `WHILE` loop that stands at the same place. -/
theorem block_equations (settings : Settings) (stack : List Frame) (id : ScopeId) (state : State)
    (first second : List Stmt) (condition : Expr) (value : Option Expr) (span : Span)
    (outcome : Control) (after : State) :
    (BlockEnds settings stack id state (first ++ second) outcome after ↔
      (∃ between, BlockEnds settings stack id state first .done between ∧
        BlockEnds settings stack id between second outcome after) ∨
      BlockEnds settings stack id state first outcome after ∧ outcome.succeeds = false) ∧
    (BlockEnds settings stack id state (first ++ .returning value span :: second) outcome after ↔
      BlockEnds settings stack id state (first ++ [.returning value span]) outcome after) ∧
    ((∀ s ∈ first, s.span ≠ .zero) →
      (BlockEnds settings stack id state [.doWhile first condition span] outcome after ↔
        BlockEnds settings stack id state (first ++ [.whileLoop condition first span]) outcome
          after)) := by
  simp only [blockEnds_iff]
  refine ⟨comes_append_iff, ?_, comes_doWhile_iff⟩
  rw [comes_append_iff, comes_append_iff]
  exact or_congr_left (exists_congr fun _ => and_congr_right fun _ => comes_returning_iff)

end Config

namespace Sample

def declaration : Stmt :=
  .declare ⟨"x", ⟨⟨2, 9⟩, ⟨2, 10⟩⟩⟩ (.name ⟨"INTEGER", ⟨⟨2, 13⟩, ⟨2, 20⟩⟩⟩) ⟨⟨2, 1⟩, ⟨2, 20⟩⟩

def redeclaring : List Stmt :=
  [.doWhile [declaration] (.boolean true ⟨⟨3, 7⟩, ⟨3, 11⟩⟩) ⟨⟨1, 1⟩, ⟨3, 11⟩⟩]

def begun : Config := ⟨.run redeclaring, [], Memory.global, fresh.state⟩

def isRedeclaration : Control → Bool
  | .failing (.fault f) => f.cause = .alreadyDeclared "x" && f.span = declaration.span
  | _ => false

theorem redeclaring_fails : ∃ f after,
    Config.Comes fresh.settings (.run redeclaring) Memory.global fresh.state (.failing f) after ∧
      isRedeclaration (.failing f) = true := by
  have halted : (begun.advance fresh.settings 20).halted = true := by decide +kernel
  have fails : isRedeclaration (begun.advance fresh.settings 20).control = true := by
    decide +kernel
  have halts : begun.Halts fresh.settings (begun.advance fresh.settings 20) := ⟨halted, 20, rfl⟩
  obtain ⟨outcome, after, ended⟩ := halts.comes
  rw [ended] at halts fails
  cases outcome with
  | failing f => exact ⟨f, after, halts, fails⟩
  | _ => cases fails

end Sample

open Sample in
theorem Config.block_equations_redeclaring :
    (∀ s ∈ [declaration], s.span ≠ .zero) ∧ ∃ f after, isRedeclaration (.failing f) = true ∧
      BlockEnds fresh.settings [] Memory.global fresh.state
        [declaration, .whileLoop (.boolean true ⟨⟨3, 7⟩, ⟨3, 11⟩⟩) [declaration] ⟨⟨1, 1⟩, ⟨3, 11⟩⟩]
        (.failing f) after := by
  have placed : ∀ s ∈ [declaration], s.span ≠ .zero := by simp [declaration, Stmt.span, Span.zero]
  obtain ⟨f, after, comes, fails⟩ := redeclaring_fails
  refine ⟨placed, f, after, fails, ?_⟩
  exact ((block_equations _ _ _ _ _ [] _ none _ _ _).2.2 placed).mp (blockEnds_iff.mpr comes)

end Pseudocode
