import Mathlib.Data.Nat.Find
import Pseudocode.Proofs.Lifting
import Pseudocode.Proofs.Relocatable
import Pseudocode.Proofs.Sessions

/-! # Blocks run statement by statement

A block that runs to its end does so in two parts wherever it is cut: its first statements run to
their end, and from there the others do, whatever they are. So a program that succeeds may also be
given to a session in parts, one after the other. -/

namespace Pseudocode

def Control.statement? : Control → Option Stmt
  | .exec s => some s
  | _ => none

/-- A run that ends so has not failed. -/
def Control.succeeds : Control → Bool
  | .returning _ _ | .failing _ => false
  | _ => true

namespace Config

variable {settings : Settings} {c : Config} {id : ScopeId} {state : State} {n m : Nat}

/-- The statements that begin to run within `n` steps, in order. -/
def executed (settings : Settings) : Nat → Config → List Stmt
  | 0, _ => []
  | n + 1, c => c.control.statement?.toList ++ executed settings n (c.step settings)

/-! ## Runs in two parts -/

theorem step_halted (halted : c.halted = true) : c.step settings = c := by
  obtain ⟨control, stack, id, state⟩ := c
  obtain ⟨rfl, isOutcome⟩ := halted_iff.mp halted
  cases control with
  | value | done | returning | failing => rfl
  | _ => cases isOutcome

theorem advance_step (c : Config) (n : Nat) :
    c.advance settings (n + 1) = (c.step settings).advance settings n := by
  cases halted : c.halted with
  | false => exact advance_succ halted n
  | true => rw [step_halted halted, advance_halted halted, advance_halted halted]

theorem advance_add (c : Config) (m n : Nat) :
    c.advance settings (m + n) = (c.advance settings m).advance settings n := by
  induction m generalizing c with
  | zero => rw [Nat.zero_add, advance]
  | succ m ih => rw [Nat.succ_add, advance_step, ih, advance_step]

theorem step_advance (c : Config) (n : Nat) :
    (c.advance settings n).step settings = c.advance settings (n + 1) := by
  rw [advance_add, advance_step, advance]

theorem executed_add (c : Config) (m n : Nat) :
    c.executed settings (m + n) =
      c.executed settings m ++ (c.advance settings m).executed settings n := by
  induction m generalizing c with
  | zero => simp only [Nat.zero_add, executed, advance, List.nil_append]
  | succ m ih => rw [Nat.succ_add, executed, executed, ih, advance_step, List.append_assoc]

theorem executed_halted (halted : c.halted = true) (n : Nat) : c.executed settings n = [] := by
  have nothing : c.control.statement? = none := by
    obtain ⟨control, stack, id, state⟩ := c
    cases control with
    | exec => cases (halted_iff.mp halted).2
    | _ => rfl
  induction n with
  | zero => rfl
  | succ n ih => rw [executed, nothing, step_halted halted, ih, Option.toList_none, List.append_nil]

section

variable (halted : (c.advance settings n).halted = true)

include halted

theorem advance_of_le (later : n ≤ m) : c.advance settings m = c.advance settings n := by
  obtain ⟨k, rfl⟩ := Nat.exists_eq_add_of_le later
  rw [advance_add, advance_halted halted]

theorem executed_of_le (later : n ≤ m) : c.executed settings m = c.executed settings n := by
  obtain ⟨k, rfl⟩ := Nat.exists_eq_add_of_le later
  rw [executed_add, executed_halted halted, List.append_nil]

theorem lt_of_running (running : (c.advance settings m).halted = false) : m < n := by
  by_contra early
  rw [advance_of_le halted (Nat.le_of_not_lt early), halted] at running
  cases running

omit halted in
theorem executed_onto (running : ∀ k < n, (c.advance settings k).halted = false)
    (base : List Frame) : (c.onto base).executed settings n = c.executed settings n := by
  induction n generalizing c with
  | zero => rfl
  | succ n ih =>
    have now : c.halted = false := running 0 (Nat.succ_pos n)
    rw [executed, executed, step_onto now, ih]
    · rfl
    · intro k below
      rw [← advance_succ now]
      exact running (k + 1) (Nat.succ_lt_succ below)

theorem exists_first_halted :
    ∃ k, (c.advance settings k).halted = true ∧
      ∀ j < k, (c.advance settings j).halted = false := by
  have ends : ∃ k, (c.advance settings k).halted = true := ⟨n, halted⟩
  exact ⟨Nat.find ends, Nat.find_spec ends, fun j below =>
    Bool.eq_false_iff.mpr (Nat.find_min ends below)⟩

end

/-- What runs above a frame ends before the whole does. -/
theorem exists_halted_of_onto {frame : Frame} {base : List Frame}
    (halted : ((c.onto (frame :: base)).advance settings n).halted = true) :
    ∃ k, (c.advance settings k).halted = true ∧
      ∀ j < k, (c.advance settings j).halted = false := by
  obtain ⟨k, ends⟩ : ∃ k, (c.advance settings k).halted = true := by
    by_contra never
    have running (k : Nat) : (c.advance settings k).halted = false :=
      Bool.eq_false_iff.mpr fun ends => never ⟨k, ends⟩
    rw [advance_onto fun k _ => running k, halted_onto (running n)] at halted
    cases halted
  exact exists_first_halted ends

/-! ## Blocks -/

abbrev ofBlock (block : List Stmt) (id : ScopeId) (state : State) : Config :=
  ⟨.run block, [], id, state⟩

/-- In `n` steps the statements `block` run to their end and leave the state `state'`, whatever
stands after them in the block. -/
structure Runs (settings : Settings) (block : List Stmt) (id : ScopeId) (state : State) (n : Nat)
    (id' : ScopeId) (state' : State) (trace : List Stmt) : Prop where
  advance : ∀ later, (ofBlock (block ++ later) id state).advance settings n =
    ofBlock later id' state'
  executed : ∀ later, (ofBlock (block ++ later) id state).executed settings n = trace

theorem Runs.nil : Runs settings [] id state 0 id state [] :=
  ⟨fun _ => rfl, fun _ => rfl⟩

theorem Runs.append {xs ys : List Stmt} {id₁ id₂ : ScopeId} {state₁ state₂ : State}
    {traceX traceY : List Stmt} (first : Runs settings xs id state m id₁ state₁ traceX)
    (second : Runs settings ys id₁ state₁ n id₂ state₂ traceY) :
    Runs settings (xs ++ ys) id state (m + n) id₂ state₂ (traceX ++ traceY) := by
  constructor
  · intro later
    rw [List.append_assoc, advance_add, first.advance, second.advance]
  · intro later
    rw [List.append_assoc, executed_add, first.executed, first.advance, second.executed]

theorem Runs.ends {block : List Stmt} {id' : ScopeId} {state' : State} {trace : List Stmt}
    (runs : Runs settings block id state n id' state' trace) (below : n < m) :
    (ofBlock block id state).advance settings m = ⟨.done, [], id', state'⟩ ∧
      (ofBlock block id state).executed settings m = trace := by
  have reached := runs.advance []
  have traced := runs.executed []
  rw [List.append_nil] at reached traced
  have last : (ofBlock block id state).advance settings (n + 1) = ⟨.done, [], id', state'⟩ := by
    rw [advance_add, reached]
    rfl
  have halted : ((ofBlock block id state).advance settings (n + 1)).halted = true := by
    rw [last]
    rfl
  constructor
  · rw [advance_of_le halted below, last]
  · rw [executed_of_le halted below, executed_add, traced, reached]
    exact List.append_nil trace

/-- The block ends without a failure. -/
def Succeeds (settings : Settings) (n : Nat) (c : Config) : Prop :=
  (c.advance settings n).halted = true ∧ (c.advance settings n).control.succeeds = true

theorem Succeeds.rest (succeeds : c.Succeeds settings n)
    (running : (c.advance settings m).halted = false) :
    m < n ∧ (c.advance settings m).Succeeds settings (n - m) := by
  have below := lt_of_running succeeds.1 running
  refine ⟨below, ?_⟩
  rw [Succeeds, ← advance_add, Nat.add_sub_cancel' (Nat.le_of_lt below)]
  exact succeeds

theorem Succeeds.control (succeeds : c.Succeeds settings n)
    (halted : (c.advance settings m).halted = true) :
    (c.advance settings m).control.succeeds = true := by
  rcases Nat.le_total n m with later | earlier
  · rw [advance_of_le succeeds.1 later]
    exact succeeds.2
  · rw [← advance_of_le halted earlier]
    exact succeeds.2

/-- The first statement of a block that succeeds runs to its end. -/
theorem Succeeds.head {s : Stmt} {rest : List Stmt}
    (succeeds : (ofBlock (s :: rest) id state).Succeeds settings n) :
    ∃ k id' state' trace, Runs settings [s] id state k id' state' trace := by
  let alone : Config := ⟨.exec s, [], id, state⟩
  have begins (later : List Stmt) :
      (ofBlock (s :: later) id state).step settings = alone.onto [.block later s.span] := rfl
  have halted := succeeds.1
  rw [← advance_of_le halted (Nat.le_succ n), advance_step, begins] at halted
  obtain ⟨k, ends, running⟩ := exists_halted_of_onto halted
  generalize stop : alone.advance settings k = last at ends
  obtain ⟨outcome, stack, id', state'⟩ := last
  obtain ⟨rfl, isOutcome⟩ := halted_iff.mp ends
  have reached (later : List Stmt) : (ofBlock (s :: later) id state).advance settings (k + 1) =
      ⟨outcome, [.block later s.span], id', state'⟩ := by
    rw [advance_step, begins, advance_onto running, stop]
    rfl
  have trace (later : List Stmt) : (ofBlock (s :: later) id state).executed settings (k + 1) =
      alone.executed settings k := by
    rw [executed, begins, executed_onto running]
    rfl
  have resumes (j : Nat)
      (goesOn : ∀ later, advance settings j ⟨outcome, [.block later s.span], id', state'⟩ =
        ofBlock later id' state')
      (silent : ∀ later, executed settings j ⟨outcome, [.block later s.span], id', state'⟩ = []) :
      Runs settings [s] id state (k + 1 + j) id' state' (alone.executed settings k) := by
    refine ⟨fun later => ?_, fun later => ?_⟩
    · rw [advance_add, List.singleton_append, reached, goesOn]
    · rw [executed_add, List.singleton_append, trace, reached, silent, List.append_nil]
  -- A value is dropped before the block goes on, a `RETURN` or a failure ends the block.
  cases outcome with
  | done => exact ⟨_, _, _, _, resumes 1 (fun _ => rfl) fun _ => rfl⟩
  | value v => exact ⟨_, _, _, _, resumes 2 (fun _ => rfl) fun _ => rfl⟩
  | returning v span | failing f =>
    have last := succeeds.control (m := k + 1 + 1)
    rw [advance_add, reached] at last
    cases last rfl
  | _ => cases isOutcome

/-- Wherever a block that succeeds is cut, its first part runs to its end. -/
theorem Succeeds.cut (xs ys : List Stmt)
    (succeeds : (ofBlock (xs ++ ys) id state).Succeeds settings n) :
    ∃ k id' state' trace, Runs settings xs id state k id' state' trace ∧ k < n ∧
      (ofBlock ys id' state').Succeeds settings (n - k) := by
  induction xs generalizing id state n with
  | nil =>
    have positive : 0 < n := lt_of_running succeeds.1 rfl
    exact ⟨0, id, state, [], .nil, positive, succeeds⟩
  | cons s xs ih =>
    obtain ⟨k, id₁, state₁, trace, runs⟩ := succeeds.head
    have reached : (ofBlock (s :: xs ++ ys) id state).advance settings k =
        ofBlock (xs ++ ys) id₁ state₁ := runs.advance (xs ++ ys)
    obtain ⟨below, remaining⟩ := succeeds.rest (m := k) (by rw [reached]; rfl)
    rw [reached] at remaining
    obtain ⟨k₂, id₂, state₂, trace₂, runs₂, below₂, succeeds₂⟩ := ih remaining
    refine ⟨k + k₂, id₂, state₂, trace ++ trace₂, runs.append runs₂, ?_, ?_⟩
    · omega
    · rwa [← Nat.sub_sub]

/-! ## Places -/

theorem executed_unplaced (c : Config) (n : Nat) :
    (c.executed settings n).map Stmt.unplaced = c.unplaced.executed settings.quiet n := by
  induction n generalizing c with
  | zero => rfl
  | succ n ih =>
    have first : c.control.statement?.toList.map Stmt.unplaced =
        c.unplaced.control.statement?.toList := by
      obtain ⟨control, stack, id, state⟩ := c
      cases control <;> rfl
    rw [executed, List.map_append, ih, step_unplaced, executed, first]

/-- Configurations that differ in their places and logs only end alike. -/
theorem ends_of_unplaced {c' : Config} (same : c'.unplaced = c.unplaced)
    (ends : c.advance settings n = ⟨.done, [], id, state⟩) :
    ∃ state', c'.advance settings n = ⟨.done, [], id, state'⟩ ∧
      state'.unplaced = state.unplaced ∧
      (c'.executed settings n).map Stmt.unplaced = (c.executed settings n).map Stmt.unplaced := by
  have reached : (c'.advance settings n).unplaced = ⟨.done, [], id, state.unplaced⟩ := by
    rw [advance_unplaced, same, ← advance_unplaced, ends]
    rfl
  have trace : (c'.executed settings n).map Stmt.unplaced =
      (c.executed settings n).map Stmt.unplaced := by
    rw [executed_unplaced, executed_unplaced, same]
  generalize c'.advance settings n = last at reached ⊢
  obtain ⟨control, stack, id', state'⟩ := last
  simp only [unplaced, mk.injEq, List.map_eq_nil_iff] at reached
  obtain ⟨isDone, rfl, rfl, sameState⟩ := reached
  cases control with
  | done => exact ⟨state', rfl, sameState, trace⟩
  | _ => cases isDone

end Config

namespace Session

variable {s s' final : Session} {fuel : Nat} {program program' : Program}

def executed (fuel : Nat) (s : Session) (program : Program) : List Stmt :=
  (s.begin program).executed s.settings fuel

def finished (s : Session) (state : State) : Session :=
  ⟨s.settings, state.note s.settings (.runFinished state.memory.store.live)⟩

theorem begin_unplaced (s : Session) (program : Program) :
    (s.begin program).unplaced =
      ⟨.run (Stmt.allMoved .nowhere program.body), [], Memory.global, s.state.unplaced⟩ := by
  simp only [begin, note, Config.unplaced, State.note_unplaced]
  rfl

theorem execute_of_ends {id : ScopeId} {state : State}
    (ends : (s.begin program).advance s.settings fuel = ⟨.done, [], id, state⟩) :
    s.execute fuel (some program) = some (.ok (), s.finished state) := by
  simp only [execute, Config.run, ends]
  rfl

theorem succeeds_of_execute (ran : s.execute fuel (some program) = some (.ok (), final)) :
    (s.begin program).Succeeds s.settings fuel := by
  obtain ⟨c, ran, concluded⟩ := Option.map_eq_some_iff.mp ran
  simp only [Config.run] at ran
  split at ran
  case isFalse => cases ran
  case isTrue halted =>
    cases ran
    refine ⟨halted, ?_⟩
    cases control : ((s.begin program).advance s.settings fuel).control with
    | returning | failing =>
      simp only [conclude, control] at concluded
      cases concluded
    | _ => rfl

/-- Sessions that differ in the places of their routines and in their logs only. -/
structure Alike (s s' : Session) : Prop where
  settings : s.settings = s'.settings
  state : s.state.unplaced = s'.state.unplaced

theorem Alike.refl (s : Session) : s.Alike s :=
  ⟨rfl, rfl⟩

theorem Alike.symm (alike : s.Alike s') : s'.Alike s :=
  ⟨alike.settings.symm, alike.state.symm⟩

theorem Alike.trans {t : Session} (first : s.Alike s') (second : s'.Alike t) : s.Alike t :=
  ⟨first.settings.trans second.settings, first.state.trans second.state⟩

theorem begin_alike (s : Session) (program : Program) :
    s.Alike ⟨s.settings, (s.begin program).state⟩ :=
  ⟨rfl, (s.state.note_unplaced ..).symm⟩

theorem finished_alike (s : Session) (state : State) :
    (s.finished state).Alike ⟨s.settings, state⟩ :=
  ⟨rfl, state.note_unplaced ..⟩

theorem runs_of_execute (ran : s.execute fuel (some program) = some (.ok (), final)) :
    ∃ n id state, Config.Runs s.settings program.body Memory.global (s.begin program).state n id
      state (s.executed fuel program) ∧ n < fuel ∧ final = s.finished state := by
  have succeeds := succeeds_of_execute ran
  obtain ⟨n, id, state, trace, runs, below, -⟩ :=
    Config.Succeeds.cut program.body [] (by rwa [List.append_nil])
  obtain ⟨ends, traced⟩ := runs.ends below
  rw [execute_of_ends ends] at ran
  cases ran
  refine ⟨n, id, state, ?_, below, rfl⟩
  rwa [← traced] at runs

/-- A block that runs to its end makes a program succeed which differs from it in its places only,
also in a session that is only alike. -/
theorem execute_of_runs {settings : Settings} {block trace : List Stmt} {id : ScopeId}
    {state state' : State} {n : Nat}
    (runs : Config.Runs settings block Memory.global state n id state' trace) (below : n < fuel)
    (alike : s.Alike ⟨settings, state⟩)
    (same : program.body.map Stmt.unplaced = block.map Stmt.unplaced) :
    ∃ final, s.execute fuel (some program) = some (.ok (), final) ∧
      final.Alike ⟨settings, state'⟩ ∧
      (s.executed fuel program).map Stmt.unplaced = trace.map Stmt.unplaced := by
  obtain ⟨sameSettings, sameState⟩ := alike
  subst sameSettings
  obtain ⟨ends, traced⟩ := runs.ends below
  have begins : (s.begin program).unplaced =
      (Config.ofBlock block Memory.global state).unplaced := by
    rw [begin_unplaced, sameState, Stmt.allMoved_eq, same, ← Stmt.allMoved_eq]
    rfl
  obtain ⟨last, ends, sameLast, sameTrace⟩ := Config.ends_of_unplaced begins ends
  rw [traced] at sameTrace
  refine ⟨s.finished last, execute_of_ends ends, ?_, sameTrace⟩
  exact (s.finished_alike last).trans ⟨rfl, sameLast⟩

/-- A program without statements changes nothing but the log. -/
theorem execute_empty (empty : program.body = [])
    (ran : s.execute fuel (some program) = some (.ok (), final)) :
    final.Alike s ∧ s.executed fuel program = [] := by
  obtain ⟨n, id, state, -, below, -⟩ := runs_of_execute ran
  have same : program.body.map Stmt.unplaced = List.map Stmt.unplaced [] := by rw [empty]
  obtain ⟨final', ran', alike, trace⟩ :=
    execute_of_runs .nil (Nat.zero_lt_of_lt below) (.refl s) same
  rw [ran] at ran'
  cases ran'
  exact ⟨alike, List.map_eq_nil_iff.mp trace⟩

/-- Sessions that are alike give the same answer to programs that differ in their places only. -/
theorem Alike.execute (alike : s'.Alike s)
    (same : program'.body.map Stmt.unplaced = program.body.map Stmt.unplaced)
    (ran : s.execute fuel (some program) = some (.ok (), final)) :
    ∃ final', s'.execute fuel (some program') = some (.ok (), final') ∧ final'.Alike final ∧
      (s'.executed fuel program').map Stmt.unplaced =
        (s.executed fuel program).map Stmt.unplaced := by
  obtain ⟨n, id, state, runs, below, rfl⟩ := runs_of_execute ran
  obtain ⟨final', ran', alike', trace⟩ :=
    execute_of_runs runs below (alike.trans (s.begin_alike program)) same
  exact ⟨final', ran', alike'.trans (s.finished_alike state).symm, trace⟩

theorem Idle.execute (idle : s.Idle)
    (ran : s.execute fuel (some program) = some (.ok (), final)) : final.Idle := by
  have served : s.serve fuel (.program (some program)) = some (.ran (.ok ()), final) := by
    rw [Session.serve, ran]
    rfl
  exact (idle.serve served).2

/-- A program that succeeds may be cut in two, and its parts be executed one after the other. -/
theorem Idle.execute_parts (idle : s.Idle) {first second : Program} {ys : List Stmt}
    (parts : program.body = first.body ++ ys)
    (same : second.body.map Stmt.unplaced = ys.map Stmt.unplaced)
    (ran : s.execute fuel (some program) = some (.ok (), final)) :
    ∃ middle final', s.execute fuel (some first) = some (.ok (), middle) ∧
      middle.execute fuel (some second) = some (.ok (), final') ∧ final'.Alike final ∧
      (s.executed fuel first ++ middle.executed fuel second).map Stmt.unplaced =
        (s.executed fuel program).map Stmt.unplaced := by
  have begins : s.begin program =
      Config.ofBlock (first.body ++ ys) Memory.global (s.begin program).state := by
    rw [← parts]
    rfl
  have succeeds := succeeds_of_execute ran
  rw [begins] at succeeds
  obtain ⟨k, id, state₁, trace₁, runs₁, below₁, rest⟩ := succeeds.cut first.body ys
  -- With no frame waiting, the second part begins in the global scope again.
  have isGlobal : id = Memory.global := by
    have frames := (idle.passes ⟨.program (some program), _, k, rfl, rfl⟩).2.settled.frames
    rw [begins, runs₁.advance] at frames
    exact frames.1
  subst isGlobal
  obtain ⟨l, id₂, state₂, trace₂, runs₂, below₂, -⟩ :=
    Config.Succeeds.cut ys [] (by rwa [List.append_nil])
  obtain ⟨ends, traced⟩ := (runs₁.append runs₂).ends (Nat.add_lt_of_lt_sub' below₂)
  rw [← begins] at ends traced
  rw [execute_of_ends ends] at ran
  cases ran
  obtain ⟨middle, ranFirst, alikeMiddle, traceFirst⟩ :=
    execute_of_runs runs₁ below₁ (s.begin_alike program) rfl
  obtain ⟨final', ranSecond, alikeFinal, traceSecond⟩ :=
    execute_of_runs runs₂ (Nat.lt_of_lt_of_le below₂ (Nat.sub_le fuel k)) alikeMiddle same
  refine ⟨middle, final', ranFirst, ranSecond, ?_, ?_⟩
  · exact alikeFinal.trans (s.finished_alike state₂).symm
  · rw [List.map_append, traceFirst, traceSecond, ← List.map_append, ← traced]
    rfl

end Session

end Pseudocode
