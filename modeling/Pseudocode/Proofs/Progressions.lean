import Mathlib.Algebra.Ring.Int.Defs
import Pseudocode.Proofs.Arithmetic
import Pseudocode.Proofs.Outcomes
import Pseudocode.Proofs.Termination

/-! # `FOR` loops run a progression

The bounds of a `FOR` loop are evaluated once. What follows is a fold over the integers from the
first bound to the last one: each of them is written to the counter, and then the body runs. What
the body does to the counter or to the variables of the bounds does not change which integers these
are, and none of them leaves INTEGER, since a step that would do so ends the loop. -/

namespace Pseudocode

/-! ## The integers of a progression -/

namespace Progression

/-- The integer lies on the way from `first` to `last`, if steps have this direction. -/
def OnWay (first last step n : Int) : Prop :=
  0 < step ∧ first ≤ n ∧ n ≤ last ∨ step < 0 ∧ last ≤ n ∧ n ≤ first

instance (first last step n : Int) : Decidable (OnWay first last step n) :=
  inferInstanceAs (Decidable (_ ∨ _))

def count (first last step : Int) : Nat :=
  if 0 < step then ((last - first) / step + 1).toNat
  else if step < 0 then ((first - last) / -step + 1).toNat
  else 0

/-- The integers `first`, `first + step` and so on that lie on the way to `last`. -/
def visits (first last step : Int) : List Int :=
  (List.range (count first last step)).map fun k : Nat => first + k * step

variable {first last step : Int}

theorem lt_count_iff (k : Nat) :
    k < count first last step ↔ OnWay first last step (first + k * step) := by
  unfold count OnWay
  have far : (0 : Int) ≤ k := Int.natCast_nonneg k
  split
  case isTrue up =>
    have reached := Int.le_ediv_iff_mul_le (a := k) (b := last - first) up
    have later := Int.mul_nonneg far (Int.le_of_lt up)
    omega
  case isFalse =>
    split
    case isTrue down =>
      have reached := Int.le_ediv_iff_mul_le (a := k) (b := first - last) (Int.neg_pos.mpr down)
      have later := Int.mul_nonneg far (Int.le_of_lt (Int.neg_pos.mpr down))
      rw [Int.mul_neg] at reached later
      omega
    case isFalse => omega

theorem getElem?_visits (first last step : Int) (k : Nat) : (visits first last step)[k]? =
    if OnWay first last step (first + k * step) then some (first + k * step) else none := by
  by_cases onWay : OnWay first last step (first + k * step)
  · have inside := (lt_count_iff k).mpr onWay
    rw [if_pos onWay, visits, List.getElem?_map, List.getElem?_range inside, Option.map_some]
  · have outside := mt (lt_count_iff k).mp onWay
    rw [if_neg onWay, List.getElem?_eq_none_iff, visits, List.length_map, List.length_range]
    exact Nat.le_of_not_lt outside

theorem head?_visits (first last step : Int) : (visits first last step)[0]? =
    if OnWay first last step first then some first else none := by
  have zero := getElem?_visits first last step 0
  rwa [Int.natCast_zero, Int.zero_mul, Int.add_zero] at zero

theorem visits_of_not_onWay (passed : ¬ OnWay first last step first) :
    visits first last step = [] := by
  have none := head?_visits first last step
  rw [if_neg passed] at none
  exact List.eq_nil_of_length_eq_zero (Nat.le_zero.mp (List.getElem?_eq_none_iff.mp none))

/-- What lies on the way from the next integer lies on the way from the first one. -/
theorem onWay_next (onWay : OnWay first last step first) (k : Nat) :
    OnWay (first + step) last step (first + step + k * step) ↔
      OnWay first last step (first + step + k * step) := by
  have far : (0 : Int) ≤ k := Int.natCast_nonneg k
  unfold OnWay at *
  rcases onWay with ⟨up, -⟩ | ⟨down, -⟩
  · have later := Int.mul_nonneg far (Int.le_of_lt up)
    omega
  · have later := Int.mul_nonneg far (Int.le_of_lt (Int.neg_pos.mpr down))
    rw [Int.mul_neg] at later
    omega

theorem visits_of_onWay (onWay : OnWay first last step first) :
    visits first last step = first :: visits (first + step) last step := by
  apply List.ext_getElem?
  intro k
  cases k with
  | zero => rw [head?_visits, if_pos onWay, List.getElem?_cons_zero]
  | succ k =>
    have next : first + ((k + 1 : Nat) : Int) * step = first + step + k * step := by
      rw [Int.natCast_succ, Int.add_mul, Int.one_mul]
      omega
    rw [List.getElem?_cons_succ, getElem?_visits, getElem?_visits, next]
    simp only [onWay_next onWay]

/-! ## The integers of a loop that runs -/

variable {p : Progression}

/-- The integers that are still to be written to the counter. -/
def remaining (p : Progression) : List Int :=
  visits p.current.toInt p.last.toInt p.step.toInt

theorem continues_iff :
    p.continues = true ↔ OnWay p.current.toInt p.last.toInt p.step.toInt p.current.toInt := by
  simp only [continues, Bool.or_eq_true, Bool.and_eq_true, decide_eq_true_eq,
    Int64.lt_iff_toInt_lt, Int64.le_iff_toInt_le, Int64.toInt_zero, OnWay]
  omega

theorem remaining_of_stopped (stopped : ¬ p.continues = true) : p.remaining = [] :=
  visits_of_not_onWay fun onWay => stopped (continues_iff.mpr onWay)

theorem toInt_maxValue_sub {n : Int64} (up : 0 < n.toInt) :
    (Int64.maxValue - n).toInt = 2 ^ 63 - 1 - n.toInt := by
  have range := Integer.fits_toInt n
  rw [Int64.toInt_sub, Int64.toInt_maxValue, Integer.Fits.bmod_eq]
  unfold Integer.Fits at *
  omega

theorem toInt_minValue_sub {n : Int64} (down : n.toInt < 0) :
    (Int64.minValue - n).toInt = -2 ^ 63 - n.toInt := by
  have range := Integer.fits_toInt n
  rw [Int64.toInt_sub, Int64.toInt_minValue, Integer.Fits.bmod_eq]
  unfold Integer.Fits at *
  omega

/-- A counter that would wrap around has passed the end of its way. -/
theorem not_onWay_of_next?_eq_none (none : p.next? = none) :
    ¬ OnWay (p.current.toInt + p.step.toInt) p.last.toInt p.step.toInt
      (p.current.toInt + p.step.toInt) := by
  unfold next? at none
  split at none
  case isFalse => cases none
  case isTrue leaves =>
    have range := Integer.fits_toInt p.last
    simp only [Bool.or_eq_true, Bool.and_eq_true, decide_eq_true_eq, Int64.lt_iff_toInt_lt,
      Int64.toInt_zero] at leaves
    unfold Integer.Fits at range
    unfold OnWay
    rcases leaves with ⟨up, high⟩ | ⟨down, low⟩
    · rw [toInt_maxValue_sub up] at high
      omega
    · rw [toInt_minValue_sub down] at low
      omega

/-- The first of the remaining integers is written to the counter, and the next round goes on with
the others. -/
theorem remaining_of_continues (continues : p.continues = true) :
    p.remaining = p.current.toInt :: (p.next?.map remaining).getD [] := by
  rw [remaining, visits_of_onWay (continues_iff.mp continues)]
  congr 1
  cases found : p.next? with
  | none => exact visits_of_not_onWay (not_onWay_of_next?_eq_none found)
  | some next =>
    obtain ⟨current, rfl, sum⟩ := toInt_next continues found
    rw [Option.map_some, Option.getD_some, remaining, sum]

end Progression

/-! ## The rounds of a loop -/

namespace Config

def setCounter (counter : Ident) (slot : Handle) (n : Int) : Memory.Action Unit :=
  Memory.writeAs counter.name slot (.integer (.ofInt n))

/-- The fold of a loop: each of the integers is written to the counter, and then the body runs.
The first round that fails or returns is the last one. The list holds, for each round, the state in
which the body began and the one it left. -/
inductive Rounds (settings : Settings) (counter : Ident) (slot : Handle) (body : List Stmt)
    (id : ScopeId) : List Int → State → List (State × State) → Control → State → Prop where
  | nil {state} : Rounds settings counter slot body id [] state [] .done state
  | refused {n rest state fault m} :
      (setCounter counter slot n).run state.memory = .error fault m →
      Rounds settings counter slot body id (n :: rest) state []
        (.failing (.fault (fault.withSpan counter.span))) { state with memory := m }
  | stops {n rest state m outcome after} :
      (setCounter counter slot n).run state.memory = .ok () m →
      Comes settings (.run body) id { state with memory := m } outcome after → outcome ≠ .done →
      Rounds settings counter slot body id (n :: rest) state [({ state with memory := m }, after)]
        outcome after
  | next {n rest state m between rounds outcome after} :
      (setCounter counter slot n).run state.memory = .ok () m →
      Comes settings (.run body) id { state with memory := m } .done between →
      Rounds settings counter slot body id rest between rounds outcome after →
      Rounds settings counter slot body id (n :: rest) state
        (({ state with memory := m }, between) :: rounds) outcome after

variable {settings : Settings} {counter : Ident} {slot : Handle} {body : List Stmt} {id : ScopeId}
  {state after : State} {outcome : Control} {n : Int} {rest : List Int} {m : Memory}

/-- The loop over these integers comes to this. -/
def Folds (settings : Settings) (counter : Ident) (slot : Handle) (body : List Stmt) (id : ScopeId)
    (ns : List Int) (state : State) (outcome : Control) (after : State) : Prop :=
  ∃ rounds, Rounds settings counter slot body id ns state rounds outcome after

theorem folds_nil_iff :
    Folds settings counter slot body id [] state outcome after ↔
      outcome = .done ∧ after = state := by
  constructor
  · rintro ⟨rounds, ⟨⟩⟩
    exact ⟨rfl, rfl⟩
  · rintro ⟨rfl, rfl⟩
    exact ⟨[], .nil⟩

theorem folds_refused_iff {fault : Fault}
    (refused : (setCounter counter slot n).run state.memory = .error fault m) :
    Folds settings counter slot body id (n :: rest) state outcome after ↔
      outcome = .failing (.fault (fault.withSpan counter.span)) ∧
        after = { state with memory := m } := by
  constructor
  · rintro ⟨rounds, folds⟩
    cases folds with
    | refused refused' =>
      cases refused.symm.trans refused'
      exact ⟨rfl, rfl⟩
    | stops written => cases refused.symm.trans written
    | next written => cases refused.symm.trans written
  · rintro ⟨rfl, rfl⟩
    exact ⟨[], .refused refused⟩

theorem folds_written_iff (written : (setCounter counter slot n).run state.memory = .ok () m) :
    Folds settings counter slot body id (n :: rest) state outcome after ↔
      ∃ found between, Comes settings (.run body) id { state with memory := m } found between ∧
        (found = .done ∧ Folds settings counter slot body id rest between outcome after ∨
          found ≠ .done ∧ outcome = found ∧ after = between) := by
  constructor
  · rintro ⟨rounds, folds⟩
    cases folds with
    | refused refused => cases written.symm.trans refused
    | stops written' comes stopped =>
      cases written.symm.trans written'
      exact ⟨_, _, comes, .inr ⟨stopped, rfl, rfl⟩⟩
    | next written' comes later =>
      cases written.symm.trans written'
      exact ⟨_, _, comes, .inl ⟨rfl, _, later⟩⟩
  · rintro ⟨found, between, comes, ⟨rfl, rounds, later⟩ | ⟨stopped, rfl, rfl⟩⟩
    · exact ⟨_, .next written comes later⟩
    · exact ⟨_, .stops written comes stopped⟩

variable {p : Progression}

theorem iterate_written (continues : p.continues = true)
    (written : (setCounter p.counter p.slot p.current.toInt).run state.memory = .ok () m) :
    iterate p [] id state = ⟨.run p.body, [.loopBody p], id, { state with memory := m }⟩ := by
  rw [setCounter, Int64.ofInt_toInt] at written
  simp only [iterate, access, continues, written, if_true]

theorem iterate_refused (continues : p.continues = true) {fault : Fault}
    (refused : (setCounter p.counter p.slot p.current.toInt).run state.memory = .error fault m) :
    iterate p [] id state =
      ⟨.failing (.fault (fault.withSpan p.counter.span)), [], id, { state with memory := m }⟩ := by
  rw [setCounter, Int64.ofInt_toInt] at refused
  simp only [iterate, access, continues, refused, if_true]

theorem finish_loopBody (p : Progression) : finish settings (.loopBody p) [] id state =
    (p.next?.map fun next => ⟨.iterate next, [], id, state⟩).getD ⟨.done, [], id, state⟩ := by
  unfold finish
  dsimp only
  cases p.next? <;> rfl

/-- A `RETURN` and a failure pass by the frame of a loop. -/
theorem halts_loopBody_stopped (stopped : outcome.succeeds = false) {d : Config} :
    Halts settings ⟨outcome, [.loopBody p], id, state⟩ d ↔
      Halts settings ⟨outcome, [], id, state⟩ d := by
  rw [← halts_step]
  cases outcome with
  | returning | failing => rfl
  | _ => cases stopped

/-- A loop that runs is the fold over the integers that remain. -/
theorem comes_iterate_iff (p : Progression) :
    Comes settings (.iterate p) id state outcome after ↔
      Folds settings p.counter p.slot p.body id p.remaining state outcome after := by
  -- Each round takes the first of the remaining integers away.
  generalize remaining : p.remaining = ns
  induction ns generalizing p state with
  | nil =>
    have stopped : ¬ p.continues = true := by
      intro continues
      cases (Progression.remaining_of_continues continues).symm.trans remaining
    rw [← comes_step, folds_nil_iff, ← halts_outcome_iff rfl]
    change Halts settings (iterate p [] id state) _ ↔ _
    rw [iterate, if_neg stopped]
  | cons n rest ih =>
    have continues : p.continues = true := by
      by_contra stopped
      cases (Progression.remaining_of_stopped stopped).symm.trans remaining
    have parts := (Progression.remaining_of_continues continues).symm.trans remaining
    obtain ⟨rfl, later⟩ := List.cons.inj parts
    rw [← comes_step]
    change Halts settings (iterate p [] id state) _ ↔ _
    cases ran : (setCounter p.counter p.slot p.current.toInt).run state.memory with
    | error fault m =>
      rw [iterate_refused continues ran, halts_outcome_iff rfl, folds_refused_iff ran]
    | ok _ m =>
      rw [iterate_written continues ran, halts_above, folds_written_iff ran]
      refine exists_congr fun found => exists_congr fun between =>
        and_congr_right fun comes => ?_
      rcases comes.block with rfl | stopped
      · simp only [true_and, ne_eq, not_true, false_and, or_false]
        rw [← halts_step]
        change Halts settings (finish settings (.loopBody p) [] id between) _ ↔ _
        rw [finish_loopBody]
        cases found : p.next? with
        | none =>
          rw [found] at later
          rw [← later]
          exact (halts_outcome_iff rfl).trans folds_nil_iff.symm
        | some next =>
          rw [found] at later
          obtain ⟨current, rfl, -⟩ := Progression.toInt_next continues found
          exact ih _ later
      · have other : found ≠ .done := by
          rintro rfl
          cases stopped
        simp only [other, ne_eq, not_false_eq_true, false_and, true_and, false_or]
        rw [halts_loopBody_stopped stopped, halts_outcome_iff comes.isOutcome]

/-! ## Loops -/

/-- The step of a loop comes to the INTEGER `s`; without one it is 1. -/
def StepComes (settings : Settings) (step : Option Expr) (id : ScopeId) (state : State) (s : Int64)
    (after : State) : Prop :=
  match step with
  | none => s = 1 ∧ after = state
  | some e => Comes settings (.eval e) id state (.value (.integer s)) after

theorem beginLoop_found {loop : Loop} {a b s : Int64} (nonzero : s ≠ 0)
    (resolves : state.memory.resolve? id loop.counter.name = some (.slot slot)) :
    beginLoop loop a b s [] id state =
      ⟨.iterate ⟨loop.counter, slot, a, b, s, loop.body⟩, [], id, state⟩ := by
  have found : (Memory.lookupVariable id loop.counter.name).run state.memory =
      .ok slot state.memory := by
    rw [Memory.lookupVariable_run, resolves]
  rw [beginLoop, if_neg nonzero, tryAccess_ok found]

/-- A `FOR` statement is the fold over its integers, once its bounds are evaluated. -/
theorem comes_forLoop_iff {first last : Expr} {step : Option Expr} {span : Span} {a b s : Int64}
    {state₁ state₂ state₃ : State}
    (start : Comes settings (.eval first) id state (.value (.integer a)) state₁)
    (stop : Comes settings (.eval last) id state₁ (.value (.integer b)) state₂)
    (pace : StepComes settings step id state₂ s state₃) (nonzero : s ≠ 0)
    (resolves : state₃.memory.resolve? id counter.name = some (.slot slot)) :
    Comes settings (.exec (.forLoop counter first last step body span)) id state outcome after ↔
      Folds settings counter slot body id (Progression.visits a.toInt b.toInt s.toInt) state₃
        outcome after := by
  let loop : Loop := ⟨counter, last, step, body⟩
  have begun : Halts settings (beginLoop loop a b s [] id state₃) ⟨outcome, [], id, after⟩ ↔
      Folds settings counter slot body id (Progression.visits a.toInt b.toInt s.toInt) state₃
        outcome after := by
    rw [beginLoop_found nonzero resolves]
    exact comes_iterate_iff _
  rw [← comes_step, ← begun]
  change Halts settings ⟨.eval first, [.loopFirst loop], id, state⟩ _ ↔ _
  rw [start.above, ← halts_step]
  change Halts settings ⟨.eval last, [.loopLast loop a], id, state₁⟩ _ ↔ _
  rw [stop.above, ← halts_step]
  cases step with
  | none =>
    obtain ⟨rfl, rfl⟩ := pace
    rfl
  | some e =>
    change Halts settings ⟨.eval e, [.loopStep loop a b], id, state₂⟩ _ ↔ _
    have paced : Comes settings (.eval e) id state₂ (.value (.integer s)) state₃ := pace
    rw [paced.above, ← halts_step]
    rfl

theorem setCounter_value {before : Memory}
    (written : (setCounter counter slot n).run before = .ok () m) :
    (m.store.cell? slot).bind (·.value) = some (.integer (.ofInt n)) := by
  rw [setCounter, Memory.writeAs_run] at written
  split at written
  case h_1 => cases written
  case h_2 allowed =>
    cases written
    obtain ⟨cell, found, -⟩ := Store.refusal?_eq_none_iff.mp allowed
    rw [Memory.cell?_written (Store.live_iff.mpr ⟨cell, found⟩), if_pos rfl, found]
    rfl

/-- If no body changes the counter, the loop leaves the last integer in it. -/
theorem Rounds.holds_last {ns : List Int} {rounds : List (State × State)}
    (folds : Rounds settings counter slot body id ns state rounds .done after)
    (kept : ∀ round ∈ rounds,
      round.2.memory.store.cell? slot = round.1.memory.store.cell? slot) :
    ∀ n ∈ ns.getLast?,
      (after.memory.store.cell? slot).bind (·.value) = some (.integer (.ofInt n)) := by
  generalize isDone : Control.done = outcome at folds
  induction folds with
  | nil => exact fun n member => by cases member
  | refused => cases isDone
  | stops _ _ stopped => exact absurd isDone.symm stopped
  | @next n rest state m between rounds outcome after written comes later ih =>
    rw [List.forall_mem_cons] at kept
    cases rest with
    | nil =>
      cases later
      intro last member
      cases Option.some.inj member
      rw [kept.1]
      exact setCounter_value written
    | cons n' rest =>
      rw [List.getLast?_cons_cons]
      exact ih kept.2 isDone

end Config

theorem Progression.fits_of_mem {a b s : Int64} {n : Int}
    (member : n ∈ visits a.toInt b.toInt s.toInt) : Integer.Fits n := by
  obtain ⟨k, found⟩ := List.mem_iff_getElem?.mp member
  rw [getElem?_visits] at found
  split at found
  case isFalse => cases found
  case isTrue onWay =>
    cases found
    have := Integer.fits_toInt a
    have := Integer.fits_toInt b
    unfold Integer.Fits OnWay at *
    omega

/-- A `FOR` statement runs the exact progression: the fold over the integers `a + k * s` on the way
to `b`, whatever its body does. -/
theorem Config.forLoop_exact {settings : Settings} {c : Config} {counter : Ident}
    {first last : Expr} {step : Option Expr} {body : List Stmt} {span : Span} {a b s : Int64}
    {slot : Handle} {state₁ state₂ state₃ : State}
    (executes : c.control = .exec (.forLoop counter first last step body span))
    (start : Comes settings (.eval first) c.scope c.state (.value (.integer a)) state₁)
    (stop : Comes settings (.eval last) c.scope state₁ (.value (.integer b)) state₂)
    (pace : StepComes settings step c.scope state₂ s state₃) (nonzero : s ≠ 0)
    (resolves : state₃.memory.resolve? c.scope counter.name = some (.slot slot)) :
    ∃ ns : List Int,
      (∀ k : Nat, ns[k]? =
        if Progression.OnWay a.toInt b.toInt s.toInt (a.toInt + k * s.toInt)
        then some (a.toInt + k * s.toInt) else none) ∧
      (∀ n ∈ ns, Integer.Fits n) ∧
      (∀ outcome after,
        (∃ n, c.Ends settings n outcome ∧ (c.advance settings n).state = after) ↔
          Folds settings counter slot body c.scope ns state₃ outcome after) ∧
      (ns = [] → ∃ n, c.Ends settings n .done ∧ (c.advance settings n).state = state₃) ∧
      ∀ rounds after, Rounds settings counter slot body c.scope ns state₃ rounds .done after →
        (∀ round ∈ rounds, round.2.memory.store.cell? slot = round.1.memory.store.cell? slot) →
        ∀ n ∈ ns.getLast?,
          (after.memory.store.cell? slot).bind (·.value) = some (.integer (.ofInt n)) := by
  have folds (outcome : Control) (after : State) :
      (∃ n, c.Ends settings n outcome ∧ (c.advance settings n).state = after) ↔
        Folds settings counter slot body c.scope (Progression.visits a.toInt b.toInt s.toInt) state₃
          outcome after := by
    rw [ends_iff_comes, executes]
    exact comes_forLoop_iff start stop pace nonzero resolves
  refine ⟨Progression.visits a.toInt b.toInt s.toInt, Progression.getElem?_visits _ _ _,
    fun _ => Progression.fits_of_mem, folds, ?empty, fun _ _ rounds kept => rounds.holds_last kept⟩
  intro empty
  rw [folds, empty]
  exact folds_nil_iff.mpr ⟨rfl, rfl⟩

namespace Sample

def counting : State where
  memory := {
    store := { cells := #[some { type := .of .integer }] }
    scopes := #[{ label := "global", parent := none, bindings := [("i", .slot 0)], owned := [0] }] }

def reset : List Stmt := [.assign (word "i") (.integer 0 .zero) .zero]

/-- A loop whose step does not hit the greatest INTEGER, and whose body sets the counter back. -/
def ascent : Config where
  control := .exec (.forLoop (word "i") (.integer 9223372036854775800 .zero)
    (.integer 9223372036854775807 .zero) (some (.integer 5 .zero)) reset .zero)
  stack := []
  scope := Memory.global
  state := counting

end Sample

open Sample in
theorem Config.forLoop_exact_ascent :
    ∃ ns : List Int, ns[1]? = some 9223372036854775805 ∧ ns[2]? = none ∧
      ∀ outcome after,
        (∃ n, ascent.Ends fresh.settings n outcome ∧
          (ascent.advance fresh.settings n).state = after) ↔
        Folds fresh.settings (word "i") 0 reset Memory.global ns counting outcome after := by
  have literal (n : Int64) : Comes fresh.settings (.eval (.integer n .zero)) Memory.global counting
      (.value (.integer n)) counting := ⟨rfl, 1, rfl⟩
  have resolves : counting.memory.resolve? Memory.global "i" = some (.slot 0) := by
    rw [Memory.resolve?]
    rfl
  obtain ⟨ns, members, -, folds, -⟩ := Config.forLoop_exact (c := ascent) rfl (literal _)
    (literal _) (literal _) (by decide) resolves
  exact ⟨ns, (members 1).trans (by decide), (members 2).trans (by decide), folds⟩

end Pseudocode
