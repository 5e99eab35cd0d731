import Pseudocode.Proofs.Framing
import Pseudocode.Proofs.Sequencing

/-! # What comes of something that is done alone

A run above other frames goes as it does without them until it ends. So what is done can be
described by what comes of it alone: an outcome and a state. The scope is not part of that, since
every call goes back to the scope it was made in. -/

namespace Pseudocode

/-! ## The way back to a scope -/

/-- Leaving the calls of the stack one after the other leads from the scope `id` back to `home`. -/
def LeadsTo (home : ScopeId) : ScopeId → List Frame → Prop
  | id, [] => id = home
  | id, .invocation _ _ callee caller :: rest => id = callee ∧ LeadsTo home caller rest
  | id, _ :: rest => LeadsTo home id rest

namespace Config

/-- The calls that the configuration has opened lead back to the scope `home`. -/
def Homed (home : ScopeId) (c : Config) : Prop :=
  LeadsTo home c.scope c.stack

variable {settings : Settings} {home : ScopeId} {stack : List Frame} {id : ScopeId} {state : State}

theorem Moves.homed {plain returns : Bool} {values : Value → Prop} {log : Array LogEntry}
    {depth : Nat} {c : Config} (moves : Moves plain returns values id stack log depth c)
    (leads : LeadsTo home id stack) : c.Homed home := by
  cases moves with
  | goes => exact leads
  | @waits control frame _ _ awaits =>
    cases frame with
    | invocation => cases control <;> cases awaits
    | _ => exact leads

variable {frame : Frame} {base : List Frame}

theorem Homed.step {c : Config} (homed : c.Homed home) : (c.step settings).Homed home := by
  have move := c.step_move settings
  generalize c.step settings = next at move
  cases move with
  | halts => exact homed
  | begins _ _ moves => exact moves.homed homed
  | enters => exact ⟨rfl, homed⟩
  | @hands frame rest _ _ _ isTop _ _ _ _ moves =>
    unfold Homed at homed
    rw [isTop] at homed
    apply moves.homed
    cases frame with
    | invocation => exact homed.2
    | _ => exact homed
  | drops => exact homed

theorem Homed.advance {c : Config} (homed : c.Homed home) (n : Nat) :
    (c.advance settings n).Homed home :=
  advance_induction (P := Homed home) (fun _ => Homed.step) n homed

/-! ## Runs to the end -/

def Halts (settings : Settings) (c d : Config) : Prop :=
  d.halted = true ∧ ∃ n, c.advance settings n = d

variable {c d d' : Config}

theorem Halts.unique (first : c.Halts settings d) (second : c.Halts settings d') : d = d' := by
  obtain ⟨halted, m, rfl⟩ := first
  obtain ⟨halted', n, rfl⟩ := second
  rcases Nat.le_total m n with le | le
  · exact (advance_of_le halted le).symm
  · exact advance_of_le halted' le

theorem halts_step : (c.step settings).Halts settings d ↔ c.Halts settings d := by
  refine and_congr_right fun halted => ⟨?_, ?_⟩
  · rintro ⟨n, rfl⟩
    exact ⟨n + 1, advance_step c n⟩
  · rintro ⟨n, rfl⟩
    refine ⟨n, ?_⟩
    rw [← advance_step, ← step_advance, step_halted halted]

/-- What is done above a frame comes to its end first, and then the frame goes on. -/
theorem halts_onto :
    (c.onto (frame :: base)).Halts settings d ↔
      ∃ e, c.Halts settings e ∧ (e.onto (frame :: base)).Halts settings d := by
  constructor
  · rintro ⟨halted, n, rfl⟩
    obtain ⟨k, ends, running⟩ := exists_halted_of_onto halted
    refine ⟨_, ⟨ends, k, rfl⟩, halted, n, ?_⟩
    rw [← advance_onto running, ← advance_add, Nat.add_comm, advance_add, advance_halted halted]
  · rintro ⟨e, ⟨ends, m, rfl⟩, halted, n, rfl⟩
    obtain ⟨k, first, running⟩ := exists_first_halted ends
    have same : c.advance settings m = c.advance settings k :=
      Halts.unique ⟨ends, m, rfl⟩ ⟨first, k, rfl⟩
    refine ⟨halted, k + n, ?_⟩
    rw [advance_add, advance_onto running, same]

/-- The run of `c` comes by `d`. -/
def Reaches (settings : Settings) (c d : Config) : Prop :=
  ∃ n, c.advance settings n = d

theorem Reaches.refl (c : Config) : c.Reaches settings c :=
  ⟨0, rfl⟩

theorem Reaches.step (later : (c.step settings).Reaches settings d) : c.Reaches settings d := by
  obtain ⟨n, rfl⟩ := later
  exact ⟨n + 1, advance_step c n⟩

theorem Reaches.trans {e : Config} (first : c.Reaches settings d) (second : d.Reaches settings e) :
    c.Reaches settings e := by
  obtain ⟨m, rfl⟩ := first
  obtain ⟨n, rfl⟩ := second
  exact ⟨m + n, advance_add c m n⟩

theorem Reaches.halts_iff {e : Config} (reaches : c.Reaches settings d) :
    c.Halts settings e ↔ d.Halts settings e := by
  obtain ⟨n, rfl⟩ := reaches
  induction n generalizing c with
  | zero => rfl
  | succ n ih => rw [advance_step, ← ih, halts_step]

/-- The run of `c` comes by `d`, and every moment before that has the property. -/
def Through (settings : Settings) (P : Config → Prop) (c d : Config) : Prop :=
  ∃ n, c.advance settings n = d ∧ ∀ j < n, P (c.advance settings j)

section Through

variable {P Q : Config → Prop}

theorem Through.reaches (through : c.Through settings P d) : c.Reaches settings d := by
  obtain ⟨n, reached, -⟩ := through
  exact ⟨n, reached⟩

theorem Through.mono (through : c.Through settings P d) (weaker : ∀ c, P c → Q c) :
    c.Through settings Q d := by
  obtain ⟨n, reached, before⟩ := through
  exact ⟨n, reached, fun j below => weaker _ (before j below)⟩

theorem Through.refl (c : Config) : c.Through settings P c :=
  ⟨0, rfl, fun j below => absurd below (Nat.not_lt_zero j)⟩

theorem Through.trans {e : Config} (first : c.Through settings P d)
    (second : d.Through settings P e) : c.Through settings P e := by
  obtain ⟨m, rfl, before⟩ := first
  obtain ⟨n, rfl, between⟩ := second
  refine ⟨m + n, advance_add c m n, fun j below => ?_⟩
  by_cases early : j < m
  · exact before j early
  · obtain ⟨k, rfl⟩ := Nat.exists_eq_add_of_le (Nat.le_of_not_lt early)
    rw [advance_add]
    exact between k (Nat.lt_of_add_lt_add_left below)

theorem Through.step (now : P c) (later : (c.step settings).Through settings P d) :
    c.Through settings P d := by
  have once : c.Through settings P (c.step settings) := by
    refine ⟨1, advance_step c 0, fun j below => ?_⟩
    cases Nat.lt_one_iff.mp below
    exact now
  exact once.trans later

end Through

theorem halts_of_halted (halted : c.halted = true) : c.Halts settings d ↔ d = c := by
  constructor
  · exact fun halts => halts.unique ⟨halted, 0, rfl⟩
  · rintro rfl
    exact ⟨halted, 0, rfl⟩

/-! ## Outcomes -/

/-- Done alone in the scope `id`, this comes to the outcome and leaves the state `after`. -/
def Comes (settings : Settings) (control : Control) (id : ScopeId) (state : State)
    (outcome : Control) (after : State) : Prop :=
  Halts settings ⟨control, [], id, state⟩ ⟨outcome, [], id, after⟩

variable {control outcome outcome' : Control} {after after' : State}

/-- What is done alone ends in the scope in which it began. -/
theorem Halts.comes (halts : Halts settings ⟨control, [], id, state⟩ d) :
    ∃ outcome after, d = ⟨outcome, [], id, after⟩ := by
  obtain ⟨halted, n, ended⟩ := halts
  have begins : Homed id ⟨control, [], id, state⟩ := show id = id from rfl
  have homed : Homed id d := ended ▸ begins.advance n
  obtain ⟨outcome, stack, scope, after⟩ := d
  obtain ⟨rfl, -⟩ := halted_iff.mp halted
  obtain rfl : scope = id := homed
  exact ⟨outcome, after, rfl⟩

theorem Comes.isOutcome (comes : Comes settings control id state outcome after) :
    outcome.isOutcome = true :=
  (halted_iff.mp comes.1).2

theorem Comes.unique (first : Comes settings control id state outcome after)
    (second : Comes settings control id state outcome' after') :
    outcome = outcome' ∧ after = after' := by
  have same := Halts.unique first second
  exact ⟨congrArg Config.control same, congrArg Config.state same⟩

theorem halts_outcome_iff (isOutcome : control.isOutcome = true) :
    Halts settings ⟨control, [], id, state⟩ ⟨outcome, [], id, after⟩ ↔
      outcome = control ∧ after = state := by
  rw [halts_of_halted (halted_iff.mpr ⟨rfl, isOutcome⟩)]
  simp only [Config.mk.injEq, true_and]

theorem comes_step :
    Halts settings (step settings ⟨control, [], id, state⟩) ⟨outcome, [], id, after⟩ ↔
      Comes settings control id state outcome after :=
  halts_step

/-- A frame goes on with what comes of what it waits for. -/
theorem halts_above :
    Halts settings ⟨control, frame :: base, id, state⟩ d ↔
      ∃ outcome after, Comes settings control id state outcome after ∧
        Halts settings ⟨outcome, frame :: base, id, after⟩ d := by
  change Halts settings (onto ⟨control, [], id, state⟩ (frame :: base)) d ↔ _
  rw [halts_onto]
  constructor
  · rintro ⟨e, ends, later⟩
    obtain ⟨outcome, after, rfl⟩ := ends.comes
    exact ⟨outcome, after, ends, later⟩
  · rintro ⟨outcome, after, comes, later⟩
    exact ⟨_, comes, later⟩

theorem Comes.above (comes : Comes settings control id state outcome after) :
    Halts settings ⟨control, frame :: base, id, state⟩ d ↔
      Halts settings ⟨outcome, frame :: base, id, after⟩ d := by
  rw [halts_above]
  constructor
  · rintro ⟨outcome', after', comes', later⟩
    obtain ⟨rfl, rfl⟩ := comes.unique comes'
    exact later
  · exact fun later => ⟨outcome, after, comes, later⟩

/-- What is done in the middle of a run comes to what comes of it alone. -/
theorem Ends.comes {n : Nat} (ends : c.Ends settings n outcome) :
    Comes settings c.control c.scope c.state outcome (c.advance settings n).state := by
  obtain ⟨lowest, control⟩ := ends.alone
  have halted : (c.alone.advance settings n).halted = true := by
    rw [halted_iff, lowest, control, ← ends.control]
    exact ⟨rfl, ends.returned.2⟩
  obtain ⟨k, first, running⟩ := exists_first_halted halted
  have same : k = n := by
    rcases Nat.lt_trichotomy k n with early | same | late
    · exact absurd (Ends.of_alone running first).returned (ends.first k early)
    · exact same
    · rw [running n late] at halted
      cases halted
  subst same
  have halts : c.alone.Halts settings (c.alone.advance settings k) := ⟨halted, k, rfl⟩
  obtain ⟨found, after, ended⟩ := Halts.comes halts
  rw [ended] at halts control
  rw [advance_alone running, ended, ← control]
  exact halts

/-- What comes of something that is done alone comes of it above other frames, and until then these
frames stay. -/
theorem Comes.ends_through (comes : Comes settings control id state outcome after)
    (stack : List Frame) :
    ∃ n, Ends settings ⟨control, stack, id, state⟩ n outcome ∧
      advance settings n ⟨control, stack, id, state⟩ = ⟨outcome, stack, id, after⟩ ∧
      ∀ j < n, ∃ upper, (advance settings j ⟨control, stack, id, state⟩).stack = upper ++ stack := by
  obtain ⟨halted, n, ended⟩ := comes
  have now : (advance settings n ⟨control, [], id, state⟩).halted = true := ended ▸ halted
  obtain ⟨k, first, running⟩ := exists_first_halted now
  have same : advance settings k ⟨control, [], id, state⟩ = ⟨outcome, [], id, after⟩ :=
    Halts.unique ⟨first, k, rfl⟩ ⟨halted, n, ended⟩
  have reached : advance settings k ⟨control, stack, id, state⟩ = ⟨outcome, stack, id, after⟩ := by
    refine (advance_alone running).trans ?_
    exact congrArg (·.onto stack) same
  have ends : Ends settings ⟨control, stack, id, state⟩ k _ := Ends.of_alone running first
  rw [reached] at ends
  refine ⟨k, ends, reached, fun j below => ⟨_, congrArg Config.stack (advance_alone ?_)⟩⟩
  exact fun i early => running i (Nat.lt_trans early below)

theorem Comes.ends (comes : Comes settings control id state outcome after) (stack : List Frame) :
    ∃ n, Ends settings ⟨control, stack, id, state⟩ n outcome ∧
      advance settings n ⟨control, stack, id, state⟩ = ⟨outcome, stack, id, after⟩ := by
  obtain ⟨n, ends, reached, -⟩ := comes.ends_through stack
  exact ⟨n, ends, reached⟩

theorem Comes.through (comes : Comes settings control id state outcome after)
    (stack : List Frame) :
    Through settings (fun c => ∃ upper, c.stack = upper ++ stack) ⟨control, stack, id, state⟩
      ⟨outcome, stack, id, after⟩ := by
  obtain ⟨n, -, reached, above⟩ := comes.ends_through stack
  exact ⟨n, reached, above⟩

theorem Comes.reaches (comes : Comes settings control id state outcome after)
    (stack : List Frame) :
    Reaches settings ⟨control, stack, id, state⟩ ⟨outcome, stack, id, after⟩ :=
  (comes.through stack).reaches

theorem ends_iff_comes : (∃ n, c.Ends settings n outcome ∧ (c.advance settings n).state = after) ↔
    Comes settings c.control c.scope c.state outcome after := by
  constructor
  · rintro ⟨n, ends, rfl⟩
    exact ends.comes
  · intro comes
    obtain ⟨n, ends, reached⟩ := comes.ends c.stack
    exact ⟨n, ends, congrArg Config.state reached⟩

theorem Comes.ends_iff (comes : Comes settings c.control c.scope c.state outcome after) :
    (∃ n, c.Ends settings n outcome') ↔ outcome' = outcome := by
  constructor
  · rintro ⟨n, ends⟩
    exact (ends.comes.unique comes).1
  · rintro rfl
    obtain ⟨n, ends, -⟩ := ends_iff_comes.mpr comes
    exact ⟨n, ends⟩

/-- A block has no value: it runs to its end, returns or fails. -/
theorem Comes.block {block : List Stmt}
    (comes : Comes settings (.run block) id state outcome after) :
    outcome = .done ∨ outcome.succeeds = false := by
  induction block generalizing state with
  | nil =>
    have same := (halts_of_halted rfl).mp (comes_step.mpr comes)
    exact .inl (congrArg Config.control same)
  | cons s rest ih =>
    obtain ⟨found, between, first, later⟩ := halts_above.mp (comes_step.mpr comes)
    have isOutcome := first.isOutcome
    have next := halts_step.mpr later
    cases found with
    | value v => exact ih (halts_step.mpr next)
    | done => exact ih next
    | returning v span =>
      have same := (halts_of_halted rfl).mp next
      exact .inr (congrArg (·.control.succeeds) same)
    | failing f =>
      have same := (halts_of_halted rfl).mp next
      exact .inr (congrArg (·.control.succeeds) same)
    | _ => cases isOutcome

end Config

end Pseudocode
