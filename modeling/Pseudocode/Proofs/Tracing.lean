import Pseudocode.Proofs.CallProtocol

/-! # The log of a run

A step that enters a routine or leaves one adds an entry to the log, and no other step does. The
frames on the stack tell which calls are open, so the entries of a run are in balance: every routine
that is entered is left again before the one around it, however the run ends. -/

namespace Pseudocode

/-! ## Sequences of entries -/

/-- With `depth` calls open, calls are entered and left, one after the other and one in another. -/
inductive Balanced : (depth : Nat) → List LogEntry → Prop where
  | nil {depth} : Balanced depth []
  | call {depth callee arguments inside rest} : Balanced (depth + 1) inside → Balanced depth rest →
      Balanced depth
        (.enter callee (depth + 1) arguments :: (inside ++ .leave callee (depth + 1) :: rest))

/-- The calls `open_`, the innermost first, are entered and not yet left; otherwise the entries are
in balance. Before them `outer` calls were open. -/
inductive Pending (outer : Nat) : (open_ : List String) → List LogEntry → Prop where
  | none {entries} : Balanced outer entries → Pending outer [] entries
  | call {open_ entries callee arguments inside} : Pending outer open_ entries →
      Balanced (outer + open_.length + 1) inside →
      Pending outer (callee :: open_)
        (entries ++ .enter callee (outer + open_.length + 1) arguments :: inside)

theorem Balanced.append {depth : Nat} {xs ys : List LogEntry} (first : Balanced depth xs)
    (second : Balanced depth ys) : Balanced depth (xs ++ ys) := by
  induction first with
  | nil => exact second
  | call inside _ _ ih =>
    rw [List.cons_append, List.append_assoc, List.cons_append]
    exact .call inside (ih second)

namespace Pending

variable {outer : Nat} {open_ : List String} {entries : List LogEntry} {callee : String}

theorem append (pending : Pending outer open_ entries) {more : List LogEntry}
    (balanced : Balanced (outer + open_.length) more) : Pending outer open_ (entries ++ more) := by
  cases pending with
  | none before => exact .none (before.append balanced)
  | call before inside =>
    rw [List.append_assoc, List.cons_append]
    exact .call before (inside.append balanced)

theorem enter (pending : Pending outer open_ entries) (callee : String) (arguments : Nat) :
    Pending outer (callee :: open_)
      (entries ++ [.enter callee (outer + open_.length + 1) arguments]) :=
  .call pending .nil

theorem leave (pending : Pending outer (callee :: open_) entries) :
    Pending outer open_ (entries ++ [.leave callee (outer + open_.length + 1)]) := by
  cases pending with
  | call before inside =>
    rw [List.append_assoc, List.cons_append]
    exact before.append (.call inside .nil)

end Pending

/-! ## What a step does to the open calls -/

def openNames : List Frame → List String
  | [] => []
  | .invocation routine _ _ _ :: rest => routine.name :: openNames rest
  | _ :: rest => openNames rest

theorem length_openNames (stack : List Frame) : (openNames stack).length = openCalls stack := by
  induction stack with
  | nil => rfl
  | cons frame rest ih =>
    cases frame with
    | invocation => rw [openNames, openCalls, List.length_cons, ih]
    | _ => exact ih

theorem State.note_log (s : State) {settings : Settings} (logged : settings.logged = true)
    (entry : LogEntry) : (s.note settings entry).log = s.log.push entry := by
  rw [note, if_pos logged]

namespace Config

def noted? (c : Config) : Option LogEntry :=
  match c.control, c.stack with
  | .bind call, _ =>
    match call.params, call.arguments with
    | _ :: _, _ :: _ => none
    | _, _ => some (.enter call.routine.name (c.state.depth + 1) call.routine.params.length)
  | .done, .invocation routine _ _ _ :: _
  | .returning _ _, .invocation routine _ _ _ :: _
  | .failing _, .invocation routine _ _ _ :: _ => some (.leave routine.name c.state.depth)
  | _, _ => none

/-- The frames that wait for the call which the next step enters or leaves. -/
def callBase (c : Config) : List Frame :=
  match c.control with
  | .bind _ => c.stack
  | _ => c.stack.tail

/-- What a step does to the open calls, their number and the log. -/
inductive Turn (settings : Settings) (c next : Config) : Prop where
  | stays : c.noted? = none → openNames next.stack = openNames c.stack →
      next.state.depth = c.state.depth → next.state.log = c.state.log → Turn settings c next
  | enters (callee : String) (arguments : Nat) :
      c.noted? = some (.enter callee (c.state.depth + 1) arguments) →
      openNames next.stack = callee :: openNames c.stack → next.state.depth = c.state.depth + 1 →
      next.state.log = (c.state.note settings (.enter callee (c.state.depth + 1) arguments)).log →
      Turn settings c next
  | leaves (callee : String) : c.noted? = some (.leave callee c.state.depth) →
      openNames c.stack = callee :: openNames next.stack → next.state.depth = c.state.depth - 1 →
      next.state.log = (c.state.note settings (.leave callee c.state.depth)).log →
      Turn settings c next

/-- After the step these calls are open, and this is their number and the log. -/
structure Shows (next : Config) (names : List String) (depth : Nat) (log : Array LogEntry) :
    Prop where
  names : openNames next.stack = names
  depth : next.state.depth = depth
  log : next.state.log = log

variable {settings : Settings} {stack : List Frame} {id : ScopeId} {state : State}

/-- What is begun, or handed on, leaves the calls below it open. -/
theorem Moves.shows_ {plain returns : Bool} {values : Value → Prop} {log : Array LogEntry}
    {depth : Nat} {c : Config} (moves : Moves plain returns values id stack log depth c) :
    c.Shows (openNames stack) depth log := by
  cases moves with
  | goes => exact ⟨rfl, rfl, rfl⟩
  | @waits control frame _ _ awaits =>
    refine ⟨?_, rfl, rfl⟩
    cases frame with
    | invocation => cases control <;> cases awaits
    | _ => rfl

theorem noted?_of_begins {c : Config} (begins : c.control.isOutcome = false)
    (more : ∀ call, c.control = .bind call → call.isBound = false) : c.noted? = none := by
  obtain ⟨control, stack, id, state⟩ := c
  cases control with
  | value | done | returning | failing => cases begins
  | bind call =>
    obtain ⟨_, _, _, _, isParams, isArguments⟩ := Call.isBound_eq_false (more call rfl)
    simp only [noted?, isParams, isArguments]
  | _ => rfl

theorem step_turn (settings : Settings) (c : Config) : Turn settings c (c.step settings) := by
  have move := c.step_move settings
  generalize c.step settings = next at move
  cases move with
  | halts halted =>
    refine .stays ?_ rfl rfl rfl
    obtain ⟨control, stack, id, state⟩ := c
    obtain ⟨rfl, isOutcome⟩ := halted_iff.mp halted
    cases control with
    | bind => cases isOutcome
    | _ => rfl
  | begins begins more moves =>
    obtain ⟨names, depth, log⟩ := moves.shows_
    exact .stays (noted?_of_begins begins more) names depth log
  | @enters call isCall bound =>
    refine .enters call.routine.name call.routine.params.length ?_ rfl (State.note_depth ..) ?_
    · obtain ⟨routine, result, callee, params, arguments⟩ := call
      rw [noted?, isCall]
      cases params with
      | nil => rfl
      | cons param params =>
        cases arguments with
        | nil => rfl
        | cons => cases bound
    · unfold State.note
      split <;> rfl
  | @hands frame rest _ _ _ isTop isOutcome inner _ _ moves =>
    obtain ⟨names, depth, log⟩ := moves.shows_
    obtain ⟨control, stack, id, state⟩ := c
    obtain rfl : stack = frame :: rest := isTop
    cases frame with
    | invocation routine result callee caller =>
      refine .leaves routine.name ?_ (congrArg _ names.symm) ?_ log
      · cases control with
        | value => cases inner rfl
        | done | returning | failing => rfl
        | _ => cases isOutcome
      · rw [depth]
        exact congrArg (· - 1) (State.note_depth ..)
    | _ =>
      refine .stays ?_ names depth log
      cases control with
      | value | done | returning | failing => rfl
      | _ => cases isOutcome
  | drops isValue isTop =>
    refine .stays ?_ rfl rfl rfl
    rw [noted?, isValue, isTop]

/-! ## Runs -/

/-- The entries that `n` steps add to the log. -/
def entries (settings : Settings) : Nat → Config → List LogEntry
  | 0, _ => []
  | n + 1, c => c.noted?.toList ++ entries settings n (c.step settings)

theorem step_log (logged : settings.logged = true) (c : Config) :
    (c.step settings).state.log.toList = c.state.log.toList ++ c.noted?.toList := by
  cases c.step_turn settings with
  | stays entry _ _ log => rw [entry, log, Option.toList_none, List.append_nil]
  | enters callee arguments entry _ _ log
  | leaves callee entry _ _ log =>
    rw [entry, log, State.note_log _ logged, Array.toList_push, Option.toList_some]

theorem advance_log (logged : settings.logged = true) (c : Config) (n : Nat) :
    (c.advance settings n).state.log.toList = c.state.log.toList ++ c.entries settings n := by
  induction n generalizing c with
  | zero => exact (List.append_nil _).symm
  | succ n ih => rw [advance_step, ih, step_log logged, entries, List.append_assoc]

/-- The depth counts the open calls, and `outer` calls that were open before. -/
def Counts (outer : Nat) (c : Config) : Prop :=
  c.state.depth = outer + openCalls c.stack

variable {outer : Nat} {c : Config}

section

variable (counts : c.Counts outer)

include counts

theorem Counts.step : (c.step settings).Counts outer := by
  have before := length_openNames c.stack
  have after := length_openNames (c.step settings).stack
  unfold Counts at counts ⊢
  cases c.step_turn settings with
  | stays _ names depth =>
    rw [names] at after
    omega
  | enters callee arguments _ names depth =>
    rw [names, List.length_cons] at after
    omega
  | leaves callee _ names depth =>
    rw [names, List.length_cons] at before
    omega

/-- Entries are noted for the calls that the stack shows. -/
theorem step_pending {before : List LogEntry} (pending : Pending outer (openNames c.stack) before) :
    Pending outer (openNames (c.step settings).stack) (before ++ c.noted?.toList) := by
  have depth : c.state.depth = outer + (openNames c.stack).length := by
    rw [length_openNames]
    exact counts
  cases c.step_turn settings with
  | stays entry names =>
    rw [entry, names, Option.toList_none, List.append_nil]
    exact pending
  | enters callee arguments entry names =>
    rw [entry, names, depth, Option.toList_some]
    exact pending.enter callee arguments
  | leaves callee entry names =>
    rw [names] at pending depth
    rw [entry, depth, List.length_cons, Option.toList_some]
    exact pending.leave

theorem advance_pending {before : List LogEntry}
    (pending : Pending outer (openNames c.stack) before) (n : Nat) :
    Pending outer (openNames (c.advance settings n).stack) (before ++ c.entries settings n) := by
  induction n generalizing c before with
  | zero =>
    rw [entries, List.append_nil]
    exact pending
  | succ n ih =>
    rw [advance_step, entries, ← List.append_assoc]
    exact ih counts.step (step_pending counts pending)

/-- Whatever the way in which a run ends, every routine that it entered is left. -/
theorem entries_balanced (lowest : c.stack = []) {n : Nat}
    (halted : (c.advance settings n).halted = true) : Balanced outer (c.entries settings n) := by
  have pending : Pending outer (openNames c.stack) [] := by
    rw [lowest]
    exact .none .nil
  have later : Pending outer (openNames (c.advance settings n).stack)
      ([] ++ c.entries settings n) := advance_pending counts pending n
  rw [(halted_iff.mp halted).1] at later
  cases later with
  | none balanced => exact balanced

end

/-! ## Calls that come to nothing -/

/-- The configuration begins a call that ends after `n` steps, and its routine is never entered: the
call is refused, or its arguments cannot be bound. -/
structure Unentered (settings : Settings) (c : Config) (n : Nat) : Prop where
  calls : c.control.isCall = true
  returned : c.Returned (c.advance settings n)
  first : ∀ j < n, ¬ c.Returned (c.advance settings j)
  outside : ∀ j ≤ n, ∀ callee routine, ¬ Entered c.stack callee routine (c.advance settings j)

theorem Passing.not_left {base : List Frame} (passing : Passing base c) : ¬ Left base c := by
  rintro ⟨same, isOutcome⟩
  cases passing with
  | next isBind => rw [isBind] at isOutcome; cases isOutcome
  | argument above =>
    have longer := congrArg List.length (above.symm.trans same)
    simp only [List.length_append, List.length_cons] at longer
    omega

theorem not_entered_of_stack {base : List Frame} (same : c.stack = base) (callee : ScopeId)
    (routine : Routine) : ¬ Entered base callee routine c := by
  rintro ⟨⟩
  have longer := congrArg List.length same
  simp only [List.length_append, List.length_cons] at longer
  omega

theorem Passing.not_entered {base : List Frame} (passing : Passing base c) (callee : ScopeId)
    (routine : Routine) : ¬ Entered base callee routine c := by
  cases passing with
  | next _ same => exact not_entered_of_stack same callee routine
  | argument above =>
    rintro ⟨⟩
    cases List.append_inj_right' above rfl

/-- A call whose arguments cannot be bound comes to nothing: it fails, with its routine never
entered. -/
theorem Balks.unentered {call : Call} {a : Expr} {f : Failure} {broken : State}
    (begins : c.call? = some call) (room : c.state.depth < settings.maxDepth)
    (lengths : call.arguments.length = call.params.length) (regular : c.Regular settings)
    (balks : Balks settings c.scope call.callee call.params call.arguments
      { c.state with memory := c.state.memory.opened call.routine.home call.routine.name }
      a f broken) :
    ∃ n, c.Unentered settings n ∧
      c.advance settings n = ⟨.failing (f.withSpan a.span), c.stack, c.scope, broken.dropped⟩ := by
  have bind : c.step settings = _ := step_call?_binds begins room lengths c.stack
  have next := regular.step
  rw [bind] at next
  have through : Through settings (Passing c.stack) (c.step settings)
      ⟨.failing (f.withSpan a.span), c.stack, c.scope, broken.dropped⟩ := by
    rw [bind]
    exact balks.through next
  obtain ⟨n, ended, passing⟩ := through
  rw [← advance_step] at ended
  have calls : c.control.isCall = true := isCall_of_call? begins
  refine ⟨n + 1, ⟨calls, ?_, fun j below => ?_, fun j upTo callee routine => ?_⟩, ended⟩
  · rw [ended]
    exact ⟨rfl, rfl⟩
  · cases j with
    | zero => exact fun returned => not_isOutcome_of_isCall calls returned.2
    | succ j =>
      rw [advance_step]
      exact (passing j (Nat.lt_of_succ_lt_succ below)).not_left
  · cases j with
    | zero => exact not_entered_of_stack rfl callee routine
    | succ j =>
      rcases Nat.lt_or_eq_of_le (Nat.le_of_succ_le_succ upTo) with below | rfl
      · rw [advance_step]
        exact (passing j below).not_entered callee routine
      · exact not_entered_of_stack (congrArg Config.stack ended) callee routine

/-- Until the routine of a call is entered, every entry is about a call in one of its arguments. -/
theorem Within.callBase {base : List Frame} {callee : ScopeId} {routine : Routine}
    (within : Within base callee routine c) (outside : ¬ Entered base callee routine c)
    (later : ¬ Entered base callee routine (c.step settings)) {entry : LogEntry}
    (noted : c.noted? = some entry) :
    ∃ upper call, c.callBase = upper ++ .argument call :: base := by
  cases within with
  -- Of the call itself an entry is noted only by the step that enters its routine.
  | @binding call id state same =>
    exfalso
    apply later
    unfold Config.step Config.bindNext
    dsimp only
    split
    case h_1 paramsEq argumentsEq =>
      simp only [noted?, paramsEq, argumentsEq] at noted
      cases noted
    case h_2 =>
      obtain ⟨rfl, rfl, -⟩ := same
      exact .lowest ..
  | @argument control upper call id state same =>
    cases control with
    | bind => exact ⟨upper, call, rfl⟩
    | done | returning | failing =>
      cases upper with
      | nil => cases noted
      | cons frame upper => exact ⟨upper, call, rfl⟩
    | _ => cases noted
  | entered entered => exact absurd entered outside

theorem Unentered.callBase {n : Nat} (unentered : c.Unentered settings n) {j : Nat} (below : j < n)
    {entry : LogEntry} (noted : (c.advance settings j).noted? = some entry) :
    ∃ upper call, (c.advance settings j).callBase = upper ++ .argument call :: c.stack := by
  obtain ⟨calls, -, first, outside⟩ := unentered
  cases j with
  | zero =>
    change c.noted? = some entry at noted
    obtain ⟨control, stack, id, state⟩ := c
    cases control <;> first | cases calls | cases noted
  | succ j =>
    have next (k : Nat) : c.advance settings (k + 1) = (c.step settings).advance settings k :=
      advance_succ (running_of_isCall calls) k
    rw [next] at noted ⊢
    have open_ (k : Nat) (before : k ≤ j) :
        ¬ Left c.stack ((c.step settings).advance settings k) := by
      rw [← next]
      exact first (k + 1) (by omega)
    obtain ⟨routine, result, arguments, begun⟩ :=
      (step_isCall calls).resolve_left (open_ 0 (Nat.zero_le j))
    have within : Within c.stack c.state.memory.scopes.size routine (c.step settings) := by
      rw [begun]
      exact .binding ⟨rfl, rfl, List.Subset.refl _⟩
    obtain ⟨-, inside⟩ := until_left (P := fun _ => True) (fun _ => Within.step)
      (fun _ => Within.running) (fun _ _ _ => trivial) within trivial j
      fun k before => open_ k (Nat.le_of_lt before)
    have inside := inside.resolve_right (open_ j (Nat.le_refl j))
    have now := outside (j + 1) (Nat.le_of_lt below) c.state.memory.scopes.size routine
    have later := outside (j + 2) below c.state.memory.scopes.size routine
    rw [next] at now
    rw [next, ← step_advance] at later
    exact inside.callBase now later noted

end Config

/-! ## The log of a program -/

/-- What comes of a program whose run ends with this control, and what is added to the log then. -/
inductive Concludes (live : Nat) : Control → Except Failure Unit → List LogEntry → Prop where
  | finished {control} : control.succeeds = true →
      Concludes live control (.ok ()) [.runFinished live]
  | failed {f} : Concludes live (.failing f) (.error f) [.runFailed f.shown]
  /-- A `RETURN` outside of a routine is an error that is not noted. -/
  | returned {v span} :
      Concludes live (.returning v span) (.error ((Failure.of .returnOutside).withSpan span)) []

namespace Session

theorem conclude_log {settings : Settings} (logged : settings.logged = true) {c : Config}
    {result : Except Failure Unit} {s : Session} (concluded : conclude settings c = (result, s)) :
    ∃ closing, s.state.log.toList = c.state.log.toList ++ closing ∧
      Concludes s.live c.control result closing := by
  have memory := (answer_session settings c (.program none)).2.1
  have live : s.live = c.state.memory.store.live := by
    rw [answer, concluded] at memory
    exact congrArg (·.store.live) memory
  rw [live]
  obtain ⟨control, stack, id, state⟩ := c
  have noted (entry : LogEntry) :
      (state.note settings entry).log.toList = state.log.toList ++ [entry] := by
    rw [State.note_log _ logged, Array.toList_push]
  cases control with
  | failing f =>
    cases concluded
    exact ⟨_, noted _, .failed⟩
  | returning v span =>
    cases concluded
    exact ⟨[], (List.append_nil _).symm, .returned⟩
  | _ =>
    cases concluded
    exact ⟨_, noted _, .finished rfl⟩

/-- The log of a program: its start, the calls in balance, and how it ended. A call that does not
come to enter its routine adds nothing: what is noted meanwhile is about calls in its arguments. -/
theorem Reached.log_bracketed {options : Options} {s s' : Session} (reached : Reached options s)
    (logged : s.settings.logged = true) {fuel : Nat} {program : Program}
    {result : Except Failure Unit} (ran : s.execute fuel (some program) = some (result, s')) :
    let moment := fun k => (s.begin program).advance s.settings k
    let calls := (s.begin program).entries s.settings fuel
    ∃ closing, s'.state.log.toList =
        s.state.log.toList ++ .runStart program.body.length :: (calls ++ closing) ∧
      Balanced 0 calls ∧ Concludes s'.live (moment fuel).control result closing ∧
      ∀ k n, (moment k).Unentered s.settings n → ∀ j < n, ∀ entry,
        (moment (k + j)).noted? = some entry →
          ∃ upper call,
            (moment (k + j)).callBase = upper ++ .argument call :: (moment k).stack := by
  intro moment calls
  obtain ⟨halted, concluded⟩ := execute_iff.mp ran
  obtain ⟨closing, log, concludes⟩ := conclude_log logged concluded
  have counts : (s.begin program).Counts 0 := by
    have depth : (s.begin program).state.depth = s.state.depth := State.note_depth ..
    rw [Config.Counts, depth, reached.idle.depth]
    rfl
  have begun : (s.begin program).state.log.toList =
      s.state.log.toList ++ [.runStart program.body.length] := by
    unfold begin note
    rw [State.note_log _ logged, Array.toList_push]
  refine ⟨closing, ?_, Config.entries_balanced counts rfl halted, concludes, ?_⟩
  · rw [log, Config.advance_log logged, begun]
    simp only [List.append_assoc, List.cons_append, List.nil_append, calls]
  · intro k n unentered j below entry noted
    have later : moment (k + j) = (moment k).advance s.settings j := Config.advance_add _ k j
    rw [later] at noted ⊢
    exact unentered.callBase below noted

end Session

namespace Sample

def watched : Session :=
  match Session.start { logged := true } with
  | .ok s => s
  | .error _ => fresh

theorem watched_reached : Session.Reached { logged := true } watched :=
  ⟨watched, rfl, .refl⟩

theorem watched_ends : (watched.execute 200 (some program)).isSome = true := by decide +kernel

def watchedRun : Except Failure Unit × Session :=
  (watched.execute 200 (some program)).get watched_ends

end Sample

theorem Config.Entered.openCalls_pos {base : List Frame} {callee : ScopeId} {routine : Routine}
    {c : Config} (entered : Entered base callee routine c) : 0 < openCalls c.stack := by
  obtain @⟨control, upper, result, caller, id, state⟩ := entered
  induction upper with
  | nil => exact Nat.succ_pos _
  | cons frame upper ih =>
    cases frame with
    | invocation => exact Nat.succ_pos _
    | _ => exact ih

/-- The procedure `double` is called twice but entered once: its second call fails when an argument
is bound. -/
theorem Session.Reached.log_bracketed_sample :
    let run := Sample.watchedRun
    let settings := Sample.watched.settings
    let moment := fun k => (Sample.watched.begin Sample.program).advance settings k
    let calls := (Sample.watched.begin Sample.program).entries settings 200
    calls = [.enter "double" 1 2, .enter "twice" 2 1, .leave "twice" 2, .leave "double" 1] ∧
      (moment 61).Unentered settings 5 ∧ settings.logged = true ∧
      Sample.watched.execute 200 (some Sample.program) = some run ∧
      ∃ closing, run.2.state.log.toList = [] ++ .runStart 6 :: (calls ++ closing) ∧
        Balanced 0 calls ∧ Concludes run.2.live (moment 200).control run.1 closing ∧
        ∀ k n, (moment k).Unentered settings n → ∀ j < n, ∀ entry,
          (moment (k + j)).noted? = some entry →
            ∃ upper call,
              (moment (k + j)).callBase = upper ++ .argument call :: (moment k).stack := by
  intro run settings moment calls
  have ran : Sample.watched.execute 200 (some Sample.program) = some run :=
    (Option.some_get Sample.watched_ends).symm
  have running : ∀ k < 5, ((moment 61).alone.advance settings k).halted = false := by
    decide +kernel
  have ends := Config.Ends.of_alone running (by decide +kernel)
  have none : ∀ j ≤ 5, openCalls ((moment 61).advance settings j).stack = 0 := by decide +kernel
  have unentered : (moment 61).Unentered settings 5 := by
    refine ⟨by decide +kernel, ends.returned, ends.first, ?_⟩
    intro j le callee routine entered
    have positive := entered.openCalls_pos
    rw [none j le] at positive
    cases positive
  exact ⟨by decide +kernel, unentered, rfl, ran,
    Session.Reached.log_bracketed Sample.watched_reached rfl ran⟩

end Pseudocode
