import Pseudocode.Proofs.Framing
import Pseudocode.Proofs.Outcomes

/-! # What evaluating an argument leaves alone

While an argument of a call is evaluated, the scope of the call is there already, with the parameters
that are bound so far. The argument may call other routines, and these may change variables of the
caller and of the scopes around it. But nothing is declared in a scope that was there before, since
expressions declare nothing, and the cells of the call's own parameters cannot be reached: no other
scope binds them, and no scope that is made in the meantime hangs below that of the call.

So the scopes are the same after an argument was evaluated, and so are the cells of the parameters
that were passed by value. -/

namespace Pseudocode

/-! ## Scopes above a call whose arguments are bound -/

namespace StackFits

variable {limit : Nat} {m : Memory} {call : Call} {upper base : List Frame} {id : ScopeId}
  {size : Nat}

theorem mem_callees_append (upper base : List Frame) (call : Call) :
    call.callee ∈ callees (upper ++ .argument call :: base) := by
  induction upper with
  | nil => exact List.mem_cons_self
  | cons first upper ih =>
    cases first with
    | argument | invocation => exact List.mem_cons_of_mem _ ih
    | _ => exact ih

variable (fits : StackFits limit m (upper ++ .argument call :: base) id size)

include fits

theorem argument_lt : call.callee < size :=
  fits.mem_callees.mp (List.mem_append_left _ (mem_callees_append upper base call))

/-- A statement that runs while an argument is evaluated runs in a later scope. -/
theorem argument_lt_scope (nested : StackNested (upper ++ .argument call :: base))
    (ends : TakesEnd (upper ++ .argument call :: base)) : call.callee < id := by
  induction upper generalizing id size with
  | nil => cases ends
  | cons first upper ih =>
    cases first with
    | loopBody | whileBody | doBody | block => exact ih fits.2 nested.2 (nested.1 rfl)
    | invocation r result id' caller =>
      obtain ⟨rfl, -, -, -, below⟩ := fits
      exact below.argument_lt
    | _ => cases ends

/-- An argument is evaluated in an earlier scope, and the calls it makes run in later ones. -/
theorem argument_ne_scope : call.callee < id ∨ id < call.callee := by
  induction upper generalizing id size with
  | nil => exact .inr fits.2.2.2.lt
  | cons first upper ih =>
    cases first with
    | argument call' => exact ih fits.2.2.2
    | invocation r result id' caller =>
      obtain ⟨rfl, -, -, -, below⟩ := fits
      exact .inl below.argument_lt
    | _ => exact ih fits.2

end StackFits

namespace Config

variable {settings : Settings} {limit : Nat} {call : Call} {base : List Frame} {c : Config}

/-! ## Steps of the evaluation -/

/-- The next argument of the call is being evaluated. -/
structure InArgument (call : Call) (base : List Frame) (c : Config) : Prop where
  above : ∃ upper, c.stack = upper ++ .argument call :: base
  open_ : ¬Left (.argument call :: base) c

namespace InArgument

theorem frames (above : ∃ upper, c.stack = upper ++ .argument call :: base) :
    ∃ upper, c.control.waiting ++ c.stack = upper ++ .argument call :: base := by
  obtain ⟨upper, same⟩ := above
  exact ⟨c.control.waiting ++ upper, by rw [same, List.append_assoc]⟩

theorem callee_lt (above : ∃ upper, c.stack = upper ++ .argument call :: base)
    (sound : c.Sound limit) : call.callee < c.state.memory.scopes.size := by
  obtain ⟨upper, frames⟩ := frames above
  have fits := sound.settled.frames
  rw [frames] at fits
  exact fits.argument_lt

variable (inside : c.InArgument call base)

include inside

theorem running : c.halted = false := by
  obtain ⟨upper, frames⟩ := inside.above
  cases upper <;> simp_all [halted]

theorem step_above : ∃ upper, (c.step settings).stack = upper ++ .argument call :: base := by
  obtain ⟨control, stack, id, state⟩ := c
  obtain ⟨upper, frames⟩ := inside.above
  obtain rfl : stack = upper ++ .argument call :: base := frames
  have running : halted ⟨control, upper, id, state⟩ = false := by
    refine Bool.eq_false_iff.mpr fun halted => inside.open_ ?_
    obtain ⟨empty, isOutcome⟩ := halted_iff.mp halted
    obtain rfl : upper = [] := empty
    exact ⟨rfl, isOutcome⟩
  change ∃ upper', (Config.step settings (onto ⟨control, upper, id, state⟩ _)).stack = _
  rw [step_onto running]
  exact ⟨_, rfl⟩

theorem step :
    (c.step settings).InArgument call base ∨ Left (.argument call :: base) (c.step settings) := by
  by_cases left : Left (.argument call :: base) (c.step settings)
  · exact .inr left
  · exact .inl ⟨inside.step_above, left⟩

variable (sound : c.Sound limit)

include sound

theorem looks : call.callee < c.scope ∨ c.scope < call.callee := by
  obtain ⟨upper, frames⟩ := frames inside.above
  have fits := sound.settled.frames
  rw [frames] at fits
  exact fits.argument_ne_scope

/-- What declares a name in the current scope does so as a statement of a call that the argument
makes. -/
theorem callee_lt_scope (nested : c.Nested) (statement : c.InStatement) :
    call.callee < c.scope := by
  obtain ⟨frame, rest, first, inScope, ends⟩ := statement
  obtain ⟨upper, frames⟩ := frames inside.above
  have fits := sound.settled.frames
  have wrapped := nested.waiting
  rw [frames] at first fits wrapped
  cases upper with
  | nil =>
    cases first
    cases inScope
  | cons frame upper =>
    cases first
    have below := ((StackFits.cons_iff inScope).mp fits).2
    exact below.argument_lt_scope wrapped.2 (wrapped.1 ends)

/-- The arguments that are bound in the meantime are those of later calls. -/
theorem callee_lt_call {call' : Call} {rest : List Frame}
    (first : c.control.waiting ++ c.stack = .argument call' :: rest)
    (taken : c.control.isOutcome = true ∨ c.control.waiting ≠ []) : call.callee < call'.callee := by
  obtain ⟨upper, frames⟩ := frames inside.above
  have fits := sound.settled.frames
  rw [frames] at fits
  cases upper with
  | nil =>
    -- Only the argument itself stands there, and it is not yet evaluated.
    obtain ⟨above, same⟩ := inside.above
    rw [same, ← List.append_assoc] at frames
    have empty := List.append_eq_nil_iff.mp (List.append_left_eq_self.mp frames)
    refine (taken.elim (fun isOutcome => inside.open_ ⟨?_, isOutcome⟩) fun waits =>
      waits empty.1).elim
    rw [same, empty.2, List.nil_append]
  | cons frame upper =>
    rw [frames] at first
    cases first
    exact fits.2.2.2.argument_lt

theorem declares (nested : c.Nested) {d : Declaration} (declares : c.declares? = some d) :
    call.callee < d.scope := by
  rcases declares?_cases declares with
    ⟨statement, isScope, -⟩ | ⟨call', rest, first, isScope, taken, -⟩
  · rw [isScope]
    exact inside.callee_lt_scope sound nested statement
  · rw [isScope]
    exact inside.callee_lt_call sound first taken

end InArgument

end Config

/-! ## The whole evaluation -/

namespace Memory

/-- The scopes before this one, and the cells that they bind. -/
def Reach.before {m : Memory} (ranked : m.Ranked) (callee : ScopeId) : Reach m where
  scope a := a < callee
  cell h := ∃ a < callee, ∃ name, m.Binds a name (.slot h)
  up id found parent below isFound isParent :=
    Nat.lt_trans (ranked id found parent isFound isParent) below
  binds id name _ below bound := ⟨id, below, name, bound⟩

theorem Framed.refl {m : Memory} (sound : m.Sound) (reach : Reach m) :
    Framed m m.scopes.size reach m where
  scopes _ _ := rfl
  parents _ _ _ later found :=
    absurd (Array.getElem?_eq_some_iff.mp found).1 (Nat.not_lt_of_le later)
  slots _ _ _ later binds := absurd binds.lt_size (Nat.not_lt_of_le later)
  cells _ foreign := foreign.keepsCell sound

/-- What is as it was when the evaluation of an argument is over: the scopes, what the scope of the
call owns, and the types of all cells. -/
structure Undisturbed (callee : ScopeId) (m m' : Memory) : Prop where
  scopes : m'.scopes = m.scopes
  own : ∀ h, m.Owns callee h → m'.store.cell? h = m.store.cell? h
  types : ∀ h, m.store.Live h → m'.store.Live h ∧ m'.store.typeOf h = m.store.typeOf h

theorem Framed.undisturbed {m m' : Memory} {callee : ScopeId} (sound : m.Sound)
    (framed : Framed m (callee + 1) (.before sound.ranked callee) m')
    (last : m.scopes.size = callee + 1) (last' : m'.scopes.size = callee + 1) :
    m.Undisturbed callee m' := by
  refine ⟨?_, fun h owns => ?_, fun h live => ?_⟩
  · apply Array.ext_getElem?
    intro id
    by_cases inside : id < callee + 1
    · exact framed.scopes id inside
    · rw [Array.getElem?_eq_none (by omega), Array.getElem?_eq_none (by omega)]
  · obtain ⟨⟨type, value⟩, ⟨type', value'⟩, found, found', sameType, sameValue⟩ :=
      framed.cells h ⟨callee, Nat.lt_succ_self _, owns⟩
    obtain rfl : type' = type := sameType
    -- A scope that binds the cell cannot come before its owner.
    have unreached : ¬∃ a < callee, ∃ name, m.Binds a name (.slot h) := by
      rintro ⟨a, below, name, binds⟩
      obtain ⟨owner, le, owns'⟩ := sound.slots a name h binds
      cases sound.owner owner callee h owns' owns
      exact Nat.not_le_of_lt below le
    obtain rfl : value' = value := sameValue.resolve_right unreached
    rw [found, found']
  · obtain ⟨owner, owns⟩ := (sound.live h).mp live
    have foreign : m.Foreign (callee + 1) h := ⟨owner, last ▸ owns.lt_size, owns⟩
    obtain ⟨cell, cell', found, found', sameType, -⟩ := framed.cells h foreign
    refine ⟨framed.live foreign, ?_⟩
    rw [Store.typeOf, Store.typeOf, found, found']
    exact sameType

end Memory

namespace Config

variable {settings : Settings} {call : Call} {base : List Frame} {id : ScopeId} {state after : State}
  {e : Expr} {outcome : Control}

theorem Comes.undisturbed (comes : Comes settings (.eval e) id state outcome after)
    (nested : Nested ⟨.eval e, .argument call :: base, id, state⟩)
    (sound : Sound settings.maxDepth ⟨.eval e, .argument call :: base, id, state⟩) :
    state.memory.Undisturbed call.callee after.memory := by
  obtain ⟨n, ends, reached⟩ := comes.ends (.argument call :: base)
  have memory := sound.settled.memory
  have last : state.memory.scopes.size = call.callee + 1 := sound.settled.frames.1
  let P (d : Config) : Prop :=
    d.Nested ∧ d.Sound settings.maxDepth ∧
      state.memory.Framed (call.callee + 1) (.before memory.ranked call.callee) d.state.memory
  have keeps (d : Config) (inside : d.InArgument call base) : P d → P (d.step settings) := by
    rintro ⟨nested, sound, framed⟩
    have sound' := step_sound nested sound
    refine ⟨nested.step, sound', ?_⟩
    refine framed.change (step_change sound) sound.settled.memory
      (InArgument.callee_lt inside.above sound) (InArgument.callee_lt inside.step_above sound')
      (inside.looks sound)
      (fun naming => inside.callee_lt_scope sound nested (inStatement_of_names naming))
      fun _ => inside.declares sound nested
  have begins : InArgument call base ⟨.eval e, .argument call :: base, id, state⟩ :=
    ⟨⟨[], rfl⟩, fun left => by cases left.2⟩
  have holds : P ⟨.eval e, .argument call :: base, id, state⟩ :=
    ⟨nested, sound, last ▸ .refl memory _⟩
  have ended := until_left (fun _ => InArgument.step) (fun _ => InArgument.running) keeps begins
    holds n ends.first
  rw [reached] at ended
  obtain ⟨⟨-, sound', framed⟩, -⟩ := ended
  have frames := sound'.settled.frames
  have idle : outcome.waiting = [] := List.append_eq_nil_iff.mp (waiting_of_halted comes.1) |>.1
  rw [idle] at frames
  exact framed.undisturbed memory last frames.1

end Config

end Pseudocode
