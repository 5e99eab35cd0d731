import Pseudocode.Proofs.Operators
import Pseudocode.Proofs.Steps

/-! # Configurations that runs reach

`Config.Sound` is the invariant of runs. The memory is sound, and the control stack tells which
scopes there are: every open call, and every call whose arguments are being bound, has made one
scope, the innermost call the last one. The values that wait in a frame fit the scope the frame
belongs to, and a handle that a `FOR` loop keeps is that of a variable the loop's scope sees.

A control that is about to bind an argument, to resolve a type or to run a round is treated as the
frame that waits for the same thing, so that only frames need conditions. -/

namespace Pseudocode

/-- The number of calls that wait on the stack for the end of their routine. -/
def openCalls : List Frame → Nat
  | [] => 0
  | .invocation _ _ _ _ :: rest => openCalls rest + 1
  | _ :: rest => openCalls rest

/-- The scopes of the calls on the stack: those whose routine runs and those whose arguments are
being bound. -/
def callees : List Frame → List ScopeId
  | [] => []
  | .argument call :: rest => call.callee :: callees rest
  | .invocation _ _ callee _ :: rest => callee :: callees rest
  | _ :: rest => callees rest

def Frame.isCall : Frame → Bool
  | .argument _ | .invocation _ _ _ _ => true
  | _ => false

/-- A call from the scope `id`: its routine may be used there, and its types are data types. -/
structure Call.Fits (m : Memory) (id : ScopeId) (call : Call) : Prop where
  routine : call.routine.Fits m id
  params : ∀ p ∈ call.params, p.type.IsData
  result : ∀ t, call.result = some t → t.IsData

/-- What a frame of the scope `id` holds fits the memory. -/
def Frame.Fits (m : Memory) (id : ScopeId) : Frame → Prop
  | .right _ v => v.Fits m id
  | .constantValue _ type => type.IsData
  | .loopBody p => m.Sees id p.slot
  | .paramType d | .resultType d => ∀ p ∈ d.resolved, p.type.IsData
  | _ => True

/-- The stack belongs to the scope `id`, and `size` scopes have been made for it. -/
def StackFits (limit : Nat) (m : Memory) : List Frame → ScopeId → Nat → Prop
  | [], id, size => id = Memory.global ∧ size = 1
  | .argument call :: rest, id, size =>
    size = call.callee + 1 ∧ call.Fits m id ∧ openCalls rest < limit ∧
      StackFits limit m rest id call.callee
  | .invocation _ result callee caller :: rest, id, size =>
    id = callee ∧ size = callee + 1 ∧ (∀ t, result = some t → t.IsData) ∧ openCalls rest < limit ∧
      StackFits limit m rest caller callee
  | frame :: rest, id, size => frame.Fits m id ∧ StackFits limit m rest id size

/-- What is sound of a configuration apart from its control. -/
structure Settled (limit : Nat) (stack : List Frame) (id : ScopeId) (state : State) : Prop where
  memory : state.memory.Sound
  frames : StackFits limit state.memory stack id state.memory.scopes.size
  depth : state.depth = openCalls stack

/-- The frame that waits for what the control is about to do. -/
def Control.waiting : Control → List Frame
  | .bind call => [.argument call]
  | .define d => [.paramType d]
  | .iterate p => [.loopBody p]
  | _ => []

/-- A value on its way fits the scope, and a failure on its way is tame. -/
def Control.Fits (m : Memory) (id : ScopeId) : Control → Prop
  | .value v | .returning (some v) _ => v.Fits m id
  | .failing f => f.Tame
  | _ => True

/-- The invariant of runs. -/
structure Config.Sound (limit : Nat) (c : Config) : Prop where
  settled : Settled limit (c.control.waiting ++ c.stack) c.scope c.state
  control : c.control.Fits c.state.memory c.scope

/-! ## The stack -/

theorem openCalls_cons {frame : Frame} (inScope : frame.isCall = false) (stack : List Frame) :
    openCalls (frame :: stack) = openCalls stack := by
  cases frame with
  | invocation => cases inScope
  | _ => rfl

theorem Control.openCalls_waiting (control : Control) (stack : List Frame) :
    openCalls (control.waiting ++ stack) = openCalls stack := by
  cases control <;> rfl

theorem Call.Fits.kept {m m' : Memory} {size : Nat} {id : ScopeId} {call : Call}
    (fits : call.Fits m id) (ranked : m.Ranked) (kept : Memory.Kept size m m')
    (inside : id < size) : call.Fits m' id :=
  ⟨fits.routine.kept ranked kept inside, fits.params, fits.result⟩

theorem Call.Fits.rest {m : Memory} {id : ScopeId} {call : Call} (fits : call.Fits m id) :
    call.rest.Fits m id :=
  ⟨fits.routine, fun p member => fits.params p (List.mem_of_mem_drop member), fits.result⟩

theorem Frame.Fits.kept {m m' : Memory} {size : Nat} {id : ScopeId} {frame : Frame}
    (fits : frame.Fits m id) (ranked : m.Ranked) (kept : Memory.Kept size m m')
    (inside : id < size) : frame.Fits m' id := by
  cases frame with
  | right op v => exact Value.Fits.kept fits ranked kept inside
  | loopBody p => exact kept.sees ranked fits inside
  | constantValue | paramType | resultType => exact fits
  | _ => trivial

namespace StackFits

variable {limit : Nat} {m m' : Memory}

variable {stack : List Frame} {id : ScopeId} {size : Nat}

theorem cons_iff {frame : Frame} (inScope : frame.isCall = false) :
    StackFits limit m (frame :: stack) id size ↔
      frame.Fits m id ∧ StackFits limit m stack id size := by
  cases frame with
  | argument | invocation => cases inScope
  | _ => exact Iff.rfl

variable (fits : StackFits limit m stack id size)

include fits

/-- The scope of a stack is one of those made for it. -/
theorem lt : id < size := by
  induction stack generalizing id size with
  | nil =>
    obtain ⟨rfl, rfl⟩ := fits
    exact Nat.one_pos
  | cons frame rest ih =>
    cases frame with
    | argument call =>
      obtain ⟨rfl, -, -, below⟩ := fits
      exact Nat.lt_succ_of_lt (ih below)
    | invocation routine result callee caller =>
      obtain ⟨rfl, rfl, -⟩ := fits
      exact Nat.lt_succ_self _
    | _ => exact ih fits.2

theorem pos : 0 < size :=
  Nat.lt_of_le_of_lt (Nat.zero_le _) fits.lt

theorem kept (ranked : m.Ranked) (kept : Memory.Kept size m m') :
    StackFits limit m' stack id size := by
  induction stack generalizing id size with
  | nil => exact fits
  | cons frame rest ih =>
    have inside := fits.lt
    cases frame with
    -- The frames below a call belong to scopes made before the one of the call.
    | argument call =>
      obtain ⟨rfl, callFits, free, below⟩ := fits
      exact ⟨rfl, callFits.kept ranked kept inside, free,
        ih below (kept.mono (Nat.le_succ _))⟩
    | invocation routine result callee caller =>
      obtain ⟨rfl, rfl, data, free, below⟩ := fits
      exact ⟨rfl, rfl, data, free, ih below (kept.mono (Nat.le_succ _))⟩
    | _ => exact ⟨fits.1.kept ranked kept inside, ih fits.2 kept⟩

/-- A value that waits for the right operand fits the scope of its frame. -/
theorem operand {op : BinaryOp} {v : Value} (waits : .right op v ∈ stack) :
    ∃ id', v.Fits m id' := by
  induction stack generalizing id size with
  | nil => cases waits
  | cons frame rest ih =>
    rcases List.mem_cons.mp waits with rfl | below
    · exact ⟨id, fits.1⟩
    · cases frame with
      | argument call => exact ih fits.2.2.2 below
      | invocation routine result callee caller => exact ih fits.2.2.2.2 below
      | _ => exact ih fits.2 below

/-- The scopes there are: the global one, and one for each call. -/
theorem mem_callees {a : ScopeId} : a ∈ callees stack ++ [Memory.global] ↔ a < size := by
  induction stack generalizing id size with
  | nil =>
    obtain ⟨rfl, rfl⟩ := fits
    exact List.mem_singleton.trans Nat.lt_one_iff.symm
  | cons frame rest ih =>
    cases frame with
    | argument call =>
      obtain ⟨rfl, -, -, below⟩ := fits
      rw [callees, List.cons_append, List.mem_cons, ih below, or_comm]
      exact Nat.lt_succ_iff_lt_or_eq.symm
    | invocation routine result callee caller =>
      obtain ⟨rfl, rfl, -, -, below⟩ := fits
      rw [callees, List.cons_append, List.mem_cons, ih below, or_comm]
      exact Nat.lt_succ_iff_lt_or_eq.symm
    | _ => exact ih fits.2

/-- No more calls are open than allowed. -/
theorem openCalls_le : openCalls stack ≤ limit := by
  induction stack generalizing id size with
  | nil => exact Nat.zero_le _
  | cons frame rest ih =>
    cases frame with
    | argument call => exact Nat.le_of_lt fits.2.2.1
    | invocation routine result callee caller => exact fits.2.2.2.1
    | _ => exact ih fits.2

end StackFits

/-! ## Working on the memory -/

theorem State.note_memory (s : State) (settings : Settings) (entry : LogEntry) :
    (s.note settings entry).memory = s.memory := by
  unfold State.note
  split <;> rfl

theorem State.note_depth (s : State) (settings : Settings) (entry : LogEntry) :
    (s.note settings entry).depth = s.depth := by
  unfold State.note
  split <;> rfl

namespace Settled

variable {limit : Nat} {stack : List Frame} {id : ScopeId} {state : State}

theorem inside (settled : Settled limit stack id state) : id < state.memory.scopes.size :=
  settled.frames.lt

/-- A frame may be put on the stack if what it holds fits the memory. -/
theorem push (settled : Settled limit stack id state) {frame : Frame}
    (inScope : frame.isCall = false) (fits : frame.Fits state.memory id) :
    Settled limit (frame :: stack) id state where
  memory := settled.memory
  frames := (StackFits.cons_iff inScope).mpr ⟨fits, settled.frames⟩
  depth := settled.depth.trans (openCalls_cons inScope stack).symm

theorem top {frame : Frame} (settled : Settled limit (frame :: stack) id state)
    (inScope : frame.isCall = false) : frame.Fits state.memory id :=
  ((StackFits.cons_iff inScope).mp settled.frames).1

theorem pop {frame : Frame} (settled : Settled limit (frame :: stack) id state)
    (inScope : frame.isCall = false) : Settled limit stack id state where
  memory := settled.memory
  frames := ((StackFits.cons_iff inScope).mp settled.frames).2
  depth := settled.depth.trans (openCalls_cons inScope stack)

theorem of_eq (settled : Settled limit stack id state) {state' : State}
    (memory : state'.memory = state.memory) (depth : state'.depth = state.depth) :
    Settled limit stack id state' :=
  ⟨memory ▸ settled.memory, memory ▸ settled.frames, depth.trans settled.depth⟩

theorem next (settled : Settled limit stack id state) {m : Memory} (next : state.memory.Next m) :
    Settled limit stack id { state with memory := m } where
  memory := next.sound
  frames := by
    have fits := settled.frames.kept settled.memory.ranked next.kept
    rw [← next.size] at fits
    exact fits
  depth := settled.depth

variable {call : Call}

variable (settled : Settled limit (.argument call :: stack) id state)

include settled

/-- The scope of a call whose arguments are being bound was made last. -/
theorem callee_inside : call.callee < state.memory.scopes.size := by
  rw [settled.frames.1]
  exact Nat.lt_succ_self _

theorem rest : Settled limit (.argument call.rest :: stack) id state := by
  obtain ⟨memory, ⟨last, fits, room, below⟩, depth⟩ := settled
  exact ⟨memory, ⟨last, fits.rest, room, below⟩, depth⟩

theorem passReference (x name : String) (type : Ty) :
    Memory.Yields ((Memory.passReference id x call.callee name type).run state.memory)
      (fun _ m => state.memory.Next m) state.memory.Unchanged :=
  settled.memory.passReference settled.callee_inside settled.frames.2.2.2.lt x name type

theorem bindValue {p : Formal} {params : List Formal} (next : call.params = p :: params) {v : Value}
    (fits : v.Fits state.memory id) :
    Memory.Yields ((Memory.bindValue call.callee p.name p.type v).run state.memory)
      (fun _ m => state.memory.Next m)
      (fun fault m => state.memory.Next m ∧ fault.cause.Tame) := by
  have data : p.type.IsData := settled.frames.2.1.params p (by rw [next]; exact List.mem_cons_self)
  exact settled.memory.bindValue settled.callee_inside p.name data settled.inside fits

end Settled

namespace Config

variable {limit : Nat} {stack : List Frame} {id : ScopeId} {state : State}

/-- What holds of everything that comes of an operation holds of the configuration that goes on. -/
theorem access_of {α : Type} {P : Config → Prop} {action : Memory.Action α}
    {onOk : α → State → Config} {onFault : Fault → State → Config} {good : α → Memory → Prop}
    {bad : Fault → Memory → Prop} (yields : Memory.Yields (action.run state.memory) good bad)
    (ok : ∀ a m, good a m → P (onOk a { state with memory := m }))
    (fault : ∀ f m, bad f m → P (onFault f { state with memory := m })) :
    P (access state action onOk onFault) := by
  obtain ⟨memory, sink, log, depth⟩ := state
  simp only [access]
  cases result : action.run memory with
  | ok a m =>
    rw [result] at yields
    exact ok a m yields
  | error f m =>
    rw [result] at yields
    exact fault f m yields

theorem close_yields {m : Memory} {callee : ScopeId} (last : m.scopes.size = callee + 1) :
    Memory.Yields ((Memory.close callee).run m) (fun _ m' => m' = m.closed)
      (fun _ _ => False) := by
  rw [Memory.close_run m callee last]
  rfl

variable (settled : Settled limit stack id state)

include settled

/-- If the operation leaves the memory alone when it fails, its fault can start on its way up. -/
theorem tryAccess_sound {α : Type} {action : Memory.Action α} {onOk : α → State → Config}
    {good : α → Memory → Prop}
    (yields : Memory.Yields (action.run state.memory) good state.memory.Unchanged)
    (ok : ∀ a m, good a m → (onOk a { state with memory := m }).Sound limit) :
    (tryAccess state action stack id onOk).Sound limit := by
  refine access_of yields ok fun f m unchanged => ?_
  obtain ⟨rfl, tame⟩ := unchanged
  exact ⟨settled, .fault tame⟩

theorem fail_sound {cause : Cause} (tame : cause.Tame) : (fail cause stack id state).Sound limit :=
  ⟨settled, .fault tame⟩

theorem orFail_sound {α : Type} {result : Except Cause α} {onOk : α → State → Config}
    (tame : ∀ cause, result = .error cause → cause.Tame)
    (ok : ∀ a, result = .ok a → (onOk a state).Sound limit) :
    (orFail result stack id state onOk).Sound limit := by
  cases result with
  | ok a => exact ok a rfl
  | error cause => exact fail_sound settled (tame cause rfl)

theorem ofResult_sound {result : Except Cause Value} (computed : Computed result) :
    (ofResult result stack id state).Sound limit := by
  cases result with
  | ok v => exact ⟨settled, Value.Plain.fits computed _ _⟩
  | error cause => exact fail_sound settled computed

end Config

end Pseudocode
