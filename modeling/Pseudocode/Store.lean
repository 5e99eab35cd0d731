import Pseudocode.Fault

/-! # The store

Cells for the values of variables, addressed by handles. A released handle is given out again, the
one released last first, unless the store is told never to recycle. Any integer may be used as a
handle; one that no cell was allocated under, or whose cell was released, is not live. -/

namespace Pseudocode

/-- The address of a cell. -/
abbrev Handle := Int

/-- A place for values of one type. -/
structure Cell where
  type : Ty
  /-- `none` until the first write. -/
  value : Option Value := none

/-- The cells of a run. -/
structure Store where
  /-- `none` where the cell was released. -/
  cells : Array (Option Cell) := #[]
  /-- The places of the released cells, the last released first. -/
  free : List Nat := []
  /-- Whether released handles are given out again. -/
  recycles : Bool := true

namespace Store

def cell? (s : Store) : Handle → Option Cell
  | .ofNat i => s.cells[i]?.join
  | .negSucc _ => none

/-- Adds an unset cell, and gives its handle. -/
def allocate (s : Store) (type : Ty) : Handle × Store :=
  match s.recycles, s.free with
  | true, i :: free =>
    (i, { s with cells := s.cells.setIfInBounds i (some { type }), free })
  | _, _ => (s.cells.size, { s with cells := s.cells.push (some { type }) })

/-- Removes a live cell; other handles change nothing. -/
def release (s : Store) (h : Handle) : Store :=
  if (s.cell? h).isSome then
    { s with cells := s.cells.setIfInBounds h.toNat none, free := h.toNat :: s.free }
  else s

def typeOf (s : Store) (h : Handle) : Ty :=
  ((s.cell? h).map (·.type)).getD .absent

/-- Whether the handle is live and its cell was written. -/
def isSet (s : Store) (h : Handle) : Bool :=
  (s.cell? h).any (·.value.isSome)

def get (s : Store) (h : Handle) : Except Cause Value :=
  match s.cell? h with
  | none => .error (.notLive h)
  | some cell =>
    match cell.value with
    | none => .error (.unassigned cell.type)
    | some v => .ok v

/-- Why the value cannot be written to the handle. -/
def refusal? (s : Store) (h : Handle) (v : Value) : Option Cause :=
  match s.cell? h with
  | none => some (.notLive h)
  | some cell => if cell.type.accepts v then none else some (.notMember cell.type v.described)

/-- Replaces the value of a live cell, whatever its type. -/
def write (s : Store) (h : Handle) (v : Value) : Store :=
  { s with cells := s.cells.modify h.toNat (Option.map fun cell => { cell with value := some v }) }

/-- Writes to a live cell whose type accepts the value. -/
def set (s : Store) (h : Handle) (v : Value) : Except Cause Store :=
  match s.refusal? h v with
  | some cause => .error cause
  | none => .ok (s.write h v)

def live (s : Store) : Nat :=
  s.cells.size - s.free.length

end Store

end Pseudocode
