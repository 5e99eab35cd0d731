import Pseudocode.Store

/-! # Scopes and the store behind them

A scope binds names to values, which are its constants, and to handles of the store, which are its
variables. A name that a scope does not bind is looked up in the scope's parent. Scopes are numbered
in the order they are made, so that a parent has a smaller number than its children.

The operations run in `Memory.Action`: they may fail with a fault, and what they changed until then
stays changed. -/

namespace Pseudocode

/-- What a name stands for in a scope. -/
inductive Binding where
  | constant (value : Value)
  | slot (handle : Handle)

/-- Names and what they stand for. -/
structure Scope where
  /-- The name of the routine that runs in the scope. -/
  label : String
  parent : Option ScopeId
  /-- The bindings, the latest first. -/
  bindings : List (String × Binding) := []
  /-- The handles allocated for the scope's own variables, the latest first. -/
  owned : List Handle := []

namespace Scope

def find? (s : Scope) (name : String) : Option Binding :=
  s.bindings.lookup name

def bind (s : Scope) (name : String) (b : Binding) : Scope :=
  { s with bindings := (name, b) :: s.bindings }

/-- The bound names in increasing order of their bytes. -/
def keys (s : Scope) : List String :=
  (s.bindings.map Prod.fst).mergeSort (· ≤ ·)

end Scope

/-- The scopes of a run and the store they share. -/
structure Memory where
  store : Store := {}
  scopes : Array Scope := #[{ label := "global", parent := none }]

namespace Memory

/-- The scope that every other one descends from. -/
def global : ScopeId := 0

/-- An operation on the memory. -/
abbrev Action := EStateM Fault Memory

/-- What the nearest scope that binds the name binds it to, from the scope `id` up. -/
def resolve? (m : Memory) (id : ScopeId) (name : String) : Option Binding :=
  match m.scopes[id]? with
  | none => none
  | some scope =>
    match scope.find? name with
    | some b => some b
    | none =>
      match scope.parent with
      | none => none
      | some parent => if parent < id then m.resolve? parent name else none
termination_by id

def has (m : Memory) (id : ScopeId) (name : String) : Bool :=
  match m.scopes[id]? with
  | none => false
  | some scope => (scope.find? name).isSome

/-- The names that the scope itself binds, in increasing order. -/
def keys (m : Memory) (id : ScopeId) : List String :=
  ((m.scopes[id]?).map Scope.keys).getD []

def fail {α : Type} (cause : Cause) : Action α :=
  throw (.of cause)

/-- Makes a scope below `parent`. -/
def child (parent : ScopeId) (label : String) : Action ScopeId :=
  modifyGet fun m =>
    (m.scopes.size, { m with scopes := m.scopes.push { label, parent := some parent } })

def dropScope : Action Unit :=
  modify fun m => { m with scopes := m.scopes.pop }

/-- Allocates a cell that no scope owns. -/
def allocate (type : Ty) : Action Handle :=
  modifyGet fun m =>
    let (h, store) := m.store.allocate type
    (h, { m with store })

def free (h : Handle) : Action Unit :=
  modify fun m => { m with store := m.store.release h }

def read (h : Handle) : Action Value := do
  match (← get).store.get h with
  | .ok v => return v
  | .error cause => fail cause

def write (h : Handle) (v : Value) : Action Unit := do
  match (← get).store.refusal? h v with
  | some cause => fail cause
  | none => modify fun m => { m with store := m.store.write h v }

/-- Fails unless the value is a member of the type. -/
def check (type : Ty) (v : Value) : Action Unit :=
  if type.accepts v then return () else fail (.notMember type v.described)

def lookup (id : ScopeId) (name : String) : Action Value := do
  match (← get).resolve? id name with
  | none => fail (.undefinedIdentifier name)
  | some (.constant v) => return v
  | some (.slot h) =>
    match (← get).store.get h with
    | .ok v => return v
    | .error cause => throw ((Fault.of cause).annotate name)

def lookupVariable (id : ScopeId) (name : String) : Action Handle := do
  match (← get).resolve? id name with
  | none => fail (.undefinedVariable name)
  | some (.constant _) => fail (.isConstant name)
  | some (.slot h) => return h

/-- A name may be declared only once in a scope. -/
def checkFree (id : ScopeId) (name : String) : Action Unit := do
  if (← get).has id name then fail (.alreadyDeclared name) else return ()

def bind (id : ScopeId) (name : String) (b : Binding) : Action Unit :=
  modify fun m => { m with scopes := m.scopes.modify id (·.bind name b) }

/-- Declares a variable with a new, unset cell. -/
def declareVariable (id : ScopeId) (name : String) (type : Ty) : Action Handle := do
  checkFree id name
  modifyGet fun m =>
    let (h, store) := m.store.allocate type
    let scopes := m.scopes.modify id fun scope =>
      { scope.bind name (.slot h) with owned := h :: scope.owned }
    (h, { m with store, scopes })

/-- Declares a constant, whose value has to be a member of the type. -/
def declareConstant (id : ScopeId) (name : String) (type : Ty) (v : Value) : Action Unit := do
  checkFree id name
  if type.accepts v then bind id name (.constant v)
  else throw ((Fault.of (.notMember type v.described)).annotate name)

/-- Makes the name another name of a cell, which has to have been declared with this type. -/
def bindReference (id : ScopeId) (name : String) (type : Ty) (h : Handle) : Action Unit := do
  checkFree id name
  let found := (← get).store.typeOf h
  if found = type then bind id name (.slot h) else fail (.referenceType name type found)

/-- Writes to a cell on behalf of a name. -/
def writeAs (name : String) (h : Handle) (v : Value) : Action Unit := do
  match (← get).store.refusal? h v with
  | some cause => throw ((Fault.of cause).annotate name)
  | none => modify fun m => { m with store := m.store.write h v }

/-- Declares a variable that holds the value. The variable stays declared when its type does not
accept the value. -/
def bindValue (id : ScopeId) (name : String) (type : Ty) (v : Value) : Action Unit := do
  let h ← declareVariable id name type
  writeAs name h v

def assign (id : ScopeId) (name : String) (v : Value) : Action Unit := do
  let h ← lookupVariable id name
  writeAs name h v

/-- Releases the cells of the scope's own variables, in the order they were allocated. References to
cells of other scopes leave those alone. -/
def release (id : ScopeId) : Action Unit :=
  modify fun m =>
    let owned := ((m.scopes[id]?).map (·.owned)).getD []
    { m with
      store := owned.foldr (fun h store => store.release h) m.store
      scopes := m.scopes.modify id fun scope => { scope with owned := [] } }

end Memory

end Pseudocode
