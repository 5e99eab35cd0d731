import Pseudocode.Proofs.Operators
import Pseudocode.Proofs.Relocation

/-! # Memories without places

A routine keeps the statements of its body, and with them the places where they stand in the source
it was defined in. What the operations on memory and the operators do does not depend on these
places: they do the same to a memory or to values without places. -/

namespace Pseudocode

/-- Sends every position to the one that stands for "nowhere". -/
def Position.nowhere (_ : Position) : Position :=
  ⟨0, 0⟩

abbrev Expr.unplaced (e : Expr) : Expr :=
  e.moved .nowhere

abbrev Stmt.unplaced (s : Stmt) : Stmt :=
  s.moved .nowhere

theorem Stmt.unplaced_moved (f : Position → Position) (s : Stmt) :
    (s.moved f).unplaced = s.unplaced :=
  s.moved_moved .nowhere

theorem Expr.span_unplaced (e : Expr) : e.unplaced.span = .zero := by
  cases e <;> rfl

theorem Stmt.span_unplaced (s : Stmt) : s.unplaced.span = .zero := by
  cases s <;> rfl

theorem Expr.length_allMoved (f : Position → Position) (es : List Expr) :
    (allMoved f es).length = es.length := by
  induction es with
  | nil => rfl
  | cons e rest ih => rw [allMoved, List.length_cons, ih, List.length_cons]

/-! ## Values -/

def Routine.unplaced (r : Routine) : Routine :=
  { r with body := Stmt.allMoved .nowhere r.body }

namespace Value

def unplaced : Value → Value
  | procedure r => procedure r.unplaced
  | function r result => function r.unplaced result
  | v => v

variable (v l r : Value)

theorem kind?_unplaced : v.unplaced.kind? = v.kind? := by
  cases v <;> rfl

@[simp] theorem described_unplaced : v.unplaced.described = v.described := by
  cases v <;> rfl

theorem shown_unplaced : v.unplaced.shown = v.shown := by
  cases v <;> rfl

@[simp] theorem accepts_unplaced (type : Ty) : type.accepts v.unplaced = type.accepts v := by
  cases type with
  | of kind => simp only [Ty.accepts, kind?_unplaced]
  | _ => rfl

theorem toReal?_unplaced : v.unplaced.toReal? = v.toReal? := by
  cases v <;> rfl

theorem toText?_unplaced : v.unplaced.toText? = v.toText? := by
  cases v <;> rfl

theorem compareNumbers?_unplaced : compareNumbers? l.unplaced r.unplaced = compareNumbers? l r := by
  cases l <;> cases r <;> rfl

theorem equals?_unplaced : l.unplaced.equals? r.unplaced = l.equals? r := by
  simp only [equals?, compareNumbers?_unplaced]
  cases l <;> cases r <;> rfl

theorem Plain.unplaced {v : Value} (plain : v.Plain) : v.unplaced = v := by
  cases v with
  | procedure | function => cases plain
  | _ => rfl

end Value

theorem UnaryOp.apply_unplaced (op : UnaryOp) (v : Value) : op.apply v.unplaced = op.apply v := by
  cases op <;> cases v <;> rfl

namespace BinaryOp

variable (op : BinaryOp) (l r : Value)

theorem mismatch_unplaced (wanted : String) :
    op.mismatch wanted l.unplaced r.unplaced = op.mismatch wanted l r := by
  simp only [mismatch, Value.described_unplaced]

theorem arithmetic_unplaced (onIntegers? : Int64 → Int64 → Option Int64)
    (onReals : Float → Float → Float) :
    op.arithmetic onIntegers? onReals l.unplaced r.unplaced =
      op.arithmetic onIntegers? onReals l r := by
  cases l <;> cases r <;> rfl

theorem division_unplaced : op.division l.unplaced r.unplaced = op.division l r := by
  simp only [division, Value.toReal?_unplaced, mismatch_unplaced]

theorem integerDivision_unplaced (result? : Int64 → Int64 → Option Int64) :
    op.integerDivision result? l.unplaced r.unplaced = op.integerDivision result? l r := by
  cases l <;> cases r <;> rfl

theorem concatenation_unplaced : op.concatenation l.unplaced r.unplaced = op.concatenation l r := by
  simp only [concatenation, Value.toText?_unplaced, mismatch_unplaced]

theorem comparison_unplaced (holds : Ordering → Bool) :
    op.comparison holds l.unplaced r.unplaced = op.comparison holds l r := by
  simp only [comparison, Value.compareNumbers?_unplaced, mismatch_unplaced]

theorem equality_unplaced (holds : Bool → Bool) :
    equality holds l.unplaced r.unplaced = equality holds l r := by
  simp only [equality, Value.equals?_unplaced, Value.described_unplaced]

theorem logic_unplaced (holds : Bool → Bool → Bool) :
    op.logic holds l.unplaced r.unplaced = op.logic holds l r := by
  cases l <;> cases r <;> rfl

theorem apply_unplaced : op.apply l.unplaced r.unplaced = op.apply l r := by
  cases op with
  | add | subtract | multiply => exact arithmetic_unplaced ..
  | divide => exact division_unplaced ..
  | modulo => exact integerDivision_unplaced modulo l r fun m n => some (Integer.modulo m n)
  | quotient => exact integerDivision_unplaced ..
  | join => exact concatenation_unplaced ..
  | less | greater | lessEqual | greaterEqual => exact comparison_unplaced ..
  | equal | notEqual => exact equality_unplaced ..
  | and | or => exact logic_unplaced ..
  | unknown sign => rfl

end BinaryOp

/-! ## Faults -/

def Fault.unplaced (f : Fault) : Fault :=
  { f with span := .zero }

def Failure.unplaced (f : Failure) : Failure :=
  f.mapFault Fault.unplaced

theorem Fault.withSpan_unplaced (f : Fault) (span : Span) :
    (f.withSpan span).unplaced = f.unplaced.withSpan .zero := by
  unfold withSpan
  split <;> rfl

theorem Fault.annotate_unplaced (f : Fault) (name : String) :
    (f.annotate name).unplaced = f.unplaced.annotate name := by
  unfold annotate
  split
  case isTrue unnamed => exact (if_pos unnamed).symm
  case isFalse named => exact (if_neg named).symm

theorem Failure.withSpan_unplaced (f : Failure) (span : Span) :
    (f.withSpan span).unplaced = f.unplaced.withSpan .zero := by
  induction f with
  | fault f => exact congrArg fault (f.withSpan_unplaced span)
  | plain text => rfl
  | wrapped text inner ih => exact congrArg (wrapped text) ih

theorem Failure.annotate_unplaced (f : Failure) (name : String) :
    (f.annotate name).unplaced = f.unplaced.annotate name := by
  induction f with
  | fault f => exact congrArg fault (f.annotate_unplaced name)
  | plain text => rfl
  | wrapped text inner ih => exact congrArg (wrapped text) ih

/-! ## The store -/

def Cell.unplaced (c : Cell) : Cell :=
  { c with value := c.value.map Value.unplaced }

namespace Store

def unplaced (s : Store) : Store :=
  { s with cells := s.cells.map (Option.map Cell.unplaced) }

variable (s : Store) (h : Handle)

theorem cell?_unplaced : s.unplaced.cell? h = (s.cell? h).map Cell.unplaced := by
  cases h with
  | negSucc => rfl
  | ofNat i =>
    simp only [cell?, unplaced, Array.getElem?_map]
    cases s.cells[i]? <;> rfl

theorem typeOf_unplaced : s.unplaced.typeOf h = s.typeOf h := by
  rw [typeOf, typeOf, cell?_unplaced]
  cases s.cell? h <;> rfl

theorem get_unplaced : s.unplaced.get h = (s.get h).map Value.unplaced := by
  rw [get, get, cell?_unplaced]
  cases s.cell? h with
  | none => rfl
  | some cell =>
    obtain ⟨type, value⟩ := cell
    cases value <;> rfl

theorem refusal?_unplaced (v : Value) : s.unplaced.refusal? h v.unplaced = s.refusal? h v := by
  rw [refusal?, refusal?, cell?_unplaced]
  cases s.cell? h with
  | none => rfl
  | some cell =>
    simp only [Option.map_some, Cell.unplaced, Value.accepts_unplaced, Value.described_unplaced]

theorem write_unplaced (v : Value) : (s.write h v).unplaced = s.unplaced.write h v.unplaced := by
  simp only [write, unplaced, mk.injEq, and_true]
  refine map_modify_of_comm (fun cell => ?_) s.cells h.toNat
  cases cell <;> rfl

theorem allocate_unplaced (type : Ty) :
    s.unplaced.allocate type = ((s.allocate type).1, (s.allocate type).2.unplaced) := by
  obtain ⟨cells, free, recycles⟩ := s
  cases recycles <;> cases free <;> simp [allocate, unplaced, Cell.unplaced]

theorem release_unplaced : (s.release h).unplaced = s.unplaced.release h := by
  simp only [release, cell?_unplaced, Option.isSome_map]
  split
  · simp [unplaced]
  · rfl

theorem releaseAll_unplaced (handles : List Handle) :
    (s.releaseAll handles).unplaced = s.unplaced.releaseAll handles := by
  induction handles with
  | nil => rfl
  | cons first rest ih =>
    change ((s.releaseAll rest).release first).unplaced = _
    rw [release_unplaced, ih]
    rfl

theorem live_unplaced : s.unplaced.live = s.live := by
  simp only [live, unplaced, Array.size_map]

end Store

/-! ## Memories -/

def Binding.unplaced : Binding → Binding
  | constant v => constant v.unplaced
  | slot h => slot h

def Scope.unplaced (scope : Scope) : Scope :=
  { scope with bindings := scope.bindings.map fun entry => (entry.1, entry.2.unplaced) }

theorem Scope.find?_unplaced (scope : Scope) (name : String) :
    scope.unplaced.find? name = (scope.find? name).map Binding.unplaced :=
  lookup_map Binding.unplaced scope.bindings name

theorem Scope.keys_unplaced (scope : Scope) : scope.unplaced.keys = scope.keys := by
  simp only [keys, unplaced, List.map_map, Function.comp_def]

namespace Memory

def unplaced (m : Memory) : Memory where
  store := m.store.unplaced
  scopes := m.scopes.map Scope.unplaced

variable (m : Memory) (id : ScopeId) (name : String)

theorem getElem?_unplaced : m.unplaced.scopes[id]? = m.scopes[id]?.map Scope.unplaced :=
  Array.getElem?_map

theorem has_unplaced : m.unplaced.has id name = m.has id name :=
  has_of_map m.getElem?_unplaced Scope.find?_unplaced id name

theorem resolve?_unplaced :
    m.unplaced.resolve? id name = (m.resolve? id name).map Binding.unplaced :=
  resolve?_of_map m.getElem?_unplaced Scope.find?_unplaced (fun _ => rfl) id name

theorem keys_unplaced : m.unplaced.keys id = m.keys id := by
  rw [keys, keys, getElem?_unplaced]
  cases m.scopes[id]? with
  | none => rfl
  | some scope => exact scope.keys_unplaced

theorem extended_unplaced (b : Binding) (cells : List Handle) (store : Store) :
    (m.extended id name b cells store).unplaced =
      m.unplaced.extended id name b.unplaced cells store.unplaced := by
  simp only [extended, unplaced, mk.injEq, true_and]
  refine map_modify_of_comm (fun scope => ?_) m.scopes id
  rfl

theorem bound_unplaced (b : Binding) :
    (m.bound id name b).unplaced = m.unplaced.bound id name b.unplaced :=
  m.extended_unplaced id name b [] m.store

theorem next_unplaced : m.unplaced.store.next = m.store.next := by
  have given := congrArg Prod.fst (m.store.allocate_unplaced .absent)
  rw [Store.allocate_fst, Store.allocate_fst] at given
  exact Int.ofNat.inj given

theorem declared_unplaced (type : Ty) :
    (m.declared id name type).unplaced = m.unplaced.declared id name type := by
  have allocated : (m.unplaced.store.allocate type).2 = (m.store.allocate type).2.unplaced :=
    congrArg Prod.snd (m.store.allocate_unplaced type)
  rw [declared, declared, next_unplaced, extended_unplaced, allocated]
  rfl

theorem written_unplaced (h : Handle) (v : Value) :
    (m.written h v).unplaced = m.unplaced.written h v.unplaced := by
  simp only [written, unplaced, Store.write_unplaced]

/-! ## Operations -/

def Outcome.unplaced {α β : Type} (g : α → β) :
    EStateM.Result Fault Memory α → EStateM.Result Fault Memory β
  | .ok a m => .ok (g a) m.unplaced
  | .error f m => .error f.unplaced m.unplaced

/-- The second operation does to a memory without places what the first does to the memory. -/
def Action.Mirrors {α β : Type} (g : α → β) (action : Action α) (mirror : Action β) : Prop :=
  ∀ m : Memory, mirror.run m.unplaced = Outcome.unplaced g (action.run m)

variable {id name} {type : Ty}

theorem child_mirrors (label : String) :
    (child id label).Mirrors (fun id => id) (child id label) := by
  intro m
  simp only [child_run, Outcome.unplaced, opened, unplaced, Array.size_map, Array.map_push]
  rfl

theorem lookup_mirrors : (lookup id name).Mirrors Value.unplaced (lookup id name) := by
  intro m
  simp only [lookup_run, resolve?_unplaced]
  cases m.resolve? id name with
  | none => rfl
  | some b =>
    cases b with
    | constant v => rfl
    | slot h =>
      simp only [Option.map_some, Binding.unplaced, unplaced, Store.get_unplaced]
      cases m.store.get h with
      | ok v => rfl
      | error cause => simp only [Except.map, Outcome.unplaced, Fault.annotate_unplaced]; rfl

theorem lookupVariable_mirrors :
    (lookupVariable id name).Mirrors (fun h => h) (lookupVariable id name) := by
  intro m
  simp only [lookupVariable_run, resolve?_unplaced]
  cases m.resolve? id name with
  | none => rfl
  | some b => cases b <;> rfl

theorem declareVariable_mirrors :
    (declareVariable id name type).Mirrors (fun h => h) (declareVariable id name type) := by
  intro m
  simp only [declareVariable_run, has_unplaced, next_unplaced]
  split
  · rfl
  · rw [Outcome.unplaced, declared_unplaced]

theorem declareConstant_mirrors (v : Value) :
    (declareConstant id name type v).Mirrors (fun u => u)
      (declareConstant id name type v.unplaced) := by
  intro m
  simp only [declareConstant_run, has_unplaced, Value.accepts_unplaced, Value.described_unplaced]
  split
  · rfl
  · split
    · simp only [Outcome.unplaced, bound_unplaced, Binding.unplaced]
    · simp only [Outcome.unplaced, Fault.annotate_unplaced]
      rfl

theorem bindReference_mirrors (h : Handle) :
    (bindReference id name type h).Mirrors (fun u => u) (bindReference id name type h) := by
  intro m
  have sameType : m.unplaced.store.typeOf h = m.store.typeOf h := m.store.typeOf_unplaced h
  simp only [bindReference_run, has_unplaced, sameType]
  split
  · rfl
  · split
    · simp only [Outcome.unplaced, bound_unplaced, Binding.unplaced]
    · rfl

theorem writeAs_mirrors (h : Handle) (v : Value) :
    (writeAs name h v).Mirrors (fun u => u) (writeAs name h v.unplaced) := by
  intro m
  have sameRefusal : m.unplaced.store.refusal? h v.unplaced = m.store.refusal? h v :=
    m.store.refusal?_unplaced h v
  simp only [writeAs_run, sameRefusal]
  cases m.store.refusal? h v with
  | none => simp only [Outcome.unplaced, written_unplaced]
  | some cause => simp only [Outcome.unplaced, Fault.annotate_unplaced]; rfl

theorem bindValue_mirrors (v : Value) :
    (bindValue id name type v).Mirrors (fun u => u) (bindValue id name type v.unplaced) := by
  intro m
  simp only [bindValue_run, has_unplaced, next_unplaced, ← declared_unplaced]
  split
  · rfl
  · exact writeAs_mirrors _ v _

theorem assign_mirrors (v : Value) :
    (assign id name v).Mirrors (fun u => u) (assign id name v.unplaced) := by
  intro m
  simp only [assign_run, resolve?_unplaced]
  cases m.resolve? id name with
  | none => rfl
  | some b =>
    cases b with
    | constant v => rfl
    | slot h => exact writeAs_mirrors h v m

theorem passReference_mirrors (caller : ScopeId) (x : String) :
    (passReference caller x id name type).Mirrors (fun u => u)
      (passReference caller x id name type) := by
  intro m
  simp only [passReference_run, resolve?_unplaced]
  cases m.resolve? caller x with
  | none => rfl
  | some b =>
    cases b with
    | constant v => rfl
    | slot h => exact bindReference_mirrors h m

def ownedBy (m : Memory) (id : ScopeId) : List Handle :=
  ((m.scopes[id]?).map (·.owned)).getD []

theorem ownedBy_unplaced : m.unplaced.ownedBy id = m.ownedBy id := by
  rw [ownedBy, ownedBy, getElem?_unplaced]
  cases m.scopes[id]? <;> rfl

theorem close_mirrors : (close id).Mirrors (fun u => u) (close id) := by
  intro m
  have ran (m : Memory) : (close id).run m =
      .ok () ⟨m.store.releaseAll (m.ownedBy id),
        (m.scopes.modify id fun scope => { scope with owned := [] }).pop⟩ := rfl
  have emptied : (m.scopes.modify id fun scope => { scope with owned := [] }).map Scope.unplaced =
      m.unplaced.scopes.modify id fun scope => { scope with owned := [] } := by
    refine map_modify_of_comm (fun scope => ?_) m.scopes id
    rfl
  rw [ran, ran, ownedBy_unplaced]
  simp only [Outcome.unplaced, unplaced, Array.map_pop, emptied, Store.releaseAll_unplaced]

end Memory

end Pseudocode
