import Pseudocode.Proofs.Actions

/-! # What a failure is told on its way up

On its way up a failure is told places and names, by the blocks, arguments, parameters and calls that
it passes. The order depends on how these are nested, so it must not matter more than it has to: the
first place that is one stays, the first name stays, and how places and names are mixed makes no
difference. -/

namespace Pseudocode

inductive Note where
  | place (span : Span)
  | name (text : String)
  deriving Repr, DecidableEq

namespace Note

def span? : Note → Option Span
  | place span => some span
  | name _ => none

def name? : Note → Option String
  | place _ => none
  | name text => some text

def spans (notes : List Note) : List Span :=
  notes.filterMap span?

def names (notes : List Note) : List String :=
  notes.filterMap name?

end Note

/-- The first of the spans that is a place. -/
def Span.firstKnown (spans : List Span) : Span :=
  (spans.find? (!·.isZero)).getD .zero

namespace Fault

/-- The name that is put in front of the message when the fault is told these. -/
def label? (f : Fault) (names : List String) : Option String :=
  if f.identifier = "" then names.head? else none

/-- The fault with the first place and the first name that it is told, where it has none. -/
def noting (f : Fault) (spans : List Span) (names : List String) : Fault where
  cause := f.cause
  labels := (f.label? names).toList ++ f.labels
  identifier := (f.label? names).getD f.identifier
  span := .firstKnown (f.span :: spans)

variable (f : Fault) (spans : List Span) (names : List String)

theorem noting_nil : f.noting [] [] = f := by
  obtain ⟨cause, labels, identifier, span⟩ := f
  by_cases isZero : span = .zero <;> simp [noting, label?, Span.firstKnown, Span.isZero, isZero]

theorem noting_withSpan (span : Span) :
    (f.withSpan span).noting spans names = f.noting (span :: spans) names := by
  by_cases isZero : f.span = .zero <;>
    simp [noting, label?, withSpan, Span.firstKnown, Span.isZero, isZero]

/-- A name that is not empty is the last one that counts. -/
theorem noting_annotate {name : String} (named : name ≠ "") :
    (f.annotate name).noting spans names = f.noting spans (name :: names) := by
  by_cases anonymous : f.identifier = "" <;> simp [noting, label?, annotate, anonymous, named]

theorem noting_message : (f.noting spans names).message =
    ((f.label? names).map fun name => "'" ++ name ++ "': ").getD "" ++ f.message := by
  cases isLabel : f.label? names with
  | none =>
    rw [Option.map_none, Option.getD_none, String.empty_append, message, noting, isLabel]
    rfl
  | some name =>
    rw [message, noting, isLabel]
    rfl

end Fault

namespace Failure

def tell (f : Failure) : Note → Failure
  | .place span => f.withSpan span
  | .name name => f.annotate name

def tellAll (f : Failure) (notes : List Note) : Failure :=
  notes.foldl tell f

theorem mapFault_mapFault (f : Failure) (first second : Fault → Fault) :
    (f.mapFault first).mapFault second = f.mapFault fun fault => second (first fault) := by
  induction f with
  | fault f => rfl
  | plain text => rfl
  | wrapped text inner ih => exact congrArg (wrapped text) ih

theorem mapFault_congr {f : Failure} {first second : Fault → Fault}
    (same : ∀ fault, f.fault? = some fault → first fault = second fault) :
    f.mapFault first = f.mapFault second := by
  induction f with
  | fault f => exact congrArg fault (same f rfl)
  | plain text => rfl
  | wrapped text inner ih => exact congrArg (wrapped text) (ih same)

theorem mapFault_id (f : Failure) : (f.mapFault fun fault => fault) = f := by
  induction f with
  | fault f => rfl
  | plain text => rfl
  | wrapped text inner ih => exact congrArg (wrapped text) ih

/-- However deep the fault is wrapped, it is the fault that is told, and places and names do not
interfere. -/
theorem tellAll_eq (f : Failure) {notes : List Note} (named : "" ∉ Note.names notes) :
    f.tellAll notes = f.mapFault (·.noting (Note.spans notes) (Note.names notes)) := by
  induction notes generalizing f with
  | nil => exact (f.mapFault_id.symm.trans (mapFault_congr fun fault _ => fault.noting_nil.symm))
  | cons note notes ih =>
    change (f.tell note).tellAll notes = _
    cases note with
    | place span =>
      rw [ih _ named]
      refine (f.mapFault_mapFault _ _).trans (mapFault_congr fun fault _ => ?_)
      exact fault.noting_withSpan _ _ span
    | name name =>
      obtain ⟨first, others⟩ := not_or.mp (List.mem_cons.not.mp named)
      rw [ih _ others]
      refine (f.mapFault_mapFault _ _).trans (mapFault_congr fun fault _ => ?_)
      exact fault.noting_annotate _ _ (Ne.symm first)

/-- Whatever a failure is told, its kind stays. Of its fault, the place is the first one among its own
and those told that is a place; the name is its own or else the first one told, and only in the latter
case it is put in front of the message, once. Places and names may be mixed in any way. A failure
without a fault stays as it is. -/
theorem first_note_stays (f : Failure) {notes : List Note} (named : "" ∉ Note.names notes) :
    (f.tellAll notes).kind? = f.kind? ∧
    (∀ fault, f.fault? = some fault → ∃ told, f.tellAll notes = f.mapFault (fun _ => told) ∧
      (f.tellAll notes).fault? = some told ∧
      told.span = .firstKnown (fault.span :: Note.spans notes) ∧
      (fault.identifier ≠ "" → told.identifier = fault.identifier ∧ told.message = fault.message) ∧
      (fault.identifier = "" → ∀ name ∈ (Note.names notes).head?,
        told.identifier = name ∧ told.message = "'" ++ name ++ "': " ++ fault.message) ∧
      (Note.names notes = [] →
        told.identifier = fault.identifier ∧ told.message = fault.message)) ∧
    (∀ other, Note.spans other = Note.spans notes → Note.names other = Note.names notes →
      f.tellAll other = f.tellAll notes) ∧
    (f.fault? = none → f.tellAll notes = f) := by
  rw [tellAll_eq f named]
  refine ⟨f.kind?_mapFault fun _ => rfl, fun fault inside => ?told, fun other spans names => ?mixed,
    fun none => ?plain⟩
  case told =>
    refine ⟨fault.noting _ (Note.names notes), mapFault_congr fun found isFound => ?_, ?_, rfl,
      fun isNamed => ?_, fun anonymous name isFirst => ?_, fun none => ?_⟩
    · rw [Option.some.inj (inside.symm.trans isFound)]
    · rw [fault?_mapFault, inside, Option.map_some]
    · rw [Fault.noting_message, Fault.noting, Fault.label?, if_neg isNamed]
      exact ⟨rfl, String.empty_append⟩
    · rw [Fault.noting_message, Fault.noting, Fault.label?, if_pos anonymous, isFirst]
      exact ⟨rfl, rfl⟩
    · rw [Fault.noting_message, Fault.noting, Fault.label?, none, List.head?_nil, ite_self]
      exact ⟨rfl, String.empty_append⟩
  case mixed => rw [tellAll_eq f (names ▸ named), spans, names]
  case plain =>
    refine (mapFault_congr fun fault inside => ?_).trans f.mapFault_id
    rw [none] at inside
    cases inside

/-- A fault that is wrapped twice is told no place, a name, two places and another name. -/
theorem first_note_stays_wrapped :
    let f := within "run" (within "assign" (.of (.unassigned (.of .integer))))
    let first : Span := ⟨⟨1, 2⟩, ⟨1, 3⟩⟩
    let notes : List Note :=
      [.place .zero, .name "total", .place first, .place ⟨⟨1, 1⟩, ⟨1, 9⟩⟩, .name "other"]
    "" ∉ Note.names notes ∧ f.kind? = some .uninitializedSlotRead ∧
      (f.tellAll notes).kind? = f.kind? ∧
      ∃ told, f.tellAll notes = f.mapFault (fun _ => told) ∧ told.span = first ∧
        told.identifier = "total" ∧
        told.message = "'total': slot of type INTEGER read before assignment" := by
  intro f first notes
  have named : "" ∉ Note.names notes := by decide
  obtain ⟨kind, inside, -⟩ := first_note_stays f named
  obtain ⟨told, same, -, span, -, given, -⟩ := inside _ rfl
  obtain ⟨identifier, message⟩ := given rfl "total" rfl
  exact ⟨named, rfl, kind, told, same, span, identifier, message⟩

end Failure

end Pseudocode
