import Mathlib.Data.List.Induction
import Mathlib.Logic.Function.Iterate
import Pseudocode.Manifest.Find
import Pseudocode.Path
import Pseudocode.Workspace

/-! # The nearest manifest

The directories that are searched are the one where the search starts and its parents, up to the
root. The search passes over a directory that has no manifest, or only a directory of that name. It
stops at the first of them where the answer is another one, and that answer is its result. -/

namespace Pseudocode

/-! ## Parents -/

namespace Path

theorem parent_below (absolute : Bool) (names : List String) (name : String) :
    parent ⟨absolute, names ++ [name]⟩ = ⟨absolute, names⟩ := by
  rw [parent, List.dropLast_concat]

theorem ancestors_below (absolute : Bool) (names : List String) (name : String) :
    ancestors ⟨absolute, names ++ [name]⟩ =
      ⟨absolute, names ++ [name]⟩ :: ancestors ⟨absolute, names⟩ := by
  rw [ancestors, ancestors, List.length_append, List.length_singleton, List.range_succ,
    List.reverse_append, List.reverse_singleton, List.singleton_append, List.map_cons,
    List.take_of_length_le (by simp)]
  refine congrArg _ (List.map_congr_left fun n member => ?_)
  rw [List.take_append_of_le_length]
  simpa [Nat.lt_succ_iff] using member

end Path

namespace Manifest

def candidate (directory : Path) : String :=
  (directory.join fileName).shown

/-- The answers that let the search go on. -/
def Passed (answer : Except FileError FileKind) : Prop :=
  answer = .ok .directory ∨ answer = .error .missing

/-- What the search says about an answer that it does not pass over. -/
def verdict (path : String) : Except FileError FileKind → Except FindFault String
  | .ok _ => .ok path
  | .error e => .error (.unknowable ⟨"stat", path, e⟩)

section Walk

-- Asking is all that the search does: the files and directories stay as they are.
variable {σ : Type} {s : σ} {stat : String → Except FileError FileKind}
  {kindOf : String → StateM σ (Except FileError FileKind)}

/-! ## One directory -/

theorem nearest_run (asked : ∀ text, (kindOf text).run s = (stat text, s)) (p : Path)
    (above : List Path) :
    (Passed (stat (candidate p)) ∧
      (nearest kindOf (p :: above)).run s = (nearest kindOf above).run s) ∨
    (¬ Passed (stat (candidate p)) ∧
      (nearest kindOf (p :: above)).run s = (verdict (candidate p) (stat (candidate p)), s)) := by
  have answered : (kindOf (p.join fileName).shown).run s = (stat (candidate p), s) := asked _
  rw [nearest, StateT.run_bind, answered]
  cases stat (candidate p) with
  | ok kind =>
    cases kind with
    | file => exact .inr ⟨by simp [Passed], rfl⟩
    | directory => exact .inl ⟨.inl rfl, rfl⟩
  | error e =>
    cases e with
    | missing => exact .inl ⟨.inr rfl, rfl⟩
    | notDirectory | isDirectory | taken | nameTooLong | invalidArgument | other text =>
      exact .inr ⟨by simp [Passed], rfl⟩

/-! ## All directories up to the root -/

/-- The search stops at the directory `k` levels above `p`. -/
structure StopsAt (stat : String → Except FileError FileKind) (p : Path) (k : Nat) : Prop where
  passed : ∀ i < k, Passed (stat (candidate (Path.parent^[i] p)))
  stops : ¬ Passed (stat (candidate (Path.parent^[k] p)))

theorem StopsAt.unique {p : Path} {j k : Nat} (one : StopsAt stat p j) (other : StopsAt stat p k) :
    j = k := by
  rcases Nat.lt_trichotomy j k with earlier | same | later
  · exact absurd (other.passed j earlier) one.stops
  · exact same
  · exact absurd (one.passed k later) other.stops

theorem StopsAt.here {p : Path} (stops : ¬ Passed (stat (candidate p))) : StopsAt stat p 0 :=
  ⟨fun _ early => absurd early (Nat.not_lt_zero _), stops⟩

theorem StopsAt.above {p : Path} {k : Nat} (passed : Passed (stat (candidate p)))
    (later : StopsAt stat p.parent k) : StopsAt stat p (k + 1) := by
  refine ⟨fun i early => ?_, later.stops⟩
  cases i with
  | zero => exact passed
  | succ i => exact later.passed i (Nat.lt_of_succ_lt_succ early)

/-- The search stops somewhere on the way up and says what it met there, or it passes over all
directories up to the root. -/
theorem nearest_ancestors (asked : ∀ text, (kindOf text).run s = (stat text, s)) (p : Path) :
    (∃ k ≤ p.names.length, StopsAt stat p k ∧
      (nearest kindOf p.ancestors).run s =
        (verdict (candidate (Path.parent^[k] p)) (stat (candidate (Path.parent^[k] p))), s)) ∨
    ((∀ i ≤ p.names.length, Passed (stat (candidate (Path.parent^[i] p)))) ∧
      (nearest kindOf p.ancestors).run s = (.error .notFound, s)) := by
  obtain ⟨absolute, names⟩ := p
  induction names using List.reverseRecOn with
  | nil =>
    obtain ⟨passed, result⟩ | ⟨stops, result⟩ := nearest_run asked ⟨absolute, []⟩ []
    · refine .inr ⟨fun i bound => ?_, result⟩
      cases Nat.le_zero.mp bound
      exact passed
    · exact .inl ⟨0, Nat.le_refl _, .here stops, result⟩
  | append_singleton names name ih =>
    rw [Path.ancestors_below, List.length_append, List.length_singleton]
    obtain ⟨passed, result⟩ | ⟨stops, result⟩ :=
      nearest_run asked ⟨absolute, names ++ [name]⟩ (Path.ancestors ⟨absolute, names⟩)
    · have climb : ∀ i, Path.parent^[i + 1] ⟨absolute, names ++ [name]⟩ =
          Path.parent^[i] ⟨absolute, names⟩ := by
        intro i
        rw [Function.iterate_succ_apply, Path.parent_below]
      rw [result]
      obtain ⟨k, bound, later, found⟩ | ⟨all, found⟩ := ih
      · refine .inl ⟨k + 1, Nat.succ_le_succ bound, .above passed ?_, ?_⟩
        · rwa [Path.parent_below]
        · rw [climb, found]
      · refine .inr ⟨fun i bound => ?_, found⟩
        cases i with
        | zero => exact passed
        | succ i =>
          rw [climb]
          exact all i (Nat.le_of_succ_le_succ bound)
    · exact .inl ⟨0, Nat.zero_le _, .here stops, result⟩

end Walk

variable {answer : Except FileError FileKind} {path : String}

theorem verdict_eq_ok_iff {found : String} (stops : ¬ Passed answer) :
    verdict path answer = .ok found ↔ answer = .ok .file ∧ found = path := by
  cases answer with
  | ok kind =>
    cases kind with
    | file => simp [verdict, eq_comm]
    | directory => exact absurd (.inl rfl) stops
  | error e => simp [verdict]

theorem verdict_eq_unknowable_iff {fault : FileFault} (stops : ¬ Passed answer) :
    verdict path answer = .error (.unknowable fault) ↔
      ∃ e, fault = ⟨"stat", path, e⟩ ∧ answer = .error e ∧ e ≠ .missing := by
  cases answer with
  | ok kind => simp [verdict]
  | error e =>
    have known : e ≠ .missing := fun missing => stops (.inr (missing ▸ rfl))
    simp [verdict, known, eq_comm]

theorem verdict_ne_notFound : verdict path answer ≠ .error .notFound := by
  cases answer <;> simp [verdict]

/-! ## The search -/

/-- The directory where the search starts: the one that `start` leads to, or the one that holds the
file that it leads to. -/
def searchedFrom (stat : String → Except FileError FileKind) (directory : Path) (start : String) :
    Path :=
  match stat (directory.resolve start).shown with
  | .ok .file => (directory.resolve start).parent
  | _ => directory.resolve start

theorem find_run (w : Workspace) (start : String) :
    (find Host.kindOf w.directory start : Workspace.Action _).run w =
      (nearest Host.kindOf (searchedFrom (w.tree.kindOf w.directory) w.directory start).ancestors :
        Workspace.Action _).run w := by
  have asked : (Host.kindOf (w.directory.resolve start).shown : Workspace.Action _).run w =
      (w.tree.kindOf w.directory (w.directory.resolve start).shown, w) := rfl
  rw [find, StateT.run_bind, asked]
  unfold searchedFrom
  cases w.tree.kindOf w.directory (w.directory.resolve start).shown with
  | ok kind => cases kind <;> rfl
  | error e => rfl

/-- The manifest that is found is the nearest one. -/
theorem find_nearest (w : Workspace) (start : String) :
    let stat := w.tree.kindOf w.directory
    let first := searchedFrom stat w.directory start
    let answer := fun k => stat (candidate (Path.parent^[k] first))
    ∃ result, (find Host.kindOf w.directory start : Workspace.Action _).run w = (result, w) ∧
      (∀ path, result = .ok path ↔ ∃ k ≤ first.names.length,
        path = candidate (Path.parent^[k] first) ∧ answer k = .ok .file ∧
          ∀ i < k, answer i = .ok .directory ∨ answer i = .error .missing) ∧
      (∀ fault, result = .error (.unknowable fault) ↔ ∃ k ≤ first.names.length, ∃ e,
        fault = ⟨"stat", candidate (Path.parent^[k] first), e⟩ ∧ answer k = .error e ∧ e ≠ .missing ∧
          ∀ i < k, answer i = .ok .directory ∨ answer i = .error .missing) ∧
      (result = .error .notFound ↔
        ∀ i ≤ first.names.length, answer i = .ok .directory ∨ answer i = .error .missing) := by
  intro stat first answer
  rw [find_run]
  have asked : ∀ text, (Host.kindOf text : Workspace.Action _).run w = (stat text, w) :=
    fun _ => rfl
  have unpassed : ∀ {k}, answer k = .ok .file → ¬ Passed (answer k) := by
    intro k isFile
    simp [isFile, Passed]
  have unpassed' : ∀ {k e}, answer k = .error e → e ≠ .missing → ¬ Passed (answer k) := by
    intro k e isError known
    simp [isError, Passed, known]
  obtain ⟨k, bound, stops, found⟩ | ⟨all, found⟩ := nearest_ancestors asked first
  · -- A search that stops at another level would stop there for the same reasons.
    refine ⟨_, found, fun path => ?_, fun fault => ?_, ?_⟩
    · rw [verdict_eq_ok_iff stops.stops]
      constructor
      · rintro ⟨isFile, rfl⟩
        exact ⟨k, bound, rfl, isFile, stops.passed⟩
      · rintro ⟨j, -, rfl, isFile, passed⟩
        cases StopsAt.unique ⟨passed, unpassed isFile⟩ stops
        exact ⟨isFile, rfl⟩
    · rw [verdict_eq_unknowable_iff stops.stops]
      constructor
      · rintro ⟨e, rfl, isError, known⟩
        exact ⟨k, bound, e, rfl, isError, known, stops.passed⟩
      · rintro ⟨j, -, e, rfl, isError, known, passed⟩
        cases StopsAt.unique ⟨passed, unpassed' isError known⟩ stops
        exact ⟨e, rfl, isError, known⟩
    · refine ⟨fun wrong => absurd wrong verdict_ne_notFound, fun all => ?_⟩
      exact absurd (all k bound) stops.stops
  · refine ⟨_, found, fun path => ?_, fun fault => ?_, fun _ => all, fun _ => rfl⟩
    · refine ⟨fun wrong => (by cases wrong), ?_⟩
      rintro ⟨k, bound, -, isFile, -⟩
      exact absurd (all k bound) (unpassed isFile)
    · refine ⟨fun wrong => (by cases wrong), ?_⟩
      rintro ⟨k, bound, e, -, isError, known, -⟩
      exact absurd (all k bound) (unpassed' isError known)

end Manifest

end Pseudocode
