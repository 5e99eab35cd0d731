import Pseudocode.Path

/-! # Cleaned paths

The text of a path is cut at its slashes, and the parts are walked one by one. A name that stands for
itself is added, and `..` takes one back. So what a relative text does to any directory can be said
once and for all: it goes up by some number of names, and from there down by names that stand for
themselves. -/

namespace Pseudocode.Path

/-! ## Parts of a text -/

/-- What can stand between two slashes. -/
structure IsPart (part : String) : Prop where
  ne_empty : part ≠ ""
  slashless : '/' ∉ part.toList

/-- A name that stands for itself. -/
structure Proper (name : String) : Prop extends IsPart name where
  ne_here : name ≠ "."
  ne_above : name ≠ ".."

theorem not_mem_of_mem_splitOn {sep : Char} {cs part : List Char} (member : part ∈ cs.splitOn sep) :
    sep ∉ part := by
  induction cs generalizing part with
  | nil =>
    cases List.mem_singleton.mp member
    exact List.not_mem_nil
  | cons c rest ih =>
    rw [List.splitOn, List.splitOnP_cons_eq_if_modifyHead] at member
    split at member
    case isTrue =>
      obtain rfl | later := List.mem_cons.mp member
      · exact List.not_mem_nil
      · exact ih later
    case isFalse other =>
      cases found : rest.splitOnP (· == sep) with
      | nil => exact absurd found (List.splitOnP_ne_nil _ _)
      | cons first others =>
        rw [found] at member
        rw [List.splitOn, found] at ih
        obtain rfl | later := List.mem_cons.mp member
        · rw [List.mem_cons, not_or]
          exact ⟨fun same => other (by simp [same]), ih List.mem_cons_self⟩
        · exact ih (List.mem_cons_of_mem _ later)

variable {part : String} {names down : List String}

theorem isPart_of_mem {text : String} (member : part ∈ parts text) : IsPart part := by
  rw [parts, List.mem_map] at member
  obtain ⟨cs, kept, rfl⟩ := member
  obtain ⟨among, nonempty⟩ := List.mem_filter.mp kept
  refine ⟨?_, ?_⟩
  · intro empty
    rw [← String.toList_eq_nil_iff, String.toList_ofList] at empty
    rw [empty] at nonempty
    cases nonempty
  · rw [String.toList_ofList]
    exact not_mem_of_mem_splitOn among

theorem parts_slash (text : String) : parts ("/" ++ text) = parts text := by
  rw [parts, String.toList_append]
  rfl

theorem IsPart.ne_slash (isPart : IsPart part) : ∀ c ∈ part.toList, (c == '/') = false := by
  intro c member
  rw [beq_eq_false_iff_ne]
  rintro rfl
  exact isPart.slashless member

theorem parts_append (isPart : IsPart part) (text : String) :
    parts (part ++ "/" ++ text) = part :: parts text := by
  have nonempty : part.toList ≠ [] := mt String.toList_eq_nil_iff.mp isPart.ne_empty
  have cut : (part ++ "/" ++ text).toList = part.toList ++ '/' :: text.toList := by
    rw [String.toList_append, String.toList_append, List.append_assoc]
    rfl
  rw [parts, cut, List.splitOn, List.splitOnP_append_cons_of_forall_mem isPart.ne_slash '/' rfl,
    List.filter_cons_of_pos (by simpa using nonempty), List.map_cons, String.ofList_toList]
  rfl

theorem parts_of_isPart (isPart : IsPart part) : parts part = [part] := by
  have nonempty : part.toList ≠ [] := mt String.toList_eq_nil_iff.mp isPart.ne_empty
  rw [parts, List.splitOn, List.splitOnP_eq_singleton isPart.ne_slash,
    List.filter_cons_of_pos (by simpa using nonempty), List.filter_nil, List.map_singleton,
    String.ofList_toList]

theorem parts_intercalate (all : ∀ name ∈ names, IsPart name) :
    parts ("/".intercalate names) = names := by
  induction names with
  | nil => rfl
  | cons name rest ih =>
    rw [List.forall_mem_cons] at all
    cases rest with
    | nil => rw [String.intercalate_singleton, parts_of_isPart all.1]
    | cons next others => rw [String.intercalate_cons_cons, parts_append all.1, ih all.2]

/-! ## Cleaning -/

theorem step_proper {name : String} (proper : Proper name) (absolute : Bool) (passed : List String) :
    step absolute passed name = name :: passed := by
  unfold step
  rw [if_neg (not_or.mpr ⟨proper.ne_empty, proper.ne_here⟩), if_neg proper.ne_above]

theorem foldl_step_proper (proper : ∀ name ∈ names, Proper name) (absolute : Bool)
    (passed : List String) : names.foldl (step absolute) passed = names.reverse ++ passed := by
  induction names generalizing passed with
  | nil => rfl
  | cons name rest ih =>
    rw [List.forall_mem_cons] at proper
    rw [List.foldl_cons, step_proper proper.1, ih proper.2, List.reverse_cons, List.append_assoc]
    rfl

theorem foldl_step_above (up : Nat) :
    (List.replicate up "..").foldl (step false) [] = List.replicate up ".." := by
  induction up with
  | zero => rfl
  | succ up ih =>
    rw [List.replicate_succ', List.foldl_append, ih, ← List.replicate_succ']
    cases up <;> rfl

/-- One part does the same to a path that is cleaned by itself and to one that is cleaned behind the
names of a directory. The names are listed backwards. -/
theorem step_climb (isPart : IsPart part) (proper : ∀ name ∈ down, Proper name) (up : Nat) :
    ∃ down' up', (∀ name ∈ down', Proper name) ∧
      step false (down ++ List.replicate up "..") part = down' ++ List.replicate up' ".." ∧
      ∀ passed : List String, (∀ name ∈ passed, Proper name) →
        step true (down ++ passed.drop up) part = down' ++ passed.drop up' := by
  by_cases here : part = "."
  · subst here
    exact ⟨down, up, proper, rfl, fun _ _ => rfl⟩
  by_cases above : part = ".."
  · subst above
    cases down with
    | nil =>
      -- Nothing is left to take back: the path leads out of where it starts.
      refine ⟨[], up + 1, proper, ?_, fun passed all => ?_⟩
      · cases up <;> rfl
      · rw [List.nil_append, List.nil_append, ← List.drop_drop]
        cases left : passed.drop up with
        | nil => rfl
        | cons last before =>
          have inner : Proper last := all last (List.mem_of_mem_drop (left ▸ List.mem_cons_self))
          exact if_neg inner.ne_above
    | cons last before =>
      rw [List.forall_mem_cons] at proper
      exact ⟨before, up, proper.2, if_neg proper.1.ne_above, fun _ _ => if_neg proper.1.ne_above⟩
  · have itself : Proper part := ⟨isPart, here, above⟩
    refine ⟨part :: down, up, List.forall_mem_cons.mpr ⟨itself, proper⟩, ?_, fun _ _ => ?_⟩
    · exact step_proper itself _ _
    · exact step_proper itself _ _

theorem foldl_step_climb {texts : List String} (all : ∀ part ∈ texts, IsPart part)
    (proper : ∀ name ∈ down, Proper name) (up : Nat) :
    ∃ down' up', (∀ name ∈ down', Proper name) ∧
      texts.foldl (step false) (down ++ List.replicate up "..") = down' ++ List.replicate up' ".." ∧
      ∀ passed : List String, (∀ name ∈ passed, Proper name) →
        texts.foldl (step true) (down ++ passed.drop up) = down' ++ passed.drop up' := by
  induction texts generalizing down up with
  | nil => exact ⟨down, up, proper, rfl, fun _ _ => rfl⟩
  | cons part rest ih =>
    rw [List.forall_mem_cons] at all
    obtain ⟨down₁, up₁, proper₁, alone₁, behind₁⟩ := step_climb all.1 proper up
    obtain ⟨down₂, up₂, proper₂, alone₂, behind₂⟩ := ih all.2 proper₁ up₁
    refine ⟨down₂, up₂, proper₂, ?_, fun passed inner => ?_⟩
    · rw [List.foldl_cons, alone₁, alone₂]
    · rw [List.foldl_cons, behind₁ passed inner, behind₂ passed inner]

/-- A path from the root whose names all stand for themselves. -/
structure Rooted (p : Path) : Prop where
  absolute : p.absolute = true
  proper : ∀ name ∈ p.names, Proper name

def Clean (p : Path) : Prop :=
  clean p.absolute p.names = p.names

/-- What a text does to every directory: it leads up, and then down. Cleaned by itself, it says so. -/
theorem clean_relative (text : String) :
    ∃ up down, (∀ name ∈ down, Proper name) ∧
      clean false (parts text) = List.replicate up ".." ++ down ∧
      ∀ p : Path, p.Rooted → (p.join text).names = p.names.take (p.names.length - up) ++ down := by
  have all : ∀ part ∈ parts text, IsPart part := fun _ => isPart_of_mem
  obtain ⟨down, up, proper, alone, behind⟩ := foldl_step_climb all (List.forall_mem_nil _) 0
  refine ⟨up, down.reverse, fun name member => proper name (List.mem_reverse.mp member), ?_, ?_⟩
  · have walked : (parts text).foldl (step false) [] = down ++ List.replicate up ".." := alone
    rw [clean, walked, List.reverse_append, List.reverse_replicate]
  · intro p rooted
    have walked := behind p.names.reverse fun name member =>
      rooted.proper name (List.mem_reverse.mp member)
    rw [List.nil_append, List.drop_zero] at walked
    rw [join, clean, rooted.absolute, List.foldl_append, foldl_step_proper rooted.proper,
      List.append_nil, walked, List.reverse_append, List.reverse_drop, List.reverse_reverse,
      List.length_reverse]

theorem Rooted.clean {p : Path} (rooted : p.Rooted) : p.Clean := by
  rw [Clean, Path.clean, foldl_step_proper rooted.proper, List.append_nil, List.reverse_reverse]

theorem Rooted.join {p : Path} (rooted : p.Rooted) (text : String) : (p.join text).Rooted := by
  obtain ⟨up, down, proper, -, joined⟩ := clean_relative text
  refine ⟨rooted.absolute, ?_⟩
  rw [joined p rooted, List.forall_mem_append]
  exact ⟨fun name member => rooted.proper name (List.mem_of_mem_take member), proper⟩

theorem rooted_ofText {text : String} (absolute : isAbsolute text = true) : (ofText text).Rooted := by
  have root : (Path.mk true []).Rooted := ⟨rfl, by simp⟩
  have same : ofText text = (Path.mk true []).join text := by
    rw [ofText, absolute, Path.join, List.nil_append]
  rw [same]
  exact root.join text

theorem clean_ofText (text : String) : (ofText text).Clean := by
  cases absolute : isAbsolute text with
  | true => exact (rooted_ofText absolute).clean
  | false =>
    obtain ⟨up, down, proper, cleaned, -⟩ := clean_relative text
    rw [Clean, ofText, absolute, cleaned, Path.clean, List.foldl_append, foldl_step_above,
      foldl_step_proper proper, List.reverse_append, List.reverse_replicate, List.reverse_reverse]

/-! ## One more name -/

namespace Clean

variable {p : Path}

variable (clean : p.Clean)

include clean

theorem walked : p.names.foldl (step p.absolute) [] = p.names.reverse := by
  rw [← List.reverse_inj, List.reverse_reverse]
  exact clean

theorem join_of_isPart {part : String} (isPart : IsPart part) :
    p.join part = ⟨p.absolute, (step p.absolute p.names.reverse part).reverse⟩ := by
  rw [join, Path.clean, parts_of_isPart isPart, List.foldl_append, clean.walked]
  rfl

theorem join_proper {name : String} (proper : Proper name) :
    p.join name = ⟨p.absolute, p.names ++ [name]⟩ := by
  rw [clean.join_of_isPart proper.toIsPart, step_proper proper, List.reverse_cons,
    List.reverse_reverse]

theorem below {name : String} (proper : Proper name) : (p.join name).Clean := by
  rw [clean.join_proper proper, Clean, Path.clean, List.foldl_append, clean.walked]
  exact congrArg List.reverse (step_proper proper _ _) |>.trans (by simp)

theorem join_here : p.join "." = p := by
  rw [clean.join_of_isPart ⟨by simp, by simp⟩]
  exact congrArg (Path.mk p.absolute) p.names.reverse_reverse

theorem join_above {name : String} (proper : Proper name) : (p.join name).join ".." = p := by
  rw [(clean.below proper).join_of_isPart ⟨by simp, by simp⟩, clean.join_proper proper,
    List.reverse_append]
  have taken : step p.absolute ([name].reverse ++ p.names.reverse) ".." = p.names.reverse :=
    if_neg proper.ne_above
  rw [taken, List.reverse_reverse]

end Clean

/-! ## The text of a path -/

namespace Rooted

variable {p : Path}

variable (rooted : p.Rooted)

include rooted

theorem shown_eq : p.shown = "/" ++ "/".intercalate p.names :=
  if_pos rooted.absolute

theorem parts_shown : parts p.shown = p.names := by
  rw [rooted.shown_eq, parts_slash]
  exact parts_intercalate fun name member => (rooted.proper name member).toIsPart

theorem isAbsolute_shown : isAbsolute p.shown = true := by
  rw [rooted.shown_eq, isAbsolute, String.toList_append]
  rfl

theorem ofText_shown : ofText p.shown = p := by
  rw [ofText, rooted.isAbsolute_shown, rooted.parts_shown, ← rooted.absolute, rooted.clean]

end Rooted

/-! ## Places in relation to each other -/

def Inside (p q : Path) : Prop :=
  p.absolute = q.absolute ∧ q.names <+: p.names ∧ p.names ≠ q.names

/-- Whether `p` is found by going down `n` names from `q`. -/
def LevelsBelow (n : Nat) (p q : Path) : Prop :=
  p.absolute = q.absolute ∧ ∃ names, names.length = n ∧ p.names = q.names ++ names

/-- A path that leads up from a directory comes back into it if it goes down the names that it went
up, and then further. -/
theorem climb_back_iff {n : Nat} :
    (names <+: names.take n ++ down ∧ names.take n ++ down ≠ names) ↔
      (names.drop n <+: down ∧ down ≠ names.drop n) := by
  have comes := @List.prefix_append_right_inj _ (names.drop n) down (names.take n)
  have stays := @List.append_right_inj _ down (names.drop n) (names.take n)
  rw [List.take_append_drop] at comes stays
  rw [comes, ne_eq, stays]

end Pseudocode.Path
