import Pseudocode.FileTree
import Pseudocode.Proofs.Paths

/-! # Places in a tree of files

A path from the root whose names stand for themselves leads to the tree below these names, or it
leads nowhere. What is put somewhere is found there, and what is taken away leaves its neighbours
alone. -/

namespace Pseudocode.FileTree

/-! ## Entries -/

variable {name other : String} {entries : List (String × FileTree)}

theorem lookup_put (t : FileTree) (entries : List (String × FileTree)) :
    (put name t entries).lookup name = some t := by
  induction entries with
  | nil => simp [put]
  | cons entry rest ih =>
    obtain ⟨first, u⟩ := entry
    rw [put]
    split
    case isTrue => exact List.lookup_cons_self
    case isFalse =>
      split
      case isTrue => exact List.lookup_cons_self
      case isFalse apart => rw [List.lookup_cons, beq_false_of_ne apart, ih]

theorem lookup_put_of_ne (apart : other ≠ name) (t : FileTree) (entries : List (String × FileTree)) :
    (put name t entries).lookup other = entries.lookup other := by
  have skips (rest : List (String × FileTree)) : ((name, t) :: rest).lookup other =
      rest.lookup other := by
    rw [List.lookup_cons, beq_false_of_ne apart]
  induction entries with
  | nil => exact skips []
  | cons entry rest ih =>
    obtain ⟨first, u⟩ := entry
    rw [put]
    split
    case isTrue => exact skips _
    case isFalse =>
      split
      case isTrue same => rw [skips, List.lookup_cons, beq_false_of_ne (same ▸ apart)]
      case isFalse => rw [List.lookup_cons, List.lookup_cons, ih]

theorem lookup_filter (apart : other ≠ name) :
    (entries.filter (·.1 ≠ name)).lookup other = entries.lookup other := by
  induction entries with
  | nil => rfl
  | cons entry rest ih =>
    obtain ⟨first, u⟩ := entry
    by_cases same : first = name
    · rw [List.filter_cons_of_neg (by simpa using same), ih, List.lookup_cons,
        beq_false_of_ne (same ▸ apart)]
    · rw [List.filter_cons_of_pos (by simpa using same), List.lookup_cons, List.lookup_cons, ih]

/-! ## Names in a tree -/

inductive Has : FileTree → List String → FileTree → Prop where
  | here (t : FileTree) : Has t [] t
  | under {entries name t names u} : (name, t) ∈ entries → Has t names u →
      Has (directory entries) (name :: names) u

variable {t u new : FileTree} {names rest : List String}

theorem Has.entry (holds : t.Has names (.directory entries)) (member : (name, u) ∈ entries) :
    t.Has (names ++ [name]) u := by
  generalize found : directory entries = v at holds
  induction holds with
  | here t =>
    subst found
    exact .under member (.here u)
  | under first _ ih => exact .under first (ih found)

theorem has_of_at? (found : t.at? names = some u) : t.Has names u := by
  induction names generalizing t with
  | nil =>
    cases found
    exact .here _
  | cons name rest ih =>
    cases t with
    | file bytes => cases found
    | directory entries =>
      rw [at?] at found
      split at found
      case h_1 => cases found
      case h_2 child entry =>
        obtain ⟨before, after, split, -⟩ := List.lookup_eq_some_iff.mp entry
        exact .under (by simp [split]) (ih found)

theorem at?_append (t : FileTree) (names rest : List String) :
    t.at? (names ++ rest) = (t.at? names).bind (·.at? rest) := by
  induction names generalizing t with
  | nil => rfl
  | cons name names ih =>
    cases t with
    | file bytes => rfl
    | directory entries =>
      rw [List.cons_append, at?, at?]
      cases entries.lookup name with
      | none => rfl
      | some child => exact ih child

theorem at?_entry (found : t.at? names = some (.directory entries)) (name : String) :
    t.at? (names ++ [name]) = entries.lookup name := by
  rw [at?_append, found, Option.bind_some, at?]
  cases entries.lookup name <;> rfl

theorem at?_parent (found : t.at? (names ++ [name]) = some u) :
    ∃ entries, t.at? names = some (.directory entries) := by
  rw [at?_append, Option.bind_eq_some_iff] at found
  obtain ⟨v, parent, entry⟩ := found
  cases v with
  | file bytes => cases entry
  | directory entries => exact ⟨entries, parent⟩

/-- What is put into a directory is found there. -/
theorem at?_set (parent : t.at? names = some (.directory entries)) (new : FileTree)
    (name : String) : (t.set new (names ++ [name])).at? (names ++ [name]) = some new := by
  induction names generalizing t with
  | nil =>
    cases parent
    rw [List.nil_append, set, at?, set, lookup_put]
    rfl
  | cons first names ih =>
    cases t with
    | file bytes => cases parent
    | directory others =>
      rw [at?] at parent
      split at parent
      case h_1 => cases parent
      case h_2 child entry =>
        rw [List.cons_append, set, at?, entry, lookup_put]
        exact ih parent

def NoNewFiles (before after : FileTree) : Prop :=
  ∀ names bytes, after.at? names = some (.file bytes) → before.at? names = some (.file bytes)

theorem NoNewFiles.refl (t : FileTree) : NoNewFiles t t :=
  fun _ _ found => found

theorem NoNewFiles.trans {before between after : FileTree} (first : NoNewFiles before between)
    (second : NoNewFiles between after) : NoNewFiles before after :=
  fun names bytes found => first names bytes (second names bytes found)

theorem noNewFiles_of_empty (t : FileTree) : NoNewFiles t (directory []) := by
  intro names bytes found
  cases names <;> cases found

/-- An empty directory brings no files. -/
theorem noNewFiles_set (t : FileTree) (names : List String) :
    NoNewFiles t (t.set (directory []) names) := by
  induction names generalizing t with
  | nil => exact noNewFiles_of_empty t
  | cons name rest ih =>
    cases t with
    | file bytes => exact .refl _
    | directory entries =>
      intro path bytes found
      cases path with
      | nil => cases found
      | cons first path =>
        rw [set, at?] at found
        rw [at?]
        by_cases same : first = name
        · rw [same, lookup_put] at found
          have inner := ih _ path bytes found
          rw [same]
          cases entry : entries.lookup name with
          | some child => rwa [entry] at inner
          | none =>
            rw [entry] at inner
            cases path <;> cases inner
        · rwa [lookup_put_of_ne same] at found

/-- What is taken out of a directory leaves the other entries. -/
theorem at?_erase (parent : t.at? names = some (.directory entries)) (name : String) :
    ∃ left, (t.erase (names ++ [name])).at? names = some (.directory left) ∧
      ∀ other, other ≠ name → left.lookup other = entries.lookup other := by
  induction names generalizing t with
  | nil =>
    cases parent
    rw [List.nil_append, erase]
    cases entries.lookup name with
    | none => exact ⟨entries, rfl, fun _ _ => rfl⟩
    | some child => exact ⟨_, rfl, fun _ apart => lookup_filter apart⟩
  | cons first names ih =>
    cases t with
    | file bytes => cases parent
    | directory others =>
      rw [at?] at parent
      split at parent
      case h_1 => cases parent
      case h_2 child entry =>
        obtain ⟨left, found, same⟩ := ih parent
        refine ⟨left, ?_, same⟩
        rw [List.cons_append, erase, entry]
        change FileTree.at? (ite _ _ _) _ = _
        rw [if_neg (by simp), at?, lookup_put]
        exact found

/-! ## Following a path -/

variable {root : FileTree} {directory : Path} {p q : Path}

/-- The parts of a path from the root are its names, perhaps with the demand for a directory. -/
theorem partsOf_shown (rooted : p.Rooted) :
    partsOf p.shown = p.names ∨ partsOf p.shown = p.names ++ ["."] := by
  rw [partsOf, rooted.parts_shown]
  split
  · exact .inr rfl
  · exact .inl (List.append_nil _)

variable {listing : List (String × FileKind)} {found : List String}

theorem follow_proper (proper : ∀ name ∈ names, Path.Proper name) {passed : List String}
    {here : FileTree} (followed : root.follow passed here (names ++ rest) = .ok (found, u)) :
    ∃ there, here.at? names = some there ∧
      root.follow (names.reverse ++ passed) there rest = .ok (found, u) := by
  induction names generalizing passed here with
  | nil => exact ⟨here, rfl, followed⟩
  | cons name names ih =>
    rw [List.forall_mem_cons] at proper
    cases here with
    | file bytes => cases followed
    | directory entries =>
      rw [List.cons_append, follow, if_neg proper.1.ne_here, if_neg proper.1.ne_above] at followed
      split at followed
      case isTrue => cases followed
      case isFalse =>
        split at followed
        case h_1 => cases followed
        case h_2 next entry =>
          obtain ⟨there, below, rest⟩ := ih proper.2 followed
          refine ⟨there, ?_, ?_⟩
          · rw [at?, entry]
            exact below
          · rw [List.reverse_cons, List.append_assoc]
            exact rest

theorem follow_demand {passed : List String} {here : FileTree}
    (followed : root.follow passed here ["."] = .ok (found, u)) :
    found = passed.reverse ∧ u = here := by
  cases here with
  | file bytes => cases followed
  | directory entries =>
    cases followed
    exact ⟨rfl, rfl⟩

/-- A path from the root is followed name by name. -/
theorem locate_shown (rooted : p.Rooted)
    (located : root.locate directory p.shown = .ok (found, u)) :
    found = p.names ∧ root.at? p.names = some u := by
  rw [locate] at located
  split at located
  case h_1 => cases located
  case h_2 =>
    rw [rooted.isAbsolute_shown] at located
    have followed : root.follow [] root (partsOf p.shown) = .ok (found, u) := located
    obtain plain | demanding := partsOf_shown rooted
    · rw [plain, ← List.append_nil p.names] at followed
      obtain ⟨there, below, rest⟩ := follow_proper rooted.proper followed
      cases rest
      exact ⟨by simp, below⟩
    · rw [demanding] at followed
      obtain ⟨there, below, rest⟩ := follow_proper rooted.proper followed
      obtain ⟨rfl, rfl⟩ := follow_demand rest
      exact ⟨by simp, below⟩

/-- What answers in two steps has answered in the first. -/
theorem of_bind_ok {α β : Type} {first : Except FileError α} {next : α → Except FileError β} {b : β}
    (answered : first >>= next = .ok b) : ∃ a, first = .ok a ∧ next a = .ok b := by
  cases first with
  | error e => cases answered
  | ok a => exact ⟨a, rfl, answered⟩

theorem kindOf_shown (rooted : p.Rooted) {kind : FileKind}
    (known : root.kindOf directory p.shown = .ok kind) :
    ∃ t, root.at? p.names = some t ∧ t.kind = kind := by
  obtain ⟨place, located, known⟩ := of_bind_ok known
  cases known
  exact ⟨place.2, (locate_shown rooted located).2, rfl⟩

theorem entriesOf_shown (rooted : p.Rooted)
    (listed : root.entriesOf directory p.shown = .ok listing) :
    ∃ entries, root.at? p.names = some (.directory entries) ∧
      listing = entries.map fun entry => (entry.1, entry.2.kind) := by
  rw [entriesOf] at listed
  split at listed
  case h_1 => cases listed
  case h_2 => cases listed
  case h_3 found entries located =>
    cases listed
    exact ⟨entries, (locate_shown rooted located).2, rfl⟩

theorem has_of_listed (rooted : p.Rooted) {kind : FileKind}
    (listed : root.entriesOf directory p.shown = .ok listing) (member : (name, kind) ∈ listing) :
    ∃ t, root.Has (p.names ++ [name]) t ∧ t.kind = kind := by
  obtain ⟨entries, found, rfl⟩ := entriesOf_shown rooted listed
  obtain ⟨⟨_, t⟩, entry, same⟩ := List.mem_map.mp member
  cases same
  exact ⟨t, (has_of_at? found).entry entry, rfl⟩

theorem placeFor_shown (rooted : p.Rooted) {place : List String}
    (free : root.placeFor directory p.shown = .ok place) :
    ∃ names name entries, p.names = names ++ [name] ∧ place = p.names ∧
      root.at? names = some (.directory entries) := by
  rw [placeFor] at free
  split at free
  case h_1 => cases free
  case h_2 =>
    split at free
    case h_1 => cases free
    case h_2 last isLast =>
      split at free
      case h_1 => cases free
      case h_2 => cases free
      case h_3 found entries followed =>
        split at free
        case isTrue => cases free
        case isFalse ordinary =>
          split at free
          case isTrue => cases free
          case isFalse =>
            cases free
            rw [rooted.isAbsolute_shown] at followed
            have followed : root.follow [] root (partsOf p.shown).dropLast =
              .ok (found, .directory entries) := followed
            obtain plain | demanding := partsOf_shown rooted
            · rw [plain] at isLast followed
              obtain ⟨names, split⟩ := List.getLast?_eq_some_iff.mp isLast
              have proper : ∀ name ∈ names, Path.Proper name := fun name member =>
                rooted.proper name (split ▸ List.mem_append_left _ member)
              rw [split, List.dropLast_concat, ← List.append_nil names] at followed
              obtain ⟨there, below, rest⟩ := follow_proper proper followed
              cases rest
              refine ⟨names, last, entries, split, ?_, below⟩
              rw [List.append_nil, List.reverse_reverse, split]
            · rw [demanding, List.getLast?_concat] at isLast
              cases isLast
              exact absurd (.inl rfl) ordinary

theorem makeDirectory_noNewFiles {text : String} {tree : FileTree}
    (made : root.makeDirectory directory text = .ok tree) : NoNewFiles root tree := by
  obtain ⟨names, -, made⟩ := of_bind_ok made
  split at made
  case h_1 => cases made
  case h_2 =>
    cases made
    exact noNewFiles_set root names

/-! ## Neighbours

What is done to one entry of a directory, with regard to another one. -/

section Neighbours

variable {place : Path} {other : String} {tree : FileTree}

theorem remove_shown (rooted : place.Rooted) (proper : Path.Proper name) (apart : other ≠ name)
    (removed : root.remove directory (place.join name).shown = .ok tree)
    (found : root.at? (place.names ++ [other]) = some u) :
    tree.at? (place.names ++ [other]) = some u := by
  obtain ⟨old, located, removed⟩ := of_bind_ok removed
  cases removed
  have names := (locate_shown (rooted.join name) located).1
  rw [rooted.clean.join_proper proper] at names
  obtain ⟨entries, parent⟩ := at?_parent found
  obtain ⟨left, remains, same⟩ := at?_erase parent name
  rw [names, at?_entry remains, same other apart, ← at?_entry parent, found]

theorem refill_shown (rooted : place.Rooted) (proper : Path.Proper name)
    (refilled : root.refill directory (place.join name).shown entries = .ok tree) :
    tree.at? (place.names ++ [name]) = some (.directory entries) := by
  obtain ⟨old, located, refilled⟩ := of_bind_ok refilled
  cases refilled
  obtain ⟨names, found⟩ := locate_shown (rooted.join name) located
  rw [rooted.clean.join_proper proper] at names found
  obtain ⟨others, parent⟩ := at?_parent found
  rw [names]
  exact at?_set parent _ _

theorem rename_shown (rooted : place.Rooted) (proper : Path.Proper name) (also : Path.Proper other)
    (renamed : root.rename directory (place.join name).shown (place.join other).shown = .ok tree)
    (found : root.at? (place.names ++ [name]) = some u) :
    tree.at? (place.names ++ [other]) = some u := by
  obtain ⟨old, located, renamed⟩ := of_bind_ok renamed
  obtain ⟨new, free, renamed⟩ := of_bind_ok renamed
  obtain ⟨names, moved⟩ := locate_shown (rooted.join name) located
  obtain ⟨parents, last, entries, split, rfl, parent⟩ := placeFor_shown (rooted.join other) free
  rw [rooted.clean.join_proper proper] at names moved
  rw [rooted.clean.join_proper also] at split renamed
  obtain ⟨rfl, -⟩ := List.append_inj' split rfl
  cases absent : root.at? (place.names ++ [other]) with
  | some _ =>
    rw [absent] at renamed
    cases renamed
  | none =>
    rw [absent] at renamed
    cases renamed
    obtain ⟨left, remains, -⟩ := at?_erase parent name
    rw [names, Option.some.inj (moved.symm.trans found)]
    exact at?_set remains _ _

end Neighbours

end Pseudocode.FileTree
