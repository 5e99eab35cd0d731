import Pseudocode.Proofs.FileTrees
import Pseudocode.Proofs.Segments
import Pseudocode.Workspace

/-! # What a fetch leaves

A fetch ends with a checkout in one of three ways: the commit is found in the cache, its directory is
there already when the repository has been cloned, or the clone becomes that directory. In each of
them the version is what was asked for, pinned to a commit, and its place in the tree is taken. -/

namespace Pseudocode

/-! ## Actions -/

namespace Workspace

variable {α β : Type} {w : Workspace}

/-- What holds of the result of an action and of the workspace that it leaves. -/
def After (x : Action α) (w : Workspace) (P : α → Workspace → Prop) : Prop :=
  P (x.run w).1 (x.run w).2

variable {P : β → Workspace → Prop} {x : Action α}

theorem after_bind {f : α → Action β} :
    After (x >>= f) w P ↔ After x w fun a w' => After (f a) w' P :=
  Iff.rfl

theorem After.mono {P Q : α → Workspace → Prop} (after : After x w P)
    (implies : ∀ a w', P a w' → Q a w') : After x w Q :=
  implies _ _ after

theorem After.of_forall {P : α → Workspace → Prop} (all : ∀ a w', P a w') : After x w P :=
  all _ _

theorem After.of_run {P : α → Workspace → Prop} {a : α} {w' : Workspace} (ran : x.run w = (a, w')) :
    After x w P ↔ P a w' := by
  rw [After, ran]

theorem after_kindOf {text : String} {f : Except FileError FileKind → Action β} :
    After (Host.kindOf text >>= f) w P ↔ After (f (w.tree.kindOf w.directory text)) w P :=
  Iff.rfl

theorem after_entries {text : String} {f : Except FileError (List (String × FileKind)) → Action β} :
    After (Host.entries text >>= f) w P ↔ After (f (w.tree.entriesOf w.directory text)) w P :=
  Iff.rfl

/-- An action that may change the tree does so, or it fails and leaves the workspace alone. -/
theorem change_after (edit : FileTree → Path → Except FileError FileTree) :
    After (change edit) w fun result w' =>
      (∃ e, result = .error e ∧ w' = w) ∨
        ∃ tree, edit w.tree w.directory = .ok tree ∧ result = .ok () ∧ w' = { w with tree } := by
  unfold After change
  cases edited : edit w.tree w.directory with
  | error e => exact .inl ⟨e, by simp [StateT.run, edited], by simp [StateT.run, edited]⟩
  | ok tree => exact .inr ⟨tree, rfl, by simp [StateT.run, edited], by simp [StateT.run, edited]⟩

theorem log_after (level : LogLevel) (line : LogLine) :
    After (Host.log level line) w fun _ w' => w'.tree = w.tree := by
  unfold Host.log
  split <;> rfl

theorem makeDirectory_after (text : String) :
    After (Host.makeDirectory text) w fun _ w' => w.tree.NoNewFiles w'.tree := by
  change After (change fun tree directory => tree.makeDirectory directory text) w _
  refine (change_after _).mono fun _ w' ended => ?_
  obtain ⟨_, -, rfl⟩ | ⟨tree, made, -, rfl⟩ := ended
  · exact .refl _
  · exact FileTree.makeDirectory_noNewFiles made

theorem makeEach_after (paths : List Path) (w : Workspace) :
    After (Host.makeEach paths) w fun _ w' => w.tree.NoNewFiles w'.tree := by
  induction paths generalizing w with
  | nil => exact .refl _
  | cons path deeper ih =>
    rw [Host.makeEach]
    refine after_kindOf.mpr ?_
    cases w.tree.kindOf w.directory path.shown with
    | ok kind =>
      cases kind with
      | directory => exact ih w
      | file => exact .refl _
    | error e =>
      refine after_bind.mpr ((makeDirectory_after path.shown).mono fun made w₁ stand => ?_)
      cases made with
      | ok _ => exact (ih w₁).mono fun _ _ later => stand.trans later
      | error e => exact stand

theorem clone_after (url path : String) :
    After (Host.clone url path) w fun _ w' => w.tree.NoNewFiles w'.tree := by
  change After (clone url path) w _
  unfold clone
  refine after_bind.mpr ((show After get w fun a w' => a = w ∧ w' = w from ⟨rfl, rfl⟩).mono ?_)
  rintro _ w ⟨rfl, rfl⟩
  cases w.repositories url with
  | error reason => exact .refl _
  | ok repository =>
    refine after_bind.mpr ((makeDirectory_after path).mono fun made w₁ stand => ?_)
    cases made <;> exact stand

variable {place : Path} {name other : String}

theorem remove_after (rooted : place.Rooted) (proper : Path.Proper name) (apart : other ≠ name)
    {t : FileTree} (found : w.tree.at? (place.names ++ [other]) = some t) :
    After (Host.remove (place.join name).shown) w fun _ w' =>
      w'.tree.at? (place.names ++ [other]) = some t := by
  change After (change fun tree directory => tree.remove directory (place.join name).shown) w
    fun _ w' => w'.tree.at? (place.names ++ [other]) = some t
  refine (change_after _).mono fun _ w' ended => ?_
  obtain ⟨_, -, rfl⟩ | ⟨tree, removed, -, rfl⟩ := ended
  · exact found
  · exact FileTree.remove_shown rooted proper apart removed found

theorem checkOut_after (rooted : place.Rooted) (proper : Path.Proper name) (clone : Repository)
    (commit : Commit) :
    After (Host.checkOut (place.join name).shown clone commit) w fun result w' =>
      result = .ok () → ∃ entries,
        w'.tree.at? (place.names ++ [name]) = some (.directory entries) := by
  change After (checkOut (place.join name).shown clone commit) w _
  unfold checkOut
  cases clone.entries commit with
  | error reason => exact fun wrong => (by cases wrong)
  | ok entries =>
    refine after_bind.mpr ((change_after _).mono fun _ w' ended => ?_)
    obtain ⟨_, rfl, -⟩ | ⟨tree, refilled, rfl, rfl⟩ := ended
    · exact fun wrong => (by cases wrong)
    · exact fun _ => ⟨entries, FileTree.refill_shown rooted proper refilled⟩

theorem rename_after (rooted : place.Rooted) (proper : Path.Proper name) (also : Path.Proper other)
    {t : FileTree} (found : w.tree.at? (place.names ++ [name]) = some t) :
    After (Host.rename (place.join name).shown (place.join other).shown) w fun result w' =>
      result = .ok () → w'.tree.at? (place.names ++ [other]) = some t := by
  change After (change fun tree directory =>
    tree.rename directory (place.join name).shown (place.join other).shown) w _
  refine (change_after _).mono fun _ w' ended => ?_
  obtain ⟨_, rfl, -⟩ | ⟨tree, renamed, -, rfl⟩ := ended
  · exact fun wrong => (by cases wrong)
  · exact fun _ => FileTree.rename_shown rooted proper also renamed found

theorem unused_after (path front : String) :
    After (Host.unused path front) w fun result w' => w' = w ∧ ∀ draft, result = .ok draft →
      draft = ((Path.ofText path).join (front ++ toString w.ticket)).shown := by
  change After (unused path front) w _
  unfold After unused StateT.run
  dsimp only
  generalize ((Path.ofText path).join (front ++ toString w.ticket)).shown = name
  split
  case h_1 => exact ⟨rfl, fun _ wrong => (by cases wrong)⟩
  case h_2 => exact ⟨rfl, fun _ same => (by cases same; rfl)⟩

end Workspace

namespace Checkout

open Workspace (Action After after_bind after_kindOf after_entries)

/-! ## The clone -/

theorem mem_draft {n : Nat} {c : Char} (member : c ∈ (draftName ++ toString n).toList) :
    c ∈ "git-fetch-".toList ∨ c.isDigit = true := by
  rw [String.toList_append, List.mem_append, Nat.toString_eq_repr, Nat.toList_repr] at member
  exact member.imp_right (Nat.isDigit_of_mem_toDigits (by decide) (by decide))

theorem proper_draft (n : Nat) : Path.Proper (draftName ++ toString n) := by
  have starts : (draftName ++ toString n).toList.head? = some 'g' := by
    rw [String.toList_append]
    rfl
  refine ⟨⟨?_, fun slash => ?_⟩, ?_, ?_⟩
  · intro same
    rw [same] at starts
    cases starts
  · rcases mem_draft slash with among | digit
    · exact absurd among (by decide)
    · exact absurd digit (by decide)
  · intro same
    rw [same] at starts
    cases starts
  · intro same
    rw [same] at starts
    cases starts

/-- The directory of a version is not the clone: its name has `_`, or it is a hash. -/
theorem segment_pinned_ne_draft {commit : String} (hash : Commit.isHash commit = true)
    (descriptor : String) (n : Nat) :
    segment (pinned descriptor commit) ≠ draftName ++ toString n := by
  rw [segment_pinned hash]
  split
  case isTrue =>
    intro same
    have letter : 'g' ∈ commit.toList := by
      rw [same, String.toList_append]
      exact List.mem_append_left _ (by simp [draftName])
    cases Commit.hex_of_isHash hash 'g' letter
  case isFalse =>
    intro same
    have sign : '_' ∈ (draftName ++ toString n).toList := by
      rw [← same]
      simp
    rcases mem_draft sign with among | digit
    · exact absurd among (by decide)
    · exact absurd digit (by decide)

variable {w : Workspace} {place : Path} {draft url revision descriptor : String} {level : LogLevel}

/-- There is a directory below the names, or else a file that stood there before. -/
def Stands (before after : FileTree) (names : List String) : Prop :=
  ∃ t, after.Has names t ∧ (t.kind = .directory ∨ before.at? names = some t)

/-- What is known of a version that is kept at a place. -/
structure Keeps (place : Path) (descriptor version commit : String) (before after : FileTree) :
    Prop where
  hash : Commit.isHash commit = true
  version_eq : version = pinned descriptor commit
  present : place.Rooted → Stands before after (place.names ++ [segment version])

theorem keep_after {clone : Repository} {before : FileTree} (older : before.NoNewFiles w.tree)
    (inPlace : place.Rooted → ∃ n : Nat, draft = (place.join (draftName ++ toString n)).shown) :
    After (keep place draft clone revision descriptor) w fun result w' =>
      ∀ version commit, result = .ok (version, commit) →
        Keeps place descriptor version commit.hash before w'.tree := by
  unfold keep
  cases clone.resolve revision with
  | error reason => exact fun _ _ wrong => (by cases wrong)
  | ok commit =>
    have proper := proper_segment_pinned commit.valid descriptor
    have apart := segment_pinned_ne_draft commit.valid descriptor
    generalize pins : pinned descriptor commit.hash = version at proper apart
    simp only [pins]
    refine after_kindOf.mpr ?_
    cases known : w.tree.kindOf w.directory (place.join (segment version)).shown with
    | ok kind =>
      -- There is something in the place of the version, and only the clone is removed.
      intro _ _ same
      cases same
      refine ⟨commit.valid, pins.symm, fun rooted => ?_⟩
      obtain ⟨n, rfl⟩ := inPlace rooted
      obtain ⟨t, found, -⟩ := FileTree.kindOf_shown (rooted.join _) known
      rw [rooted.clean.join_proper proper] at found
      have left := Workspace.remove_after rooted (proper_draft n) (apart n) found
      refine ⟨t, FileTree.has_of_at? left, ?_⟩
      cases t with
      | directory entries => exact .inl rfl
      | file bytes => exact .inr (older _ _ found)
    | error e =>
      have checked : After (Host.checkOut draft clone commit) w fun result w' =>
          result = .ok () → place.Rooted → ∃ n : Nat, ∃ entries,
            draft = (place.join (draftName ++ toString n)).shown ∧
            w'.tree.at? (place.names ++ [draftName ++ toString n]) =
              some (.directory entries) := by
        intro done rooted
        obtain ⟨n, rfl⟩ := inPlace rooted
        obtain ⟨entries, found⟩ :=
          Workspace.checkOut_after rooted (proper_draft n) clone commit done
        exact ⟨n, entries, rfl, found⟩
      refine after_bind.mpr (checked.mono fun result w₁ checked => ?_)
      cases result with
      | error reason => exact fun _ _ wrong => (by cases wrong)
      | ok done =>
        have renamed : After (Host.rename draft (place.join (segment version)).shown) w₁
            fun result w' => result = .ok () → place.Rooted → ∃ entries,
              w'.tree.at? (place.names ++ [segment version]) = some (.directory entries) := by
          intro done rooted
          obtain ⟨n, entries, rfl, found⟩ := checked rfl rooted
          exact ⟨_, Workspace.rename_after rooted (proper_draft n) proper found done⟩
        refine after_bind.mpr (renamed.mono fun result w₂ renamed => ?_)
        cases result with
        | error e => exact fun _ _ wrong => (by cases wrong)
        | ok done =>
          intro _ _ same
          cases same
          refine ⟨commit.valid, pins.symm, fun rooted => ?_⟩
          obtain ⟨entries, found⟩ := renamed rfl rooted
          exact ⟨_, FileTree.has_of_at? found, .inl rfl⟩

theorem store_after {before : FileTree} (older : before.NoNewFiles w.tree) :
    After (store level place url revision descriptor) w fun result w' =>
      ∀ version commit, result = .ok (version, commit) →
        Keeps place descriptor version commit.hash before w'.tree := by
  have named : After (Host.unused place.shown draftName) w fun result w' => w' = w ∧ ∀ draft,
      result = .ok draft → place.Rooted →
        ∃ n : Nat, draft = (place.join (draftName ++ toString n)).shown := by
    refine (Workspace.unused_after _ _).mono fun result w' named => ⟨named.1, ?_⟩
    intro draft done rooted
    have path := named.2 draft done
    rw [rooted.ofText_shown] at path
    exact ⟨w.ticket, path⟩
  refine after_bind.mpr (named.mono fun result w₁ named => ?_)
  cases result with
  | error fault => exact fun _ _ wrong => (by cases wrong)
  | ok draft =>
    refine after_bind.mpr ((Workspace.log_after _ _).mono fun _ w₂ logged => ?_)
    refine after_bind.mpr ((Workspace.clone_after _ _).mono fun cloned w₃ stand => ?_)
    cases cloned with
    | error reason => exact fun _ _ wrong => (by cases wrong)
    | ok clone =>
      rw [logged, named.1] at stand
      exact keep_after (older.trans stand) (named.2 draft rfl)

/-! ## The fetch -/

theorem revision?_of_rev {git : GitSource} (inked : Text.trim git.rev ≠ "") :
    revision? git = some (Text.trim git.rev, Text.trim git.rev) :=
  if_pos inked

/-- What is asked for has a name, and it is trimmed. -/
theorem revision?_spec {git : GitSource} (asked : revision? git = some (revision, descriptor)) :
    Text.trim descriptor = descriptor ∧ descriptor ≠ "" := by
  have trimmed : ∀ text, Text.trim (Text.trim text) = Text.trim text := by
    intro text
    rw [← String.toList_inj, Text.toList_trim, Text.toList_trim,
      (Text.trimmed_trimChars _).trimChars_eq]
  simp only [revision?] at asked
  split_ifs at asked with rev tag branch <;> cases asked
  · exact ⟨trimmed _, rev⟩
  · exact ⟨trimmed _, tag⟩
  · exact ⟨trimmed _, branch⟩

theorem repository_trim (cache url : String) :
    repository cache (Text.trim url) = repository cache url := by
  rw [repository, repository, segment_trim]

/-- What is known of a checkout that was fetched. -/
structure Fetched (cache : String) (git : GitSource) (c : Checkout) (before after : FileTree) :
    Prop where
  inked : Text.trim git.url ≠ ""
  hash : Commit.isHash c.commit = true
  asked : ∃ revision descriptor, revision? git = some (revision, descriptor) ∧
    c.version = pinned descriptor c.commit
  made : c = ofVersion (repository cache git.url) git c.version c.commit
  present : (repository cache git.url).Rooted →
    Stands before after ((repository cache git.url).names ++ [segment c.version]) ∨
    c.commit = Text.trim git.rev ∧
      Stands before after ((repository cache git.url).names ++ [c.commit ++ "_" ++ c.commit])

theorem fetch_after (cache : String) (level : LogLevel) (git : GitSource) (w : Workspace) :
    After (fetch cache level (some git)) w fun result w' =>
      ∀ c, result = .ok c → Fetched cache git c w.tree w'.tree := by
  unfold fetch
  split
  case isTrue => exact fun _ wrong => (by cases wrong)
  case isFalse =>
    simp only [Option.getD_some, repository_trim]
    split
    case isTrue => exact fun _ wrong => (by cases wrong)
    case isFalse inked =>
      refine after_bind.mpr ((Workspace.makeEach_after _ w).mono fun made w₁ older => ?_)
      cases made with
      | error fault => exact fun _ wrong => (by cases wrong)
      | ok _ =>
        cases asked : revision? git with
        | none => exact fun _ wrong => (by cases wrong)
        | some pair =>
          obtain ⟨revision, descriptor⟩ := pair
          refine after_entries.mpr ?_
          generalize listed : w₁.tree.entriesOf w₁.directory (repository cache git.url).shown =
            entries
          cases found : (if Text.trim git.rev = "" then none
              else cached? (Text.trim git.rev) (entries.toOption.getD [])) with
          | none =>
            refine after_bind.mpr ((store_after older).mono fun result w₂ kept => ?_)
            cases result with
            | error fault => exact fun _ wrong => (by cases wrong)
            | ok stored =>
              intro c same
              cases same
              have keeps := kept stored.1 stored.2 rfl
              exact ⟨inked, keeps.hash, ⟨revision, descriptor, asked, keeps.version_eq⟩, rfl,
                fun rooted => .inl (keeps.present rooted)⟩
          | some hit =>
            refine after_bind.mpr ((Workspace.log_after _ _).mono fun _ w₂ same => ?_)
            rw [Option.ite_none_left_eq_some] at found
            obtain ⟨revised, found⟩ := found
            intro c done
            cases done
            obtain ⟨hash, -, version_eq, there⟩ := cached?_spec revised found
            refine ⟨inked, hash, ⟨_, _, revision?_of_rev revised, version_eq⟩, rfl, ?_⟩
            intro rooted
            have listed (name : String)
                (member : (name, FileKind.directory) ∈ entries.toOption.getD []) :
                Stands w.tree w₂.tree ((repository cache git.url).names ++ [name]) := by
              cases entries with
              | error e => cases member
              | ok listing =>
                obtain ⟨t, has, kind⟩ := FileTree.has_of_listed rooted listed member
                exact ⟨t, same ▸ has, .inl kind⟩
            exact there.imp (listed _) fun doubled => ⟨doubled.1.symm, listed _ doubled.2⟩

end Checkout

end Pseudocode
