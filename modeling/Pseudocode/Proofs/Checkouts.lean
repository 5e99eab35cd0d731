import Pseudocode.Proofs.Fetching
import Pseudocode.Proofs.Setups

/-! # Checkouts in the cache

The directory of a checkout is known from three names: that of the repository, and those of what was
asked for and of the commit that it meant. So it is settled when a checkout is inside the cache,
when one that is there is found again, and when two repositories come to share one. -/

namespace Pseudocode

namespace Manifest

/-- What a manifest without issues says about the path of its entry program in a repository. -/
theorem relative_of_issues {readLevel : LogLevel.Reader} {m : Manifest} {git : GitSource}
    (valid : m.issues readLevel = []) (isGit : m.source = some ⟨some git⟩) : Path.isAbsolute git.path = false := by
  unfold issues at valid
  simp only [isGit, sourceIssues, List.append_eq_nil_iff, issueIf_eq_nil] at valid
  exact valid.2.2

end Manifest

namespace Checkout

open Workspace (Action After after_bind after_entries)

/-! ## The way to a directory -/

/-- The names on the way from the cache to the directory of a repository. The names `.` and `..`
stand for no directory of their own. -/
def way (name : String) : List String :=
  if name = ".." then [] else if name = "." then ["src"] else ["src", name]

theorem way_inj {name other : String} : way name = way other ↔ name = other := by
  refine ⟨fun same => ?_, fun same => same ▸ rfl⟩
  unfold way at same
  split at same <;> split at same <;> try split at same
  all_goals try split at same
  all_goals simp_all

theorem length_way {name : String} : (way name).length = 2 ↔ name ≠ "." ∧ name ≠ ".." := by
  unfold way
  split
  · simp_all
  · split <;> simp_all

theorem proper_src : Path.Proper "src" :=
  ⟨⟨by decide, by decide⟩, by decide, by decide⟩

theorem join_src (cache : String) :
    (Path.ofText cache).join "src" =
      ⟨(Path.ofText cache).absolute, (Path.ofText cache).names ++ ["src"]⟩ :=
  (Path.clean_ofText cache).join_proper proper_src

theorem repository_spec (cache url : String) :
    (repository cache url).Clean ∧ repository cache url =
      ⟨(Path.ofText cache).absolute, (Path.ofText cache).names ++ way (segment url)⟩ := by
  have clean := Path.clean_ofText cache
  have below := clean.below proper_src
  unfold repository way
  split
  case isTrue above =>
    rw [above, clean.join_above proper_src, List.append_nil]
    exact ⟨clean, rfl⟩
  case isFalse notAbove =>
    split
    case isTrue here =>
      rw [here, below.join_here]
      exact ⟨below, join_src cache⟩
    case isFalse notHere =>
      have proper : Path.Proper (segment url) := ⟨isPart_segment url, notHere, notAbove⟩
      refine ⟨below.below proper, ?_⟩
      rw [below.join_proper proper, join_src, List.append_assoc]
      rfl

variable {cache : String} {git git' : GitSource} {c c' : Checkout} {before after : FileTree}

namespace Fetched

variable (fetched : Fetched cache git c before after)

include fetched

theorem directory_join : c.directory = (repository cache git.url).join (segment c.version) :=
  congrArg Checkout.directory fetched.made

theorem directory_eq :
    c.directory = ⟨(Path.ofText cache).absolute,
      (Path.ofText cache).names ++ way (segment git.url) ++ [segment c.version]⟩ := by
  obtain ⟨-, descriptor, -, pins⟩ := fetched.asked
  have proper := proper_segment_pinned fetched.hash descriptor
  rw [← pins] at proper
  obtain ⟨clean, place⟩ := repository_spec cache git.url
  rw [fetched.directory_join, clean.join_proper proper, place]

theorem rooted (absolute : Path.isAbsolute cache = true) : c.directory.Rooted := by
  rw [fetched.directory_join]
  exact (((Path.rooted_ofText absolute).join _).join _).join _

/-- The directory is where it should be, unless the repository has the name `.` or `..`. -/
theorem levelsBelow_iff :
    c.directory.LevelsBelow 2 ((Path.ofText cache).join "src") ↔
      Text.trim git.url ≠ "." ∧ Text.trim git.url ≠ ".." := by
  have here : segment git.url = "." ↔ Text.trim git.url = "." :=
    segment_eq_iff_trim_eq fetched.inked rfl (by decide)
  have above : segment git.url = ".." ↔ Text.trim git.url = ".." :=
    segment_eq_iff_trim_eq fetched.inked rfl (by decide)
  rw [ne_eq, ne_eq, ← here, ← above, ← ne_eq, ← ne_eq, ← length_way, fetched.directory_eq, join_src]
  constructor
  · rintro ⟨-, names, two, same⟩
    have lengths := congrArg List.length same
    simp only [List.length_append, List.length_singleton, two] at lengths
    omega
  · intro two
    refine ⟨rfl, [segment git.url, segment c.version], rfl, ?_⟩
    have ordinary := length_way.mp two
    rw [way, if_neg ordinary.2, if_neg ordinary.1]
    simp

/-- The directory is there, or else a directory that has the whole hash twice in its name. -/
theorem stands (absolute : Path.isAbsolute cache = true) :
    Stands before after c.directory.names ∨ c.commit = Text.trim git.rev ∧
      Stands before after (c.directory.parent.names ++ [c.commit ++ "_" ++ c.commit]) := by
  have rooted : (repository cache git.url).Rooted := ((Path.rooted_ofText absolute).join _).join _
  have present := fetched.present rooted
  rw [(repository_spec cache git.url).2] at present
  rw [fetched.directory_eq, Path.parent, List.dropLast_concat]
  exact present

end Fetched

def entryIn (git : GitSource) : String :=
  if git.path = "" then Manifest.defaultEntry else git.path

theorem Fetched.entry_eq (fetched : Fetched cache git c before after) :
    c.entry = c.directory.join (entryIn git) := by
  have entry := congrArg Checkout.entry fetched.made
  rw [fetched.directory_join]
  exact entry

/-- A relative path goes up from a directory, and then down. -/
theorem Fetched.entry_names (fetched : Fetched cache git c before after)
    (absolute : Path.isAbsolute cache = true) (relative : Path.isAbsolute (entryIn git) = false) :
    ∃ up down, ".." ∉ down ∧ Path.ofText (entryIn git) = ⟨false, List.replicate up ".." ++ down⟩ ∧
      c.entry.names = c.directory.names.take (c.directory.names.length - up) ++ down := by
  obtain ⟨up, down, proper, cleaned, joined⟩ := Path.clean_relative (entryIn git)
  refine ⟨up, down, fun above => (proper _ above).ne_above rfl, ?_, ?_⟩
  · rw [Path.ofText, relative, cleaned]
  · rw [fetched.entry_eq, joined _ (fetched.rooted absolute)]

/-! ## Where a checkout is -/

theorem fetched_of_run {level : LogLevel} {w w' : Workspace}
    (ran : (fetch cache level (some git) : Action _).run w = (.ok c, w')) :
    Fetched cache git c w.tree w'.tree :=
  (After.of_run ran).mp (fetch_after cache level git w) c rfl

/-- A checkout is two levels below the directory for repositories, unless the repository has the
name `.` or `..`. Its entry program is inside it if the path that the manifest gives goes down again
by what it went up, and further. -/
theorem fetch_confined {readLevel : LogLevel.Reader} {m : Manifest} {level : LogLevel}
    {w w' : Workspace} (valid : m.issues readLevel = []) (isGit : m.source = some ⟨some git⟩) (absolute : Path.isAbsolute cache = true)
    (ran : (fetch cache level (some git) : Action _).run w = (.ok c, w')) :
    (c.directory.LevelsBelow 2 ((Path.ofText cache).join "src") ↔
      Text.trim git.url ≠ "." ∧ Text.trim git.url ≠ "..") ∧
    c.directory.names =
      (Path.ofText cache).names ++ way (segment git.url) ++ [segment c.version] ∧
    (Stands w.tree w'.tree c.directory.names ∨ c.commit = Text.trim git.rev ∧
      Stands w.tree w'.tree (c.directory.parent.names ++ [c.commit ++ "_" ++ c.commit])) ∧
    ∃ up down, ".." ∉ down ∧ Path.ofText (entryIn git) = ⟨false, List.replicate up ".." ++ down⟩ ∧
      (c.entry.Inside c.directory ↔
        c.directory.names.drop (c.directory.names.length - up) <+: down ∧
          down ≠ c.directory.names.drop (c.directory.names.length - up)) := by
  have fetched := fetched_of_run ran
  have relative : Path.isAbsolute (entryIn git) = false := by
    unfold entryIn
    split
    · rfl
    · exact Manifest.relative_of_issues valid isGit
  obtain ⟨up, down, never, asked, names⟩ := fetched.entry_names absolute relative
  refine ⟨fetched.levelsBelow_iff, ?_, fetched.stands absolute, up, down, never, asked, ?_⟩
  · rw [fetched.directory_eq]
  · have same : c.entry.absolute = c.directory.absolute := by
      rw [fetched.entry_eq]
      rfl
    rw [Path.Inside, names, ← Path.climb_back_iff]
    exact and_iff_right same

/-- An action that succeeds, and what it leaves. -/
theorem run_eq {ε α : Type} {x : Action (Except ε α)} {w : Workspace} {a : α}
    (same : (x.run w).1.toOption = some a) : x.run w = (.ok a, (x.run w).2) :=
  Prod.ext (eq_ok_of_toOption same) rfl

namespace Sample

def hash : String := "0123456789abcdef0123456789abcdef01234567"

def url : String := "x/y"

def revised (rev path : String) : GitSource :=
  { url, rev, path }

def holding (names : List String) : Workspace where
  tree := .directory [("c", .directory [("src", .directory
    [(segment url, .directory (names.map fun name => (name, .directory [])))])])]
  directory := ⟨true, []⟩

def checkout (version commit : String) (entry : List String) : Checkout :=
  ⟨⟨true, ["c", "src", segment url, segment version]⟩, commit, version, ⟨true, entry⟩⟩

/-- What a fetch of the commit by its hash gives, with an entry program in it. -/
def foundAgain : Checkout := checkout hash hash ["c", "src", segment url, hash, "a", "main.pseudo"]

end Sample

open Checkout.Sample

theorem fetch_confined_reused :
    ∃ left, (fetch "/c" .warn (some (revised hash "a/main.pseudo")) : Action _).run
        (holding [hash]) = (.ok foundAgain, left) ∧
      foundAgain.directory.LevelsBelow 2 ((Path.ofText "/c").join "src") := by
  have ran := run_eq (w := holding [hash])
    (x := fetch "/c" .warn (some (revised hash "a/main.pseudo")))
    (by decide +kernel : _ = some foundAgain)
  have valid : Manifest.issues LogLevel.ofText
      { name := "a", source := some ⟨some (revised hash "a/main.pseudo")⟩ } = [] := by
    decide +kernel
  have confined := fetch_confined valid rfl (by decide +kernel) ran
  exact ⟨_, ran, confined.1.mpr ⟨by decide +kernel, by decide +kernel⟩⟩

/-- The entry program of a manifest without issues may be outside of the checkout, and even of the
cache. -/
theorem entry_outside :
    ∃ (m : Manifest) (git : GitSource) (c : Checkout) (left : Workspace),
      (∀ readLevel, m.issues readLevel = []) ∧ m.source = some ⟨some git⟩ ∧
      (fetch "/c" .warn (some git) : Action _).run (holding [hash]) = (.ok c, left) ∧
      c.entry = ⟨true, ["main.pseudo"]⟩ ∧ ¬ c.entry.Inside c.directory := by
  refine ⟨{ name := "a", source := some ⟨some (revised hash "../../../../main.pseudo")⟩ }, _,
    checkout hash hash ["main.pseudo"], _, fun _ => rfl, rfl, run_eq (by decide +kernel), rfl, ?_⟩
  intro inside
  exact absurd inside.2.1.length_le (by decide)

/-! ## What is found again -/

/-- A fetch that finds the revision in the cache gives the directory that the version names. -/
theorem fetch_of_cached {level : LogLevel} {listing : List (String × FileKind)}
    {version commit : String} {w w₁ : Workspace} (named : cache ≠ "")
    (inked : Text.trim git.url ≠ "") (revised : Text.trim git.rev ≠ "")
    (made : (Host.makeDirectories (repository cache git.url) : Action _).run w = (.ok (), w₁))
    (listed : w₁.tree.entriesOf w₁.directory (repository cache git.url).shown = .ok listing)
    (found : cached? (Text.trim git.rev) listing = some (version, commit)) :
    After (fetch cache level (some git)) w fun result _ =>
      result = .ok (ofVersion (repository cache git.url) git version commit) := by
  unfold fetch
  rw [if_neg named]
  simp only [Option.getD_some, repository_trim]
  rw [if_neg inked, revision?_of_rev revised]
  refine after_bind.mpr ((After.of_run made).mpr (after_entries.mpr ?_))
  rw [listed]
  simp only [Except.toOption, Option.getD_some, if_neg revised, found]
  exact after_bind.mpr (.of_forall fun _ _ => rfl)

/-- A revision is found exactly if one of its directories is there. What is found is a commit that
starts with the revision, and a fetch gives the directory that its version names. That one is there
too, unless the directory that was found has a whole hash twice in its name. -/
theorem cached?_iff {rev : String} (nonempty : rev ≠ "") (listing : List (String × FileKind)) :
    ((cached? rev listing).isSome = true ↔
      ∃ commit, Commit.isHash commit = true ∧ rev.toList <+: commit.toList ∧
        ((segment (pinned rev commit), .directory) ∈ listing ∨
          rev = commit ∧ (commit ++ "_" ++ commit, .directory) ∈ listing)) ∧
    ∀ version commit, cached? rev listing = some (version, commit) →
      Commit.isHash commit = true ∧ rev.toList <+: commit.toList ∧ version = pinned rev commit ∧
      ((segment version, .directory) ∈ listing ∨
        rev = commit ∧ (commit ++ "_" ++ commit, .directory) ∈ listing) ∧
      ∀ cache git level w w₁, cache ≠ "" → Text.trim git.url ≠ "" → Text.trim git.rev = rev →
        (Host.makeDirectories (repository cache git.url) : Action _).run w = (.ok (), w₁) →
        w₁.tree.entriesOf w₁.directory (repository cache git.url).shown = .ok listing →
        ∃ c, ((fetch cache level (some git) : Action _).run w).1 = .ok c ∧
          c.directory = (repository cache git.url).join (segment version) ∧
          c.version = version ∧ c.commit = commit := by
  refine ⟨⟨fun hit => ?_, fun kept => ?_⟩, fun version commit found => ?_⟩
  · obtain ⟨⟨version, commit⟩, found⟩ := Option.isSome_iff_exists.mp hit
    obtain ⟨hash, starts, pins, there⟩ := cached?_spec nonempty found
    rw [pins] at there
    exact ⟨commit, hash, starts, there⟩
  · obtain ⟨commit, hash, starts, there⟩ := kept
    obtain member | ⟨whole, member⟩ := there
    · exact cached?_isSome member (commitIn?_isSome nonempty hash starts (.inl rfl))
    · exact cached?_isSome member (commitIn?_isSome nonempty hash starts (.inr ⟨whole, rfl⟩))
  · obtain ⟨hash, starts, pins, there⟩ := cached?_spec nonempty found
    refine ⟨hash, starts, pins, there, ?_⟩
    intro cache git level w w₁ named inked same made listed
    subst same
    exact ⟨_, fetch_of_cached named inked nonempty made listed found, rfl, rfl, rfl⟩

theorem cached?_iff_abbreviated :
    cached? "0123456" [("0123456_" ++ hash, .directory)] = some ("0123456@" ++ hash, hash) ∧
      Commit.isHash hash = true ∧
      ∃ c, ((fetch "/c" .warn (some (revised "0123456" "")) : Action _).run
          (holding ["0123456_" ++ hash])).1 = .ok c ∧ c.version = "0123456@" ++ hash := by
  have found : cached? "0123456" [("0123456_" ++ hash, .directory)] =
    some ("0123456@" ++ hash, hash) := by decide +kernel
  have nonempty : "0123456" ≠ "" := by decide
  obtain ⟨valid, -, -, -, fetches⟩ := (cached?_iff nonempty _).2 _ _ found
  obtain ⟨c, fetched, -, version, -⟩ := fetches "/c" (revised "0123456" "") .warn
    (holding ["0123456_" ++ hash]) _ (by decide) (by decide +kernel) (by decide +kernel)
    (run_eq (by decide +kernel)) (eq_ok_of_toOption (by decide +kernel))
  exact ⟨found, valid, c, fetched, version⟩

/-- A directory that has a whole hash twice in its name is taken for the checkout, although the one
that is given does not exist. -/
theorem doubled_not_stored :
    cached? hash [(hash ++ "_" ++ hash, .directory)] = some (hash, hash) ∧
      (segment hash, .directory) ∉ [(hash ++ "_" ++ hash, FileKind.directory)] ∧
      ∃ c left, (fetch "/c" .warn (some (revised hash "")) : Action _).run
          (holding [hash ++ "_" ++ hash]) = (.ok c, left) ∧
        (left.tree.at? c.directory.names).isNone = true :=
  ⟨by decide +kernel, by decide +kernel,
    checkout hash hash ["c", "src", segment url, hash, "main.pseudo"], _,
    run_eq (by decide +kernel), by decide +kernel⟩

/-! ## What is shared -/

theorem Fetched.directory_eq_iff (fetched : Fetched cache git c before after)
    {before' after' : FileTree} (fetched' : Fetched cache git' c' before' after') :
    c.directory = c'.directory ↔ segment git.url = segment git'.url ∧
      segment c.version = segment c'.version := by
  rw [fetched.directory_eq, fetched'.directory_eq, Path.mk.injEq, and_iff_right rfl,
    List.append_assoc, List.append_assoc, List.append_right_inj, ← way_inj]
  refine ⟨fun same => ?_, fun same => by rw [same.1, same.2]⟩
  obtain ⟨ways, versions⟩ := List.append_inj' same rfl
  exact ⟨ways, List.singleton_inj.mp versions⟩

theorem Blurred.eq_of_clear {text other : String} (blurred : Blurred text other)
    (clear : ∀ ch ∈ text.toList, blur ch ≠ '_') : text = other := by
  rw [← String.toList_inj]
  unfold Blurred at blurred
  generalize text.toList = cs, other.toList = ds at blurred clear ⊢
  induction blurred with
  | nil => rfl
  | cons same _ ih =>
    rw [List.forall_mem_cons] at clear
    rw [ih clear.2, same.resolve_right fun dull => clear.1 dull.1]

/-- Two fetches give the same directory exactly if they agree on the commit, and on the addresses
and on what was asked for but for characters that become `_`. -/
theorem fetch_directory_eq_iff {level level' : LogLevel} {w w' left left' : Workspace}
    (ran : (fetch cache level (some git) : Action _).run w = (.ok c, left))
    (ran' : (fetch cache level' (some git') : Action _).run w' = (.ok c', left')) :
    (∃ revision descriptor revision' descriptor',
      revision? git = some (revision, descriptor) ∧
      revision? git' = some (revision', descriptor') ∧
      (c.directory = c'.directory ↔ Blurred (Text.trim git.url) (Text.trim git'.url) ∧
        c.commit = c'.commit ∧ Blurred descriptor descriptor')) ∧
    ((∀ ch ∈ (Text.trim git.url).toList, blur ch ≠ '_') →
      Text.trim git.url ≠ Text.trim git'.url → c.directory ≠ c'.directory) := by
  have fetched := fetched_of_run ran
  have fetched' := fetched_of_run ran'
  obtain ⟨revision, descriptor, asked, pins⟩ := fetched.asked
  obtain ⟨revision', descriptor', asked', pins'⟩ := fetched'.asked
  obtain ⟨trimmed, some⟩ := revision?_spec asked
  obtain ⟨trimmed', some'⟩ := revision?_spec asked'
  have shared := fetched.directory_eq_iff fetched'
  rw [segment_eq_iff fetched.inked fetched'.inked] at shared
  refine ⟨⟨revision, descriptor, revision', descriptor', asked, asked', ?_⟩, ?_⟩
  · have inked : Text.trim descriptor ≠ "" := by rwa [trimmed]
    have inked' : Text.trim descriptor' ≠ "" := by rwa [trimmed']
    rw [shared, pins, pins', segment_pinned_eq_iff fetched.hash fetched'.hash inked inked',
      segment_eq_iff inked inked', trimmed, trimmed']
  · intro clear apart same
    exact apart ((shared.mp same).1.eq_of_clear clear)

namespace Sample

/-- A repository in which every revision names one commit. -/
def holdingOnly (commit : Commit) : Repository :=
  ⟨fun _ => .ok commit, fun _ => .ok []⟩

def commit : Commit := ⟨hash, by decide +kernel⟩

def otherCommit : Commit := ⟨"0123456fedcba98765432100123456789abcdef0", by decide +kernel⟩

def otherUrl : String := "x_y"

def remote : Workspace where
  tree := .directory []
  directory := ⟨true, []⟩
  repositories name := .ok (holdingOnly (if name = url then commit else otherCommit))

def stored : Workspace :=
  ((fetch "/c" .warn (some (revised "0123456" "")) : Action _).run remote).2

end Sample

theorem fetch_directory_eq_iff_apart :
    ∃ c c' left left',
      (fetch "/c" .warn (some (revised "0123456" "")) : Action _).run remote = (.ok c, left) ∧
      (fetch "/c" .warn (some { url := "plain", branch := "main" }) : Action _).run remote =
        (.ok c', left') ∧ c'.directory ≠ c.directory := by
  have ran := run_eq (w := remote) (x := fetch "/c" .warn (some (revised "0123456" "")))
    (by decide +kernel : _ = some (checkout ("0123456@" ++ hash) hash
      ["c", "src", segment url, "0123456_" ++ hash, "main.pseudo"]))
  have ran' := run_eq (w := remote)
    (x := fetch "/c" .warn (some { url := "plain", branch := "main" }))
    (by decide +kernel : _ = some ⟨⟨true, ["c", "src", "plain", "main_" ++ otherCommit.hash]⟩,
      otherCommit.hash, "main@" ++ otherCommit.hash,
      ⟨true, ["c", "src", "plain", "main_" ++ otherCommit.hash, "main.pseudo"]⟩⟩)
  have clear : (Text.trim "plain").toList.all (fun ch => blur ch ≠ '_') = true := by
    decide +kernel
  refine ⟨_, _, _, _, ran, ran', (fetch_directory_eq_iff ran' ran).2 ?_ (by decide +kernel)⟩
  exact fun ch member => of_decide_eq_true (List.all_eq_true.mp clear ch member)

/-- The checkout of one repository is given for an abbreviated revision of another, in which the
revision names another commit. -/
theorem directory_shared :
    ∃ c left, Text.trim url ≠ Text.trim otherUrl ∧
      (fetch "/c" .warn (some (revised "0123456" "")) : Action _).run remote = (.ok c, stored) ∧
      (fetch "/c" .warn (some { url := otherUrl, rev := "0123456" }) : Action _).run stored =
        (.ok c, left) ∧
      (holdingOnly otherCommit).resolve "0123456" = .ok otherCommit ∧
      c.commit ≠ otherCommit.hash :=
  ⟨checkout ("0123456@" ++ hash) hash
      ["c", "src", segment url, "0123456_" ++ hash, "main.pseudo"], _, by decide +kernel,
    run_eq (by decide +kernel), run_eq (by decide +kernel), rfl, by decide +kernel⟩

end Checkout

end Pseudocode
