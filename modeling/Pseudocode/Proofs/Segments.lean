import Mathlib.Data.List.Forall2
import Pseudocode.Checkout
import Pseudocode.Proofs.Paths
import Pseudocode.Proofs.Trimming

/-! # Names of directories

A directory is named after a text by writing `_` for each character that is not plain. So texts that
differ only in such characters get the same name. A hash is plain and has no `_`: it can be read off
the end of the name of every version. -/

namespace Pseudocode

/-! ## Hashes -/

namespace Commit

theorem toNat_lt_of_isHexDigit {c : Char} (hex : isHexDigit c = true) : c.toNat < 128 := by
  simp only [isHexDigit, Char.isDigit, Bool.or_eq_true, Bool.and_eq_true, decide_eq_true_eq,
    Char.le_def, UInt32.le_iff_toNat_le, ge_iff_le] at hex
  have nine : '9'.val.toNat = 57 := rfl
  have small : 'f'.val.toNat = 102 := rfl
  have large : 'F'.val.toNat = 70 := rfl
  have same : c.toNat = c.val.toNat := rfl
  omega

theorem isHexDigit_spec {c : Char} (hex : isHexDigit c = true) :
    Checkout.isPlain c = true ∧ c ≠ '_' ∧ Text.isBlank c = false := by
  refine Text.of_ascii (P := fun c => isHexDigit c = true →
    Checkout.isPlain c = true ∧ c ≠ '_' ∧ Text.isBlank c = false) ?_ (toNat_lt_of_isHexDigit hex) hex
  decide +kernel

variable {hash : String}

variable (valid : isHash hash = true)

include valid

theorem length_of_isHash : hash.toList.length = 40 :=
  of_decide_eq_true (Bool.and_eq_true_iff.mp valid).1

theorem hex_of_isHash : ∀ c ∈ hash.toList, isHexDigit c = true :=
  List.all_eq_true.mp (Bool.and_eq_true_iff.mp valid).2

theorem ne_empty_of_isHash : hash ≠ "" := by
  rintro rfl
  cases valid

end Commit

namespace Checkout

/-! ## Segments -/

/-- What a character becomes in the name of a directory. -/
def blur (c : Char) : Char :=
  if isPlain c then c else '_'

theorem isPlain_blur (c : Char) : isPlain (blur c) = true := by
  unfold blur
  split
  case isTrue plain => exact plain
  case isFalse => rfl

theorem blur_of_isPlain {c : Char} (plain : isPlain c = true) : blur c = c :=
  if_pos plain

/-- Only a character that is not plain is blurred, and it becomes `_`. -/
theorem blur_eq {c d : Char} (blurred : blur c = d) (clear : d ≠ '_') : c = d := by
  unfold blur at blurred
  split at blurred
  case isTrue => exact blurred
  case isFalse => exact absurd blurred.symm clear

/-- Two characters become the same one if they are the same, or if each of them becomes `_`. -/
theorem blur_eq_blur_iff {c d : Char} : blur c = blur d ↔ c = d ∨ blur c = '_' ∧ blur d = '_' := by
  constructor
  · intro same
    by_cases dull : blur d = '_'
    · exact .inr ⟨same.trans dull, dull⟩
    · have first : c = blur d := blur_eq same dull
      have second : d = blur d := blur_eq rfl dull
      exact .inl (first.trans second.symm)
  · rintro (rfl | ⟨first, second⟩)
    · rfl
    · rw [first, second]

variable {text other : String}

theorem toList_segment (inked : Text.trim text ≠ "") :
    (segment text).toList = (Text.trim text).toList.map blur := by
  rw [segment, Text.toList_trim]
  split
  case h_1 blank => exact absurd (String.ofList_eq_empty_iff.mpr blank) inked
  case h_2 => exact String.toList_ofList

theorem segment_of_blank (blank : Text.trim text = "") : segment text = "head" := by
  rw [segment, String.ofList_eq_empty_iff.mp blank]

theorem segment_trim (text : String) : segment (Text.trim text) = segment text := by
  rw [segment, segment, Text.toList_trim, (Text.trimmed_trimChars _).trimChars_eq]

theorem isPlain_of_mem_segment {c : Char} (member : c ∈ (segment text).toList) :
    isPlain c = true := by
  by_cases blank : Text.trim text = ""
  · rw [segment_of_blank blank] at member
    have all : ("head".toList.all isPlain) = true := rfl
    exact List.all_eq_true.mp all c member
  · rw [toList_segment blank, List.mem_map] at member
    obtain ⟨d, -, rfl⟩ := member
    exact isPlain_blur d

theorem isPart_segment (text : String) : Path.IsPart (segment text) := by
  refine ⟨?_, fun slash => ?_⟩
  · by_cases blank : Text.trim text = ""
    · rw [segment_of_blank blank]
      simp
    · rw [ne_eq, ← String.toList_eq_nil_iff, toList_segment blank, List.map_eq_nil_iff,
        String.toList_eq_nil_iff]
      exact blank
  · cases isPlain_of_mem_segment slash

/-- A name without `_` comes from no other text than itself. -/
theorem eq_of_segment_eq (inked : Text.trim text ≠ "") (named : segment text = other)
    (clear : '_' ∉ other.toList) : Text.trim text = other := by
  have same : (Text.trim text).toList.map blur = other.toList := by
    rw [← toList_segment inked, named]
  have fixed : (Text.trim text).toList.map blur = (Text.trim text).toList := by
    refine (List.map_congr_left fun c member => ?_).trans (List.map_id _)
    have reached : blur c ∈ other.toList := same ▸ List.mem_map_of_mem member
    exact (blur_eq rfl fun dull => clear (dull ▸ reached)).symm
  rw [← String.toList_inj, ← fixed, same]

/-- A text that is its own name, and has no `_`, names only itself. -/
theorem segment_eq_iff_trim_eq (inked : Text.trim text ≠ "") (own : segment other = other)
    (clear : '_' ∉ other.toList) : segment text = other ↔ Text.trim text = other := by
  refine ⟨fun named => eq_of_segment_eq inked named clear, fun same => ?_⟩
  rw [← segment_trim, same, own]

/-- A text whose characters are all plain is its own name. -/
theorem segment_eq_self (plain : ∀ c ∈ text.toList, isPlain c = true)
    (trimmed : Text.trim text = text) (nonempty : text ≠ "") : segment text = text := by
  rw [← String.toList_inj, toList_segment (trimmed.symm ▸ nonempty), trimmed]
  exact (List.map_congr_left fun c member => blur_of_isPlain (plain c member)).trans (List.map_id _)

/-- Two texts agree but for characters that become `_`. -/
def Blurred (text other : String) : Prop :=
  List.Forall₂ (fun c d => c = d ∨ blur c = '_' ∧ blur d = '_') text.toList other.toList

theorem segment_eq_iff (inked : Text.trim text ≠ "") (also : Text.trim other ≠ "") :
    segment text = segment other ↔ Blurred (Text.trim text) (Text.trim other) := by
  rw [← String.toList_inj, toList_segment inked, toList_segment also, ← List.forall₂_eq_eq_eq,
    List.forall₂_map_left_iff, List.forall₂_map_right_iff, Blurred]
  simp only [blur_eq_blur_iff]

/-! ## Versions -/

section Version

variable {commit commit' descriptor descriptor' rev : String}

theorem trim_of_hex (hex : ∀ c ∈ text.toList, Commit.isHexDigit c = true) : Text.trim text = text := by
  rw [← String.toList_inj, Text.toList_trim]
  exact Text.trimChars_eq_self fun c member => (Commit.isHexDigit_spec (hex c member)).2.2

theorem segment_of_hex (hex : ∀ c ∈ text.toList, Commit.isHexDigit c = true) (nonempty : text ≠ "") :
    segment text = text :=
  segment_eq_self (fun c member => (Commit.isHexDigit_spec (hex c member)).1) (trim_of_hex hex) nonempty

variable (hash : Commit.isHash commit = true)

include hash

theorem pinned_eq :
    pinned descriptor commit =
      if Text.trim descriptor = "" ∨ Text.trim descriptor = commit then commit
      else Text.trim descriptor ++ "@" ++ commit := by
  rw [pinned, trim_of_hex (Commit.hex_of_isHash hash), if_neg (Commit.ne_empty_of_isHash hash)]

theorem trim_pinned (inked : Text.trim descriptor ≠ "") :
    Text.trim (Text.trim descriptor ++ "@" ++ commit) = Text.trim descriptor ++ "@" ++ commit := by
  have front : Text.Trimmed (Text.trim descriptor).toList := by
    rw [Text.toList_trim]
    exact Text.trimmed_trimChars _
  have sign : Text.Trimmed "@".toList := Text.trimmed_of_solid (by simp; rfl)
  have back : Text.Trimmed commit.toList := Text.trimmed_of_solid fun c member =>
    (Commit.isHexDigit_spec (Commit.hex_of_isHash hash c member)).2.2
  have signed := front.append sign (mt String.toList_eq_nil_iff.mp inked) (by simp)
  have whole := signed.append back (by simp)
    (mt String.toList_eq_nil_iff.mp (Commit.ne_empty_of_isHash hash))
  rw [← String.toList_inj, Text.toList_trim, String.toList_append, String.toList_append]
  exact whole.trimChars_eq

/-- The name of a version is that of what was asked for, with the hash behind it, or the hash alone. -/
theorem segment_pinned :
    segment (pinned descriptor commit) =
      if Text.trim descriptor = "" ∨ Text.trim descriptor = commit then commit
      else segment descriptor ++ "_" ++ commit := by
  rw [pinned_eq hash]
  split
  case isTrue =>
    exact segment_of_hex (Commit.hex_of_isHash hash) (Commit.ne_empty_of_isHash hash)
  case isFalse ordinary =>
    rw [not_or] at ordinary
    have kept : commit.toList.map blur = commit.toList :=
      (List.map_congr_left fun c member => blur_of_isPlain
        (Commit.isHexDigit_spec (Commit.hex_of_isHash hash c member)).1).trans (List.map_id _)
    have inked : Text.trim descriptor ++ "@" ++ commit ≠ "" := by simp
    rw [← String.toList_inj, toList_segment (by rwa [trim_pinned hash ordinary.1]),
      trim_pinned hash ordinary.1]
    simp only [String.toList_append, List.map_append, kept, toList_segment ordinary.1]
    rfl

theorem proper_segment_pinned (descriptor : String) :
    Path.Proper (segment (pinned descriptor commit)) := by
  have long : 40 ≤ (segment (pinned descriptor commit)).toList.length := by
    rw [segment_pinned hash]
    split
    · exact Nat.le_of_eq (Commit.length_of_isHash hash).symm
    · simp only [String.toList_append, List.length_append, Commit.length_of_isHash hash]
      omega
  refine ⟨isPart_segment _, fun here => ?_, fun above => ?_⟩
  · rw [here] at long
    exact absurd long (by decide)
  · rw [above] at long
    exact absurd long (by decide)

/-- The name of a version tells the commit, and as much of what was asked for as its own name does. -/
theorem segment_pinned_eq_iff (hash' : Commit.isHash commit' = true)
    (inked : Text.trim descriptor ≠ "") (inked' : Text.trim descriptor' ≠ "") :
    segment (pinned descriptor commit) = segment (pinned descriptor' commit') ↔
      commit = commit' ∧ segment descriptor = segment descriptor' := by
  have full : ∀ {text hash}, Text.trim text ≠ "" → Commit.isHash hash = true →
      (Text.trim text = hash ↔ segment text = hash) := by
    intro text hash inked valid
    have hex := Commit.hex_of_isHash valid
    have own := segment_of_hex hex (Commit.ne_empty_of_isHash valid)
    exact (segment_eq_iff_trim_eq inked own fun member =>
      (Commit.isHexDigit_spec (hex _ member)).2.1 rfl).symm
  rw [segment_pinned hash, segment_pinned hash', ← String.toList_inj]
  simp only [inked, inked', false_or, full inked hash, full inked' hash']
  have lengths : commit.toList.length = commit'.toList.length := by
    rw [Commit.length_of_isHash hash, Commit.length_of_isHash hash']
  constructor
  · intro same
    split at same <;> split at same
    case isTrue.isTrue named named' =>
      have equal := String.toList_inj.mp same
      exact ⟨equal, named.trans (equal.trans named'.symm)⟩
    case isTrue.isFalse =>
      have longer := congrArg List.length same
      simp only [String.toList_append, List.length_append, lengths] at longer
      have one : "_".toList.length = 1 := rfl
      omega
    case isFalse.isTrue =>
      have longer := congrArg List.length same
      simp only [String.toList_append, List.length_append, lengths] at longer
      have one : "_".toList.length = 1 := rfl
      omega
    case isFalse.isFalse =>
      simp only [String.toList_append] at same
      obtain ⟨fronts, equal⟩ := List.append_inj' same lengths
      exact ⟨String.toList_inj.mp equal, String.toList_inj.mp (List.append_cancel_right fronts)⟩
  · rintro ⟨rfl, named⟩
    rw [named]

end Version

/-! ## Commits in the cache -/

variable {rev name commit : String}

theorem hex_of_starts (hash : Commit.isHash commit = true) (starts : rev.toList <+: commit.toList) :
    ∀ c ∈ rev.toList, Commit.isHexDigit c = true :=
  fun c member => Commit.hex_of_isHash hash c (starts.subset member)

/-- The name under which a commit is kept for the front of its hash. -/
theorem segment_pinned_of_starts (hash : Commit.isHash commit = true) (nonempty : rev ≠ "")
    (starts : rev.toList <+: commit.toList) :
    segment (pinned rev commit) = if rev = commit then commit else segment rev ++ "_" ++ commit := by
  rw [segment_pinned hash, trim_of_hex (hex_of_starts hash starts)]
  simp only [nonempty, false_or]

theorem commitIn?_of_full (named : name = segment rev) (hash : Commit.isHash rev = true) :
    commitIn? rev name = some rev :=
  if_pos ⟨named, hash⟩

theorem commitIn?_eq_some_iff (other : ¬ (name = segment rev ∧ Commit.isHash rev = true)) :
    commitIn? rev name = some commit ↔
      name = segment rev ++ "_" ++ commit ∧ Commit.isHash commit = true ∧
        rev.toList <+: commit.toList := by
  rw [commitIn?, if_neg other]
  generalize segment rev ++ "_" = front
  change (if front.toList.isPrefixOf name.toList = true ∧
      Commit.isHash (String.ofList (name.toList.drop front.toList.length)) = true ∧
      rev.toList.isPrefixOf (name.toList.drop front.toList.length) = true
    then some (String.ofList (name.toList.drop front.toList.length)) else none) = some commit ↔ _
  rw [Option.ite_none_right_eq_some, List.isPrefixOf_iff_prefix, List.isPrefixOf_iff_prefix]
  constructor
  · rintro ⟨⟨begins, hash, starts⟩, same⟩
    cases same
    refine ⟨?_, hash, by rwa [String.toList_ofList]⟩
    rw [← String.toList_inj, String.toList_append, String.toList_ofList]
    exact (List.prefix_iff_eq_append.mp begins).symm
  · rintro ⟨rfl, hash, starts⟩
    rw [String.toList_append, List.drop_left, String.ofList_toList]
    exact ⟨⟨List.prefix_append _ _, hash, starts⟩, rfl⟩

/-- A directory that is taken for a commit has its name for the revision. Otherwise the revision is
the whole hash, and the directory has it twice in its name. -/
theorem commitIn?_eq_some (nonempty : rev ≠ "") (found : commitIn? rev name = some commit) :
    Commit.isHash commit = true ∧ rev.toList <+: commit.toList ∧
      (name = segment (pinned rev commit) ∨ rev = commit ∧ name = commit ++ "_" ++ commit) := by
  by_cases full : name = segment rev ∧ Commit.isHash rev = true
  · obtain ⟨named, hash⟩ := full
    rw [commitIn?_of_full named hash] at found
    cases found
    refine ⟨hash, List.prefix_refl _, .inl ?_⟩
    rw [segment_pinned_of_starts hash nonempty (List.prefix_refl _), if_pos rfl, named]
    exact segment_of_hex (Commit.hex_of_isHash hash) nonempty
  · obtain ⟨named, hash, starts⟩ := (commitIn?_eq_some_iff full).mp found
    refine ⟨hash, starts, ?_⟩
    rw [segment_pinned_of_starts hash nonempty starts]
    by_cases whole : rev = commit
    · refine .inr ⟨whole, ?_⟩
      rw [named, segment_of_hex (hex_of_starts hash starts) nonempty, whole]
    · exact .inl (by rw [if_neg whole, named])

/-- A directory that has the name of a commit for a revision is taken for one, and so is one that has
the whole hash twice in its name. -/
theorem commitIn?_isSome (nonempty : rev ≠ "") (hash : Commit.isHash commit = true)
    (starts : rev.toList <+: commit.toList)
    (named : name = segment (pinned rev commit) ∨ rev = commit ∧ name = commit ++ "_" ++ commit) :
    (commitIn? rev name).isSome = true := by
  by_cases full : name = segment rev ∧ Commit.isHash rev = true
  · rw [commitIn?_of_full full.1 full.2]
    rfl
  · have own := segment_of_hex (hex_of_starts hash starts) nonempty
    have signed : name = segment rev ++ "_" ++ commit := by
      rw [segment_pinned_of_starts hash nonempty starts] at named
      obtain named | ⟨rfl, named⟩ := named
      · split at named
        case isTrue whole =>
          subst whole
          exact absurd ⟨named.trans own.symm, hash⟩ full
        case isFalse => exact named
      · rw [own, named]
    rw [(commitIn?_eq_some_iff full).mpr ⟨signed, hash, starts⟩]
    rfl

variable {listing : List (String × FileKind)}

theorem cached?_eq_some {version : String} (found : cached? rev listing = some (version, commit)) :
    version = pinned rev commit ∧ ∃ name, (name, FileKind.directory) ∈ listing ∧
      commitIn? rev name = some commit := by
  obtain ⟨⟨name, kind⟩, member, taken⟩ := List.exists_of_findSome?_eq_some found
  cases kind with
  | file => cases taken
  | directory =>
    have taken : (commitIn? rev name).map (fun commit => (pinned rev commit, commit)) =
      some (version, commit) := taken
    obtain ⟨_, held, same⟩ := Option.map_eq_some_iff.mp taken
    cases same
    exact ⟨rfl, name, member, held⟩

/-- What is found in the cache is a commit that the revision names. Its directory is there, unless the
revision is the whole hash and the directory has it twice in its name. -/
theorem cached?_spec {version : String} (nonempty : rev ≠ "")
    (found : cached? rev listing = some (version, commit)) :
    Commit.isHash commit = true ∧ rev.toList <+: commit.toList ∧ version = pinned rev commit ∧
      ((segment version, FileKind.directory) ∈ listing ∨
        rev = commit ∧ (commit ++ "_" ++ commit, FileKind.directory) ∈ listing) := by
  obtain ⟨pins, name, member, held⟩ := cached?_eq_some found
  obtain ⟨hash, starts, named⟩ := commitIn?_eq_some nonempty held
  refine ⟨hash, starts, pins, named.imp (fun named => ?_) fun doubled => ⟨doubled.1, ?_⟩⟩
  · rwa [pins, ← named]
  · rwa [← doubled.2]

theorem cached?_isSome (member : (name, FileKind.directory) ∈ listing)
    (held : (commitIn? rev name).isSome = true) : (cached? rev listing).isSome = true := by
  rw [cached?, List.findSome?_isSome_iff]
  exact ⟨_, member, Option.isSome_map.trans held⟩

end Checkout

end Pseudocode
