import Pseudocode.Text.Classes

/-! # Trimmed texts

A text is trimmed if no blank stands at either end. Trimming makes a text so, and changes nothing
that is so. -/

namespace Pseudocode.Text

structure Trimmed (cs : List Char) : Prop where
  front : ∀ c, cs.head? = some c → isBlank c = false
  back : ∀ c, cs.getLast? = some c → isBlank c = false

variable {cs : List Char}

theorem dropWhile_isBlank_eq_self (front : ∀ c, cs.head? = some c → isBlank c = false) :
    cs.dropWhile isBlank = cs := by
  cases cs with
  | nil => rfl
  | cons c rest => rw [List.dropWhile_cons, front c rfl, if_neg Bool.false_ne_true]

theorem front_dropWhile {c : Char} (first : (cs.dropWhile isBlank).head? = some c) :
    isBlank c = false := by
  have front := List.head?_dropWhile_not isBlank cs
  rwa [first] at front

theorem Trimmed.trimChars_eq (trimmed : Trimmed cs) : trimChars cs = cs := by
  have back : ∀ c, cs.reverse.head? = some c → isBlank c = false := by
    intro c last
    rw [List.head?_reverse] at last
    exact trimmed.back c last
  rw [trimChars, dropWhile_isBlank_eq_self trimmed.front, dropWhile_isBlank_eq_self back,
    List.reverse_reverse]

theorem trimmed_trimChars (cs : List Char) : Trimmed (trimChars cs) := by
  refine ⟨fun c first => ?_, fun c last => ?_⟩
  · have kept : trimChars cs <+: cs.dropWhile isBlank := by
      rw [trimChars, ← List.reverse_suffix, List.reverse_reverse]
      exact List.dropWhile_suffix isBlank
    obtain ⟨rest, whole⟩ := kept
    obtain ⟨others, begins⟩ := List.head?_eq_some_iff.mp first
    have front : (cs.dropWhile isBlank).head? = some c := by
      rw [← whole, begins]
      rfl
    exact front_dropWhile front
  · rw [trimChars, List.getLast?_reverse] at last
    exact front_dropWhile last

theorem trimmed_of_solid (solid : ∀ c ∈ cs, isBlank c = false) : Trimmed cs :=
  ⟨fun c first => solid c (List.mem_of_head? first), fun c last => solid c (List.mem_of_getLast? last)⟩

theorem trimChars_eq_self (solid : ∀ c ∈ cs, isBlank c = false) : trimChars cs = cs :=
  (trimmed_of_solid solid).trimChars_eq

theorem Trimmed.append {ds : List Char} (trimmed : Trimmed cs) (also : Trimmed ds) (first : cs ≠ [])
    (second : ds ≠ []) : Trimmed (cs ++ ds) := by
  refine ⟨fun c begins => ?_, fun c ends => ?_⟩
  · rw [List.head?_append, List.head?_eq_some_head first, Option.some_or] at begins
    exact trimmed.front c (begins ▸ List.head?_eq_some_head first)
  · rw [List.getLast?_append, List.getLast?_eq_some_getLast second, Option.some_or] at ends
    exact also.back c (ends ▸ List.getLast?_eq_some_getLast second)

theorem toList_trim (s : String) : (trim s).toList = trimChars s.toList :=
  String.toList_ofList

/-- What is seen to hold of each character of ASCII. -/
theorem of_ascii {P : Char → Prop} (all : ∀ n < 128, P (.ofNat n)) {c : Char}
    (ascii : c.toNat < 128) : P c := by
  have ofChar := all c.toNat ascii
  rwa [Char.ofNat_toNat] at ofChar

end Pseudocode.Text
