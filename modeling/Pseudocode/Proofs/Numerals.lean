import Mathlib.Algebra.Group.Nat.Defs
import Mathlib.Data.List.Basic
import Pseudocode.Parser.Literal
import Pseudocode.Proofs.Encoding

/-! # Numbers as they are written

A number that is written in decimal is read as itself, alone and in a date. -/

namespace Pseudocode

/-! ## Digits -/

namespace Literal

theorem ofDigits_eq (digits : List Char) : ofDigits digits = Nat.ofDigitChars 10 digits 0 := by
  simp only [ofDigits, Nat.ofDigitChars_eq_foldl, Nat.mul_comm]

theorem toDigits_isDigit (n : Nat) : ∀ c ∈ Nat.toDigits 10 n, c.isDigit = true :=
  fun _ member => Nat.isDigit_of_mem_toDigits (by decide) (by decide) member

theorem ofDigits_lt {digits : List Char} (each : ∀ c ∈ digits, c.isDigit = true) :
    ofDigits digits < 10 ^ digits.length := by
  rw [ofDigits_eq]
  induction digits with
  | nil => simp [Nat.ofDigitChars_nil]
  | cons c digits ih =>
    obtain ⟨isDigit, rest⟩ := List.forall_mem_cons.mp each
    have value : c.toNat - '0'.toNat ≤ 9 := by
      have range := Char.isDigit_iff_toNat.mp isDigit
      have last : '9'.toNat = '0'.toNat + 9 := rfl
      omega
    have tail := ih rest
    rw [Nat.ofDigitChars_cons, Nat.ofDigitChars_eq_ofDigitChars_zero, Nat.mul_zero, Nat.zero_add,
      List.length_cons, Nat.pow_succ]
    have scaled := Nat.mul_le_mul_left (10 ^ digits.length) value
    omega

end Literal

/-! ## Dates -/

def Date.fitsDigits (d : Date) : Bool :=
  0 ≤ d.day && d.day ≤ 99 && 0 ≤ d.month && d.month ≤ 99 && 0 ≤ d.year && d.year ≤ 9999

theorem Date.fitsDigits_iff {d : Date} : d.fitsDigits = true ↔ 0 ≤ d.day ∧ d.day ≤ 99 ∧
    0 ≤ d.month ∧ d.month ≤ 99 ∧ 0 ≤ d.year ∧ d.year ≤ 9999 := by
  simp [fitsDigits, and_assoc]

theorem toList_pushn (c : Char) (n : Nat) : ("".pushn c n).toList = List.replicate n c := by
  rw [String.pushn_eq_repeat_push]
  induction n with
  | zero => rfl
  | succ n ih => rw [Nat.repeat, String.toList_push, ih, List.replicate_succ']

/-- A number with zeros in front, when it is not too large for them. -/
theorem Date.toList_padded (width n : Nat) : (padded width n).toList =
    List.replicate (width - (Nat.toDigits 10 n).length) '0' ++ Nat.toDigits 10 n := by
  have notNegative : ¬ (n : Int) < 0 := by omega
  unfold padded
  simp [notNegative, toList_pushn, Nat.repr_eq_ofList_toDigits]

namespace Literal

/-- What stands in a date for a number. -/
structure Digits (width n : Nat) (digits : List Char) : Prop where
  length : digits.length = width
  each : ∀ c ∈ digits, c.isDigit = true
  value : ofDigits digits = n

theorem digits_padded (width n : Nat) (some : 0 < width) (small : n < 10 ^ width) :
    Digits width n (Date.padded width n).toList := by
  rw [Date.toList_padded]
  have short := (Nat.length_toDigits_le_iff (by decide) some).mpr small
  refine ⟨?_, ?_, ?_⟩
  · rw [List.length_append, List.length_replicate]
    omega
  · intro c member
    rcases List.mem_append.mp member with member | member
    · rw [List.eq_of_mem_replicate member]
      decide
    · exact toDigits_isDigit n c member
  · rw [ofDigits_eq, Nat.ofDigitChars_append, Nat.ofDigitChars_replicate_zero, Nat.mul_zero,
      Nat.ofDigitChars_ten_toDigits]

theorem utf8_ascii {cs : List Char} (low : ∀ c ∈ cs, c.toNat < 0x80) :
    Text.utf8 cs = cs.map fun c => UInt8.ofNat c.toNat := by
  induction cs with
  | nil => rfl
  | cons c cs ih =>
    obtain ⟨here, rest⟩ := List.forall_mem_cons.mp low
    have one : c.val.toNat ≤ 127 := Nat.le_of_lt_succ here
    rw [Text.utf8, List.flatMap_cons, String.utf8EncodeChar, if_pos one, List.map_cons,
      List.singleton_append]
    exact congrArg (_ :: ·) (ih rest)

theorem digit_low {c : Char} (isDigit : c.isDigit = true) : c.toNat < 0x80 := by
  have range := Char.isDigit_iff_toNat.mp isDigit
  have last : '9'.toNat = 57 := rfl
  omega

theorem ofBytes_digits {width n : Nat} {digits : List Char} (written : Digits width n digits) :
    ofBytes (digits.map fun c => UInt8.ofNat c.toNat) = n := by
  have same : (digits.map fun c => UInt8.ofNat c.toNat).map (fun b => Char.ofNat b.toNat) =
      digits := by
    rw [List.map_map]
    refine (List.map_congr_left fun c member => ?_).trans (List.map_id digits)
    have low := digit_low (written.each c member)
    simp only [Function.comp_apply, Text.toNat_byte (n := c.toNat) (by omega), Char.ofNat_toNat,
      id_eq]
  have each : digits.all Char.isDigit = true := List.all_eq_true.mpr written.each
  unfold ofBytes
  simp only [same, each, if_true, written.value]

/-- The bytes of a date stand where its characters do. -/
theorem date_written {day month year : Nat} {ds ms ys : List Char} (isDay : Digits 2 day ds)
    (isMonth : Digits 2 month ms) (isYear : Digits 4 year ys) :
    date (String.ofList (ds ++ '/' :: (ms ++ '/' :: ys))) = ⟨year, month, day⟩ := by
  have low : ∀ c ∈ ds ++ '/' :: (ms ++ '/' :: ys), c.toNat < 0x80 := by
    intro c member
    simp only [List.mem_append, List.mem_cons] at member
    rcases member with member | rfl | member | rfl | member
    · exact digit_low (isDay.each c member)
    · decide
    · exact digit_low (isMonth.each c member)
    · decide
    · exact digit_low (isYear.each c member)
  have days := ofBytes_digits isDay
  have months := ofBytes_digits isMonth
  have years := ofBytes_digits isYear
  obtain ⟨d₁, d₂, rfl⟩ := List.length_eq_two.mp isDay.length
  obtain ⟨m₁, m₂, rfl⟩ := List.length_eq_two.mp isMonth.length
  have fits : (ys.map fun c => UInt8.ofNat c.toNat).take 4 = ys.map fun c => UInt8.ofNat c.toNat :=
    List.take_of_length_le (by simp [isYear.length])
  unfold date
  rw [Text.toUTF8_ofList, utf8_ascii low]
  simp only [List.cons_append, List.nil_append, List.map_cons, List.take_succ_cons, List.take_zero,
    List.drop_succ_cons, List.drop_zero, fits]
  exact congrArg₂ (Date.mk · · _) years months |>.trans (congrArg (Date.mk _ _) days)

/-- A date whose numbers fit is written as digits. -/
theorem shown_digits {d : Date} (fits : d.fitsDigits = true) :
    ∃ ds ms ys, d.shown = String.ofList (ds ++ '/' :: (ms ++ '/' :: ys)) ∧
      Digits 2 d.day.toNat ds ∧ Digits 2 d.month.toNat ms ∧ Digits 4 d.year.toNat ys := by
  obtain ⟨day, day', month, month', year, year'⟩ := Date.fitsDigits_iff.mp fits
  have isDay := digits_padded 2 d.day.toNat (by decide) (by omega)
  have isMonth := digits_padded 2 d.month.toNat (by decide) (by omega)
  have isYear := digits_padded 4 d.year.toNat (by decide) (by omega)
  rw [Int.toNat_of_nonneg day] at isDay
  rw [Int.toNat_of_nonneg month] at isMonth
  rw [Int.toNat_of_nonneg year] at isYear
  refine ⟨_, _, _, ?_, isDay, isMonth, isYear⟩
  rw [← String.toList_inj, Date.shown]
  simp

theorem date_shown {d : Date} (fits : d.fitsDigits = true) : date d.shown = d := by
  obtain ⟨ds, ms, ys, same, isDay, isMonth, isYear⟩ := shown_digits fits
  obtain ⟨day, -, month, -, year, -⟩ := Date.fitsDigits_iff.mp fits
  rw [same, date_written isDay isMonth isYear, Int.toNat_of_nonneg day, Int.toNat_of_nonneg month,
    Int.toNat_of_nonneg year]

theorem ofBytes_small {bytes : List UInt8} {width : Nat} (short : bytes.length ≤ width) :
    ∃ n : Nat, ofBytes bytes = n ∧ n < 10 ^ width := by
  unfold ofBytes
  dsimp only
  split
  case isTrue each =>
    have small := ofDigits_lt (List.all_eq_true.mp each)
    rw [List.length_map] at small
    exact ⟨_, rfl, Nat.lt_of_lt_of_le small (Nat.pow_le_pow_right (by decide) short)⟩
  case isFalse => exact ⟨0, rfl, Nat.pow_pos (by decide)⟩

/-- The numbers of a date fit, whatever its text is. -/
theorem date_fits (text : String) : (date text).fitsDigits = true := by
  obtain ⟨day, isDay, day'⟩ := ofBytes_small (List.length_take_le 2 text.toUTF8.toList)
  obtain ⟨month, isMonth, month'⟩ :=
    ofBytes_small (List.length_take_le 2 (text.toUTF8.toList.drop 3))
  obtain ⟨year, isYear, year'⟩ := ofBytes_small (List.length_take_le 4 (text.toUTF8.toList.drop 6))
  rw [Date.fitsDigits_iff]
  simp only [date, isDay, isMonth, isYear]
  omega

end Literal

end Pseudocode
