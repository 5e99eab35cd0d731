import Mathlib.Data.List.Count
import Pseudocode.Text.Bytes

/-! # Texts as bytes

Every text is spelled by its UTF-8 bytes: reading them gives the text back. Whatever the bytes are,
they are read in units: the bytes of one character, or a byte that belongs to no character. No unit
goes on over a line feed, so bytes are read line by line. -/

namespace Pseudocode.Text

def utf8 (cs : List Char) : List UInt8 :=
  cs.flatMap String.utf8EncodeChar

/-- The characters up to U+10FFFF, without the surrogates. -/
theorem toNat_valid (c : Char) : c.toNat < 0xD800 ∨ (0xDFFF < c.toNat ∧ c.toNat < 0x110000) :=
  c.valid

theorem isContinuation_iff {b : UInt8} :
    isContinuation b = true ↔ 0x80 ≤ b.toNat ∧ b.toNat ≤ 0xBF := by
  simp [isContinuation, UInt8.le_iff_toNat_le]

section Sequences

variable {a b c d : UInt8} {rest : List UInt8}

theorem decode_ascii (low : a < 0x80) (rest : List UInt8) :
    decode (a :: rest) = Char.ofNat a.toNat :: decode rest := by
  rw [decode.eq_def]
  dsimp only
  rw [if_pos low]

theorem decode_two (first : 0xC2 ≤ a.toNat ∧ a.toNat ≤ 0xDF) (second : isContinuation b = true) :
    decode (a :: b :: rest) = Char.ofNat (a.toNat % 32 * 64 + payload b) :: decode rest := by
  have high : ¬ a < 0x80 := by simp [UInt8.lt_iff_toNat_lt]; omega
  have two : (0xC2 ≤ a && a ≤ 0xDF) = true := by simpa [UInt8.le_iff_toNat_le] using first
  rw [decode, if_neg high, if_pos two]
  simp only [second, if_true]

theorem decode_three (first : 0xE0 ≤ a.toNat ∧ a.toNat ≤ 0xEF) (second : mayFollow a b = true)
    (third : isContinuation c = true) : decode (a :: b :: c :: rest) =
      Char.ofNat ((a.toNat % 16 * 64 + payload b) * 64 + payload c) :: decode rest := by
  have high : ¬ a < 0x80 := by simp [UInt8.lt_iff_toNat_lt]; omega
  have notTwo : ¬ (0xC2 ≤ a && a ≤ 0xDF) = true := by simp [UInt8.le_iff_toNat_le]; omega
  have three : (0xE0 ≤ a && a ≤ 0xEF) = true := by simpa [UInt8.le_iff_toNat_le] using first
  rw [decode, if_neg high, if_neg notTwo, if_pos three]
  simp only [second, third, Bool.and_self, if_true]

theorem decode_four (first : 0xF0 ≤ a.toNat ∧ a.toNat ≤ 0xF4) (second : mayFollow a b = true)
    (third : isContinuation c = true) (fourth : isContinuation d = true) :
    decode (a :: b :: c :: d :: rest) =
      Char.ofNat (((a.toNat % 8 * 64 + payload b) * 64 + payload c) * 64 + payload d) ::
        decode rest := by
  have high : ¬ a < 0x80 := by simp [UInt8.lt_iff_toNat_lt]; omega
  have notTwo : ¬ (0xC2 ≤ a && a ≤ 0xDF) = true := by simp [UInt8.le_iff_toNat_le]; omega
  have notThree : ¬ (0xE0 ≤ a && a ≤ 0xEF) = true := by simp [UInt8.le_iff_toNat_le]; omega
  have four : (0xF0 ≤ a && a ≤ 0xF4) = true := by simpa [UInt8.le_iff_toNat_le] using first
  rw [decode, if_neg high, if_neg notTwo, if_neg notThree, if_pos four]
  simp only [second, third, fourth, Bool.and_self, if_true]

/-- The bounds on a second byte that keep out overlong forms, surrogates and what is too large. -/
theorem mayFollow_iff : mayFollow a b = true ↔ 0x80 ≤ b.toNat ∧ b.toNat ≤ 0xBF ∧
    (a.toNat = 0xE0 → 0xA0 ≤ b.toNat) ∧ (a.toNat = 0xED → b.toNat ≤ 0x9F) ∧
    (a.toNat = 0xF0 → 0x90 ≤ b.toNat) ∧ (a.toNat = 0xF4 → b.toNat ≤ 0x8F) := by
  unfold mayFollow
  simp only [← UInt8.toNat_inj]
  split_ifs <;> simp_all [isContinuation_iff, UInt8.le_iff_toNat_le] <;> omega

end Sequences

theorem toNat_byte {n : Nat} (small : n < 256) : (UInt8.ofNat n).toNat = n := by
  rw [UInt8.toNat_ofNat', Nat.mod_eq_of_lt small]

theorem continuation_byte {n : Nat} (small : n < 64) :
    isContinuation (UInt8.ofNat (n + 128)) = true ∧ payload (UInt8.ofNat (n + 128)) = n := by
  have number := toNat_byte (n := n + 128) (by omega)
  rw [isContinuation_iff, payload, number]
  omega

theorem decode_utf8EncodeChar (c : Char) (rest : List UInt8) :
    decode (String.utf8EncodeChar c ++ rest) = c :: decode rest := by
  have same : Char.ofNat c.toNat = c := Char.ofNat_toNat c
  have valid := toNat_valid c
  rw [String.utf8EncodeChar, show c.val.toNat = c.toNat from rfl]
  generalize c.toNat = v at same valid
  split_ifs with one two three
  · have number := toNat_byte (n := v) (by omega)
    have low : UInt8.ofNat v < 0x80 := by
      rw [UInt8.lt_iff_toNat_lt, number]
      exact Nat.lt_succ_of_le one
    rw [List.singleton_append, decode_ascii low, number, same]
  · have number := toNat_byte (n := v / 64 % 32 + 192) (by omega)
    obtain ⟨second, payload₂⟩ := continuation_byte (n := v % 64) (by omega)
    simp only [List.cons_append, List.nil_append]
    rw [decode_two (by omega) second, number, payload₂]
    rw [show (v / 64 % 32 + 192) % 32 * 64 + v % 64 = v by omega, same]
  · have number := toNat_byte (n := v / 4096 % 16 + 224) (by omega)
    have number₂ := toNat_byte (n := v / 64 % 64 + 128) (by omega)
    obtain ⟨-, payload₂⟩ := continuation_byte (n := v / 64 % 64) (by omega)
    obtain ⟨third, payload₃⟩ := continuation_byte (n := v % 64) (by omega)
    have second :
        mayFollow (UInt8.ofNat (v / 4096 % 16 + 224)) (UInt8.ofNat (v / 64 % 64 + 128)) := by
      rw [mayFollow_iff, number, number₂]
      omega
    simp only [List.cons_append, List.nil_append]
    rw [decode_three (by omega) second third, number, payload₂, payload₃]
    rw [show ((v / 4096 % 16 + 224) % 16 * 64 + v / 64 % 64) * 64 + v % 64 = v by omega, same]
  · have number := toNat_byte (n := v / 262144 % 8 + 240) (by omega)
    have number₂ := toNat_byte (n := v / 4096 % 64 + 128) (by omega)
    obtain ⟨-, payload₂⟩ := continuation_byte (n := v / 4096 % 64) (by omega)
    obtain ⟨third, payload₃⟩ := continuation_byte (n := v / 64 % 64) (by omega)
    obtain ⟨fourth, payload₄⟩ := continuation_byte (n := v % 64) (by omega)
    have second :
        mayFollow (UInt8.ofNat (v / 262144 % 8 + 240)) (UInt8.ofNat (v / 4096 % 64 + 128)) := by
      rw [mayFollow_iff, number, number₂]
      omega
    simp only [List.cons_append, List.nil_append]
    rw [decode_four (by omega) second third fourth, number, payload₂, payload₃, payload₄]
    rw [show (((v / 262144 % 8 + 240) % 8 * 64 + v / 4096 % 64) * 64 + v / 64 % 64) * 64 +
      v % 64 = v by omega, same]

theorem decode_utf8_append (cs : List Char) (rest : List UInt8) :
    decode (utf8 cs ++ rest) = cs ++ decode rest := by
  induction cs with
  | nil => rfl
  | cons c cs ih =>
    rw [utf8, List.flatMap_cons, List.append_assoc, decode_utf8EncodeChar, List.cons_append]
    exact congrArg (c :: ·) ih

theorem decode_utf8 (cs : List Char) : decode (utf8 cs) = cs := by
  have read := decode_utf8_append cs []
  rwa [List.append_nil, decode, List.append_nil] at read

/-! ## Units -/

theorem toNat_of_newline {n : Nat} (same : Char.ofNat n = '\n') : n = 10 := by
  unfold Char.ofNat at same
  by_cases valid : n.isValidChar
  · rw [dif_pos valid] at same
    exact congrArg Char.toNat same
  · rw [dif_neg valid] at same
    exact absurd same (by decide)

/-- The bytes are read as the character, whatever follows them. -/
structure Spells (bytes : List UInt8) (c : Char) : Prop where
  some : bytes ≠ []
  decode : ∀ rest, decode (bytes ++ rest) = c :: decode rest
  newlines : bytes.count 10 = [c].count '\n'

theorem Spells.of_ascii {a : UInt8} (low : a < 0x80) : Spells [a] (Char.ofNat a.toNat) where
  some := nofun
  decode := decode_ascii low
  newlines := by
    have same : Char.ofNat a.toNat = '\n' ↔ a = 10 := by
      constructor
      · exact fun same => UInt8.toNat_inj.mp (toNat_of_newline same)
      · rintro rfl
        rfl
    simp only [List.count_singleton, beq_iff_eq, same]

/-- Bytes and characters beyond ASCII are no line feeds. -/
theorem Spells.of_high {bytes : List UInt8} {n : Nat} (some : bytes ≠ [])
    (reads : ∀ rest, Text.decode (bytes ++ rest) = Char.ofNat n :: Text.decode rest)
    (high : ∀ b ∈ bytes, 0x80 ≤ b.toNat) (large : 0x80 ≤ n) : Spells bytes (Char.ofNat n) where
  some := some
  decode := reads
  newlines := by
    have other : Char.ofNat n ≠ '\n' := by
      intro same
      have := toNat_of_newline same
      omega
    rw [List.count_eq_zero_of_not_mem, List.count_eq_zero_of_not_mem]
    · simpa using other.symm
    · exact fun member => absurd (high 10 member) (by decide)

/-- The byte is part of no well-formed sequence, whatever stands behind `rest`. -/
structure Alone (a : UInt8) (rest : List UInt8) : Prop where
  high : ¬ a < 0x80
  two : (0xC2 ≤ a && a ≤ 0xDF) = true → ∀ b more, rest = b :: more → isContinuation b = false
  three : (0xE0 ≤ a && a ≤ 0xEF) = true → ∀ b c more, rest = b :: c :: more →
    (mayFollow a b && isContinuation c) = false
  four : (0xF0 ≤ a && a ≤ 0xF4) = true → ∀ b c d more, rest = b :: c :: d :: more →
    (mayFollow a b && isContinuation c && isContinuation d) = false

theorem Alone.decode {a : UInt8} {rest : List UInt8} (alone : Alone a rest) :
    decode (a :: rest) = replacement :: decode rest := by
  rw [Text.decode.eq_def]
  dsimp only
  rw [if_neg alone.high]
  split
  case isTrue isTwo =>
    split
    case h_1 b more =>
      have := alone.two isTwo b more rfl
      simp [this]
    case h_2 => rw [Text.decode]
  split
  case isTrue isThree =>
    split
    case h_1 b c more =>
      have := alone.three isThree b c more rfl
      simp [this]
    case h_2 => rfl
  split
  case isTrue isFour =>
    split
    case h_1 b c d more =>
      have := alone.four isFour b c d more rfl
      simp [this]
    case h_2 => rfl
  case isFalse => rfl

theorem Alone.part {a : UInt8} {as bs : List UInt8} (alone : Alone a (as ++ bs)) : Alone a as where
  high := alone.high
  two isTwo b more same := alone.two isTwo b (more ++ bs) (by simp [same])
  three isThree b c more same := alone.three isThree b c (more ++ bs) (by simp [same])
  four isFour b c d more same := alone.four isFour b c d (more ++ bs) (by simp [same])

theorem isContinuation_low {b : UInt8} (low : b < 0x80) : isContinuation b = false := by
  rw [Bool.eq_false_iff, ne_eq, isContinuation_iff]
  rw [UInt8.lt_iff_toNat_lt] at low
  exact fun follows => absurd follows.1 (Nat.not_le.mpr low)

theorem mayFollow_low {b : UInt8} (low : b < 0x80) (a : UInt8) : mayFollow a b = false := by
  rw [Bool.eq_false_iff, ne_eq, mayFollow_iff]
  rw [UInt8.lt_iff_toNat_lt] at low
  exact fun follows => absurd follows.1 (Nat.not_le.mpr low)

theorem Alone.ascii {a x : UInt8} {as : List UInt8} (alone : Alone a as) (low : x < 0x80)
    (bs : List UInt8) : Alone a (as ++ x :: bs) where
  high := alone.high
  two isTwo b more same := by
    rcases as with _ | ⟨b', as⟩ <;> cases same
    · exact isContinuation_low low
    · exact alone.two isTwo b as rfl
  three isThree b c more same := by
    rcases as with _ | ⟨b', _ | ⟨c', as⟩⟩ <;> cases same
    · rw [mayFollow_low low, Bool.false_and]
    · rw [isContinuation_low low, Bool.and_false]
    · exact alone.three isThree b c as rfl
  four isFour b c d more same := by
    rcases as with _ | ⟨b', _ | ⟨c', _ | ⟨d', as⟩⟩⟩ <;> cases same
    · rw [mayFollow_low low, Bool.false_and, Bool.false_and]
    · rw [isContinuation_low low, Bool.and_false, Bool.false_and]
    · rw [isContinuation_low low, Bool.and_false]
    · exact alone.four isFour b c d as rfl

/-- The first byte starts a unit, or it stands alone. -/
theorem decode_cons (a : UInt8) (rest : List UInt8) :
    (∃ bytes more c, a :: rest = bytes ++ more ∧ Spells bytes c) ∨ Alone a rest := by
  by_cases low : a < 0x80
  · exact .inl ⟨[a], rest, _, rfl, .of_ascii low⟩
  by_cases two :
      ∃ b more, (0xC2 ≤ a && a ≤ 0xDF) = true ∧ rest = b :: more ∧ isContinuation b = true
  · obtain ⟨b, more, first, rfl, second⟩ := two
    have first : 0xC2 ≤ a.toNat ∧ a.toNat ≤ 0xDF := by simpa [UInt8.le_iff_toNat_le] using first
    have bound := isContinuation_iff.mp second
    exact .inl ⟨[a, b], more, _, rfl, .of_high nofun (fun _ => decode_two first second)
      (by simp; omega) (by omega)⟩
  by_cases three : ∃ b c more, (0xE0 ≤ a && a ≤ 0xEF) = true ∧ rest = b :: c :: more ∧
      (mayFollow a b && isContinuation c) = true
  · obtain ⟨b, c, more, first, rfl, others⟩ := three
    obtain ⟨second, third⟩ := Bool.and_eq_true_iff.mp others
    have first : 0xE0 ≤ a.toNat ∧ a.toNat ≤ 0xEF := by simpa [UInt8.le_iff_toNat_le] using first
    have bound := mayFollow_iff.mp second
    have bound' := isContinuation_iff.mp third
    exact .inl ⟨[a, b, c], more, _, rfl, .of_high nofun (fun _ => decode_three first second third)
      (by simp; omega) (by simp only [payload]; omega)⟩
  by_cases four : ∃ b c d more, (0xF0 ≤ a && a ≤ 0xF4) = true ∧ rest = b :: c :: d :: more ∧
      (mayFollow a b && isContinuation c && isContinuation d) = true
  · obtain ⟨b, c, d, more, first, rfl, others⟩ := four
    obtain ⟨others, fourth⟩ := Bool.and_eq_true_iff.mp others
    obtain ⟨second, third⟩ := Bool.and_eq_true_iff.mp others
    have first : 0xF0 ≤ a.toNat ∧ a.toNat ≤ 0xF4 := by simpa [UInt8.le_iff_toNat_le] using first
    have bound := mayFollow_iff.mp second
    have bound' := isContinuation_iff.mp third
    have bound'' := isContinuation_iff.mp fourth
    exact .inl ⟨[a, b, c, d], more, _, rfl, .of_high nofun
      (fun _ => decode_four first second third fourth) (by simp; omega)
      (by simp only [payload]; omega)⟩
  refine .inr ⟨low, fun isTwo b more same => ?_, fun isThree b c more same => ?_,
    fun isFour b c d more same => ?_⟩ <;> rw [Bool.eq_false_iff] <;> intro follows
  · exact two ⟨b, more, isTwo, same, follows⟩
  · exact three ⟨b, c, more, isThree, same, follows⟩
  · exact four ⟨b, c, d, more, isFour, same, follows⟩

theorem units_induction {P : List UInt8 → Prop} (nil : P [])
    (unit : ∀ bytes more c, Spells bytes c → P more → P (bytes ++ more))
    (alone : ∀ a rest, Alone a rest → P rest → P (a :: rest)) (bytes : List UInt8) : P bytes := by
  induction length : bytes.length using Nat.strongRecOn generalizing bytes with
  | ind n ih =>
  cases bytes with
  | nil => exact nil
  | cons a rest =>
    rcases decode_cons a rest with ⟨bytes, more, c, same, spells⟩ | isAlone
    · rw [same] at length ⊢
      have := List.length_pos_iff.mpr spells.some
      rw [List.length_append] at length
      exact unit bytes more c spells (ih more.length (by omega) more rfl)
    · exact alone a rest isAlone (ih rest.length (by simp [← length]) rest rfl)

/-- The parts of a text are spelled by parts of its bytes. -/
theorem decode_split {source : List UInt8} {xs ys : List Char} (same : decode source = xs ++ ys) :
    ∃ as bs, source = as ++ bs ∧ decode as = xs ∧ decode bs = ys := by
  induction source using units_induction generalizing xs with
  | nil =>
    rw [decode] at same
    obtain ⟨rfl, rfl⟩ := List.append_eq_nil_iff.mp same.symm
    exact ⟨[], [], rfl, by rw [decode], by rw [decode]⟩
  | unit bytes more c spells ih =>
    cases xs with
    | nil => exact ⟨[], bytes ++ more, rfl, by rw [decode], same⟩
    | cons x xs =>
      rw [spells.decode] at same
      obtain ⟨rfl, isMore⟩ := List.cons.inj same
      obtain ⟨as, bs, rfl, isFirst, isLast⟩ := ih isMore
      exact ⟨bytes ++ as, bs, by rw [List.append_assoc], by rw [spells.decode, isFirst], isLast⟩
  | alone a rest isAlone ih =>
    cases xs with
    | nil => exact ⟨[], a :: rest, rfl, by rw [decode], same⟩
    | cons x xs =>
      rw [isAlone.decode] at same
      obtain ⟨rfl, isMore⟩ := List.cons.inj same
      obtain ⟨as, bs, rfl, isFirst, isLast⟩ := ih isMore
      exact ⟨a :: as, bs, rfl, by rw [isAlone.part.decode, isFirst], isLast⟩

/-! ## Lines -/

/-- No unit goes on over an ASCII character. -/
theorem decode_append {x : UInt8} (ascii : x < 0x80) (as bs : List UInt8) :
    decode (as ++ x :: bs) = decode as ++ Char.ofNat x.toNat :: decode bs := by
  induction as using units_induction with
  | nil => rw [List.nil_append, decode_ascii ascii, decode, List.nil_append]
  | unit bytes more c spells ih =>
    rw [List.append_assoc, spells.decode, spells.decode, ih, List.cons_append]
  | alone a rest isAlone ih =>
    rw [List.cons_append, (isAlone.ascii ascii bs).decode, isAlone.decode, ih, List.cons_append]

theorem decode_line (as bs : List UInt8) :
    decode (as ++ 10 :: bs) = decode as ++ '\n' :: decode bs :=
  decode_append (by decide) as bs

theorem count_decode (bytes : List UInt8) : (decode bytes).count '\n' = bytes.count 10 := by
  induction bytes using units_induction with
  | nil => rw [decode]; rfl
  | unit bytes more c spells ih =>
    rw [spells.decode, List.count_append, spells.newlines, ← ih, ← List.count_append]
    rfl
  | alone a rest isAlone ih =>
    have other : a ≠ 10 := by
      rintro rfl
      exact isAlone.high (by decide)
    rw [isAlone.decode, List.count_cons_of_ne (by decide), List.count_cons_of_ne other, ih]

/-! ## Bytes of a string -/

theorem toList_loop (bytes : ByteArray) (i : Nat) (done : List UInt8) :
    ByteArray.toList.loop bytes i done = done.reverse ++ bytes.data.toList.drop i := by
  fun_induction ByteArray.toList.loop bytes i done with
  | case1 i done more ih =>
    have inside : i < bytes.data.toList.length := more
    have here : bytes.get! i = bytes.data.toList[i] := by
      rw [ByteArray.get!, getElem!_pos bytes.data i more, Array.getElem_toList]
    rw [ih, List.reverse_cons, List.append_assoc, List.singleton_append, here,
      List.getElem_cons_drop]
  | case2 i done last =>
    have outside : bytes.data.toList.length ≤ i := Nat.le_of_not_lt last
    rw [List.drop_eq_nil_of_le outside, List.append_nil]

theorem toUTF8_ofList (cs : List Char) : (String.ofList cs).toUTF8.toList = utf8 cs := by
  rw [String.toUTF8_eq_toByteArray, String.toByteArray_ofList, ByteArray.toList, toList_loop,
    List.utf8Encode, List.toList_data_toByteArray]
  rfl

/-! ## The order of texts -/

theorem cons_byte_lt {n k : Nat} {xs ys : List UInt8} (small : n < 256) (small' : k < 256) :
    UInt8.ofNat n :: xs < UInt8.ofNat k :: ys ↔ n < k ∨ n = k ∧ xs < ys := by
  rw [List.cons_lt_cons_iff, UInt8.lt_iff_toNat_lt, ← UInt8.toNat_inj, toNat_byte small,
    toNat_byte small']

/-- A smaller character has smaller bytes, whatever follows the two. -/
theorem utf8EncodeChar_append_lt {c d : Char} (lt : c < d) (xs ys : List UInt8) :
    String.utf8EncodeChar c ++ xs < String.utf8EncodeChar d ++ ys := by
  have bound : d.toNat < 0x110000 := by
    have valid := toNat_valid d
    omega
  have order : c.toNat < d.toNat := lt
  rw [String.utf8EncodeChar, String.utf8EncodeChar, show c.val.toNat = c.toNat from rfl,
    show d.val.toNat = d.toNat from rfl]
  generalize c.toNat = v at order
  generalize d.toNat = w at bound order
  have high : v / 262144 ≤ w / 262144 := Nat.div_le_div_right (Nat.le_of_lt order)
  have middle : v / 4096 ≤ w / 4096 := Nat.div_le_div_right (Nat.le_of_lt order)
  have low : v / 64 ≤ w / 64 := Nat.div_le_div_right (Nat.le_of_lt order)
  split_ifs
  all_goals
    simp (disch := omega) only [List.cons_append, List.nil_append, cons_byte_lt,
      Nat.mod_eq_of_lt]
    omega

theorem utf8_lt {cs ds : List Char} (lt : cs < ds) : utf8 cs < utf8 ds := by
  induction cs generalizing ds with
  | nil =>
    cases ds with
    | nil => cases lt
    | cons d ds =>
      rw [utf8, utf8, List.flatMap_cons, List.flatMap_nil]
      cases bytes : String.utf8EncodeChar d with
      | nil => exact (String.utf8EncodeChar_ne_nil bytes).elim
      | cons b bs => exact List.nil_lt_cons _ _
  | cons c cs ih =>
    cases ds with
    | nil => cases lt
    | cons d ds =>
      rw [utf8, utf8, List.flatMap_cons, List.flatMap_cons]
      cases List.cons_lt_cons_iff.mp lt with
      | inl lt => exact utf8EncodeChar_append_lt lt _ _
      | inr both =>
        rw [both.1]
        exact List.append_left_lt (ih both.2)

/-- Strings are ordered as their bytes are. -/
theorem toUTF8_lt {s t : String} (lt : s < t) : s.toUTF8.toList < t.toUTF8.toList := by
  have bytes := utf8_lt (show s.toList < t.toList from lt)
  rwa [← toUTF8_ofList, ← toUTF8_ofList, String.ofList_toList, String.ofList_toList] at bytes

end Pseudocode.Text
