import Mathlib.Logic.Function.Basic
import PoolLedger.Hex

/-!
# Hexadecimal text

The decoder accepts exactly the texts with an even number of hexadecimal
digits of either case, and reads the bytes whose digits the text has in
lowercase.  Every other text of even length has a first byte that is no digit;
a character outside of ASCII starts with such a byte.
-/

namespace PoolLedger

theorem Bytes.ofText_eq_flatMap (text : String) :
    ofText text = text.toList.flatMap String.utf8EncodeChar := by
  rw [ofText, ← String.utf8Encode_toList, List.utf8Encode, List.data_toByteArray]

namespace Hex

/-- A hexadecimal digit of either case. -/
def IsDigit (char : Char) : Prop :=
  ('0' ≤ char ∧ char ≤ '9') ∨ ('a' ≤ char ∧ char ≤ 'f') ∨ ('A' ≤ char ∧ char ≤ 'F')

instance : DecidablePred IsDigit :=
  fun char => inferInstanceAs (Decidable (('0' ≤ char ∧ char ≤ '9') ∨ _ ∨ _))

/-- The halves of some bytes, the upper half of each first. -/
def nibbles (values : Bytes) : List Nat :=
  values.flatMap fun value => [value.toNat / 16, value.toNat % 16]

@[simp]
theorem nibbles_cons (value : UInt8) (rest : Bytes) :
    nibbles (value :: rest) = value.toNat / 16 :: value.toNat % 16 :: nibbles rest :=
  rfl

theorem lt_of_mem_nibbles {values : Bytes} {nibble : Nat} (member : nibble ∈ nibbles values) :
    nibble < 16 := by
  obtain ⟨value, _, isHalf⟩ := List.mem_flatMap.mp member
  have bound := value.toNat_lt
  simp only [List.mem_cons, List.not_mem_nil, or_false] at isHalf
  omega

theorem length_nibbles (values : Bytes) : (nibbles values).length = 2 * values.length := by
  induction values with
  | nil => rfl
  | cons value rest ih =>
      simp only [nibbles_cons, List.length_cons, ih]
      omega

theorem nibbles_injective : Function.Injective nibbles := by
  intro first second same
  induction first generalizing second with
  | nil =>
      cases second with
      | nil => rfl
      | cons value rest => cases same
  | cons value rest ih =>
      cases second with
      | nil => cases same
      | cons other others =>
          simp only [nibbles_cons, List.cons.injEq] at same
          obtain ⟨upper, lower, tails⟩ := same
          have values : value = other := UInt8.toNat_inj.mp (by omega)
          rw [values, ih tails]

theorem digits_eq_map_nibbles (values : Bytes) : digits values = (nibbles values).map digit := by
  induction values with
  | nil => rfl
  | cons value rest ih =>
      rw [digits, List.flatMap_cons, ← digits, ih]
      rfl

section Bytes

theorem lt_of_digitValue? {byte : UInt8} {value : Nat} (found : digitValue? byte = some value) :
    value < 16 := by
  have table : ∀ code < 256, ∀ value ∈ digitValue? (UInt8.ofNat code), value < 16 := by
    decide +kernel
  have inTable := table byte.toNat byte.toNat_lt value
  rw [UInt8.ofNat_toNat] at inTable
  exact inTable found

theorem digitValue?_of_le {byte : UInt8} (wide : 128 ≤ byte.toNat) : digitValue? byte = none := by
  have above : ¬ byte ≤ 57 ∧ ¬ byte ≤ 102 ∧ ¬ byte ≤ 70 := by
    simp only [UInt8.le_iff_toNat_le, UInt8.reduceToNat]
    omega
  simp [digitValue?, above]

/-- The byte at `position` is the first one that is no digit. -/
def FirstStray (text : Bytes) (byte : UInt8) (position : Nat) : Prop :=
  ∃ before after, text = before ++ byte :: after ∧ before.length = position ∧
    (∀ earlier ∈ before, (digitValue? earlier).isSome) ∧ digitValue? byte = none

/-- What the pairs from `position` on are read as, or the first of their bytes that is no digit. -/
theorem decodePairs_spec (position : Nat) (text : Bytes) (even : text.length % 2 = 0) :
    match decodePairs position text with
    | .ok values => text.map digitValue? = (nibbles values).map some
    | .error fault => ∃ byte index, fault = .badDigit byte (position + index) ∧
        FirstStray text byte index := by
  induction position, text using decodePairs.induct with
  | case1 position high low rest noHigh =>
      rw [decodePairs, noHigh]
      exact ⟨high, 0, rfl, [], low :: rest, rfl, rfl, by simp, noHigh⟩
  | case2 position high low rest upper noLow isHigh =>
      rw [decodePairs, isHigh, noLow]
      exact ⟨low, 1, rfl, [high], rest, rfl, rfl, by simp [isHigh], noLow⟩
  | case3 position high low rest upper lower isLow isHigh ih =>
      have upperBound := lt_of_digitValue? isHigh
      have lowerBound := lt_of_digitValue? isLow
      have restEven : rest.length % 2 = 0 := by
        simp only [List.length_cons] at even
        omega
      have read := ih restEven
      rw [decodePairs, isHigh, isLow]
      cases found : decodePairs (position + 2) rest with
      | error fault =>
          rw [found] at read
          obtain ⟨byte, index, rfl, before, after, rfl, rfl, digitsBefore, noDigit⟩ := read
          refine ⟨byte, before.length + 2, by rw [Nat.add_right_comm, Nat.add_assoc],
            high :: low :: before, after, rfl, rfl, ?_, noDigit⟩
          simpa [isHigh, isLow] using digitsBefore
      | ok values =>
          rw [found] at read
          have value : (UInt8.ofNat (16 * upper + lower)).toNat = 16 * upper + lower := by
            rw [UInt8.toNat_ofNat']
            omega
          have upperHalf : (16 * upper + lower) / 16 = upper := by omega
          have lowerHalf : (16 * upper + lower) % 16 = lower := by omega
          simp only [Except.map, List.map_cons, nibbles_cons, isHigh, isLow, read, value,
            upperHalf, lowerHalf]
  | case4 text position notPair =>
      match text, even with
      | [], _ => rfl
      | high :: low :: rest, _ => exact absurd rfl (notPair high low rest)

variable {text values : Bytes}

theorem map_digitValue?_of_decode (read : decode text = .ok values) :
    text.map digitValue? = (nibbles values).map some := by
  unfold decode at read
  split at read
  · cases read
  · rename_i notOdd
    have spec := decodePairs_spec 0 text (by omega)
    rwa [read] at spec

/-- A text is refused for its odd length, or for its first byte that is no digit. -/
theorem fault_of_decode {fault : Fault} (refused : decode text = .error fault) :
    (text.length % 2 = 1 ∧ fault = .oddLength) ∨
      (text.length % 2 = 0 ∧ ∃ byte position, fault = .badDigit byte position ∧
        FirstStray text byte position) := by
  unfold decode at refused
  split at refused
  · rename_i odd
    cases refused
    exact .inl ⟨odd, rfl⟩
  · rename_i notOdd
    have even : text.length % 2 = 0 := by omega
    have spec := decodePairs_spec 0 text even
    rw [refused] at spec
    simp only [Nat.zero_add] at spec
    exact .inr ⟨even, spec⟩

theorem even_and_digits_of_map (same : text.map digitValue? = (nibbles values).map some) :
    text.length % 2 = 0 ∧ ∀ byte ∈ text, (digitValue? byte).isSome := by
  have lengths := congrArg List.length same
  rw [List.length_map, List.length_map, length_nibbles] at lengths
  refine ⟨by omega, ?_⟩
  intro byte member
  have inMap : digitValue? byte ∈ (nibbles values).map some := same ▸ List.mem_map_of_mem member
  obtain ⟨nibble, _, isDigit⟩ := List.mem_map.mp inMap
  rw [← isDigit]
  rfl

theorem exists_decode_iff (text : Bytes) :
    (∃ values, decode text = .ok values) ↔
      text.length % 2 = 0 ∧ ∀ byte ∈ text, (digitValue? byte).isSome := by
  constructor
  · rintro ⟨values, read⟩
    exact even_and_digits_of_map (map_digitValue?_of_decode read)
  · rintro ⟨even, digits⟩
    cases read : decode text with
    | ok values => exact ⟨values, rfl⟩
    | error fault =>
        rcases fault_of_decode read with ⟨odd, _⟩ | ⟨_, byte, _, _, stray⟩
        · omega
        · obtain ⟨before, after, rfl, _, _, noDigit⟩ := stray
          have isDigit := digits byte (by simp)
          rw [noDigit] at isDigit
          cases isDigit

theorem decode_eq_ok_iff :
    decode text = .ok values ↔ text.map digitValue? = (nibbles values).map some := by
  constructor
  · exact map_digitValue?_of_decode
  · intro same
    obtain ⟨others, read⟩ := (exists_decode_iff text).mpr (even_and_digits_of_map same)
    have alike := (map_digitValue?_of_decode read).symm.trans same
    have nibblesAlike := (List.map_inj_right fun _ _ => Option.some.inj).mp alike
    rw [read, nibbles_injective nibblesAlike]

end Bytes

section Characters

variable {char : Char} {value : Nat}

theorem not_isDigit_of_le (wide : 128 ≤ char.toNat) : ¬ IsDigit char := by
  simp only [IsDigit, Char.le_def, UInt32.le_iff_toNat_le, Char.reduceVal, UInt32.reduceToNat]
  rw [Char.toNat] at wide
  omega

theorem isDigit_digit (below : value < 16) : IsDigit (digit value) := by
  have table : ∀ value < 16, IsDigit (digit value) := by decide
  exact table value below

theorem toLower_digit (below : value < 16) : (digit value).toLower = digit value := by
  have table : ∀ value < 16, (digit value).toLower = digit value := by decide
  exact table value below

theorem utf8EncodeChar_of_lt (ascii : char.toNat < 128) :
    String.utf8EncodeChar char = [UInt8.ofNat char.toNat] := by
  have small : char.val.toNat ≤ 127 := Nat.le_of_lt_succ ascii
  simp only [String.utf8EncodeChar, small, if_true]
  rfl

theorem exists_utf8EncodeChar_of_le (wide : 128 ≤ char.toNat) :
    ∃ head tail, String.utf8EncodeChar char = head :: tail ∧ 128 ≤ head.toNat := by
  have large : ¬ char.val.toNat ≤ 127 := Nat.not_le_of_lt wide
  simp only [String.utf8EncodeChar, large, if_false]
  split
  · exact ⟨_, _, rfl, by simp; omega⟩
  · split
    · exact ⟨_, _, rfl, by simp; omega⟩
    · exact ⟨_, _, rfl, by simp; omega⟩

theorem toLower_of_le (wide : 128 ≤ char.toNat) : char.toLower = char := by
  have notUpper : ¬ (char.val ≥ 'A'.val ∧ char.val ≤ 'Z'.val) := by
    simp only [ge_iff_le, UInt32.le_iff_toNat_le, Char.reduceVal, UInt32.reduceToNat]
    rw [Char.toNat] at wide
    omega
  exact dif_neg notUpper

/-- An ASCII character is one byte, which is the digit that its lowercase form shows. -/
theorem digitValue?_ofNat_toNat (ascii : char.toNat < 128) (below : value < 16) :
    digitValue? (UInt8.ofNat char.toNat) = some value ↔ char.toLower = digit value := by
  have table : ∀ code < 128, ∀ value < 16,
      digitValue? (UInt8.ofNat code) = some value ↔ (Char.ofNat code).toLower = digit value := by
    decide +kernel
  rw [table char.toNat ascii value below, Char.ofNat_toNat]

theorem isSome_digitValue?_ofNat_toNat (ascii : char.toNat < 128) :
    (digitValue? (UInt8.ofNat char.toNat)).isSome ↔ IsDigit char := by
  have table : ∀ code < 128,
      (digitValue? (UInt8.ofNat code)).isSome ↔ IsDigit (Char.ofNat code) := by
    decide +kernel
  rw [table char.toNat ascii, Char.ofNat_toNat]

theorem isSome_digitValue?_iff (char : Char) :
    (∀ byte ∈ String.utf8EncodeChar char, (digitValue? byte).isSome) ↔ IsDigit char := by
  rcases Nat.lt_or_ge char.toNat 128 with ascii | wide
  · rw [utf8EncodeChar_of_lt ascii, List.forall_mem_singleton, isSome_digitValue?_ofNat_toNat ascii]
  · obtain ⟨head, tail, encoded, wideHead⟩ := exists_utf8EncodeChar_of_le wide
    have notDigit := not_isDigit_of_le wide
    simp [encoded, digitValue?_of_le wideHead, notDigit]

theorem length_utf8_of_digits {chars : List Char} (digits : ∀ char ∈ chars, IsDigit char) :
    (chars.flatMap String.utf8EncodeChar).length = chars.length := by
  induction chars with
  | nil => rfl
  | cons head rest ih =>
      obtain ⟨headDigit, restDigits⟩ := List.forall_mem_cons.mp digits
      have ascii : head.toNat < 128 :=
        Nat.lt_of_not_le fun wide => not_isDigit_of_le wide headDigit
      rw [List.flatMap_cons, List.length_append, ih restDigits, utf8EncodeChar_of_lt ascii,
        List.length_singleton, List.length_cons, Nat.add_comm]

theorem map_digitValue?_utf8_iff (chars : List Char) {values : List Nat}
    (below : ∀ value ∈ values, value < 16) :
    (chars.flatMap String.utf8EncodeChar).map digitValue? = values.map some ↔
      chars.map Char.toLower = values.map digit := by
  induction chars generalizing values with
  | nil => cases values <;> simp
  | cons head rest ih =>
      cases values with
      | nil =>
          rcases Nat.lt_or_ge head.toNat 128 with ascii | wide
          · simp [utf8EncodeChar_of_lt ascii]
          · obtain ⟨first, tail, encoded, _⟩ := exists_utf8EncodeChar_of_le wide
            simp [encoded]
      | cons value others =>
          obtain ⟨valueBelow, othersBelow⟩ := List.forall_mem_cons.mp below
          rcases Nat.lt_or_ge head.toNat 128 with ascii | wide
          · simp [utf8EncodeChar_of_lt ascii, digitValue?_ofNat_toNat ascii valueBelow,
              ← ih othersBelow]
          · obtain ⟨first, tail, encoded, wideFirst⟩ := exists_utf8EncodeChar_of_le wide
            have notDigit : head ≠ digit value :=
              fun same => not_isDigit_of_le wide (same ▸ isDigit_digit valueBelow)
            simp [encoded, digitValue?_of_le wideFirst, toLower_of_le wide, notDigit]

/-- The bytes that a text is read as have its lowercase characters for digits. -/
theorem decode_utf8_eq_ok_iff {chars : List Char} {values : Bytes} :
    decode (chars.flatMap String.utf8EncodeChar) = .ok values ↔
      chars.map Char.toLower = digits values := by
  rw [decode_eq_ok_iff, map_digitValue?_utf8_iff chars (fun _ => lt_of_mem_nibbles),
    digits_eq_map_nibbles]

/-- A text is read exactly if it is an even number of digits. -/
theorem exists_decode_utf8_iff (chars : List Char) :
    (∃ values, decode (chars.flatMap String.utf8EncodeChar) = .ok values) ↔
      chars.length % 2 = 0 ∧ ∀ char ∈ chars, IsDigit char := by
  rw [exists_decode_iff]
  simp only [List.forall_mem_flatMap, isSome_digitValue?_iff]
  constructor
  · rintro ⟨even, digits⟩
    exact ⟨length_utf8_of_digits digits ▸ even, digits⟩
  · rintro ⟨even, digits⟩
    exact ⟨(length_utf8_of_digits digits).symm ▸ even, digits⟩

theorem map_toLower_digits (values : Bytes) :
    (digits values).map Char.toLower = digits values := by
  rw [digits_eq_map_nibbles, List.map_map]
  apply List.map_congr_left
  intro nibble member
  exact toLower_digit (lt_of_mem_nibbles member)

theorem isDigit_of_mem_digits {values : Bytes} (member : char ∈ digits values) : IsDigit char := by
  rw [digits_eq_map_nibbles] at member
  obtain ⟨nibble, inNibbles, rfl⟩ := List.mem_map.mp member
  exact isDigit_digit (lt_of_mem_nibbles inNibbles)

theorem length_digits (values : Bytes) : (digits values).length = 2 * values.length := by
  rw [digits_eq_map_nibbles, List.length_map, length_nibbles]

theorem digits_injective : Function.Injective digits := by
  intro first second same
  have readFirst := decode_utf8_eq_ok_iff.mpr (map_toLower_digits first)
  have readSecond := decode_utf8_eq_ok_iff.mpr (map_toLower_digits second)
  rw [same, readSecond] at readFirst
  exact (Except.ok.inj readFirst).symm

end Characters

end Hex

end PoolLedger
