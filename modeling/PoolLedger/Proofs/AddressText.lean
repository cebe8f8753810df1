import PoolLedger.Address
import PoolLedger.Proofs.HexText

/-!
# The text of an address

A text spells an address if what follows an optional `0x` is 66 hexadecimal
digits.  The lowercase form of these digits is the text that is shown for the
address, so two texts spell one address exactly if they differ in the tag and
in the letter case only.
-/

namespace PoolLedger

namespace Address

/-- Some characters without a leading `0x`. -/
def dropTagChars : List Char → List Char
  | '0' :: 'x' :: rest => rest
  | chars => chars

/-- The characters of a text without one leading `0x`. -/
def untagged (text : String) : List Char :=
  dropTagChars text.toList

@[simp]
theorem untagged_tagged (rest : List Char) : untagged ("0x" ++ String.ofList rest) = rest := by
  rw [untagged, String.toList_append, String.toList_ofList]
  simp [dropTagChars]

theorem untagged_of_digits {chars : List Char} (digits : ∀ char ∈ chars, Hex.IsDigit char) :
    untagged (String.ofList chars) = chars := by
  rw [untagged, String.toList_ofList]
  unfold dropTagChars
  split
  · exact absurd (digits 'x' (by simp)) (by decide)
  · rfl

/-- Where the bytes of a text start with an ASCII byte, the text starts with that character. -/
theorem eq_of_utf8_eq_cons {chars : List Char} (char : Char) {rest : Bytes}
    (ascii : char.toNat < 128)
    (encoded : chars.flatMap String.utf8EncodeChar = UInt8.ofNat char.toNat :: rest) :
    ∃ tail, chars = char :: tail ∧ tail.flatMap String.utf8EncodeChar = rest := by
  cases chars with
  | nil => cases encoded
  | cons head tail =>
      rw [List.flatMap_cons] at encoded
      rcases Nat.lt_or_ge head.toNat 128 with headAscii | wide
      · rw [Hex.utf8EncodeChar_of_lt headAscii, List.singleton_append, List.cons.injEq] at encoded
        have codes := congrArg UInt8.toNat encoded.1
        rw [UInt8.toNat_ofNat', UInt8.toNat_ofNat'] at codes
        have same : head.toNat = char.toNat := by omega
        exact ⟨tail, by rw [Char.toNat_inj.mp same], encoded.2⟩
      · obtain ⟨first, others, isHead, wideFirst⟩ := Hex.exists_utf8EncodeChar_of_le wide
        rw [isHead, List.cons_append, List.cons.injEq] at encoded
        have codes := congrArg UInt8.toNat encoded.1
        rw [UInt8.toNat_ofNat'] at codes
        omega

theorem dropTag_utf8 (chars : List Char) :
    dropTag (chars.flatMap String.utf8EncodeChar) =
      (dropTagChars chars).flatMap String.utf8EncodeChar := by
  unfold dropTag
  split
  · rename_i rest encoded
    obtain ⟨tail, rfl, tailEncoded⟩ := eq_of_utf8_eq_cons '0' (by decide) encoded
    obtain ⟨others, rfl, isRest⟩ := eq_of_utf8_eq_cons 'x' (by decide) tailEncoded
    exact isRest.symm
  · rename_i noTag
    unfold dropTagChars
    split
    · rename_i rest
      exact absurd rfl (noTag (rest.flatMap String.utf8EncodeChar))
    · rfl

theorem dropTag_ofText (text : String) :
    dropTag (Bytes.ofText text) = (untagged text).flatMap String.utf8EncodeChar := by
  rw [Bytes.ofText_eq_flatMap, dropTag_utf8, untagged]

section Parse

variable {text : String} {address : Address}

theorem parse_of_decode {bytes : Bytes}
    (read : Hex.decode ((untagged text).flatMap String.utf8EncodeChar) = .ok bytes) :
    parse text = ofBytes bytes := by
  rw [parse, dropTag_ofText, read]

theorem parse_of_fault {fault : Hex.Fault}
    (refused : Hex.decode ((untagged text).flatMap String.utf8EncodeChar) = .error fault) :
    parse text = .error (.invalidHex fault) := by
  rw [parse, dropTag_ofText, refused]

/-- What follows the tag of a text is either an even number of digits, and they are the digits of
some bytes, or it is refused. -/
theorem decode_cases (text : String) :
    (∃ bytes, parse text = ofBytes bytes ∧ (untagged text).length = 2 * bytes.length ∧
        ∀ char ∈ untagged text, Hex.IsDigit char) ∨
      (∃ fault, parse text = .error (.invalidHex fault)) ∧
        ¬ ((untagged text).length % 2 = 0 ∧ ∀ char ∈ untagged text, Hex.IsDigit char) := by
  rw [← Hex.exists_decode_utf8_iff]
  cases read : Hex.decode ((untagged text).flatMap String.utf8EncodeChar) with
  | ok bytes =>
      have lengths := congrArg List.length (Hex.decode_utf8_eq_ok_iff.mp read)
      rw [List.length_map, Hex.length_digits] at lengths
      exact .inl ⟨bytes, parse_of_decode read, lengths,
        ((Hex.exists_decode_utf8_iff _).mp ⟨bytes, read⟩).2⟩
  | error fault => exact .inr ⟨⟨fault, parse_of_fault read⟩, by simp⟩

theorem parse_eq_ok_iff :
    parse text = .ok address ↔
      (untagged text).map Char.toLower = Hex.digits address.bytes := by
  rw [← Hex.decode_utf8_eq_ok_iff]
  constructor
  · intro isAddress
    cases read : Hex.decode ((untagged text).flatMap String.utf8EncodeChar) with
    | error fault =>
        rw [parse_of_fault read] at isAddress
        cases isAddress
    | ok bytes =>
        rw [parse_of_decode read] at isAddress
        rw [bytes_of_ofBytes isAddress]
  · intro read
    rw [parse_of_decode read, ofBytes_bytes]

theorem exists_parse_eq_ok_iff (text : String) :
    (∃ address, parse text = .ok address) ↔
      (untagged text).length = 66 ∧ ∀ char ∈ untagged text, Hex.IsDigit char := by
  rcases decode_cases text with ⟨bytes, read, lengths, digits⟩ | ⟨⟨fault, refused⟩, notDigits⟩
  · rw [read, ofBytes]
    split
    · rename_i length_eq
      exact iff_of_true ⟨⟨bytes, length_eq⟩, rfl⟩ ⟨by omega, digits⟩
    · rename_i otherLength
      simp only [reduceCtorEq, exists_false, false_iff, not_and]
      omega
  · simp only [refused, reduceCtorEq, exists_false, false_iff]
    rintro ⟨length_eq, digits⟩
    exact notDigits ⟨by rw [length_eq], digits⟩

theorem parse_eq_invalidLength_iff (text : String) (actual : Nat) :
    parse text = .error (.invalidLength actual) ↔
      (untagged text).length = 2 * actual ∧ actual ≠ 33 ∧
        ∀ char ∈ untagged text, Hex.IsDigit char := by
  rcases decode_cases text with ⟨bytes, read, lengths, digits⟩ | ⟨⟨fault, refused⟩, notDigits⟩
  · rw [read, ofBytes]
    split
    · rename_i length_eq
      simp only [reduceCtorEq, false_iff, not_and]
      omega
    · rename_i otherLength
      simp only [Except.error.injEq, AddressError.invalidLength.injEq]
      constructor
      · rintro rfl
        exact ⟨lengths, otherLength, digits⟩
      · rintro ⟨sameLength, _, _⟩
        omega
  · simp only [refused, Except.error.injEq, reduceCtorEq, false_iff]
    rintro ⟨sameLength, _, digits⟩
    exact notDigits ⟨by omega, digits⟩

theorem exists_parse_eq_invalidHex_iff (text : String) :
    (∃ fault, parse text = .error (.invalidHex fault)) ↔
      ¬ ((untagged text).length % 2 = 0 ∧ ∀ char ∈ untagged text, Hex.IsDigit char) := by
  rcases decode_cases text with ⟨bytes, read, lengths, digits⟩ | ⟨refused, notDigits⟩
  · have even : (untagged text).length % 2 = 0 := by omega
    rw [read, ofBytes]
    split
    · exact iff_of_false (by simp) (not_not_intro ⟨even, digits⟩)
    · exact iff_of_false (by simp) (not_not_intro ⟨even, digits⟩)
  · exact iff_of_true refused notDigits

theorem parse_render (address : Address) : parse address.render = .ok address := by
  rw [parse_eq_ok_iff, render, toHex, Hex.encode, untagged_tagged, Hex.map_toLower_digits]

theorem parse_toHex (address : Address) : parse address.toHex = .ok address := by
  rw [parse_eq_ok_iff, toHex, Hex.encode,
    untagged_of_digits fun _ => Hex.isDigit_of_mem_digits, Hex.map_toLower_digits]

/-- An address is shown by the lowercase form of any text that spells it. -/
theorem render_of_parse (spelled : parse text = .ok address) :
    address.render = "0x" ++ String.ofList ((untagged text).map Char.toLower) := by
  rw [parse_eq_ok_iff.mp spelled, render, toHex, Hex.encode]

theorem eq_iff_of_parse {other : String} {otherAddress : Address}
    (spelled : parse text = .ok address) (otherSpelled : parse other = .ok otherAddress) :
    address = otherAddress ↔
      (untagged text).map Char.toLower = (untagged other).map Char.toLower := by
  rw [parse_eq_ok_iff.mp spelled, parse_eq_ok_iff.mp otherSpelled, Hex.digits_injective.eq_iff]
  exact ⟨congrArg bytes, eq_of_bytes_eq⟩

end Parse

/-- A text spells an address exactly if 66 digits follow its tag.  Any other even number of digits
has the wrong length, and every other text is no hexadecimal text.  Each address is read back from
both of its texts; an accepted text is shown in lowercase and with the tag, and what it spells
depends on nothing else. -/
theorem text_spells_exactly (text : String) :
    ((∃ address, parse text = .ok address) ↔
        (untagged text).length = 66 ∧ ∀ char ∈ untagged text, Hex.IsDigit char) ∧
      (∀ actual, parse text = .error (.invalidLength actual) ↔
        (untagged text).length = 2 * actual ∧ actual ≠ 33 ∧
          ∀ char ∈ untagged text, Hex.IsDigit char) ∧
      ((∃ fault, parse text = .error (.invalidHex fault)) ↔
        ¬ ((untagged text).length % 2 = 0 ∧ ∀ char ∈ untagged text, Hex.IsDigit char)) ∧
      (∀ address : Address,
        parse address.render = .ok address ∧ parse address.toHex = .ok address) ∧
      (∀ address, parse text = .ok address →
        address.render = "0x" ++ String.ofList ((untagged text).map Char.toLower)) ∧
      ∀ other address otherAddress, parse text = .ok address → parse other = .ok otherAddress →
        (address = otherAddress ↔
          (untagged text).map Char.toLower = (untagged other).map Char.toLower) := by
  refine ⟨exists_parse_eq_ok_iff text, parse_eq_invalidLength_iff text,
    exists_parse_eq_invalidHex_iff text, ?_, ?_, ?_⟩
  · intro address
    exact ⟨parse_render address, parse_toHex address⟩
  · intro address spelled
    exact render_of_parse spelled
  · intro other address otherAddress spelled otherSpelled
    exact eq_iff_of_parse spelled otherSpelled

/-- Sixty-six letters spell one address with the tag in uppercase and without it in lowercase. -/
theorem text_spells_repeated_letter :
    ∃ address,
      parse ("0x" ++ String.ofList (List.replicate 66 'A')) = .ok address ∧
        parse (String.ofList (List.replicate 66 'a')) = .ok address ∧
        address.render = "0x" ++ String.ofList (List.replicate 66 'a') := by
  have digits : ∀ letter, Hex.IsDigit letter →
      ∀ char ∈ List.replicate 66 letter, Hex.IsDigit char := by
    intro letter isDigit char member
    rwa [List.eq_of_mem_replicate member]
  have upperDigits := digits 'A' (by decide)
  have lowerDigits := digits 'a' (by decide)
  have upperUntagged := untagged_tagged (List.replicate 66 'A')
  have lowerUntagged := untagged_of_digits lowerDigits
  obtain ⟨upperAccepted, _, _, _, shown, alike⟩ :=
    text_spells_exactly ("0x" ++ String.ofList (List.replicate 66 'A'))
  obtain ⟨lowerAccepted, _⟩ := text_spells_exactly (String.ofList (List.replicate 66 'a'))
  rw [upperUntagged] at upperAccepted shown
  rw [lowerUntagged] at lowerAccepted
  obtain ⟨address, spelled⟩ := upperAccepted.mpr ⟨List.length_replicate, upperDigits⟩
  obtain ⟨otherAddress, otherSpelled⟩ := lowerAccepted.mpr ⟨List.length_replicate, lowerDigits⟩
  have same : address = otherAddress := by
    rw [alike _ _ _ spelled otherSpelled, upperUntagged, lowerUntagged, List.map_replicate,
      List.map_replicate]
    rfl
  rw [← same] at otherSpelled
  exact ⟨address, spelled, otherSpelled, shown address spelled⟩

end Address

end PoolLedger
