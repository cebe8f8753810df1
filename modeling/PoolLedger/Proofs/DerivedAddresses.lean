import Mathlib.Data.Sym.Sym2
import PoolLedger.Derivation
import PoolLedger.Proofs.ByteWords

/-!
# What a derived address commits to

An address shows its kind, and the digest of its payload.  The payload of a token
is its three fields, each after its length in two bytes.  Long lengths all read
65535, so two payloads with long fields can be the same.  A field that is shorter
shows its length, and with it where it ends, whatever the other payload has there.
The payload of a pool is its two tokens in canonical order, so it is that of the
unordered pair and of no other.
-/

namespace PoolLedger

namespace Address

theorem kind?_derive (kind : AddressKind) (payload : Bytes) :
    (derive kind payload).kind? = some kind :=
  kind.ofByte?_toByte

@[simp]
theorem kind?_ofToken (name symbol metadata : Bytes) :
    (ofToken name symbol metadata).kind? = some .token :=
  kind?_derive _ _

@[simp]
theorem kind?_ofPoolToken (pool : Address) :
    (ofPoolToken pool).kind? = some .liquidityPoolToken :=
  kind?_derive _ _

theorem derive_inj {kind : AddressKind} {first second : Bytes} :
    derive kind first = derive kind second ↔
      Digest.ofMessage first = Digest.ofMessage second := by
  unfold derive
  constructor
  · intro same
    have bytes := (List.cons.inj (congrArg Address.bytes same)).2
    rcases firstDigest : Digest.ofMessage first with ⟨firstBytes, _⟩
    rcases secondDigest : Digest.ofMessage second with ⟨secondBytes, _⟩
    rw [firstDigest, secondDigest] at bytes
    cases bytes
    rfl
  · intro same
    rw [same]

/-- Payloads with one address are the same, or they are distinct and have the same digest. -/
theorem derive_eq_iff {kind : AddressKind} {first second : Bytes} :
    derive kind first = derive kind second ↔
      first = second ∨ first ≠ second ∧ Digest.ofMessage first = Digest.ofMessage second := by
  rw [derive_inj]
  by_cases same : first = second
  · simp [same]
  · simp [same]

theorem ofPoolToken_inj {first second : Address} :
    ofPoolToken first = ofPoolToken second ↔
      Digest.ofMessage first.bytes = Digest.ofMessage second.bytes :=
  derive_inj

/-- Two segments with the same tagged length have the same length, if one of them is short. -/
theorem length_eq_of_tag {first second : Bytes} (short : first.length < 65535)
    (sameTag : Bytes.bigEndian 2 (min first.length 65535) =
      Bytes.bigEndian 2 (min second.length 65535)) : first.length = second.length := by
  have lengths := congrArg Bytes.ofBigEndian sameTag
  rw [Bytes.ofBigEndian_bigEndian (by omega), Bytes.ofBigEndian_bigEndian (by omega)] at lengths
  omega

/-- A short segment after its length is told from what follows it. -/
theorem lengthTagged_append_inj {first second firstRest secondRest : Bytes}
    (short : first.length < 65535)
    (same : lengthTagged first ++ firstRest = lengthTagged second ++ secondRest) :
    first = second ∧ firstRest = secondRest := by
  unfold lengthTagged at same
  rw [List.append_assoc, List.append_assoc] at same
  obtain ⟨sameTag, sameRest⟩ := List.append_inj same (by simp)
  exact List.append_inj sameRest (length_eq_of_tag short sameTag)

/-- The bytes behind a long segment may as well be its own. -/
theorem lengthTagged_append {segment : Bytes} (long : 65535 ≤ segment.length) (more : Bytes) :
    lengthTagged (segment ++ more) = lengthTagged segment ++ more := by
  have lengths : min (segment ++ more).length 65535 = min segment.length 65535 := by
    rw [List.length_append]
    omega
  rw [lengthTagged, lengthTagged, lengths, List.append_assoc]

section Tokens

variable {name symbol metadata otherName otherSymbol otherMetadata : Bytes}

/-- A token whose first two fields are short has a payload that no other token has.  The last field
goes on to the end. -/
theorem tokenPayload_eq_iff (shortName : name.length < 65535) (shortSymbol : symbol.length < 65535) :
    tokenPayload name symbol metadata = tokenPayload otherName otherSymbol otherMetadata ↔
      name = otherName ∧ symbol = otherSymbol ∧ metadata = otherMetadata := by
  constructor
  · intro same
    unfold tokenPayload at same
    rw [List.append_assoc, List.append_assoc] at same
    obtain ⟨sameName, afterName⟩ := lengthTagged_append_inj shortName same
    obtain ⟨sameSymbol, afterSymbol⟩ := lengthTagged_append_inj shortSymbol afterName
    exact ⟨sameName, sameSymbol, (List.append_inj afterSymbol (by simp)).2⟩
  · rintro ⟨rfl, rfl, rfl⟩
    rfl

/-- Two tokens with one address are the same, if the first two fields of one of them are short, or
else they have distinct payloads with one digest. -/
theorem ofToken_eq_iff (shortName : name.length < 65535) (shortSymbol : symbol.length < 65535) :
    ofToken name symbol metadata = ofToken otherName otherSymbol otherMetadata ↔
      (name = otherName ∧ symbol = otherSymbol ∧ metadata = otherMetadata) ∨
        tokenPayload name symbol metadata ≠ tokenPayload otherName otherSymbol otherMetadata ∧
          Digest.ofMessage (tokenPayload name symbol metadata) =
            Digest.ofMessage (tokenPayload otherName otherSymbol otherMetadata) := by
  rw [ofToken, ofToken, derive_eq_iff, tokenPayload_eq_iff shortName shortSymbol]

end Tokens

/-! ## Pools -/

theorem canonicalOrder_comm (first second : Address) :
    canonicalOrder first second = canonicalOrder second first := by
  have swapped : compare second first = (compare first second).swap := Std.OrientedCmp.eq_swap
  rw [canonicalOrder, canonicalOrder, swapped]
  cases order : compare first second with
  | lt => rfl
  | eq =>
      rw [Std.LawfulEqCmp.eq_of_compare order]
      rfl
  | gt => rfl

theorem mk_canonicalOrder (first second : Address) :
    s((canonicalOrder first second).1, (canonicalOrder first second).2) = s(first, second) := by
  unfold canonicalOrder
  split
  · rfl
  · exact Sym2.eq_swap

section Pools

variable {tokenX tokenY otherX otherY : Address}

theorem canonicalOrder_eq_iff :
    canonicalOrder tokenX tokenY = canonicalOrder otherX otherY ↔
      s(tokenX, tokenY) = s(otherX, otherY) := by
  constructor
  · intro same
    rw [← mk_canonicalOrder, same, mk_canonicalOrder]
  · intro samePair
    rcases Sym2.eq_iff.mp samePair with ⟨rfl, rfl⟩ | ⟨rfl, rfl⟩
    · rfl
    · exact canonicalOrder_comm tokenX tokenY

theorem length_poolPayload (tokenX tokenY : Address) : (poolPayload tokenX tokenY).length = 66 := by
  rw [poolPayload, List.length_append, Address.length_eq, Address.length_eq]

/-- The two tokens have the same width, so they are told apart in the payload. -/
theorem poolPayload_eq_iff :
    poolPayload tokenX tokenY = poolPayload otherX otherY ↔
      s(tokenX, tokenY) = s(otherX, otherY) := by
  rw [← canonicalOrder_eq_iff]
  constructor
  · intro same
    have sameWidth : (canonicalOrder tokenX tokenY).1.bytes.length =
        (canonicalOrder otherX otherY).1.bytes.length := by
      rw [Address.length_eq, Address.length_eq]
    obtain ⟨sameFirst, sameSecond⟩ := List.append_inj same sameWidth
    exact Prod.ext (eq_of_bytes_eq sameFirst) (eq_of_bytes_eq sameSecond)
  · intro same
    rw [poolPayload, poolPayload, same]

/-- Two pools with one address trade the same two tokens, or else they have distinct payloads with
one digest. -/
theorem ofPool_eq_iff :
    ofPool tokenX tokenY = ofPool otherX otherY ↔
      s(tokenX, tokenY) = s(otherX, otherY) ∨
        poolPayload tokenX tokenY ≠ poolPayload otherX otherY ∧
          Digest.ofMessage (poolPayload tokenX tokenY) =
            Digest.ofMessage (poolPayload otherX otherY) := by
  rw [ofPool, ofPool, derive_eq_iff, poolPayload_eq_iff]

end Pools

theorem ofPool_comm (tokenX tokenY : Address) : ofPool tokenX tokenY = ofPool tokenY tokenX :=
  ofPool_eq_iff.mpr (.inl Sym2.eq_swap)

/-- The payload of a token whose name and symbol take less than 65535 bytes is that of no other
token, and the address is, unless the distinct payloads of two tokens have one digest.  The lengths
of the other token are arbitrary, and so are those of the metadata.  A name that is longer can be
continued by the bytes of the next field. -/
theorem token_fields_never_alias :
    (∀ name symbol metadata otherName otherSymbol otherMetadata : Bytes,
      name.length < 65535 → symbol.length < 65535 →
        (tokenPayload name symbol metadata = tokenPayload otherName otherSymbol otherMetadata ↔
          name = otherName ∧ symbol = otherSymbol ∧ metadata = otherMetadata) ∧
        (ofToken name symbol metadata = ofToken otherName otherSymbol otherMetadata ↔
          (name = otherName ∧ symbol = otherSymbol ∧ metadata = otherMetadata) ∨
            tokenPayload name symbol metadata ≠ tokenPayload otherName otherSymbol otherMetadata ∧
              Digest.ofMessage (tokenPayload name symbol metadata) =
                Digest.ofMessage (tokenPayload otherName otherSymbol otherMetadata))) ∧
    ∀ name : Bytes, 65535 ≤ name.length →
      tokenPayload name [0, 0] [] = tokenPayload (name ++ [0, 2]) [] [] := by
  constructor
  · intro name symbol metadata otherName otherSymbol otherMetadata shortName shortSymbol
    exact ⟨tokenPayload_eq_iff shortName shortSymbol, ofToken_eq_iff shortName shortSymbol⟩
  · intro name long
    -- The length and the bytes of the symbol are two zeros behind the bytes 0 and 2.
    have symbol : lengthTagged [0, 0] = [0, 2] ++ lengthTagged [] := rfl
    rw [tokenPayload, tokenPayload, lengthTagged_append long, symbol]
    simp only [List.append_assoc]

/-- A name of 65535 bytes. -/
def cableName : Bytes := List.replicate 65535 0x63

/-- A byte of the symbol that moves to the name is noticed, and so is a name that is too long, but
the long name is not told from its own continuation. -/
theorem cableName_aliases :
    tokenPayload [0x63] [0x61, 0x62] [] ≠ tokenPayload [0x63, 0x61] [0x62] [] ∧
      tokenPayload [0x63] [0x61, 0x62] [] ≠ tokenPayload cableName [] [] ∧
      tokenPayload cableName [0, 0] [] = tokenPayload (cableName ++ [0, 2]) [] [] ∧
      ofToken cableName [0, 0] [] = ofToken (cableName ++ [0, 2]) [] [] := by
  obtain ⟨short, long⟩ := token_fields_never_alias
  have atCable (otherName otherSymbol : Bytes) :=
    (short [0x63] [0x61, 0x62] [] otherName otherSymbol [] (by decide) (by decide)).1
  have lengths : 65535 ≤ cableName.length := by
    rw [cableName, List.length_replicate]
  refine ⟨?_, ?_, long cableName lengths, ?_⟩
  · rw [Ne, atCable]
    decide
  · rw [Ne, atCable]
    rintro ⟨_, noSymbol, _⟩
    cases noSymbol
  · exact congrArg (derive .token) (long cableName lengths)

end Address

end PoolLedger
