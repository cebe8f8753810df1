import PoolLedger.Proofs.WireForm

/-!
# Where wire forms end

A reader that is given the form of its value stops at the end of the form, and one
that is given less runs out of bytes.  Both carry over from the parameters to the
whole action.  So a wire form that is cut short or goes on is refused, and no wire
form is the beginning of another.
-/

namespace PoolLedger

namespace Wire

/-- The bytes end before what is read from them does. -/
def Fault.RunsOut (fault : Fault) : Prop :=
  fault = .endOfInput ∨ fault = .shortInput

theorem Fault.RunsOut.message {fault : Fault} (runsOut : fault.RunsOut) :
    ∃ detail, fault.message = "io error: " ++ detail := by
  rcases runsOut with rfl | rfl
  · exact ⟨"unexpected end of file", rfl⟩
  · exact ⟨"", rfl⟩

variable {α β : Type} {form after : Bytes}

/-- The reader finds the value in its form, whatever follows, and runs out of bytes in a form that
is cut short. -/
structure Delimits (reader : Reader α) (form : Bytes) (value : α) : Prop where
  stops : ∀ rest, reader (form ++ rest) = .ok (value, rest)
  runsOut : ∀ stop, stop < form.length →
    ∃ fault : Fault, fault.RunsOut ∧ reader (form.take stop) = .error fault

section Readers

theorem delimits_pure (value : α) : Delimits (pure value) [] value where
  stops _ := rfl
  runsOut _ short := absurd short (Nat.not_lt_zero _)

/-- Two values are delimited one after the other.  A cut is in the form of the first one, or behind
it in that of the second one. -/
theorem Delimits.bind {reader : Reader α} {next : α → Reader β} {found : α} {value : β}
    (first : Delimits reader form found) (second : Delimits (next found) after value) :
    Delimits (reader >>= next) (form ++ after) value where
  stops rest := by
    rw [List.append_assoc]
    exact bind_eq_ok_iff.mpr ⟨found, after ++ rest, first.stops _, second.stops rest⟩
  runsOut stop short := by
    by_cases inFirst : stop < form.length
    · obtain ⟨fault, runsOut, refused⟩ := first.runsOut stop inFirst
      refine ⟨fault, runsOut, ?_⟩
      rw [List.take_append_of_le_length (Nat.le_of_lt inFirst)]
      simp only [Bind.bind, StateT.bind, refused, Except.bind]
    · have inSecond : stop - form.length < after.length := by
        rw [List.length_append] at short
        omega
      obtain ⟨fault, runsOut, refused⟩ := second.runsOut _ inSecond
      refine ⟨fault, runsOut, ?_⟩
      rw [List.take_append, List.take_of_length_le (Nat.le_of_not_lt inFirst)]
      simp only [Bind.bind, StateT.bind, first.stops, Except.bind]
      exact refused

/-- A value that is made of what was read has the same form. -/
theorem Delimits.yield {reader : Reader α} {next : α → Reader β} {found : α} {value : β}
    (read : Delimits reader form found) (accepted : next found = pure value) :
    Delimits (reader >>= next) form value := by
  have whole := read.bind (accepted ▸ delimits_pure value)
  rwa [List.append_nil] at whole

theorem delimits_take {fault : Fault} (runsOut : fault.RunsOut) {count : Nat} {content : Bytes}
    (isLength : content.length = count) : Delimits (take count fault) content content where
  stops rest := take_eq_ok_iff.mpr ⟨isLength, rfl⟩
  runsOut stop short := by
    have notEnough : ¬ count ≤ (content.take stop).length := by
      rw [List.length_take]
      omega
    exact ⟨fault, runsOut, by rw [take, if_neg notEnough]⟩

theorem delimits_readByte (byte : UInt8) : Delimits readByte [byte] byte := by
  have one : [byte].length = 1 := rfl
  exact (delimits_take (.inl rfl) one).yield rfl

theorem delimits_readWord (value : UInt64) : Delimits readWord (word value) value := by
  have whole : (word value).length = 8 := Bytes.length_littleEndian 8 _
  apply (delimits_take (.inl rfl) whole).yield
  rw [ofLittleEndian_word]

theorem delimits_readCounted {fault : Fault} (runsOut : fault.RunsOut) {content : Bytes}
    (fits : content.length < 2 ^ 64) :
    Delimits (readWord >>= fun count => take count.toNat fault) (counted content) content := by
  have isLength : (UInt64.ofNat content.length).toNat = content.length :=
    UInt64.toNat_ofNat_of_lt' fits
  have whole : Delimits (readWord >>= fun count => take count.toNat fault)
      (word (.ofNat content.length) ++ content) content :=
    (delimits_readWord _).bind (delimits_take runsOut isLength.symm)
  rwa [word, isLength] at whole

theorem delimits_readBytes {content : Bytes} (fits : content.length < 2 ^ 64) :
    Delimits readBytes (counted content) content :=
  delimits_readCounted (.inl rfl) fits

theorem delimits_readText {text : String} (fits : text.utf8ByteSize < 2 ^ 64) :
    Delimits readText (counted (Bytes.ofText text)) text := by
  rw [← Bytes.length_ofText] at fits
  rw [readText, ← bind_assoc]
  apply (delimits_readCounted (.inr rfl) fits).yield
  rw [Text.ofBytes_eq_ok_iff.mpr rfl]

theorem delimits_readAddress (address : Address) :
    Delimits readAddress (counted address.bytes) address := by
  have fits : address.bytes.length < 2 ^ 64 := by
    rw [address.length_eq]
    decide
  rw [readAddress, ← bind_assoc]
  apply (delimits_readCounted (.inr rfl) fits).yield
  rw [address.ofBytes_bytes]

end Readers

end Wire

namespace Action

open Wire

/-- The parameters of an action end where their written form ends. -/
theorem delimits_readParameters {action : Action} (sendable : action.Sendable) :
    Delimits (readParameters action.kind) action.encodeParameters action := by
  cases action <;> simp only [kind, readParameters, encodeParameters, List.append_assoc]
  case transfer recipient value memo =>
    exact (delimits_readAddress recipient).bind ((delimits_readWord value).bind
      ((delimits_readBytes sendable).yield rfl))
  case hi name => exact (delimits_readBytes sendable).yield rfl
  case claimDomain domain => exact (delimits_readText sendable).yield rfl
  case whois domain => exact (delimits_readText sendable).yield rfl
  case createToken name symbol metadata decimals =>
    obtain ⟨nameFits, symbolFits, metadataFits⟩ := sendable
    exact (delimits_readBytes nameFits).bind ((delimits_readBytes symbolFits).bind
      ((delimits_readBytes metadataFits).bind ((delimits_readByte decimals).yield rfl)))
  case getTokenAddress name symbol metadata =>
    obtain ⟨nameFits, symbolFits, metadataFits⟩ := sendable
    exact (delimits_readBytes nameFits).bind ((delimits_readBytes symbolFits).bind
      ((delimits_readBytes metadataFits).yield rfl))
  case createLiquidityPool functionId tokenX tokenY fee =>
    exact (delimits_readByte functionId).bind ((delimits_readAddress tokenX).bind
      ((delimits_readAddress tokenY).bind ((delimits_readWord fee).yield rfl)))

section Cuts

variable {action : Action}

/-- Less than the wire form of an action is malformed, since the input ends too early. -/
theorem decode_take_encode (sendable : action.Sendable) {stop : Nat} (someBytes : 0 < stop)
    (short : stop < action.encode.length) :
    ∃ fault : Fault, fault.RunsOut ∧
      decode (action.encode.take stop) = .error (.malformed action.kind fault) := by
  obtain ⟨payload, rfl⟩ := Nat.exists_eq_add_one.mpr someBytes
  have shortPayload : payload < action.encodeParameters.length := Nat.lt_of_succ_lt_succ short
  obtain ⟨fault, runsOut, refused⟩ := (delimits_readParameters sendable).runsOut _ shortPayload
  refine ⟨fault, runsOut, ?_⟩
  rw [encode, List.take_succ_cons, decode_typeId_cons, refused]

/-- More than the wire form of an action is malformed, since bytes are left over. -/
theorem decode_encode_append (sendable : action.Sendable) {extra : Bytes}
    (someExtra : extra ≠ []) :
    decode (action.encode ++ extra) = .error (.malformed action.kind .leftover) := by
  obtain ⟨byte, rest, rfl⟩ := List.exists_cons_of_ne_nil someExtra
  rw [encode, List.cons_append, decode_typeId_cons, (delimits_readParameters sendable).stops]

/-- Of two accepted messages neither goes on where the other one ends. -/
theorem eq_of_decode_of_prefix {message longer : Bytes} {other : Action}
    (decoded : decode message = .ok action) (otherDecoded : decode longer = .ok other)
    (begins : message <+: longer) : message = longer ∧ action = other := by
  obtain ⟨extra, rfl⟩ := begins
  by_cases noExtra : extra = []
  · subst noExtra
    rw [List.append_nil] at otherDecoded ⊢
    cases decoded.symm.trans otherDecoded
    exact ⟨rfl, rfl⟩
  · obtain ⟨sendable, rfl⟩ := decode_eq_ok_iff.mp decoded
    rw [decode_encode_append sendable noExtra] at otherDecoded
    cases otherDecoded

end Cuts

/-- The wire form of an action is accepted as a whole, but neither in part nor with anything behind
it: every beginning of it is refused as malformed with an error of the input, and with more bytes it
is refused because they are left over.  So no accepted message is the beginning of another one. -/
theorem wire_forms_are_self_delimiting :
    (∀ action : Action, action.Sendable →
      decode action.encode = .ok action ∧
      (∀ stop, 0 < stop → stop < action.encode.length → ∃ fault : Fault,
        decode (action.encode.take stop) = .error (.malformed action.kind fault) ∧
          (fault = .endOfInput ∨ fault = .shortInput) ∧
          ∃ detail, fault.message = "io error: " ++ detail) ∧
      ∀ extra, extra ≠ [] →
        decode (action.encode ++ extra) = .error (.malformed action.kind .leftover)) ∧
    ∀ message longer action other, decode message = .ok action → decode longer = .ok other →
      message <+: longer → message = longer ∧ action = other := by
  constructor
  · intro action sendable
    refine ⟨decode_eq_ok_iff.mpr ⟨sendable, rfl⟩, fun stop someBytes short => ?_,
      fun extra someExtra => decode_encode_append sendable someExtra⟩
    obtain ⟨fault, runsOut, refused⟩ := decode_take_encode sendable someBytes short
    exact ⟨fault, refused, runsOut, runsOut.message⟩
  · intro message longer action other
    exact eq_of_decode_of_prefix

/-- The creation of a token whose metadata read like the length of a text. -/
def beaconToken : Action :=
  .createToken (Bytes.ofText "beacon") [] [2, 0, 0, 0, 0, 0, 0, 0] 6

/-- The form takes 40 bytes.  The first 31 of them lack the metadata and the decimals, and the first
39 the decimals only; with one byte more nothing is accepted. -/
theorem beaconToken_delimited :
    beaconToken.Sendable ∧ beaconToken.encode.length = 40 ∧
      decode (beaconToken.encode.take 31) = .error (.malformed .createToken .endOfInput) ∧
      (∃ fault : Fault, decode (beaconToken.encode.take 39) = .error (.malformed .createToken fault) ∧
        (fault = .endOfInput ∨ fault = .shortInput) ∧
        ∃ detail, fault.message = "io error: " ++ detail) ∧
      decode (beaconToken.encode ++ [0]) = .error (.malformed .createToken .leftover) ∧
      ∀ longer other, decode longer = .ok other → beaconToken.encode <+: longer →
        beaconToken.encode = longer ∧ beaconToken = other := by
  have sendable : beaconToken.Sendable := by decide +kernel
  have isLength : beaconToken.encode.length = 40 := by decide +kernel
  obtain ⟨delimits, prefixFree⟩ := wire_forms_are_self_delimiting
  obtain ⟨decoded, cut, extended⟩ := delimits beaconToken sendable
  have short : 39 < beaconToken.encode.length := by omega
  exact ⟨sendable, isLength, by decide +kernel, cut 39 (by decide) short,
    extended [0] (List.cons_ne_nil _ _), fun longer other => prefixFree _ _ _ _ decoded⟩

end Action

end PoolLedger
