import PoolLedger.Action.Wire
import PoolLedger.Proofs.RecordKeys

/-!
# The wire form of actions

Each reader accepts exactly the written forms of its values, whatever follows
them.  So an action and its wire form determine each other, and bytes that are
the wire form of no action are refused for the one reason that applies.
-/

namespace PoolLedger

theorem Text.ofBytes_eq_ok_iff {bytes : Bytes} {text : String} :
    ofBytes bytes = .ok text ↔ Bytes.ofText text = bytes := by
  constructor
  · intro read
    unfold ofBytes String.fromUTF8? at read
    split at read
    · rename_i found isText
      split at isText
      · cases isText
        cases read
        simp [Bytes.ofText, String.fromUTF8]
      · cases isText
    · cases read
  · rintro rfl
    have same : (⟨(Bytes.ofText text).toArray⟩ : ByteArray) = text.toByteArray := by
      simp [Bytes.ofText]
    have found : String.fromUTF8? text.toByteArray = some text := by
      simp [String.fromUTF8?, text.isValidUTF8, String.fromUTF8]
    rw [ofBytes, same, found]

theorem Address.ofBytes_eq_ok_iff {bytes : Bytes} {address : Address} :
    ofBytes bytes = .ok address ↔ address.bytes = bytes :=
  ⟨bytes_of_ofBytes, fun same => same ▸ address.ofBytes_bytes⟩

theorem ActionKind.ofTypeId?_eq_some_iff {typeId : UInt8} {kind : ActionKind} :
    ofTypeId? typeId = some kind ↔ kind.typeId = typeId := by
  constructor
  · intro found
    unfold ofTypeId? at found
    split at found <;> cases found <;> rfl
  · rintro rfl
    exact ofTypeId?_typeId kind

namespace Wire

section Readers

variable {α β : Type} {bytes rest : Bytes} {fault : Fault}

theorem bind_eq_ok_iff {reader : Reader α} {next : α → Reader β} {value : β} :
    (reader >>= next) bytes = .ok (value, rest) ↔
      ∃ first middle, reader bytes = .ok (first, middle) ∧
        next first middle = .ok (value, rest) := by
  cases read : reader bytes with
  | error fault => simp [bind, StateT.bind, Except.bind, read]
  | ok found => simp [bind, StateT.bind, Except.bind, read, Prod.ext_iff, and_assoc]

theorem pure_eq_ok_iff {found value : α} :
    (pure found : Reader α) bytes = .ok (value, rest) ↔ value = found ∧ rest = bytes := by
  have answer : (pure found : Reader α) bytes = .ok (found, bytes) := rfl
  rw [answer]
  simp [eq_comm]

theorem take_eq_ok_iff {count : Nat} {content : Bytes} :
    take count fault bytes = .ok (content, rest) ↔
      content.length = count ∧ content ++ rest = bytes := by
  rw [take]
  constructor
  · intro read
    split at read
    · rename_i enough
      cases read
      exact ⟨List.length_take_of_le enough, List.take_append_drop count bytes⟩
    · cases read
  · rintro ⟨rfl, rfl⟩
    rw [if_pos (by simp), List.take_left, List.drop_left]

theorem readByte_eq_ok_iff {byte : UInt8} :
    readByte bytes = .ok (byte, rest) ↔ byte :: rest = bytes := by
  simp only [readByte, bind_eq_ok_iff, take_eq_ok_iff, pure_eq_ok_iff]
  constructor
  · rintro ⟨content, middle, ⟨single, rfl⟩, rfl, rfl⟩
    obtain ⟨only, rfl⟩ := List.length_eq_one_iff.mp single
    rfl
  · rintro rfl
    exact ⟨[byte], rest, ⟨rfl, rfl⟩, rfl, rfl⟩

/-- Eight bytes are the form of the word that they are read as. -/
theorem word_ofLittleEndian {content : Bytes} (whole : content.length = 8) :
    word (.ofNat (Bytes.ofLittleEndian content)) = content := by
  have fits : Bytes.ofLittleEndian content < UInt64.size := by
    have bound := Bytes.ofLittleEndian_lt content
    rw [whole] at bound
    exact bound
  rw [word, UInt64.toNat_ofNat_of_lt' fits, ← whole, Bytes.littleEndian_ofLittleEndian]

theorem ofLittleEndian_word (value : UInt64) :
    UInt64.ofNat (Bytes.ofLittleEndian (word value)) = value := by
  have fits : value.toNat < 256 ^ 8 := value.toNat_lt
  rw [word, Bytes.ofLittleEndian_littleEndian fits, UInt64.ofNat_toNat]

theorem readWord_eq_ok_iff {value : UInt64} :
    readWord bytes = .ok (value, rest) ↔ word value ++ rest = bytes := by
  simp only [readWord, bind_eq_ok_iff, take_eq_ok_iff, pure_eq_ok_iff]
  constructor
  · rintro ⟨content, middle, ⟨whole, rfl⟩, rfl, rfl⟩
    rw [word_ofLittleEndian whole]
  · rintro rfl
    exact ⟨word value, rest, ⟨Bytes.length_littleEndian 8 _, rfl⟩,
      (ofLittleEndian_word value).symm, rfl⟩

/-- A length and as many bytes are read from the form of a byte string that is not too long. -/
theorem readCounted_eq_ok_iff {content : Bytes} :
    (readWord >>= fun count => take count.toNat fault) bytes = .ok (content, rest) ↔
      content.length < 2 ^ 64 ∧ counted content ++ rest = bytes := by
  simp only [bind_eq_ok_iff, readWord_eq_ok_iff, take_eq_ok_iff]
  constructor
  · rintro ⟨count, middle, rfl, isLength, rfl⟩
    have bound : count.toNat < 2 ^ 64 := count.toNat_lt
    rw [isLength, counted, isLength, ← word, List.append_assoc]
    exact ⟨bound, rfl⟩
  · rintro ⟨fits, rfl⟩
    have isLength : (UInt64.ofNat content.length).toNat = content.length :=
      UInt64.toNat_ofNat_of_lt' fits
    refine ⟨.ofNat content.length, content ++ rest, ?_, isLength.symm, rfl⟩
    rw [word, isLength, counted, List.append_assoc]

theorem readBytes_eq_ok_iff {content : Bytes} :
    readBytes bytes = .ok (content, rest) ↔
      content.length < 2 ^ 64 ∧ counted content ++ rest = bytes :=
  readCounted_eq_ok_iff

theorem readText_eq_ok_iff {text : String} :
    readText bytes = .ok (text, rest) ↔
      text.utf8ByteSize < 2 ^ 64 ∧ counted (Bytes.ofText text) ++ rest = bytes := by
  rw [readText, ← bind_assoc, bind_eq_ok_iff]
  simp only [readCounted_eq_ok_iff, ← Bytes.length_ofText]
  constructor
  · rintro ⟨content, middle, ⟨fits, rfl⟩, accepted⟩
    cases isText : Text.ofBytes content with
    | error fault =>
        rw [isText] at accepted
        cases accepted
    | ok found =>
        rw [isText] at accepted
        cases accepted
        cases Text.ofBytes_eq_ok_iff.mp isText
        exact ⟨fits, rfl⟩
  · rintro ⟨fits, rfl⟩
    refine ⟨Bytes.ofText text, rest, ⟨fits, rfl⟩, ?_⟩
    rw [Text.ofBytes_eq_ok_iff.mpr rfl]
    rfl

theorem readAddress_eq_ok_iff {address : Address} :
    readAddress bytes = .ok (address, rest) ↔ counted address.bytes ++ rest = bytes := by
  rw [readAddress, ← bind_assoc, bind_eq_ok_iff]
  simp only [readCounted_eq_ok_iff]
  constructor
  · rintro ⟨content, middle, ⟨_, rfl⟩, accepted⟩
    cases isAddress : Address.ofBytes content with
    | error fault =>
        rw [isAddress] at accepted
        cases accepted
    | ok found =>
        rw [isAddress] at accepted
        cases accepted
        cases Address.ofBytes_eq_ok_iff.mp isAddress
        rfl
  · rintro rfl
    have short : address.bytes.length < 2 ^ 64 := by
      rw [address.length_eq]
      decide
    refine ⟨address.bytes, rest, ⟨short, rfl⟩, ?_⟩
    rw [address.ofBytes_bytes]
    rfl

end Readers

end Wire

namespace Action

open Wire

/-- The lengths that an action writes ahead of its parameters fit in eight bytes. -/
def Sendable : Action → Prop
  | transfer _ _ memo => memo.length < 2 ^ 64
  | hi name => name.length < 2 ^ 64
  | claimDomain domain | whois domain => domain.utf8ByteSize < 2 ^ 64
  | createToken name symbol metadata _ | getTokenAddress name symbol metadata =>
      name.length < 2 ^ 64 ∧ symbol.length < 2 ^ 64 ∧ metadata.length < 2 ^ 64
  | createLiquidityPool .. => True

instance (action : Action) : Decidable action.Sendable :=
  match action with
  | transfer _ _ _ | hi _ | claimDomain _ | whois _ => inferInstanceAs (Decidable (_ < 2 ^ 64))
  | createToken .. | getTokenAddress .. =>
      inferInstanceAs (Decidable (_ < 2 ^ 64 ∧ _ < 2 ^ 64 ∧ _ < 2 ^ 64))
  | createLiquidityPool .. => inferInstanceAs (Decidable True)

/-- The parameters of an action of a kind are read from their written form and nothing else. -/
theorem readParameters_eq_ok_iff {kind : ActionKind} {action : Action} {bytes rest : Bytes} :
    readParameters kind bytes = .ok (action, rest) ↔
      action.kind = kind ∧ action.Sendable ∧ action.encodeParameters ++ rest = bytes := by
  constructor
  · intro read
    cases kind <;>
      simp only [readParameters, bind_eq_ok_iff, pure_eq_ok_iff, readAddress_eq_ok_iff,
        readWord_eq_ok_iff, readBytes_eq_ok_iff, readText_eq_ok_iff, readByte_eq_ok_iff] at read
    case transfer =>
      obtain ⟨recipient, _, rfl, value, _, rfl, memo, _, ⟨memoFits, rfl⟩, rfl, rfl⟩ := read
      exact ⟨rfl, memoFits, by simp [encodeParameters]⟩
    case hi =>
      obtain ⟨name, _, ⟨nameFits, rfl⟩, rfl, rfl⟩ := read
      exact ⟨rfl, nameFits, rfl⟩
    case claimDomain =>
      obtain ⟨domain, _, ⟨domainFits, rfl⟩, rfl, rfl⟩ := read
      exact ⟨rfl, domainFits, rfl⟩
    case whois =>
      obtain ⟨domain, _, ⟨domainFits, rfl⟩, rfl, rfl⟩ := read
      exact ⟨rfl, domainFits, rfl⟩
    case createToken =>
      obtain ⟨name, _, ⟨nameFits, rfl⟩, symbol, _, ⟨symbolFits, rfl⟩, metadata, _,
        ⟨metadataFits, rfl⟩, decimals, _, rfl, rfl, rfl⟩ := read
      exact ⟨rfl, ⟨nameFits, symbolFits, metadataFits⟩, by simp [encodeParameters]⟩
    case getTokenAddress =>
      obtain ⟨name, _, ⟨nameFits, rfl⟩, symbol, _, ⟨symbolFits, rfl⟩, metadata, _,
        ⟨metadataFits, rfl⟩, rfl, rfl⟩ := read
      exact ⟨rfl, ⟨nameFits, symbolFits, metadataFits⟩, by simp [encodeParameters]⟩
    case createLiquidityPool =>
      obtain ⟨functionId, _, rfl, tokenX, _, rfl, tokenY, _, rfl, fee, _, rfl, rfl, rfl⟩ := read
      exact ⟨rfl, trivial, by simp [encodeParameters]⟩
  · rintro ⟨rfl, sendable, rfl⟩
    cases action <;>
      simp only [kind, readParameters, bind_eq_ok_iff, pure_eq_ok_iff, readAddress_eq_ok_iff,
        readWord_eq_ok_iff, readBytes_eq_ok_iff, readText_eq_ok_iff, readByte_eq_ok_iff,
        encodeParameters, List.append_assoc, List.cons_append]
    case transfer recipient value memo =>
      exact ⟨recipient, _, rfl, value, _, rfl, memo, _, ⟨sendable, rfl⟩, rfl, rfl⟩
    case hi name => exact ⟨name, _, ⟨sendable, rfl⟩, rfl, rfl⟩
    case claimDomain domain => exact ⟨domain, _, ⟨sendable, rfl⟩, rfl, rfl⟩
    case whois domain => exact ⟨domain, _, ⟨sendable, rfl⟩, rfl, rfl⟩
    case createToken name symbol metadata decimals =>
      exact ⟨name, _, ⟨sendable.1, rfl⟩, symbol, _, ⟨sendable.2.1, rfl⟩, metadata, _,
        ⟨sendable.2.2, rfl⟩, decimals, _, rfl, rfl, rfl⟩
    case getTokenAddress name symbol metadata =>
      exact ⟨name, _, ⟨sendable.1, rfl⟩, symbol, _, ⟨sendable.2.1, rfl⟩, metadata, _,
        ⟨sendable.2.2, rfl⟩, rfl, rfl⟩
    case createLiquidityPool functionId tokenX tokenY fee =>
      exact ⟨functionId, _, rfl, tokenX, _, rfl, tokenY, _, rfl, fee, _, rfl, rfl, rfl⟩

/-- Bytes after the type id of a kind are decoded as the parameters of that kind, all of them. -/
theorem decode_typeId_cons (kind : ActionKind) (payload : Bytes) :
    decode (kind.typeId :: payload) =
      match readParameters kind payload with
      | .error fault => .error (.malformed kind fault)
      | .ok (action, []) => .ok action
      | .ok (_, _ :: _) => .error (.malformed kind .leftover) := by
  cases read : readParameters kind payload with
  | error fault => simp only [decode, ActionKind.ofTypeId?_typeId, read]
  | ok found =>
      obtain ⟨action, rest⟩ := found
      cases rest <;> simp only [decode, ActionKind.ofTypeId?_typeId, read]

theorem decode_unknown {typeId : UInt8} (unknown : ∀ kind : ActionKind, kind.typeId ≠ typeId)
    (payload : Bytes) : decode (typeId :: payload) = .error (.unknownActionType typeId) := by
  cases found : ActionKind.ofTypeId? typeId with
  | none => simp only [decode, found]
  | some kind => exact absurd (ActionKind.ofTypeId?_eq_some_iff.mp found) (unknown kind)

/-- Byte strings are empty, or begin with the type id of a kind, or with no type id. -/
theorem typeId_cases (bytes : Bytes) :
    bytes = [] ∨ (∃ (kind : ActionKind) (payload : Bytes), bytes = kind.typeId :: payload) ∨
      ∃ typeId payload, bytes = typeId :: payload ∧ ∀ kind : ActionKind, kind.typeId ≠ typeId := by
  cases bytes with
  | nil => exact .inl rfl
  | cons typeId payload =>
      by_cases known : ∃ kind : ActionKind, kind.typeId = typeId
      · obtain ⟨kind, rfl⟩ := known
        exact .inr (.inl ⟨kind, payload, rfl⟩)
      · exact .inr (.inr ⟨typeId, payload, rfl, not_exists.mp known⟩)

/-- An action is decoded from its wire form and from nothing else. -/
theorem decode_eq_ok_iff {bytes : Bytes} {action : Action} :
    decode bytes = .ok action ↔ action.Sendable ∧ action.encode = bytes := by
  constructor
  · intro decoded
    obtain rfl | ⟨kind, payload, rfl⟩ | ⟨typeId, payload, rfl, unknown⟩ := typeId_cases bytes
    · cases decoded
    · rw [decode_typeId_cons] at decoded
      split at decoded
      · cases decoded
      · rename_i read
        cases decoded
        obtain ⟨rfl, sendable, rfl⟩ := readParameters_eq_ok_iff.mp read
        rw [encode, List.append_nil]
        exact ⟨sendable, rfl⟩
      · cases decoded
    · rw [decode_unknown unknown] at decoded
      cases decoded
  · rintro ⟨sendable, rfl⟩
    have read : readParameters action.kind action.encodeParameters = .ok (action, []) :=
      readParameters_eq_ok_iff.mpr ⟨rfl, sendable, List.append_nil _⟩
    rw [encode, decode_typeId_cons, read]

/-- Bytes that begin with the type id of a kind decode to an action or are malformed. -/
theorem decode_typeId_cons_cases (kind : ActionKind) (payload : Bytes) :
    (∃ action, decode (kind.typeId :: payload) = .ok action) ∨
      ∃ fault, decode (kind.typeId :: payload) = .error (.malformed kind fault) := by
  rw [decode_typeId_cons]
  split
  · exact .inr ⟨_, rfl⟩
  · exact .inl ⟨_, rfl⟩
  · exact .inr ⟨_, rfl⟩

theorem decode_eq_empty_iff {bytes : Bytes} : decode bytes = .error .empty ↔ bytes = [] := by
  constructor
  · intro refused
    obtain rfl | ⟨kind, payload, rfl⟩ | ⟨typeId, payload, rfl, unknown⟩ := typeId_cases bytes
    · rfl
    · obtain ⟨action, decoded⟩ | ⟨fault, decoded⟩ := decode_typeId_cons_cases kind payload <;>
        cases decoded.symm.trans refused
    · cases (decode_unknown unknown payload).symm.trans refused
  · rintro rfl
    rfl

theorem decode_eq_unknownActionType_iff {bytes : Bytes} {typeId : UInt8} :
    decode bytes = .error (.unknownActionType typeId) ↔
      bytes.head? = some typeId ∧ ∀ kind : ActionKind, kind.typeId ≠ typeId := by
  constructor
  · intro refused
    obtain rfl | ⟨kind, payload, rfl⟩ | ⟨other, payload, rfl, unknown⟩ := typeId_cases bytes
    · cases refused
    · obtain ⟨action, decoded⟩ | ⟨fault, decoded⟩ := decode_typeId_cons_cases kind payload <;>
        cases decoded.symm.trans refused
    · cases (decode_unknown unknown payload).symm.trans refused
      exact ⟨rfl, unknown⟩
  · rintro ⟨isFirst, unknown⟩
    obtain ⟨payload, rfl⟩ := List.head?_eq_some_iff.mp isFirst
    exact decode_unknown unknown payload

/-- Bytes are malformed as an action of the kind that their first byte names. -/
theorem decode_eq_malformed_iff {bytes : Bytes} {kind : ActionKind} :
    (∃ fault, decode bytes = .error (.malformed kind fault)) ↔
      bytes.head? = some kind.typeId ∧ ∀ action, decode bytes ≠ .ok action := by
  constructor
  · rintro ⟨fault, refused⟩
    refine ⟨?_, fun action decoded => nomatch decoded.symm.trans refused⟩
    obtain rfl | ⟨other, payload, rfl⟩ | ⟨typeId, payload, rfl, unknown⟩ := typeId_cases bytes
    · cases refused
    · obtain ⟨action, decoded⟩ | ⟨_, decoded⟩ := decode_typeId_cons_cases other payload <;>
        cases decoded.symm.trans refused
      rfl
    · cases (decode_unknown unknown payload).symm.trans refused
  · rintro ⟨isFirst, refused⟩
    obtain ⟨payload, rfl⟩ := List.head?_eq_some_iff.mp isFirst
    obtain ⟨action, decoded⟩ | malformed := decode_typeId_cons_cases kind payload
    · exact absurd decoded (refused action)
    · exact malformed

/-- There are actions of every kind. -/
theorem exists_of_kind (kind : ActionKind) : ∃ action : Action, action.kind = kind := by
  cases kind with
  | transfer => exact ⟨.transfer .zero 0 [], rfl⟩
  | hi => exact ⟨.hi [], rfl⟩
  | claimDomain => exact ⟨.claimDomain "", rfl⟩
  | whois => exact ⟨.whois "", rfl⟩
  | createToken => exact ⟨.createToken [] [] [] 0, rfl⟩
  | getTokenAddress => exact ⟨.getTokenAddress [] [] [], rfl⟩
  | createLiquidityPool => exact ⟨.createLiquidityPool 0 .zero .zero 0, rfl⟩

/-- An action whose lengths fit is decoded from its wire form, and whatever decodes is the wire form
of such an action.  All other bytes are refused: as empty exactly if they are, for their first byte
exactly if no action has it as type id, and else as malformed for the kind that it names. -/
theorem wire_form_bijective :
    (∀ action : Action, action.Sendable → decode action.encode = .ok action) ∧
    (∀ bytes action, decode bytes = .ok action → action.Sendable ∧ action.encode = bytes) ∧
    ∀ bytes,
      (decode bytes = .error .empty ↔ bytes = []) ∧
      (∀ typeId, decode bytes = .error (.unknownActionType typeId) ↔
        bytes.head? = some typeId ∧ ∀ action : Action, action.kind.typeId ≠ typeId) ∧
      ∀ kind : ActionKind, (∃ fault, decode bytes = .error (.malformed kind fault)) ↔
        bytes.head? = some kind.typeId ∧ ∀ action, decode bytes ≠ .ok action := by
  refine ⟨fun action sendable => decode_eq_ok_iff.mpr ⟨sendable, rfl⟩,
    fun bytes action decoded => decode_eq_ok_iff.mp decoded, fun bytes => ?_⟩
  refine ⟨decode_eq_empty_iff, fun typeId => ?_, fun kind => decode_eq_malformed_iff⟩
  rw [decode_eq_unknownActionType_iff]
  constructor
  · rintro ⟨isFirst, unknown⟩
    exact ⟨isFirst, fun action => unknown action.kind⟩
  · rintro ⟨isFirst, unknown⟩
    refine ⟨isFirst, fun kind => ?_⟩
    obtain ⟨action, rfl⟩ := exists_of_kind kind
    exact unknown action

/-- The claim of a domain whose name takes more bytes than characters, and its form with one byte
more. -/
theorem islandClaim_travels :
    (claimDomain "Ærø").Sendable ∧
      (claimDomain "Ærø").encode =
        [2, 5, 0, 0, 0, 0, 0, 0, 0, 0xc3, 0x86, 0x72, 0xc3, 0xb8] ∧
      decode (claimDomain "Ærø").encode = .ok (claimDomain "Ærø") ∧
      ∀ action, decode ((claimDomain "Ærø").encode ++ [0]) ≠ .ok action := by
  have sendable : (claimDomain "Ærø").Sendable := by decide +kernel
  obtain ⟨reads, _, refuses⟩ := wire_form_bijective
  have leftover : decode ((claimDomain "Ærø").encode ++ [0]) =
      .error (.malformed .claimDomain .leftover) := by
    decide +kernel
  exact ⟨sendable, by decide +kernel, reads _ sendable,
    (((refuses _).2.2 .claimDomain).mp ⟨_, leftover⟩).2⟩

end Action

end PoolLedger
