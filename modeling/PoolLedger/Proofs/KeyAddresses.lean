import PoolLedger.Proofs.RecordNames
import PoolLedger.Proofs.WireForm

/-!
# Addresses in keys

A key is asked for an address by the width of its identifier alone.  The keys of
balances, tokens and pools give their own address.  The key of a domain gives
one, too, if the domain has as many bytes as an address.
-/

namespace PoolLedger

namespace StateKey

theorem address?_eq_some_iff {key : StateKey} {address : Address} :
    key.address? = some address ↔ key.segment = address.bytes := by
  rw [address?, @eq_comm _ key.segment, ← Address.ofBytes_eq_ok_iff]
  cases Address.ofBytes key.segment <;> simp [Except.toOption]

theorem address?_eq_none_iff {key : StateKey} :
    key.address? = none ↔ key.segment.length ≠ Address.width := by
  constructor
  · intro none same
    have some : key.address? = some ⟨key.segment, same⟩ := address?_eq_some_iff.mpr rfl
    cases none.symm.trans some
  · intro other
    rw [Option.eq_none_iff_forall_ne_some]
    intro address found
    rw [address?_eq_some_iff.mp found, address.length_eq] at other
    exact other rfl

end StateKey

namespace RecordName

/-- The address that a record is about, none for a domain. -/
def address? : RecordName → Option Address
  | balance account => some account
  | token address => some address
  | pool address => some address
  | domain _ => none

theorem address?_key_eq_some_iff {name : RecordName} {address : Address} :
    name.key.address? = some address ↔ name.identifier = address.bytes := by
  rw [StateKey.address?_eq_some_iff, segment_key]

theorem address?_key_domain_eq_none_iff {text : String} :
    (domain text).key.address? = none ↔ text.utf8ByteSize ≠ Address.width := by
  rw [StateKey.address?_eq_none_iff, segment_key, identifier, Bytes.length_ofText]

theorem address?_key_eq_iff (name : RecordName) :
    name.key.address? = name.address? ↔
      ∀ text, name = domain text → text.utf8ByteSize ≠ Address.width := by
  cases name with
  | balance account =>
      have own : (balance account).key.address? = some account :=
        address?_key_eq_some_iff.mpr rfl
      simp [own, address?]
  | token address =>
      have own : (token address).key.address? = some address := address?_key_eq_some_iff.mpr rfl
      simp [own, address?]
  | pool address =>
      have own : (pool address).key.address? = some address := address?_key_eq_some_iff.mpr rfl
      simp [own, address?]
  | domain text =>
      rw [address?, address?_key_domain_eq_none_iff]
      simp

theorem width_ne_of_domainPrice? {length : Nat} {price : Amount}
    (claimable : Action.domainPrice? length = some price) : length ≠ Address.width := by
  rintro rfl
  cases claimable

/-- The key of a record gives the address that the record is about, and none for a domain, unless
the record is a domain of 33 bytes: that one gives the address of its bytes.  Its key is declared
to look the domain up, but a domain that can be claimed is shorter. -/
theorem keys_give_addresses_by_width (name : RecordName) :
    (name.key.address? = name.address? ↔
        ∀ text, name = domain text → text.utf8ByteSize ≠ Address.width) ∧
      (∀ address, name.key.address? = some address ↔ name.identifier = address.bytes) ∧
      ∀ text, name = domain text →
        (∀ actor, ((Action.whois text).declared actor).keys = [name.key]) ∧
          ∀ price, Action.domainPrice? text.utf8ByteSize = some price →
            name.key.address? = none := by
  refine ⟨address?_key_eq_iff name, fun _ => address?_key_eq_some_iff, ?_⟩
  rintro text rfl
  refine ⟨fun _ => rfl, fun price claimable => ?_⟩
  exact address?_key_domain_eq_none_iff.mpr (width_ne_of_domainPrice? claimable)

end RecordName

/-- A domain of 33 letters gives the address that they spell, and a domain with a price none. -/
theorem RecordName.lettered_domain_gives_address :
    (domain "xxxxxxxxxxxxxxxxxxxxxxxxxxxxxxxxx").key.address? = some spelledAccount ∧
      Action.domainPrice? "harbour".utf8ByteSize = some 10000 ∧
      (domain "harbour").key.address? = none := by
  have price : Action.domainPrice? "harbour".utf8ByteSize = some 10000 := by decide +kernel
  obtain ⟨_, spells, _⟩ := keys_give_addresses_by_width (domain "xxxxxxxxxxxxxxxxxxxxxxxxxxxxxxxxx")
  obtain ⟨_, _, domains⟩ := keys_give_addresses_by_width (domain "harbour")
  obtain ⟨_, unclaimed⟩ := domains "harbour" rfl
  exact ⟨(spells _).mpr (by decide +kernel), price, unclaimed _ price⟩

/-- Some domain gives an address, as if it were one of the other records. -/
theorem RecordName.not_address?_key_eq :
    ¬ ∀ name : RecordName, name.key.address? = name.address? := by
  intro every
  have none := every (domain "xxxxxxxxxxxxxxxxxxxxxxxxxxxxxxxxx")
  have some : (domain "xxxxxxxxxxxxxxxxxxxxxxxxxxxxxxxxx").key.address? =
      some spelledAccount := by
    decide +kernel
  cases none.symm.trans some

end PoolLedger
