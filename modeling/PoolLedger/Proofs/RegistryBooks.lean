import PoolLedger.Proofs.Books
import PoolLedger.Proofs.DerivedAddresses

/-!
# What is registered in the books

Tokens, pools and domains are only ever added, each in one way.  A pool refers to
two registered tokens and to a token of its own.  That token is told from those of
other pools by the digest of the pool, so the references hold as long as no two
pools share a digest.
-/

namespace PoolLedger

/-- Two of the pools are the same if their digests are. -/
def DistinctDigests (pools : List Address) : Prop :=
  ∀ first ∈ pools, ∀ second ∈ pools,
    Digest.ofMessage first.bytes = Digest.ofMessage second.bytes → first = second

namespace Books

/-- The answer to an action and the books after it, by what it registers. -/
inductive Registration (params : Params) (books : Books) :
    Except ActionError Output × Books → Prop where
  | nothing (answer : Except ActionError Output) (balance : Address → Amount) :
      Registration params books (answer, { books with balance })
  | domain (answer : Except ActionError Output) (balance : Address → Amount) (name : String)
      (owner : Address) (notShort : 2 ≤ name.utf8ByteSize) (notLong : name.utf8ByteSize ≤ 10) :
      Registration params books (answer, { books.setOwner name owner with balance })
  | token (answer : Except ActionError Output) (record : TokenRecord)
      (checked : TokenRecord.checkFields record.name record.symbol record.metadata
        record.decimals = .ok ())
      (fresh : books.token? (.ofToken record.name record.symbol record.metadata) = none) :
      Registration params books
        (answer, books.setToken (.ofToken record.name record.symbol record.metadata) record)
  | pool (functionId : UInt8) (tokenX tokenY : Address) (fee : UInt64) (feeTo : Address)
      (charges : fee ≠ 0) (hasX : (books.token? tokenX).isSome)
      (hasY : (books.token? tokenY).isSome) (known : params.models.contains functionId)
      (fresh : books.pool? (.ofPool tokenX tokenY) = none) :
      Registration params books
        (.ok (.createLiquidityPool (.ofPool tokenX tokenY)
            (.ofPoolToken (.ofPool tokenX tokenY))),
          (books.setToken (.ofPoolToken (.ofPool tokenX tokenY))
            (.ofPool (.ofPool tokenX tokenY))).setPool (.ofPool tokenX tokenY)
              (.opened functionId tokenX tokenY fee feeTo
                (.ofPoolToken (.ofPool tokenX tokenY))))

/-- Every action registers something in one of these ways, or nothing. -/
theorem registration (params : Params) (actor : Address) (action : Action) (books : Books) :
    Registration params books (books.transition params actor action) := by
  rw [transition, settle]
  cases first : Refusal.first? (books.refusals params actor action) with
  | some error => exact .nothing (.error error) books.balance
  | none =>
      have passes := Refusal.first?_eq_none_iff.mp first
      cases action with
      | transfer recipient value memo =>
          simp only [enter]
          split
          · exact .nothing _ books.balance
          · exact .nothing _ _
      | hi name => exact .nothing _ books.balance
      | claimDomain domain =>
          have notShort := passes _ List.mem_cons_self
          have notLong := passes _ (List.mem_cons_of_mem _ List.mem_cons_self)
          simp only [decide_eq_false_iff_not, Nat.not_lt] at notShort notLong
          exact .domain _ _ domain actor notShort notLong
      | whois domain => exact .nothing _ books.balance
      | createToken name symbol metadata decimals =>
          rw [refusals, Refusal.first?_append, Option.or_eq_none_iff] at first
          have checked : TokenRecord.checkFields name symbol metadata decimals = .ok () := by
            rw [checkFields_eq, first.1]
          have fresh := Refusal.first?_eq_none_iff.mp first.2 _ List.mem_cons_self
          exact .token _ { name, symbol, metadata, decimals, owner := actor } checked
            (Option.isSome_eq_false_iff.mp fresh |> Option.isNone_iff_eq_none.mp)
      | getTokenAddress name symbol metadata => exact .nothing _ books.balance
      | createLiquidityPool functionId tokenX tokenY fee =>
          simp only [refusals, List.forall_mem_cons, decide_eq_false_iff_not,
            Option.isNone_eq_false_iff, Option.isSome_eq_false_iff, Option.isNone_iff_eq_none]
            at passes
          obtain ⟨charges, hasX, hasY, known, fresh, _⟩ := passes
          exact .pool functionId tokenX tokenY fee actor charges hasX hasY known fresh

/-- A pool is registered under its address, with a token of its own, and holds nothing yet. -/
structure PoolFits (params : Params) (books : Books) (pool : Address) (record : PoolRecord) :
    Prop where
  address : pool = .ofPool record.tokenX record.tokenY
  lpToken : record.lpToken = .ofPoolToken pool
  charges : record.fee ≠ 0
  known : params.models.contains record.functionId
  holdsNothing : record.reserveX = 0 ∧ record.reserveY = 0 ∧ record.kLast = 0
  hasX : (books.token? record.tokenX).isSome
  hasY : (books.token? record.tokenY).isSome
  lpRecord : books.token? record.lpToken = some (.ofPool pool)

/-- The registered tokens, pools and domains fit together, and all pools are among those created. -/
structure Linked (params : Params) (created : List Address) (books : Books) : Prop where
  domains : ∀ domain owner, books.owner? domain = some owner →
    2 ≤ domain.utf8ByteSize ∧ domain.utf8ByteSize ≤ 10
  /-- A token that is no pool's has the address of its fields, and they pass the check. -/
  tokens : ∀ token record, books.token? token = some record → token.kind? = some .token →
    token = .ofToken record.name record.symbol record.metadata ∧
      TokenRecord.checkFields record.name record.symbol record.metadata record.decimals = .ok ()
  /-- Any other token belongs to a pool. -/
  lpTokens : ∀ token record, books.token? token = some record → token.kind? ≠ some .token →
    ∃ pool poolRecord, books.pool? pool = some poolRecord ∧ poolRecord.lpToken = token
  pools : ∀ pool record, books.pool? pool = some record → books.PoolFits params pool record
  listed : ∀ pool record, books.pool? pool = some record → pool ∈ created

variable {params : Params} {books after : Books} {created : List Address}

/-- Every token is still registered, with the record that it had. -/
def Extends (books after : Books) : Prop :=
  ∀ token record, books.token? token = some record → after.token? token = some record

theorem Extends.isSome (kept : books.Extends after) {token : Address}
    (registered : (books.token? token).isSome) : (after.token? token).isSome := by
  obtain ⟨record, found⟩ := Option.isSome_iff_exists.mp registered
  exact Option.isSome_iff_exists.mpr ⟨record, kept token record found⟩

theorem PoolFits.mono {pool : Address} {record : PoolRecord}
    (fits : books.PoolFits params pool record) (kept : books.Extends after) :
    after.PoolFits params pool record :=
  { fits with
    hasX := kept.isSome fits.hasX
    hasY := kept.isSome fits.hasY
    lpRecord := kept _ _ fits.lpRecord }

theorem PoolFits.opened {functionId : UInt8} {pool tokenX tokenY feeTo : Address} {fee : UInt64}
    (isPool : pool = .ofPool tokenX tokenY) (charges : fee ≠ 0)
    (hasX : (books.token? tokenX).isSome) (hasY : (books.token? tokenY).isSome)
    (known : params.models.contains functionId)
    (lpRecord : books.token? (.ofPoolToken pool) = some (.ofPool pool)) :
    books.PoolFits params pool
      (.opened functionId tokenX tokenY fee feeTo (.ofPoolToken pool)) where
  address := isPool
  lpToken := rfl
  charges := charges
  known := known
  holdsNothing := ⟨rfl, rfl, rfl⟩
  hasX := hasX
  hasY := hasY
  lpRecord := lpRecord

/-- A new token takes the place of none. -/
theorem extends_setToken {token : Address} (fresh : books.token? token = none)
    (record : TokenRecord) : books.Extends (books.setToken token record) := by
  intro other found registered
  rw [token?_setToken, if_neg, registered]
  rintro rfl
  rw [fresh] at registered
  cases registered

namespace Linked

variable (linked : Linked params created books)

include linked

/-- The token of a new pool is not registered yet. -/
theorem token?_ofPoolToken (distinct : DistinctDigests created) {pool : Address}
    (isCreated : pool ∈ created) (fresh : books.pool? pool = none) :
    books.token? (.ofPoolToken pool) = none := by
  cases registered : books.token? (.ofPoolToken pool) with
  | none => rfl
  | some record =>
      have kind : (Address.ofPoolToken pool).kind? ≠ some .token := by
        rw [Address.kind?_ofPoolToken]
        nofun
      obtain ⟨other, poolRecord, found, isToken⟩ := linked.lpTokens _ _ registered kind
      rw [(linked.pools other poolRecord found).lpToken] at isToken
      have same : other = pool := distinct other (linked.listed other poolRecord found) pool
        isCreated (Address.ofPoolToken_inj.mp isToken)
      rw [same, fresh] at found
      cases found

theorem withBalances (balance : Address → Amount) :
    Linked params created { books with balance } where
  domains := linked.domains
  tokens := linked.tokens
  lpTokens := linked.lpTokens
  pools pool record found := (linked.pools pool record found).mono fun _ _ => id
  listed := linked.listed

theorem setToken {record : TokenRecord}
    (checked : TokenRecord.checkFields record.name record.symbol record.metadata
      record.decimals = .ok ())
    (fresh : books.token? (.ofToken record.name record.symbol record.metadata) = none) :
    Linked params created
      (books.setToken (.ofToken record.name record.symbol record.metadata) record) where
  domains := linked.domains
  tokens := by
    intro token found registered kind
    rw [token?_setToken] at registered
    split at registered
    · rename_i isNew
      cases registered
      exact ⟨isNew, checked⟩
    · exact linked.tokens token found registered kind
  lpTokens := by
    intro token found registered kind
    rw [token?_setToken] at registered
    split at registered
    · rename_i isNew
      rw [isNew, Address.kind?_ofToken] at kind
      exact absurd rfl kind
    · exact linked.lpTokens token found registered kind
  pools pool poolRecord found :=
    (linked.pools pool poolRecord found).mono (extends_setToken fresh record)
  listed := linked.listed

theorem setPool (distinct : DistinctDigests created) {functionId : UInt8}
    {pool tokenX tokenY feeTo : Address} {fee : UInt64} (isPool : pool = .ofPool tokenX tokenY)
    (charges : fee ≠ 0) (hasX : (books.token? tokenX).isSome)
    (hasY : (books.token? tokenY).isSome) (known : params.models.contains functionId)
    (fresh : books.pool? pool = none) (isCreated : pool ∈ created) :
    Linked params created
      ((books.setToken (.ofPoolToken pool) (.ofPool pool)).setPool pool
        (.opened functionId tokenX tokenY fee feeTo (.ofPoolToken pool))) := by
  have freshToken := linked.token?_ofPoolToken distinct isCreated fresh
  have kept := extends_setToken freshToken (.ofPool pool)
  constructor
  · exact linked.domains
  · intro token found registered kind
    rw [token?_setPool, token?_setToken] at registered
    split at registered
    · rename_i isNew
      rw [isNew, Address.kind?_ofPoolToken] at kind
      cases kind
    · exact linked.tokens token found registered kind
  · intro token found registered kind
    rw [token?_setPool, token?_setToken] at registered
    split at registered
    · rename_i isNew
      have opened := pool?_setPool (books.setToken (.ofPoolToken pool) (.ofPool pool)) pool
        (.opened functionId tokenX tokenY fee feeTo (.ofPoolToken pool)) pool
      rw [if_pos rfl] at opened
      exact ⟨pool, _, opened, isNew.symm⟩
    · obtain ⟨other, record, isOld, isToken⟩ := linked.lpTokens token found registered kind
      have ne : other ≠ pool := by
        rintro rfl
        rw [fresh] at isOld
        cases isOld
      refine ⟨other, record, ?_, isToken⟩
      rw [pool?_setPool, if_neg ne, pool?_setToken, isOld]
  · intro other record found
    rw [pool?_setPool] at found
    split at found
    · rename_i isNew
      cases found
      rw [isNew]
      refine .opened isPool charges (kept.isSome hasX) (kept.isSome hasY) known ?_
      rw [token?_setPool, token?_setToken, if_pos rfl]
    · exact (linked.pools other record found).mono kept
  · intro other record found
    rw [pool?_setPool] at found
    split at found
    · rename_i isNew
      rw [isNew]
      exact isCreated
    · exact linked.listed other record found

/-- What an action registers fits together with what was registered before. -/
theorem step (distinct : DistinctDigests created)
    {outcome : Except ActionError Output × Books} (registered : Registration params books outcome)
    (isCreated : ∀ pool lpToken, outcome.1 = .ok (.createLiquidityPool pool lpToken) →
      pool ∈ created) : Linked params created outcome.2 := by
  cases registered with
  | nothing answer balance => exact linked.withBalances balance
  | domain answer balance name owner notShort notLong =>
      refine
        { domains := fun domain found claimed => ?_
          tokens := linked.tokens
          lpTokens := linked.lpTokens
          pools := fun pool record found => (linked.pools pool record found).mono fun _ _ => id
          listed := linked.listed }
      replace claimed : (books.setOwner name owner).owner? domain = some found := claimed
      rw [owner?_setOwner] at claimed
      split at claimed
      · rename_i isNew
        rw [isNew]
        exact ⟨notShort, notLong⟩
      · exact linked.domains domain found claimed
  | token answer record checked fresh => exact linked.setToken checked fresh
  | pool functionId tokenX tokenY fee feeTo charges hasX hasY known fresh =>
      exact linked.setPool distinct rfl charges hasX hasY known fresh (isCreated _ _ rfl)

/-- A token that is not of its own kind belongs to exactly one pool. -/
theorem existsUnique_pool (distinct : DistinctDigests created) {token : Address}
    {record : TokenRecord} (registered : books.token? token = some record)
    (kind : token.kind? ≠ some .token) :
    ∃! pool, ∃ poolRecord, books.pool? pool = some poolRecord ∧ poolRecord.lpToken = token := by
  obtain ⟨pool, poolRecord, found, isToken⟩ := linked.lpTokens token record registered kind
  refine ⟨pool, ⟨poolRecord, found, isToken⟩, ?_⟩
  rintro other ⟨otherRecord, otherFound, otherIsToken⟩
  rw [(linked.pools pool poolRecord found).lpToken] at isToken
  rw [(linked.pools other otherRecord otherFound).lpToken] at otherIsToken
  exact distinct other (linked.listed other otherRecord otherFound) pool
    (linked.listed pool poolRecord found)
    (Address.ofPoolToken_inj.mp (otherIsToken.trans isToken.symm))

end Linked

end Books

end PoolLedger
