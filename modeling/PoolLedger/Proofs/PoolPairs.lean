import PoolLedger.Proofs.CanonicalConflicts
import PoolLedger.Proofs.GroupMembers
import PoolLedger.Proofs.RegistrationLog

/-!
# Pools belong to unordered pairs

Whichever of two tokens comes first, the pool has the same address and its
creation declares the same keys.  It allocates the pool and the token of its
shares, so two creations of one pool conflict, and a schedule keeps them apart.
-/

namespace PoolLedger

open Batch

namespace Declaration

/-- What the creation of a pool declares, whoever performs it and whatever the pool charges. -/
def ofPool (tokenX tokenY : Address) : Declaration :=
  let pool := Address.ofPool tokenX tokenY
  .ofKeys
    [(.ofToken tokenX, .read), (.ofToken tokenY, .read), (.ofPool pool, .allocate),
      (.ofToken (.ofPoolToken pool), .allocate)]

section Pools

variable {tokenX tokenY otherX otherY : Address}

theorem ofPool_congr (samePair : s(tokenX, tokenY) = s(otherX, otherY)) :
    ofPool tokenX tokenY = ofPool otherX otherY := by
  rcases Sym2.eq_iff.mp samePair with ⟨rfl, rfl⟩ | ⟨rfl, rfl⟩
  · rfl
  · rw [ofPool, ofPool, Address.ofPool_comm tokenY tokenX]
    apply ofKeys_congr
    intro entry
    simp only [List.mem_cons]
    exact or_left_comm

/-- The pool and the token of its shares are all that its creation may change.  A token that is read
and has the key of the token of the shares is allocated as well. -/
theorem exists_mutating_ofPool_iff {key : StateKey} :
    (∃ mode, (ofPool tokenX tokenY).get? key = some mode ∧ mode.isMutating = true) ↔
      key = .ofPool (.ofPool tokenX tokenY) ∨
        key = .ofToken (.ofPoolToken (.ofPool tokenX tokenY)) := by
  constructor
  · rintro ⟨mode, found, mutating⟩
    have listed := mem_of_get?_ofKeys found
    simp only [List.mem_cons, Prod.mk.injEq, List.not_mem_nil, or_false] at listed
    rcases listed with ⟨_, rfl⟩ | ⟨_, rfl⟩ | ⟨isPool, _⟩ | ⟨isPoolToken, _⟩
    · cases mutating
    · cases mutating
    · exact .inl isPool
    · exact .inr isPoolToken
  · intro isAllocated
    refine ⟨.allocate, ?_, rfl⟩
    rw [ofPool, get?_ofKeys_eq_some_iff]
    constructor
    · rcases isAllocated with rfl | rfl <;> simp
    · intro other _
      cases other <;> rfl

/-- Creations that declare the same keys create the pool of one address. -/
theorem ofPool_eq_of_ofPool_eq (same : ofPool tokenX tokenY = ofPool otherX otherY) :
    Address.ofPool tokenX tokenY = .ofPool otherX otherY := by
  have changed : ∃ mode, (ofPool tokenX tokenY).get? (.ofPool (.ofPool tokenX tokenY)) =
      some mode ∧ mode.isMutating = true := exists_mutating_ofPool_iff.mpr (.inl rfl)
  rw [same, exists_mutating_ofPool_iff] at changed
  rcases changed with samePool | isToken
  · exact StateKey.ofPool_inj.mp samePool
  · exact absurd isToken (StateKey.ne_of_kind (by simp))

/-- Two creations of one pool conflict on the token of its shares, whose key comes before that of
the pool. -/
theorem conflict?_ofPool (samePair : s(tokenX, tokenY) = s(otherX, otherY)) :
    (ofPool tokenX tokenY).conflict? (ofPool otherX otherY) =
      some (.ofToken (.ofPoolToken (.ofPool tokenX tokenY)), .writeWrite) := by
  rw [← ofPool_congr samePair, conflict?_eq_writeWrite_iff]
  constructor
  · obtain ⟨mode, found, mutating⟩ := exists_mutating_ofPool_iff.mpr (.inr rfl)
    exact ⟨mode, mode, found, found, mutating, mutating⟩
  · rintro key ⟨mode, _, found, _, mutating, _⟩
    rcases exists_mutating_ofPool_iff.mp ⟨mode, found, mutating⟩ with rfl | rfl
    · rfl
    · exact Std.ReflCmp.isLE_rfl

end Pools

end Declaration

namespace Action

/-- The creation of the pool of a pair declares the keys of that pool. -/
theorem declared_of_pool {action : Action} {pair : Sym2 Address}
    (isPool : action.subject? = some (.pool pair)) (actor : Address) :
    ∃ tokenX tokenY, s(tokenX, tokenY) = pair ∧
      action.declared actor = Declaration.ofPool tokenX tokenY := by
  cases action with
  | createLiquidityPool functionId tokenX tokenY fee =>
      cases isPool
      exact ⟨tokenX, tokenY, rfl, rfl⟩
  | _ => cases isPool

end Action

namespace Batch

section Creations

variable {config : Config} {entries : List Entry} {first second : Entry} {pair : Sym2 Address}

theorem conflictBetween_pools (isPool : first.action.subject? = some (.pool pair))
    (samePool : second.action.subject? = some (.pool pair)) :
    conflictBetween first.declare second.declare = some
      ⟨first.index, second.index, .writeWrite, .ofToken (.ofPoolToken (.ofPair pair))⟩ := by
  obtain ⟨tokenX, tokenY, rfl, isFirst⟩ := Action.declared_of_pool isPool first.actor
  obtain ⟨otherX, otherY, samePair, isSecond⟩ := Action.declared_of_pool samePool second.actor
  rw [conflictBetween_eq_some_iff, Entry.declare, Entry.declare, isFirst, isSecond]
  exact ⟨Declaration.conflict?_ofPool samePair.symm, rfl, rfl⟩

theorem mem_conflicts_pools (distinct : (entries.map (·.index)).Nodup)
    (firstMember : first ∈ entries) (secondMember : second ∈ entries)
    (below : first.index < second.index) (isPool : first.action.subject? = some (.pool pair))
    (samePool : second.action.subject? = some (.pool pair)) :
    ⟨first.index, second.index, .writeWrite, .ofToken (.ofPoolToken (.ofPair pair))⟩ ∈
      conflicts (arrange entries) :=
  (mem_conflicts_iff (ascending_arrange distinct) _).mpr
    ⟨first.declare, (mem_arrange_iff _).mpr ⟨first, firstMember, rfl⟩,
      second.declare, (mem_arrange_iff _).mpr ⟨second, secondMember, rfl⟩, below,
      conflictBetween_pools isPool samePool⟩

/-- A pool is created a second time in a later group only. -/
theorem places_pools {schedule : Schedule} (scheduled : Batch.schedule config entries = .ok schedule)
    (firstMember : first ∈ entries) (secondMember : second ∈ entries)
    (below : first.index < second.index) (isPool : first.action.subject? = some (.pool pair))
    (samePool : second.action.subject? = some (.pool pair)) :
    ∃ earlier later, earlier < later ∧ schedule.Places earlier first.index ∧
      schedule.Places later second.index := by
  obtain ⟨made, planned, rfl⟩ := plan_of_schedule scheduled
  obtain ⟨_, _, valid⟩ := valid_of_plan planned
  have placed : ∀ entry ∈ entries, ∃ position, made.schedule.Places position entry.index := by
    intro entry member
    rw [← Schedule.mem_flatten_iff, valid.lists.mem_iff]
    exact List.mem_map_of_mem member
  obtain ⟨earlier, atEarlier⟩ := placed first firstMember
  obtain ⟨later, atLater⟩ := placed second secondMember
  have clash : first.Clash second :=
    (isSome_conflictBetween_iff first.declare second.declare).mp
      (by rw [conflictBetween_pools isPool samePool]; rfl)
  exact ⟨earlier, later, valid.separates first firstMember second secondMember below clash
    earlier later atEarlier atLater, atEarlier, atLater⟩

end Creations

end Batch

/-- The address of a pool is that of the unordered pair of its tokens, and of no other pair unless
the payloads of two pairs, which are distinct and 66 bytes long, have one digest.  Whoever creates
the pool, and in whichever order the tokens are given, the same keys are declared, and creations
that declare the same keys create the pool of one address.  So in every batch two creations of the
pool of one pair conflict on the token of its shares, and a schedule of the batch has the one with
the greater index in a later group. -/
theorem pools_belong_to_unordered_pairs :
    (∀ tokenX tokenY otherX otherY : Address,
      (Address.poolPayload tokenX tokenY).length = 66 ∧
      (Address.poolPayload tokenX tokenY = Address.poolPayload otherX otherY ↔
        s(tokenX, tokenY) = s(otherX, otherY)) ∧
      (Address.ofPool tokenX tokenY = Address.ofPool otherX otherY ↔
        s(tokenX, tokenY) = s(otherX, otherY) ∨
          Address.poolPayload tokenX tokenY ≠ Address.poolPayload otherX otherY ∧
            Digest.ofMessage (Address.poolPayload tokenX tokenY) =
              Digest.ofMessage (Address.poolPayload otherX otherY))) ∧
    (∀ (actor otherActor tokenX tokenY otherX otherY : Address) (functionId otherId : UInt8)
        (fee otherFee : UInt64),
      (s(tokenX, tokenY) = s(otherX, otherY) →
        Action.declared actor (.createLiquidityPool functionId tokenX tokenY fee) =
          Action.declared otherActor (.createLiquidityPool otherId otherX otherY otherFee)) ∧
      (Action.declared actor (.createLiquidityPool functionId tokenX tokenY fee) =
          Action.declared otherActor (.createLiquidityPool otherId otherX otherY otherFee) →
        Address.ofPool tokenX tokenY = Address.ofPool otherX otherY)) ∧
    ∀ (entries : List Entry), (entries.map (·.index)).Nodup →
      ∀ first ∈ entries, ∀ second ∈ entries, first.index < second.index →
        ∀ pair, first.action.subject? = some (.pool pair) →
          second.action.subject? = some (.pool pair) →
            ⟨first.index, second.index, .writeWrite, .ofToken (.ofPoolToken (.ofPair pair))⟩ ∈
              conflicts (arrange entries) ∧
            ∀ config schedule, Batch.schedule config entries = .ok schedule →
              ∃ earlier later, earlier < later ∧ schedule.Places earlier first.index ∧
                schedule.Places later second.index := by
  refine ⟨fun tokenX tokenY otherX otherY => ?_, ?_, ?_⟩
  · exact ⟨Address.length_poolPayload tokenX tokenY, Address.poolPayload_eq_iff,
      Address.ofPool_eq_iff⟩
  · intro actor otherActor tokenX tokenY otherX otherY functionId otherId fee otherFee
    exact ⟨Declaration.ofPool_congr, Declaration.ofPool_eq_of_ofPool_eq⟩
  · intro entries distinct first firstMember second secondMember below pair isPool samePool
    refine ⟨mem_conflicts_pools distinct firstMember secondMember below isPool samePool, ?_⟩
    intro config schedule scheduled
    exact places_pools scheduled firstMember secondMember below isPool samePool

/-- A pool is created twice, the later time with its tokens the other way round; a greeting has
nothing to do with it. -/
def ferryPools : List Entry :=
  [⟨6, accountOf 1, .createLiquidityPool 0 (accountOf 8) (accountOf 9) 30⟩,
    ⟨2, accountOf 3, .hi []⟩,
    ⟨4, accountOf 4, .createLiquidityPool 1 (accountOf 9) (accountOf 8) 5⟩]

theorem ferryPools_apart :
    (ferryPools.map (·.index)).Nodup ∧
      Address.ofPool (accountOf 9) (accountOf 8) = Address.ofPool (accountOf 8) (accountOf 9) ∧
      ⟨4, 6, .writeWrite, .ofToken (.ofPoolToken (.ofPool (accountOf 9) (accountOf 8)))⟩ ∈
        conflicts (arrange ferryPools) ∧
      Batch.schedule {} ferryPools = .ok (.ofLayers [[2, 4], [6]]) ∧
      ∃ earlier later, earlier < later ∧
        (Schedule.ofLayers [[2, 4], [6]]).Places earlier 4 ∧
        (Schedule.ofLayers [[2, 4], [6]]).Places later 6 := by
  have distinct : (ferryPools.map (·.index)).Nodup := by decide
  have scheduled : Batch.schedule {} ferryPools = .ok (.ofLayers [[2, 4], [6]]) := by
    decide +kernel
  obtain ⟨addresses, _, batches⟩ := pools_belong_to_unordered_pairs
  obtain ⟨_, _, samePool⟩ := addresses (accountOf 9) (accountOf 8) (accountOf 8) (accountOf 9)
  have isReversed : Action.subject? (.createLiquidityPool 0 (accountOf 8) (accountOf 9) 30) =
      some (.pool s(accountOf 9, accountOf 8)) :=
    congrArg (some ∘ Subject.pool) Sym2.eq_swap
  obtain ⟨conflicting, apart⟩ := batches ferryPools distinct
    ⟨4, accountOf 4, .createLiquidityPool 1 (accountOf 9) (accountOf 8) 5⟩ (by simp [ferryPools])
    ⟨6, accountOf 1, .createLiquidityPool 0 (accountOf 8) (accountOf 9) 30⟩ (by simp [ferryPools])
    (by decide) s(accountOf 9, accountOf 8) rfl isReversed
  exact ⟨distinct, samePool.mpr (.inl Sym2.eq_swap), conflicting, scheduled,
    apart {} _ scheduled⟩

end PoolLedger
