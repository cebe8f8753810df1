import PoolLedger.Proofs.HaltedBatch

/-!
# Arrival order

Only the indices of a batch say what comes first.  Its entries may arrive in any
order: the batch is checked, arranged, scheduled and run in the same way.
-/

namespace PoolLedger

namespace Batch

section Arrival

variable {entries others : List Entry}

theorem arrange_perm (distinct : (entries.map (·.index)).Nodup) (perm : entries.Perm others) :
    arrange entries = arrange others := by
  have othersDistinct : (others.map (·.index)).Nodup := (perm.map _).nodup_iff.mp distinct
  apply sortBy_eq_of_perm
  · exact (perm.map Entry.declare).trans (sortBy_perm _ _).symm
  · exact ascending_arrange othersDistinct

theorem validate_perm (config : Config) (distinct : (entries.map (·.index)).Nodup)
    (perm : entries.Perm others) : validate config entries = validate config others := by
  have othersDistinct : (others.map (·.index)).Nodup := (perm.map _).nodup_iff.mp distinct
  have noRepeat := (firstRepeated?_eq_none_iff entries).mpr distinct
  have othersNoRepeat := (firstRepeated?_eq_none_iff others).mpr othersDistinct
  rw [validate, validate, perm.isEmpty_eq, perm.length_eq, noRepeat, othersNoRepeat]

theorem plan_perm (config : Config) (distinct : (entries.map (·.index)).Nodup)
    (perm : entries.Perm others) : Batch.plan config entries = Batch.plan config others := by
  have planned : planValid config entries = planValid config others := by
    rw [planValid, planValid, arrange_perm distinct perm]
  rw [Batch.plan, Batch.plan, validate_perm config distinct perm, planned]

/-- Whatever the orders of the steps of their members, the two batches end in the same way. -/
theorem runsBatch_perm {params : Params} {config : Config} {store final otherFinal : Store}
    {result otherResult : Except OrderingError (List Outcome)}
    (distinct : (entries.map (·.index)).Nodup) (perm : entries.Perm others)
    (ran : RunsBatch params config entries store result final)
    (otherRan : RunsBatch params config others store otherResult otherFinal) :
    result = otherResult ∧ final = otherFinal := by
  rw [RunsBatch, ← plan_perm config distinct perm, ← RunsBatch] at otherRan
  obtain ⟨_, executed⟩ := (runsBatch_iff {} result final).mp ran
  obtain ⟨_, otherExecuted⟩ := (runsBatch_iff {} otherResult otherFinal).mp otherRan
  cases executed.symm.trans otherExecuted
  exact ⟨rfl, rfl⟩

end Arrival

/-- The entries of a batch may arrive in any order.  The schedule or the refusal is the same, and so
are the outcomes or the fault of a run, the store that it leaves and what has been counted,
whatever the order of the steps of the members of each group. -/
theorem arrival_order_irrelevant (config : Config) {entries others : List Entry}
    (distinct : (entries.map (·.index)).Nodup) (perm : entries.Perm others) :
    Batch.schedule config entries = Batch.schedule config others ∧
      (∀ ledger : Ledger,
        ledger.schedule config entries = ledger.schedule config others ∧
          ledger.executeBatch config entries = ledger.executeBatch config others) ∧
      ∀ params store result final otherResult otherFinal,
        RunsBatch params config entries store result final →
        RunsBatch params config others store otherResult otherFinal →
          result = otherResult ∧ final = otherFinal := by
  have planned := plan_perm config distinct perm
  refine ⟨?_, fun ledger => ?_, ?_⟩
  · rw [Batch.schedule, Batch.schedule, planned]
  · have sameStart : ledger.plan config entries = ledger.plan config others := by
      rw [Ledger.plan, Ledger.plan, planned]
    rw [Ledger.schedule, Ledger.schedule, Ledger.executeBatch, Ledger.executeBatch, sameStart]
    exact ⟨rfl, rfl⟩
  · intro params store result final otherResult otherFinal ran otherRan
    exact runsBatch_perm distinct perm ran otherRan

/-- The entry that meets the damage comes first and still has the last index, so the batch halts at
it after the transfer that has the first. -/
theorem spentDamage_reversed :
    (spentDamage.map (·.index)).Nodup ∧
      spentDamage.Perm spentDamage.reverse ∧
      Batch.schedule {} spentDamage.reverse = .ok (.ofLayers [[0, 2], [1]]) ∧
      (Ledger.executeBatch ⟨crossedParams, .ofStore damagedStore, {}⟩ {}
        spentDamage.reverse).1 = .error (.fatal 2
          (.corruptValue (.ofBalance (accountOf 4)) (.invalidLength "balance" 8 1))) ∧
      Batch.schedule { maxBatchSize := 2 } spentDamage.reverse = .error (.batchTooLarge 3 2) := by
  have distinct : (spentDamage.map (·.index)).Nodup := by decide
  have reversed : spentDamage.Perm spentDamage.reverse := (List.reverse_perm _).symm
  have scheduled : Batch.schedule {} spentDamage = .ok (.ofLayers [[0, 2], [1]]) := by
    decide +kernel
  have faulted : (Ledger.executeBatch ⟨crossedParams, .ofStore damagedStore, {}⟩ {}
      spentDamage).1 = .error (.fatal 2
        (.corruptValue (.ofBalance (accountOf 4)) (.invalidLength "balance" 8 1))) := by
    decide +kernel
  have refused : Batch.schedule { maxBatchSize := 2 } spentDamage =
      .error (.batchTooLarge 3 2) := by
    decide +kernel
  obtain ⟨sameSchedule, sameRun, _⟩ := arrival_order_irrelevant {} distinct reversed
  obtain ⟨sameRefusal, _⟩ :=
    arrival_order_irrelevant { maxBatchSize := 2 } distinct reversed
  refine ⟨distinct, reversed, sameSchedule.symm.trans scheduled, ?_,
    sameRefusal.symm.trans refused⟩
  rw [← (sameRun _).2]
  exact faulted

end Batch

end PoolLedger
