import PoolLedger.Proofs.BatchRefusal
import PoolLedger.Proofs.LongestPaths

/-!
# The threshold of the sequential fallback

The threshold is given in whole percent, and the share of clashing pairs is
rounded down to one.  A batch therefore runs one entry at a time from the next
whole percent on, and a part of a percent above the threshold does not count.
-/

namespace PoolLedger

namespace Batch

/-- How many pairs of entries there are. -/
def pairCount (entries : List Entry) : Nat :=
  entries.length * (entries.length - 1) / 2

/-- One entry at a time in ascending order of index. -/
def serialSchedule (entries : List Entry) : Schedule :=
  .sequential ((arrange entries).map (·.index))

/-- The layers of the graph of a batch, if the graph is within the limit. -/
def layeredSchedule (config : Config) (entries : List Entry) : Except OrderingError Schedule :=
  if config.maxEdgeCount < clashCount entries then
    .error (.tooManyEdges (clashCount entries) config.maxEdgeCount)
  else .ok (Graph.ofEntries (arrange entries)).layering

/-- The schedule when the share of clashing pairs is compared with the threshold unrounded. -/
def scheduleByShare (config : Config) (entries : List Entry) : Except OrderingError Schedule :=
  if config.conflictThresholdPercent.toNat * pairCount entries < 100 * clashCount entries then
    .ok (serialSchedule entries)
  else layeredSchedule config entries

/-- A quotient that is rounded down and an exact one decide alike outside of the unit above the
threshold, and everywhere if both decisions have the same result. -/
theorem rounded_eq_exact_iff {α : Type} {threshold total amount : Nat} {above below : α}
    (positive : 0 < total) :
    (if (threshold + 1) * total ≤ amount then above else below) =
        (if threshold * total < amount then above else below) ↔
      amount ≤ threshold * total ∨ (threshold + 1) * total ≤ amount ∨ below = above := by
  have next : (threshold + 1) * total = threshold * total + total := Nat.succ_mul _ _
  by_cases exceeds : threshold * total < amount
  · have notWithin : ¬ amount ≤ threshold * total := Nat.not_le_of_lt exceeds
    by_cases reaches : (threshold + 1) * total ≤ amount
    · simp [exceeds, reaches]
    · simp [exceeds, reaches, notWithin]
  · have within : amount ≤ threshold * total := Nat.le_of_not_lt exceeds
    have notReached : ¬ (threshold + 1) * total ≤ amount := by omega
    simp [exceeds, notReached, within]

section Fallback

variable {config : Config} {entries : List Entry}

theorem pairCount_pos (atLeastTwo : 2 ≤ entries.length) : 0 < pairCount entries := by
  have product : 2 * 1 ≤ entries.length * (entries.length - 1) :=
    Nat.mul_le_mul atLeastTwo (by omega)
  unfold pairCount
  omega

/-- The share in whole percent exceeds the threshold from the next whole percent on. -/
theorem lt_clashShare_iff (atLeastTwo : 2 ≤ entries.length) (threshold : Nat) :
    threshold < clashShare entries ↔
      (threshold + 1) * pairCount entries ≤ 100 * clashCount entries :=
  Nat.le_div_iff_mul_le (pairCount_pos atLeastTwo)

/-- The graph of a batch has layers, since its dependencies lead to greater indices. -/
theorem schedule_ofEntries_eq_layering (distinct : (entries.map (·.index)).Nodup) :
    (Graph.ofEntries (arrange entries)).schedule =
      .ok (Graph.ofEntries (arrange entries)).layering := by
  have forward := forward_ofEntries (ascending_arrange distinct)
  rw [Graph.schedule, forward.closed.layers?_of_not_cyclic forward.not_cyclic, Graph.layering]

theorem schedule_planValid (distinct : (entries.map (·.index)).Nodup)
    (fewEntries : entries.length < 2 ^ 32) :
    (planValid config entries).map (·.schedule) =
      if config.conflictThresholdPercent.toNat < clashShareWord entries then
        .ok (serialSchedule entries)
      else layeredSchedule config entries := by
  rw [planValid, ← Graph.ofEntries, conflictPercentage_arrange distinct fewEntries,
    Graph.dependencies_ofEntries, List.length_map, length_conflicts_arrange distinct,
    layeredSchedule, schedule_ofEntries_eq_layering distinct]
  split
  · rfl
  · split <;> rfl

theorem schedule_eq_ite (atLeastTwo : 2 ≤ entries.length) (fewEntries : entries.length < 2 ^ 32)
    (within : entries.length ≤ config.maxBatchSize)
    (distinct : (entries.map (·.index)).Nodup) :
    schedule config entries =
      if config.conflictThresholdPercent.toNat < clashShareWord entries then
        .ok (serialSchedule entries)
      else layeredSchedule config entries := by
  have someEntries : entries ≠ [] := List.ne_nil_of_length_pos (by omega)
  rw [schedule, plan, validate_eq_ok_iff.mpr ⟨someEntries, within, distinct⟩]
  exact schedule_planValid distinct fewEntries

end Fallback

/-- A batch of at least two entries runs one entry at a time exactly if its share of clashing
pairs, in whole percent, exceeds the threshold; otherwise its layers are made, if the graph is
within the limit.  The exact share gives another schedule only if it lies strictly between the
threshold and the next whole percent, and the layers are not one entry each anyway.  A hundredfold
number of clashing pairs that fits into no word counts as the greatest one. -/
theorem schedule_rounds_share_down (config : Config) (entries : List Entry)
    (atLeastTwo : 2 ≤ entries.length) (fewEntries : entries.length < 2 ^ 32)
    (within : entries.length ≤ config.maxBatchSize)
    (distinct : (entries.map (·.index)).Nodup) :
    (100 * clashCount entries < 2 ^ 64 →
        schedule config entries =
          if config.conflictThresholdPercent.toNat < clashShare entries then
            .ok (serialSchedule entries)
          else layeredSchedule config entries) ∧
      (schedule config entries =
        if config.conflictThresholdPercent.toNat < clashShareWord entries then
          .ok (serialSchedule entries)
        else layeredSchedule config entries) ∧
      (100 * clashCount entries < 2 ^ 64 →
        (schedule config entries = scheduleByShare config entries ↔
          100 * clashCount entries ≤ config.conflictThresholdPercent.toNat * pairCount entries ∨
            (config.conflictThresholdPercent.toNat + 1) * pairCount entries ≤
              100 * clashCount entries ∨
            layeredSchedule config entries = .ok (serialSchedule entries))) := by
  have scheduled := schedule_eq_ite atLeastTwo fewEntries within distinct
  refine ⟨fun small => ?_, scheduled, fun small => ?_⟩
  · rw [← clashShareWord_eq small]
    exact scheduled
  · rw [clashShareWord_eq small] at scheduled
    rw [scheduled, scheduleByShare]
    simp only [lt_clashShare_iff atLeastTwo]
    exact rounded_eq_exact_iff (pairCount_pos atLeastTwo)

/-- One of three pairs clashes, which is 33 percent: more than 32, and not more than 33, although
the exact share is. -/
theorem schedule_crossedTransfers_above_threshold :
    clashShare crossedTransfers = 33 ∧
      schedule { conflictThresholdPercent := 32 } crossedTransfers =
        .ok (.ofLayers [[2], [4], [7]]) ∧
      schedule { conflictThresholdPercent := 33 } crossedTransfers =
        .ok (.ofLayers [[2, 4], [7]]) ∧
      schedule { conflictThresholdPercent := 33 } crossedTransfers ≠
        scheduleByShare { conflictThresholdPercent := 33 } crossedTransfers := by
  have share : clashShare crossedTransfers = 33 := by decide +kernel
  have small : 100 * clashCount crossedTransfers < 2 ^ 64 := by decide +kernel
  have layered : layeredSchedule { conflictThresholdPercent := 33 } crossedTransfers =
      .ok (.ofLayers [[2, 4], [7]]) := by
    decide +kernel
  obtain ⟨fallsBack, _⟩ := schedule_rounds_share_down { conflictThresholdPercent := 32 }
    crossedTransfers (by decide) (by decide) (by decide) (by decide)
  obtain ⟨staysLayered, _, agrees⟩ := schedule_rounds_share_down
    { conflictThresholdPercent := 33 } crossedTransfers (by decide) (by decide) (by decide)
    (by decide)
  refine ⟨share, ?_, ?_, ?_⟩
  · rw [fallsBack small, share]
    decide +kernel
  · rw [staysLayered small, share, ← layered]
    rfl
  · rw [Ne, agrees small, layered]
    decide +kernel

/-- The exact comparison is not the one that is made. -/
theorem not_schedule_eq_scheduleByShare :
    ¬ ∀ (config : Config) (entries : List Entry), 2 ≤ entries.length →
      entries.length < 2 ^ 32 → entries.length ≤ config.maxBatchSize →
      (entries.map (·.index)).Nodup →
      schedule config entries = scheduleByShare config entries := by
  intro exact
  have same := exact { conflictThresholdPercent := 33 } crossedTransfers (by decide) (by decide)
    (by decide) (by decide)
  have layers : schedule { conflictThresholdPercent := 33 } crossedTransfers =
      .ok (.ofLayers [[2, 4], [7]]) := by
    decide +kernel
  have oneByOne : scheduleByShare { conflictThresholdPercent := 33 } crossedTransfers =
      .ok (.ofLayers [[2], [4], [7]]) := by
    decide +kernel
  rw [layers, oneByOne] at same
  exact absurd same (by decide +kernel)

end Batch

end PoolLedger
