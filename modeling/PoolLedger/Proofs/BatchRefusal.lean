import PoolLedger.Proofs.BatchPlanning
import PoolLedger.Proofs.FirstRepeats

/-!
# Refusals of a batch

A batch is refused for the first reason that applies.  Every schedule that is
made is valid, and no batch is refused for a cycle.
-/

namespace PoolLedger

namespace Batch

/-- The first entry that repeats the index of an earlier one has this index. -/
def FirstRepeat (entries : List Entry) (index : Nat) : Prop :=
  ∃ before entry after, entries = before ++ entry :: after ∧ entry.index = index ∧
    (before.map (·.index)).Nodup ∧ index ∈ before.map (·.index)

/-- The first repeat of an index, without the entries. -/
theorem firstRepeat_iff (entries : List Entry) (index : Nat) :
    FirstRepeat entries index ↔ FirstRepeated (entries.map (·.index)) index := by
  constructor
  · rintro ⟨before, entry, after, rfl, rfl, nodup, inBefore⟩
    exact ⟨before.map (·.index), after.map (·.index), List.map_append, nodup, inBefore⟩
  · rintro ⟨before, after, split, nodup, inBefore⟩
    obtain ⟨earlier, tail, rfl, rfl, tailIndices⟩ := List.map_eq_append_iff.mp split
    obtain ⟨entry, later, rfl, rfl, rfl⟩ := List.map_eq_cons_iff.mp tailIndices
    exact ⟨earlier, entry, later, rfl, rfl, nodup, inBefore⟩

/-- Once the indices in `before` are seen, the search finds the first index that repeats. -/
theorem findsRepeat_of_seen (before : List Nat) {seen : SortedMap Nat Unit}
    (sameSeen : ∀ index, index ∈ seen.keys ↔ index ∈ before) (nodup : before.Nodup)
    (entries : List Entry) :
    FindsRepeat (before ++ entries.map (·.index)) (firstRepeated? seen entries) := by
  induction entries generalizing seen before with
  | nil => simpa [firstRepeated?, FindsRepeat] using nodup
  | cons head rest ih =>
      simp only [firstRepeated?, List.map_cons, SortedMap.contains_iff_mem_keys]
      by_cases headSeen : head.index ∈ seen.keys
      · rw [if_pos headSeen]
        exact findsRepeat_of_mem nodup ((sameSeen _).mp headSeen)
      · rw [if_neg headSeen, List.append_cons]
        apply ih
        · intro index
          rw [SortedMap.mem_keys_insert, List.mem_append, List.mem_singleton, sameSeen, or_comm]
        · exact nodup_append_singleton nodup (mt (sameSeen _).mpr headSeen)

theorem findsRepeat_firstRepeated? (entries : List Entry) :
    FindsRepeat (entries.map (·.index)) (firstRepeated? .empty entries) := by
  apply findsRepeat_of_seen []
  · simp [SortedMap.mem_keys_iff]
  · exact List.nodup_nil

theorem firstRepeated?_eq_some_iff (entries : List Entry) (index : Nat) :
    firstRepeated? .empty entries = some index ↔ FirstRepeat entries index := by
  rw [(findsRepeat_firstRepeated? entries).eq_some_iff, firstRepeat_iff]

theorem firstRepeated?_eq_none_iff (entries : List Entry) :
    firstRepeated? .empty entries = none ↔ (entries.map (·.index)).Nodup :=
  (findsRepeat_firstRepeated? entries).eq_none_iff

/-- Why a batch is refused; `share` is the share of clashing pairs in whole percent. -/
inductive Refused (config : Config) (entries : List Entry) (share : Nat) : OrderingError → Prop
  | emptyBatch (noEntries : entries = []) : Refused config entries share .emptyBatch
  | batchTooLarge (someEntries : entries ≠ []) (exceeds : config.maxBatchSize < entries.length) :
      Refused config entries share (.batchTooLarge entries.length config.maxBatchSize)
  | duplicateIndex (within : entries.length ≤ config.maxBatchSize) {index : Nat}
      (repeats : FirstRepeat entries index) : Refused config entries share (.duplicateIndex index)
  | tooManyEdges (someEntries : entries ≠ []) (within : entries.length ≤ config.maxBatchSize)
      (distinct : (entries.map (·.index)).Nodup)
      (belowThreshold : share ≤ config.conflictThresholdPercent.toNat)
      (exceeds : config.maxEdgeCount < clashCount entries) :
      Refused config entries share (.tooManyEdges (clashCount entries) config.maxEdgeCount)

theorem FirstRepeat.ne_nil {entries : List Entry} {index : Nat}
    (repeats : FirstRepeat entries index) : entries ≠ [] := by
  rintro rfl
  exact ((firstRepeat_iff [] index).mp repeats).not_nodup List.nodup_nil

section Plan

variable {config : Config} {entries : List Entry}

theorem validate_eq_ok_iff :
    validate config entries = .ok () ↔
      entries ≠ [] ∧ entries.length ≤ config.maxBatchSize ∧ (entries.map (·.index)).Nodup := by
  rw [← firstRepeated?_eq_none_iff]
  simp only [validate, List.isEmpty_iff]
  by_cases noEntries : entries = []
  · simp [noEntries]
  · by_cases exceeds : config.maxBatchSize < entries.length
    · have notWithin := Nat.not_le_of_lt exceeds
      simp [noEntries, exceeds, notWithin]
    · have within := Nat.le_of_not_lt exceeds
      cases firstRepeated? .empty entries <;> simp [noEntries, exceeds, within]

theorem refused_of_validate (share : Nat) {error : OrderingError}
    (refused : validate config entries = .error error) : Refused config entries share error := by
  simp only [validate, List.isEmpty_iff] at refused
  split at refused
  · rename_i noEntries
    cases refused
    exact .emptyBatch noEntries
  · rename_i someEntries
    split at refused
    · rename_i exceeds
      cases refused
      exact .batchTooLarge someEntries exceeds
    · rename_i within
      split at refused
      · rename_i index found
        cases refused
        exact .duplicateIndex (Nat.le_of_not_lt within)
          ((firstRepeated?_eq_some_iff entries index).mp found)
      · cases refused

/-- The plan of a batch that passed the checks has its graph and a schedule that fits it. -/
theorem fits_of_planValid (distinct : (entries.map (·.index)).Nodup) {made : Plan}
    (planned : planValid config entries = .ok made) :
    made.graph = Graph.ofEntries (arrange entries) ∧
      made.schedule.fits (Graph.ofEntries (arrange entries)) = true ∧
      ∀ group ∈ made.schedule.groups, group.indices.Pairwise (· < ·) := by
  obtain ⟨layered, found, fits, ascends⟩ := schedule_ofEntries distinct
  rw [planValid, ← Graph.ofEntries] at planned
  split at planned
  · cases planned
    exact ⟨rfl, Schedule.fits_sequential distinct, Schedule.ascends_sequential _⟩
  · split at planned
    · cases planned
    · rw [found] at planned
      cases planned
      exact ⟨rfl, fits, ascends⟩

theorem planValid_eq_error_iff (distinct : (entries.map (·.index)).Nodup)
    (fewEntries : entries.length < 2 ^ 32) (error : OrderingError) :
    planValid config entries = .error error ↔
      clashShareWord entries ≤ config.conflictThresholdPercent.toNat ∧
        config.maxEdgeCount < clashCount entries ∧
        error = .tooManyEdges (clashCount entries) config.maxEdgeCount := by
  obtain ⟨layered, found, _, _⟩ := schedule_ofEntries distinct
  rw [planValid, ← Graph.ofEntries, conflictPercentage_arrange distinct fewEntries, found,
    Graph.dependencies_ofEntries, List.length_map, length_conflicts_arrange distinct]
  split
  · simp
    omega
  · rename_i notAbove
    split
    · rename_i exceeds
      simp only [Except.error.injEq, exceeds, Nat.le_of_not_lt notAbove, true_and]
      exact eq_comm
    · rename_i notOver
      simp [Except.map]
      omega

/-- A plan is made only for a batch with distinct indices, and its schedule fits. -/
theorem fits_of_plan {made : Plan} (planned : Batch.plan config entries = .ok made) :
    (entries.map (·.index)).Nodup ∧
      made.graph = Graph.ofEntries (arrange entries) ∧
      made.schedule.fits (Graph.ofEntries (arrange entries)) = true ∧
      ∀ group ∈ made.schedule.groups, group.indices.Pairwise (· < ·) := by
  rw [Batch.plan] at planned
  split at planned
  · cases planned
  · rename_i passed
    have distinct := (validate_eq_ok_iff.mp passed).2.2
    exact ⟨distinct, fits_of_planValid distinct planned⟩

theorem plan_eq_error_iff (fewEntries : entries.length < 2 ^ 32) (error : OrderingError) :
    Batch.plan config entries = .error error ↔
      Refused config entries (clashShareWord entries) error := by
  constructor
  · intro refused
    rw [Batch.plan] at refused
    split at refused
    · rename_i invalid
      cases refused
      exact refused_of_validate _ invalid
    · rename_i passed
      obtain ⟨someEntries, within, distinct⟩ := validate_eq_ok_iff.mp passed
      obtain ⟨belowThreshold, exceeds, rfl⟩ :=
        (planValid_eq_error_iff distinct fewEntries error).mp refused
      exact .tooManyEdges someEntries within distinct belowThreshold exceeds
  · intro refused
    cases refused with
    | emptyBatch noEntries => simp [Batch.plan, validate, noEntries]
    | batchTooLarge someEntries exceeds => simp [Batch.plan, validate, someEntries, exceeds]
    | duplicateIndex within repeats =>
        have found := (firstRepeated?_eq_some_iff entries _).mpr repeats
        have notOver := Nat.not_lt_of_le within
        simp [Batch.plan, validate, repeats.ne_nil, notOver, found]
    | tooManyEdges someEntries within distinct belowThreshold exceeds =>
        rw [Batch.plan, validate_eq_ok_iff.mpr ⟨someEntries, within, distinct⟩]
        exact (planValid_eq_error_iff distinct fewEntries _).mpr ⟨belowThreshold, exceeds, rfl⟩

end Plan

theorem schedule_eq_error_iff {config : Config} {entries : List Entry} (error : OrderingError) :
    Batch.schedule config entries = .error error ↔ Batch.plan config entries = .error error := by
  rw [Batch.schedule]
  cases Batch.plan config entries <;> simp [Except.map]

/-- A batch is refused exactly for the first reason that applies, never for a cycle, and every
schedule that is made fits the graph of the batch and is valid.  The share that is compared is
the exact one while the hundredfold number of clashing pairs fits into a word.  Six hundred
million entries never exceed it.  No list of clashes that fits into memory does either: at 48 bytes
each, a list that grows by doubling within `2 ^ 63` bytes holds at most `2 ^ 57`, and
`100 * 2 ^ 57 < 2 ^ 64`. -/
theorem schedule_refused_iff_and_valid (config : Config) (entries : List Entry)
    (fewEntries : entries.length < 2 ^ 32) :
    (100 * clashCount entries < 2 ^ 64 → ∀ error,
        Batch.schedule config entries = .error error ↔
          Refused config entries (clashShare entries) error) ∧
      (∀ error, Batch.schedule config entries = .error error ↔
        Refused config entries (clashShareWord entries) error) ∧
      (entries.length ≤ 600000000 → (entries.map (·.index)).Nodup →
        100 * clashCount entries < 2 ^ 64) ∧
      Batch.schedule config entries ≠ .error .cycleDetected ∧
      ∀ made, Batch.schedule config entries = .ok made →
        made.fits (.ofConflicts (arrange entries) (conflicts (arrange entries))) = true ∧
          made.Valid entries := by
  have classified : ∀ error, Batch.schedule config entries = .error error ↔
      Refused config entries (clashShareWord entries) error :=
    fun error => (schedule_eq_error_iff error).trans (plan_eq_error_iff fewEntries error)
  refine ⟨?_, classified, ?_, ?_, ?_⟩
  · intro small
    rw [← clashShareWord_eq small]
    exact classified
  · intro atMost distinct
    have bound := clashCount_le distinct
    have product : entries.length * (entries.length - 1) ≤ 600000000 * (600000000 - 1) :=
      Nat.mul_le_mul atMost (Nat.sub_le_sub_right atMost 1)
    omega
  · intro cyclic
    cases (classified _).mp cyclic
  · intro made scheduled
    rw [Batch.schedule] at scheduled
    cases planned : Batch.plan config entries with
    | error error =>
        rw [planned] at scheduled
        cases scheduled
    | ok plan =>
        rw [planned] at scheduled
        cases scheduled
        obtain ⟨distinct, _, fits, ascends⟩ := fits_of_plan planned
        exact ⟨fits, Schedule.valid_of_fits distinct fits ascends⟩

/-- The account whose address is 33 times the same byte. -/
def accountOf (byte : UInt8) : Address :=
  ⟨List.replicate 33 byte, List.length_replicate⟩

/-- Two transfers between the same two accounts and a greeting, listed out of order. -/
def crossedTransfers : List Entry :=
  [⟨7, accountOf 1, .transfer (accountOf 2) 5 []⟩, ⟨4, accountOf 3, .hi []⟩,
    ⟨2, accountOf 2, .transfer (accountOf 1) 3 []⟩]

theorem schedule_crossedTransfers :
    crossedTransfers.length < 2 ^ 32 ∧
      Batch.schedule {} crossedTransfers = .ok (.ofLayers [[2, 4], [7]]) ∧
      (Schedule.ofLayers [[2, 4], [7]]).Valid crossedTransfers ∧
      Batch.schedule { maxEdgeCount := 0 } crossedTransfers = .error (.tooManyEdges 1 0) ∧
      Refused { maxEdgeCount := 0 } crossedTransfers 33 (.tooManyEdges 1 0) := by
  have few : crossedTransfers.length < 2 ^ 32 := by decide
  have small : 100 * clashCount crossedTransfers < 2 ^ 64 := by decide +kernel
  have scheduled : Batch.schedule {} crossedTransfers = .ok (.ofLayers [[2, 4], [7]]) := by
    decide +kernel
  have refused : Batch.schedule { maxEdgeCount := 0 } crossedTransfers =
      .error (.tooManyEdges 1 0) := by
    decide +kernel
  obtain ⟨_, _, _, _, valid⟩ := schedule_refused_iff_and_valid {} crossedTransfers few
  obtain ⟨classified, _⟩ :=
    schedule_refused_iff_and_valid { maxEdgeCount := 0 } crossedTransfers few
  have share : clashShare crossedTransfers = 33 := by decide +kernel
  rw [share] at classified
  exact ⟨few, scheduled, (valid _ scheduled).2, refused, (classified small _).mp refused⟩

end Batch

end PoolLedger
