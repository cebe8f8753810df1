import PoolLedger.Proofs.BatchRefusal
import PoolLedger.Proofs.GroupInterleaving

/-!
# Batches are serial

A batch runs group after group, the members of each group side by side.
Whatever the order of their steps, a batch that succeeds leaves the outcomes and
the store of running its entries one after the other in ascending order of index.
-/

namespace PoolLedger

open Batch

namespace Ledger

variable {config : Config} {entries : List Entry}

/-- A batch that cannot be planned is refused, and nothing is counted. -/
theorem executeBatch_of_refused (ledger : Ledger) {error : OrderingError}
    (refused : Batch.plan config entries = .error error) :
    ledger.executeBatch config entries = (.error error, ledger) := by
  simp only [executeBatch, plan, refused]

theorem plan_of_planned (ledger : Ledger) {made : Plan}
    (planned : Batch.plan config entries = .ok made) :
    ledger.plan config entries =
      (.ok made, ⟨ledger.params, ledger.medium, ledger.counters.countBatch⟩) := by
  simp only [plan, planned]

/-- A planned batch is counted and run group after group. -/
theorem executeBatch_of_planned (ledger : Ledger) {made : Plan}
    (planned : Batch.plan config entries = .ok made) :
    ledger.executeBatch config entries =
      let run := runGroups made.graph ⟨ledger.params, ledger.medium, ledger.counters.countBatch⟩
        made.schedule.groups
      (run.1.map (sortBy Outcome.index), run.2) := by
  simp only [executeBatch, ledger.plan_of_planned planned]

end Ledger

namespace Batch

/-- The groups have run one after the other, each with its members side by side, until one
held a fault. -/
inductive RunsGroups (params : Params) (graph : Graph) :
    Store → List Group → Except OrderingError (List Outcome) → Store → Prop
  | nil (store : Store) : RunsGroups params graph store [] (.ok []) store
  | halt {store final : Store} {group : Group} {rest : List Group} {outcomes : List Outcome}
      {index : Nat} {fault : StateError}
      (ran : RunsGroup params store (Ledger.membersOf graph group) outcomes final)
      (faulty : outcomes.findSome? Outcome.fault? = some (index, fault)) :
      RunsGroups params graph store (group :: rest) (.error (.fatal index fault)) final
  | next {store middle final : Store} {group : Group} {rest : List Group}
      {outcomes : List Outcome} {later : Except OrderingError (List Outcome)}
      (ran : RunsGroup params store (Ledger.membersOf graph group) outcomes middle)
      (faultless : outcomes.findSome? Outcome.fault? = none)
      (ranRest : RunsGroups params graph middle rest later final) :
      RunsGroups params graph store (group :: rest) (later.map (outcomes ++ ·)) final

/-- A batch has run from one store to another in some order of the steps of its members. -/
def RunsBatch (params : Params) (config : Config) (entries : List Entry) (store : Store)
    (result : Except OrderingError (List Outcome)) (final : Store) : Prop :=
  match Batch.plan config entries with
  | .error error => result = .error error ∧ final = store
  | .ok plan => ∃ outcomes, RunsGroups params plan.graph store plan.schedule.groups outcomes final ∧
      result = outcomes.map (sortBy Outcome.index)

section Groups

variable {params : Params} {graph : Graph} {groups : List Group}

/-- Groups of members that do not clash run in one way only. -/
theorem runsGroups_iff (params : Params)
    (unrelated : ∀ group ∈ groups, Unrelated (Ledger.membersOf graph group)) (store : Store)
    (counters : Telemetry.Counters) (result : Except OrderingError (List Outcome))
    (final : Store) :
    RunsGroups params graph store groups result final ↔
      ∃ later, Ledger.runGroups graph ⟨params, .ofStore store, counters⟩ groups =
        (result, ⟨params, .ofStore final, later⟩) := by
  induction groups generalizing store counters result with
  | nil =>
      constructor
      · rintro ⟨⟩
        exact ⟨counters, rfl⟩
      · rintro ⟨later, ran⟩
        cases ran
        exact .nil _
  | cons group rest ih =>
      have headUnrelated := unrelated group List.mem_cons_self
      have restUnrelated : ∀ group ∈ rest, Unrelated (Ledger.membersOf graph group) :=
        fun other member => unrelated other (List.mem_cons_of_mem _ member)
      rcases serial : runSerial params store (Ledger.membersOf graph group) with ⟨outcomes, middle⟩
      have ranGroup : RunsGroup params store (Ledger.membersOf graph group) outcomes middle :=
        (runsGroup_iff headUnrelated).mpr serial
      obtain ⟨counted, ranMembers⟩ := Ledger.runEntries_ofStore params store counters
        (Ledger.membersOf graph group)
      rw [serial] at ranMembers
      simp only [Ledger.runGroups, ranMembers]
      constructor
      · intro run
        cases run with
        | halt ran faulty =>
            rw [(runsGroup_iff headUnrelated).mp ran, Prod.mk.injEq] at serial
            obtain ⟨rfl, rfl⟩ := serial
            exact ⟨counted, by rw [faulty]⟩
        | next ran faultless ranRest =>
            rw [(runsGroup_iff headUnrelated).mp ran, Prod.mk.injEq] at serial
            obtain ⟨rfl, rfl⟩ := serial
            obtain ⟨later, ranLater⟩ := (ih restUnrelated _ counted _).mp ranRest
            exact ⟨later, by rw [faultless, ranLater]⟩
      · rintro ⟨later, ran⟩
        cases faults : outcomes.findSome? Outcome.fault? with
        | some fault =>
            rw [faults] at ran
            cases ran
            exact .halt ranGroup faults
        | none =>
            rw [faults] at ran
            rcases ranLater : Ledger.runGroups graph ⟨params, .ofStore middle, counted⟩ rest with
              ⟨others, ⟨_, _, _⟩⟩
            rw [ranLater] at ran
            cases ran
            exact .next ranGroup faults ((ih restUnrelated _ counted _).mpr ⟨_, ranLater⟩)

theorem runGroups_ofStore (params : Params) (graph : Graph) (groups : List Group) (store : Store)
    (counters : Telemetry.Counters) :
    ∃ result final later, Ledger.runGroups graph ⟨params, .ofStore store, counters⟩ groups =
      (result, ⟨params, .ofStore final, later⟩) := by
  induction groups generalizing store counters with
  | nil => exact ⟨.ok [], store, counters, rfl⟩
  | cons group rest ih =>
      obtain ⟨counted, ranMembers⟩ := Ledger.runEntries_ofStore params store counters
        (Ledger.membersOf graph group)
      simp only [Ledger.runGroups, ranMembers]
      split
      · exact ⟨_, _, _, rfl⟩
      · obtain ⟨result, final, later, ranRest⟩ := ih
          (runSerial params store (Ledger.membersOf graph group)).2 counted
        rw [ranRest]
        exact ⟨_, final, later, rfl⟩

/-- Groups that ran to the end without a fault ran their members one after the other. -/
theorem runGroups_ok {store : Store} {counters : Telemetry.Counters} {outcomes : List Outcome}
    {ledger : Ledger}
    (ran : Ledger.runGroups graph ⟨params, .ofStore store, counters⟩ groups =
      (.ok outcomes, ledger)) :
    outcomes = (runSerial params store (groups.flatMap (Ledger.membersOf graph))).1 ∧
      ledger.medium =
        .ofStore (runSerial params store (groups.flatMap (Ledger.membersOf graph))).2 := by
  induction groups generalizing store counters outcomes with
  | nil =>
      cases ran
      exact ⟨rfl, rfl⟩
  | cons group rest ih =>
      obtain ⟨counted, ranMembers⟩ := Ledger.runEntries_ofStore params store counters
        (Ledger.membersOf graph group)
      simp only [Ledger.runGroups, ranMembers] at ran
      split at ran
      · cases ran
      · rcases ranLater : Ledger.runGroups graph
          ⟨params, .ofStore (runSerial params store (Ledger.membersOf graph group)).2, counted⟩
          rest with ⟨others, last⟩
        rw [ranLater] at ran
        cases others with
        | error error => cases ran
        | ok others =>
            cases ran
            obtain ⟨sameOutcomes, sameMedium⟩ := ih ranLater
            rw [List.flatMap_cons, runSerial_append, sameOutcomes]
            exact ⟨rfl, sameMedium⟩

end Groups

section Plans

variable {config : Config} {entries : List Entry} {schedule : Schedule}

/-- The graph of a batch has each entry at its index. -/
theorem entry_at_iff (distinct : (entries.map (·.index)).Nodup) (index : Nat) (entry : Entry) :
    ((Graph.ofEntries (arrange entries)).nodes.get? index).map (·.entry) = some entry ↔
      entry ∈ entries ∧ entry.index = index := by
  simp only [Option.map_eq_some_iff, mem_arrange_iff,
    Graph.get?_nodes_ofEntries (ascending_arrange distinct).nodup]
  constructor
  · rintro ⟨_, ⟨⟨found, member, rfl⟩, isIndex⟩, rfl⟩
    exact ⟨member, isIndex⟩
  · rintro ⟨member, isIndex⟩
    exact ⟨entry.declare, ⟨⟨entry, member, rfl⟩, isIndex⟩, rfl⟩

theorem flatMap_membersOf (graph : Graph) (schedule : Schedule) :
    schedule.groups.flatMap (Ledger.membersOf graph) =
      schedule.flatten.filterMap fun index => (graph.nodes.get? index).map (·.entry) := by
  rw [Schedule.flatten, List.filterMap_flatMap]
  rfl

/-- The groups have every entry of the batch as a member once. -/
theorem membersOf_perm (distinct : (entries.map (·.index)).Nodup)
    (fits : schedule.fits (Graph.ofEntries (arrange entries)) = true) :
    (schedule.groups.flatMap (Ledger.membersOf (Graph.ofEntries (arrange entries)))).Perm
      entries := by
  have found : ∀ entry ∈ entries,
      ((Graph.ofEntries (arrange entries)).nodes.get? entry.index).map (·.entry) = some entry :=
    fun entry member => (entry_at_iff distinct entry.index entry).mpr ⟨member, rfl⟩
  obtain ⟨lists, _⟩ := (Schedule.fits_arrange_iff distinct).mp fits
  rw [flatMap_membersOf]
  have perm := lists.filterMap fun index =>
    ((Graph.ofEntries (arrange entries)).nodes.get? index).map (·.entry)
  rw [List.filterMap_map] at perm
  have itself : entries.filterMap (fun entry =>
      ((Graph.ofEntries (arrange entries)).nodes.get? entry.index).map (·.entry)) = entries := by
    rw [List.filterMap_congr found, List.filterMap_some]
  exact perm.trans (.of_eq itself)

/-- Members of one group of a schedule that passes the check do not clash. -/
theorem unrelated_of_fits (distinct : (entries.map (·.index)).Nodup)
    (fits : schedule.fits (Graph.ofEntries (arrange entries)) = true) {group : Group}
    (member : group ∈ schedule.groups) :
    Unrelated (Ledger.membersOf (Graph.ofEntries (arrange entries)) group) := by
  obtain ⟨lists, separates⟩ := (Schedule.fits_arrange_iff distinct).mp fits
  obtain ⟨position, found⟩ := List.mem_iff_getElem?.mp member
  have nodup : group.indices.Nodup := by
    have flattenNodup : schedule.flatten.Nodup := lists.nodup_iff.mpr distinct
    rw [Schedule.flatten, List.nodup_flatMap] at flattenNodup
    exact flattenNodup.1 group member
  rw [Unrelated, Ledger.membersOf, List.pairwise_filterMap]
  refine nodup.imp_of_mem ?_
  intro first second inFirst inSecond apart firstEntry isFirst secondEntry isSecond
  obtain ⟨firstMember, rfl⟩ := (entry_at_iff distinct first firstEntry).mp isFirst
  obtain ⟨secondMember, rfl⟩ := (entry_at_iff distinct second secondEntry).mp isSecond
  exact separates.not_clash ((mem_arrange_iff _).mpr ⟨firstEntry, firstMember, rfl⟩)
    ((mem_arrange_iff _).mpr ⟨secondEntry, secondMember, rfl⟩) apart ⟨group, found, inFirst⟩
    ⟨group, found, inSecond⟩

theorem unrelated_membersOf (distinct : (entries.map (·.index)).Nodup)
    (valid : schedule.Valid entries) {group : Group} (member : group ∈ schedule.groups) :
    Unrelated (Ledger.membersOf (Graph.ofEntries (arrange entries)) group) :=
  unrelated_of_fits distinct (valid.fits distinct) member

/-- The groups one after the other keep every clashing pair in ascending order of index. -/
theorem clashes_ascend_membersOf (distinct : (entries.map (·.index)).Nodup)
    (fits : schedule.fits (Graph.ofEntries (arrange entries)) = true) :
    (schedule.groups.flatMap (Ledger.membersOf (Graph.ofEntries (arrange entries)))).Pairwise
      fun first second => first.Clash second → first.index < second.index := by
  obtain ⟨lists, separates⟩ := (Schedule.fits_arrange_iff distinct).mp fits
  rw [List.pairwise_flatMap]
  constructor
  · intro group member
    exact (unrelated_of_fits distinct fits member).imp fun noClash clash => absurd clash noClash
  · rw [List.pairwise_iff_getElem]
    intro earlier later earlierBound laterBound ahead first inEarlier second inLater clash
    obtain ⟨firstIndex, firstListed, isFirst⟩ := List.mem_filterMap.mp inEarlier
    obtain ⟨secondIndex, secondListed, isSecond⟩ := List.mem_filterMap.mp inLater
    obtain ⟨firstMember, rfl⟩ := (entry_at_iff distinct firstIndex first).mp isFirst
    obtain ⟨secondMember, rfl⟩ := (entry_at_iff distinct secondIndex second).mp isSecond
    have atFirst : schedule.Places earlier first.index :=
      ⟨_, List.getElem?_eq_getElem earlierBound, firstListed⟩
    have atSecond : schedule.Places later second.index :=
      ⟨_, List.getElem?_eq_getElem laterBound, secondListed⟩
    have nodup : schedule.flatten.Nodup := lists.nodup_iff.mpr distinct
    rcases Nat.lt_trichotomy first.index second.index with below | same | above
    · exact below
    · rw [same] at atFirst
      exact absurd (atFirst.unique nodup atSecond) (Nat.ne_of_lt ahead)
    · exact absurd (separates second.declare ((mem_arrange_iff _).mpr ⟨second, secondMember, rfl⟩)
        first.declare ((mem_arrange_iff _).mpr ⟨first, firstMember, rfl⟩) above clash.symm later
        earlier atSecond atFirst) (Nat.lt_asymm ahead)

/-- The entries in the order of their groups come to the same as in ascending order of index. -/
theorem runSerial_membersOf (params : Params) (store : Store)
    (distinct : (entries.map (·.index)).Nodup) (valid : schedule.Valid entries) :
    (runSerial params store (schedule.groups.flatMap
          (Ledger.membersOf (Graph.ofEntries (arrange entries))))).1.Perm
        (runSerial params store (sortBy Entry.index entries)).1 ∧
      (runSerial params store (schedule.groups.flatMap
          (Ledger.membersOf (Graph.ofEntries (arrange entries))))).2 =
        (runSerial params store (sortBy Entry.index entries)).2 :=
  runSerial_eq_of_clashes_ascend params store
    ((membersOf_perm distinct (valid.fits distinct)).trans (sortBy_perm _ _).symm)
    (clashes_ascend_membersOf distinct (valid.fits distinct)) (pairwise_lt_sortBy distinct)

end Plans

section Batches

variable {params : Params} {config : Config} {entries : List Entry} {store : Store}
  {counters : Telemetry.Counters}

/-- A batch can run in one way only, whatever the order of the steps of its members. -/
theorem runsBatch_iff (counters : Telemetry.Counters)
    (result : Except OrderingError (List Outcome)) (final : Store) :
    RunsBatch params config entries store result final ↔
      ∃ later, Ledger.executeBatch ⟨params, .ofStore store, counters⟩ config entries =
        (result, ⟨params, .ofStore final, later⟩) := by
  rw [RunsBatch]
  cases planned : Batch.plan config entries with
  | error error =>
      simp only [Ledger.executeBatch_of_refused _ planned]
      constructor
      · rintro ⟨rfl, rfl⟩
        exact ⟨counters, rfl⟩
      · rintro ⟨later, ran⟩
        cases ran
        exact ⟨rfl, rfl⟩
  | ok made =>
      obtain ⟨distinct, sameGraph, fits, ascends⟩ := fits_of_plan planned
      have valid := Schedule.valid_of_fits distinct fits ascends
      have unrelated : ∀ group ∈ made.schedule.groups,
          Unrelated (Ledger.membersOf made.graph group) := by
        rw [sameGraph]
        exact fun group member => unrelated_membersOf distinct valid member
      have unique := runsGroups_iff params unrelated store counters.countBatch
      simp only [Ledger.executeBatch_of_planned _ planned]
      constructor
      · rintro ⟨outcomes, ran, rfl⟩
        obtain ⟨later, ranGroups⟩ := (unique outcomes final).mp ran
        exact ⟨later, by rw [ranGroups]⟩
      · rintro ⟨later, ran⟩
        rcases ranGroups : Ledger.runGroups made.graph
          ⟨params, .ofStore store, counters.countBatch⟩ made.schedule.groups with
          ⟨outcomes, ⟨_, _, _⟩⟩
        rw [ranGroups] at ran
        cases ran
        exact ⟨outcomes, (unique outcomes final).mpr ⟨_, ranGroups⟩, rfl⟩

/-- A batch leaves a ledger of the same parameters on a medium that refuses nothing. -/
theorem executeBatch_ofStore (params : Params) (store : Store) (counters : Telemetry.Counters)
    (config : Config) (entries : List Entry) :
    ∃ result final later,
      Ledger.executeBatch ⟨params, .ofStore store, counters⟩ config entries =
        (result, ⟨params, .ofStore final, later⟩) := by
  cases planned : Batch.plan config entries with
  | error error =>
      exact ⟨.error error, store, counters, Ledger.executeBatch_of_refused _ planned⟩
  | ok made =>
      obtain ⟨result, final, later, ran⟩ := runGroups_ofStore params made.graph
        made.schedule.groups store counters.countBatch
      refine ⟨result.map (sortBy Outcome.index), final, later, ?_⟩
      rw [Ledger.executeBatch_of_planned _ planned, ran]

/-- A batch that succeeds has run its entries in ascending order of index. -/
theorem executeBatch_ok {outcomes : List Outcome} {ledger : Ledger}
    (ran : Ledger.executeBatch ⟨params, .ofStore store, counters⟩ config entries =
      (.ok outcomes, ledger)) :
    outcomes = (runSerial params store (sortBy Entry.index entries)).1 ∧
      ledger.medium = .ofStore (runSerial params store (sortBy Entry.index entries)).2 ∧
      outcomes.Pairwise fun first second => first.index < second.index := by
  cases planned : Batch.plan config entries with
  | error error =>
      rw [Ledger.executeBatch_of_refused _ planned] at ran
      cases ran
  | ok made =>
      obtain ⟨distinct, sameGraph, fits, ascends⟩ := fits_of_plan planned
      have valid := Schedule.valid_of_fits distinct fits ascends
      simp only [Ledger.executeBatch_of_planned _ planned, sameGraph] at ran
      rcases ranGroups : Ledger.runGroups (Graph.ofEntries (arrange entries))
        ⟨params, .ofStore store, counters.countBatch⟩ made.schedule.groups with ⟨result, last⟩
      rw [ranGroups] at ran
      cases result with
      | error error => cases ran
      | ok inGroups =>
          cases ran
          obtain ⟨sameOutcomes, sameMedium⟩ := runGroups_ok ranGroups
          have sorted := pairwise_lt_sortBy distinct
          obtain ⟨outcomesPerm, sameFinal⟩ := runSerial_membersOf params store distinct valid
          have ascending : (runSerial params store (sortBy Entry.index entries)).1.Pairwise
              fun first second => first.index < second.index := ascending_runSerial sorted store
          rw [sameMedium, sameFinal, sameOutcomes, sortBy_eq_of_perm outcomesPerm ascending]
          exact ⟨rfl, rfl, ascending⟩

end Batches

/-- Whatever the order of the steps of its members, a batch that succeeds leaves the outcomes
and the store of running its entries one after the other in ascending order of index.  Running
the members of each group one after the other is one such order. -/
theorem batch_is_serial (params : Params) (config : Config) (store : Store)
    (counters : Telemetry.Counters) (entries : List Entry) :
    (∀ outcomes final, RunsBatch params config entries store (.ok outcomes) final →
        outcomes = (Ledger.runEntries ⟨params, .ofStore store, counters⟩
          (sortBy Entry.index entries)).1 ∧
        .ofStore final = (Ledger.runEntries ⟨params, .ofStore store, counters⟩
          (sortBy Entry.index entries)).2.medium ∧
        outcomes.Pairwise fun first second => first.index < second.index) ∧
      ∃ final, RunsBatch params config entries store
          (Ledger.executeBatch ⟨params, .ofStore store, counters⟩ config entries).1 final ∧
        (Ledger.executeBatch ⟨params, .ofStore store, counters⟩ config entries).2.medium =
          .ofStore final := by
  obtain ⟨later, serial⟩ := Ledger.runEntries_ofStore params store counters
    (sortBy Entry.index entries)
  rw [serial]
  constructor
  · intro outcomes final ran
    obtain ⟨counted, executed⟩ := (runsBatch_iff counters _ final).mp ran
    obtain ⟨sameOutcomes, sameMedium, ascending⟩ := executeBatch_ok executed
    exact ⟨sameOutcomes, sameMedium, ascending⟩
  · obtain ⟨result, final, counted, executed⟩ :=
      executeBatch_ofStore params store counters config entries
    rw [executed]
    exact ⟨final, (runsBatch_iff counters _ _).mpr ⟨counted, executed⟩, rfl⟩

/-- Parameters without pricing models. -/
def crossedParams : Params where
  coin := .zero
  coinRecord := { name := [], symbol := [], metadata := [], decimals := 0, owner := .zero }
  models := .empty

/-- The two accounts of the crossed transfers have 9 and 4 coins. -/
def crossedStore : Store :=
  .ofList [(.ofBalance (accountOf 1), BalanceRecord.encode 9),
    (.ofBalance (accountOf 2), BalanceRecord.encode 4)]

/-- What becomes of the crossed transfers. -/
def crossedOutcomes : List Outcome :=
  [⟨2, accountOf 2, .ok (.transfer 1 12)⟩, ⟨4, accountOf 3, .ok (.hi (Bytes.ofText "Hi, ") 0)⟩,
    ⟨7, accountOf 1, .ok (.transfer 7 6)⟩]

/-- The crossed transfers run to the end, and their outcomes are those of the serial run. -/
theorem crossedTransfers_are_serial :
    ∃ final, RunsBatch crossedParams {} crossedTransfers crossedStore (.ok crossedOutcomes) final ∧
      crossedOutcomes = (Ledger.runEntries ⟨crossedParams, .ofStore crossedStore, {}⟩
        (sortBy Entry.index crossedTransfers)).1 := by
  obtain ⟨serial, final, ran, _⟩ := batch_is_serial crossedParams {} crossedStore {}
    crossedTransfers
  have outcomes : (Ledger.executeBatch ⟨crossedParams, .ofStore crossedStore, {}⟩ {}
      crossedTransfers).1 = .ok crossedOutcomes := by
    decide +kernel
  rw [outcomes] at ran
  exact ⟨final, ran, (serial _ final ran).1⟩

end Batch

end PoolLedger
