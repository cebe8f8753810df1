import PoolLedger.Proofs.GroupMembers

/-!
# Batches that halt on a fault

A batch halts after the first group in which an entry hits a fault.  What it
has met is what the serial run of all entries meets, and the store that it leaves
is the one of running, in ascending order of index, the entries of the groups up
to that one: the entries of later groups were not seen by any of them.
-/

namespace PoolLedger

open Batch

namespace Ledger

theorem runEntries_append (ledger : Ledger) (first second : List Entry) :
    ledger.runEntries (first ++ second) =
      ((ledger.runEntries first).1 ++ ((ledger.runEntries first).2.runEntries second).1,
        ((ledger.runEntries first).2.runEntries second).2) := by
  induction first generalizing ledger with
  | nil => rfl
  | cons entry rest ih => simp [runEntries, ih]

/-- Groups run to the end without a fault, or up to and including the first group with one. -/
theorem runGroups_cases (graph : Graph) (ledger : Ledger) (groups : List Group) :
    (runGroups graph ledger groups =
        (.ok (ledger.runEntries (groups.flatMap (membersOf graph))).1,
          (ledger.runEntries (groups.flatMap (membersOf graph))).2) ∧
      ∀ outcome ∈ (ledger.runEntries (groups.flatMap (membersOf graph))).1,
        outcome.fault? = none) ∨
    ∃ ran group rest index fault, groups = ran ++ group :: rest ∧
      runGroups graph ledger groups =
        (.error (.fatal index fault),
          (ledger.runEntries ((ran ++ [group]).flatMap (membersOf graph))).2) ∧
      (∀ outcome ∈ (ledger.runEntries (ran.flatMap (membersOf graph))).1,
        outcome.fault? = none) ∧
      ((ledger.runEntries (ran.flatMap (membersOf graph))).2.runEntries
        (membersOf graph group)).1.findSome? Outcome.fault? = some (index, fault) := by
  induction groups generalizing ledger with
  | nil => exact .inl ⟨rfl, nofun⟩
  | cons head others ih =>
      cases faults : (ledger.runEntries (membersOf graph head)).1.findSome? Outcome.fault? with
      | some found =>
          obtain ⟨index, fault⟩ := found
          refine .inr ⟨[], head, others, index, fault, rfl, ?_, nofun, faults⟩
          simp only [runGroups, faults, List.nil_append, List.flatMap_singleton]
      | none =>
          have headFaultless : ∀ outcome ∈ (ledger.runEntries (membersOf graph head)).1,
              outcome.fault? = none := List.findSome?_eq_none_iff.mp faults
          rcases ih (ledger.runEntries (membersOf graph head)).2 with
            ⟨ran, faultless⟩ | ⟨ran, group, rest, index, fault, rfl, halted, faultless, isFault⟩
          · refine .inl ⟨?_, ?_⟩
            · simp only [runGroups, faults, ran, List.flatMap_cons, runEntries_append]
              rfl
            · intro outcome member
              rw [List.flatMap_cons, runEntries_append] at member
              rcases List.mem_append.mp member with inHead | inOthers
              · exact headFaultless outcome inHead
              · exact faultless outcome inOthers
          · refine .inr ⟨head :: ran, group, rest, index, fault, rfl, ?_, ?_, ?_⟩
            · simp only [runGroups, faults, halted, List.cons_append, List.flatMap_cons,
                runEntries_append]
              rfl
            · intro outcome member
              rw [List.flatMap_cons, runEntries_append] at member
              rcases List.mem_append.mp member with inHead | inRan
              · exact headFaultless outcome inHead
              · exact faultless outcome inRan
            · rw [List.flatMap_cons, runEntries_append]
              exact isFault

theorem runEntries_plain {ledger : Ledger} {store : Store} (plain : ledger.medium = .ofStore store)
    (entries : List Entry) :
    (ledger.runEntries entries).1 = (runSerial ledger.params store entries).1 ∧
      (ledger.runEntries entries).2.medium = .ofStore (runSerial ledger.params store entries).2 ∧
      (ledger.runEntries entries).2.params = ledger.params := by
  obtain ⟨params, medium, counters⟩ := ledger
  replace plain : medium = .ofStore store := plain
  subst plain
  obtain ⟨later, ran⟩ := runEntries_ofStore params store counters entries
  rw [ran]
  exact ⟨rfl, rfl, rfl⟩

end Ledger

namespace Batch

/-- What a batch has met that halted at `index` in `group`, after the groups `ran`, by the
outcomes of the serial run of all its entries. -/
structure Halted (serial : List Outcome) (ran : List Group) (group : Group) (index : Nat)
    (fault : StateError) : Prop where
  listed : index ∈ group.indices
  /-- The serial run meets the same fault at the same index. -/
  met : ∃ outcome ∈ serial, outcome.fault? = some (index, fault)
  /-- No smaller index of the group meets a fault. -/
  least : ∀ outcome ∈ serial, outcome.index ∈ group.indices → outcome.fault? ≠ none →
    index ≤ outcome.index
  /-- No entry of an earlier group meets a fault. -/
  faultless : ∀ outcome ∈ serial, (∃ earlier ∈ ran, outcome.index ∈ earlier.indices) →
    outcome.fault? = none

/-- No outcome of the serial run at this index is a fault. -/
def spares (serial : List Outcome) (index : Nat) : Bool :=
  serial.all fun outcome => outcome.index != index || outcome.fault?.isNone

theorem Outcome.fault?_eq_some_iff {outcome : Outcome} {index : Nat} {fault : StateError} :
    outcome.fault? = some (index, fault) ↔
      outcome.index = index ∧ outcome.result = .error (.fatal fault) := by
  obtain ⟨ownIndex, actor, result⟩ := outcome
  rcases result with (cause | fault | cause) | output <;> simp [Outcome.fault?]

section Serial

variable {params : Params} {store : Store} {entries : List Entry}

theorem Entry.after_of_error {entry : Entry} {error : ExecutionError}
    (failed : (entry.effect params store).1 = .error error) : entry.after params store = store := by
  rw [Entry.after]
  rcases ran : Medium.runInView params (Medium.ofStore store).read entry.actor entry.action with
    ⟨_ | _, _⟩ <;> simp_all [Entry.effect, Action.effect, Action.settle]

/-- Entries that fail may be left out. -/
theorem runSerial_filter (keep : Nat → Bool)
    (failed : ∀ outcome ∈ (runSerial params store entries).1, keep outcome.index = false →
      ∃ error, outcome.result = .error error) :
    (runSerial params store (entries.filter fun entry => keep entry.index)).2 =
      (runSerial params store entries).2 := by
  induction entries generalizing store with
  | nil => rfl
  | cons entry rest ih =>
      have restFiltered := ih fun outcome member => failed outcome (List.mem_cons_of_mem _ member)
      cases kept : keep entry.index with
      | true =>
          simp only [List.filter_cons, kept, if_true]
          exact restFiltered
      | false =>
          obtain ⟨error, isError⟩ := failed _ List.mem_cons_self kept
          simp only [List.filter_cons, kept, Bool.false_eq_true, if_false]
          rw [Entry.after_of_error isError] at restFiltered
          rw [restFiltered, runSerial, Entry.after_of_error isError]

end Serial

section Halts

variable {params : Params} {store : Store} {entries : List Entry} {schedule : Schedule}
  {ran rest : List Group} {group : Group} {index : Nat} {fault : StateError}

/-- An outcome is in a part of a run if its index is. -/
theorem mem_of_index_mem {outcomes part : List Outcome} {outcome : Outcome}
    (distinct : (outcomes.map (·.index)).Nodup) (isPart : part ⊆ outcomes)
    (member : outcome ∈ outcomes) (inPart : outcome.index ∈ part.map (·.index)) :
    outcome ∈ part := by
  obtain ⟨other, isOther, same⟩ := List.mem_map.mp inPart
  rwa [List.inj_on_of_nodup_map distinct member (isPart isOther) same.symm]

/-- A run group by group has halted at the first fault of the first group with one. -/
theorem Halted.of_first_fault {serial before inside later : List Outcome}
    (perm : (before ++ (inside ++ later)).Perm serial) (distinct : (serial.map (·.index)).Nodup)
    (beforeIndices : ∀ earlier ∈ ran, ∀ other ∈ earlier.indices, other ∈ before.map (·.index))
    (insideIndices : inside.map (·.index) = group.indices)
    (ascends : group.indices.Pairwise (· < ·))
    (faultless : ∀ outcome ∈ before, outcome.fault? = none)
    (first : inside.findSome? Outcome.fault? = some (index, fault)) :
    Halted serial ran group index fault := by
  have beforePart : before ⊆ serial := fun outcome member =>
    perm.mem_iff.mp (List.mem_append_left _ member)
  have insidePart : inside ⊆ serial := fun outcome member =>
    perm.mem_iff.mp (List.mem_append_right _ (List.mem_append_left _ member))
  obtain ⟨passed, found, left, split, isFault, passedFaultless⟩ :=
    List.findSome?_eq_some_iff.mp first
  obtain ⟨isIndex, _⟩ := Outcome.fault?_eq_some_iff.mp isFault
  have inside_found : found ∈ inside := by simp [split]
  refine ⟨?_, ⟨found, insidePart inside_found, isFault⟩, ?_, ?_⟩
  · rw [← insideIndices, ← isIndex]
    exact List.mem_map_of_mem inside_found
  · intro outcome member inGroup faulty
    have isInside : outcome ∈ inside :=
      mem_of_index_mem distinct insidePart member (insideIndices ▸ inGroup)
    rw [← insideIndices, split] at ascends
    have ascending := List.pairwise_map.mp ascends
    rw [split] at isInside
    rcases List.mem_append.mp isInside with inPassed | inRest
    · exact absurd (passedFaultless outcome inPassed) faulty
    · rcases List.mem_cons.mp inRest with rfl | inLeft
      · exact Nat.le_of_eq isIndex.symm
      · have below := (List.pairwise_cons.mp (List.pairwise_append.mp ascending).2.1).1 _ inLeft
        omega
  · rintro outcome member ⟨earlier, isEarlier, inEarlier⟩
    exact faultless outcome (mem_of_index_mem distinct beforePart member
      (beforeIndices earlier isEarlier _ inEarlier))

theorem distinct_runSerial (params : Params) (store : Store)
    (distinct : (entries.map (·.index)).Nodup) :
    ((runSerial params store (sortBy Entry.index entries)).1.map (·.index)).Nodup :=
  nodup_map_of_pairwise_lt (ascending_runSerial (pairwise_lt_sortBy distinct) store)

/-- The entries in the order of their groups have the outcomes of the serial run. -/
theorem outcomes_runSerial_perm (params : Params) (store : Store)
    (distinct : (entries.map (·.index)).Nodup) (valid : schedule.Valid entries) :
    (runSerial params store (schedule.groups.flatMap
        (Ledger.membersOf (Graph.ofEntries (arrange entries))))).1.Perm
      (runSerial params store (sortBy Entry.index entries)).1 :=
  (runSerial_membersOf params store distinct valid).1

/-- The first fault of the groups of a schedule, by the serial run of all entries. -/
theorem halted_of_runSerial (distinct : (entries.map (·.index)).Nodup)
    (valid : schedule.Valid entries) (split : schedule.groups = ran ++ group :: rest)
    (faultless : ∀ outcome ∈ (runSerial params store
      (ran.flatMap (Ledger.membersOf (Graph.ofEntries (arrange entries))))).1,
      outcome.fault? = none)
    (first : (runSerial params (runSerial params store
        (ran.flatMap (Ledger.membersOf (Graph.ofEntries (arrange entries))))).2
      (Ledger.membersOf (Graph.ofEntries (arrange entries)) group)).1.findSome? Outcome.fault? =
        some (index, fault)) :
    Halted (runSerial params store (sortBy Entry.index entries)).1 ran group index fault := by
  have perm := outcomes_runSerial_perm params store distinct valid
  have isGroup : group ∈ schedule.groups := by simp [split]
  rw [split, List.flatMap_append, List.flatMap_cons, runSerial_append, runSerial_append] at perm
  refine .of_first_fault perm (distinct_runSerial params store distinct) ?_ ?_
    (valid.ascends group isGroup) faultless first
  · intro earlier isEarlier other inEarlier
    have isListed : earlier ∈ schedule.groups := by simp [split, isEarlier]
    rw [map_index_runSerial, List.map_flatMap, List.mem_flatMap]
    refine ⟨earlier, isEarlier, ?_⟩
    rw [map_index_membersOf distinct valid isListed]
    exact inEarlier
  · rw [map_index_runSerial, map_index_membersOf distinct valid isGroup]

/-- Leaving out the entries that meet a fault changes nothing. -/
theorem runSerial_spares (distinct : (entries.map (·.index)).Nodup)
    (valid : schedule.Valid entries) (split : schedule.groups = ran ++ rest) :
    (runSerial params store ((listedIn ran entries).filter fun entry =>
        spares (runSerial params store (sortBy Entry.index entries)).1 entry.index)).2 =
      (runSerial params store (listedIn ran entries)).2 := by
  refine runSerial_filter (spares (runSerial params store (sortBy Entry.index entries)).1) ?_
  intro outcome member notSpared
  have perm := outcomes_runSerial_perm params store distinct valid
  rw [split, List.flatMap_append, runSerial_append] at perm
  have inRan := (runSerial_listedIn params store distinct valid split).1.mem_iff.mpr member
  have inSerial := perm.mem_iff.mp (List.mem_append_left _ inRan)
  obtain ⟨other, isOther, sameIndex, faulty⟩ : ∃ other ∈ (runSerial params store
      (sortBy Entry.index entries)).1, other.index = outcome.index ∧ other.fault? ≠ none := by
    simpa [spares] using notSpared
  have serialDistinct := distinct_runSerial params store distinct
  rw [List.inj_on_of_nodup_map serialDistinct isOther inSerial sameIndex] at faulty
  obtain ⟨⟨index, fault⟩, isFault⟩ := Option.ne_none_iff_exists'.mp faulty
  exact ⟨_, (Outcome.fault?_eq_some_iff.mp isFault).2⟩

end Halts

section Planned

variable {config : Config} {entries : List Entry} {made : Plan} {ledger : Ledger} {store : Store}
  {ran rest : List Group}

/-- Planning counts the batch and changes nothing that its entries see. -/
theorem runEntries_planned (planned : Batch.plan config entries = .ok made)
    (plain : ledger.medium = .ofStore store) (others : List Entry) :
    ((ledger.plan config entries).2.runEntries others).1 =
        (runSerial ledger.params store others).1 ∧
      ((ledger.plan config entries).2.runEntries others).2.medium =
        .ofStore (runSerial ledger.params store others).2 ∧
      ((ledger.plan config entries).2.runEntries others).2.params = ledger.params := by
  have counted := ledger.plan_of_planned planned
  have stillPlain : (ledger.plan config entries).2.medium = .ofStore store := by
    rw [counted]
    exact plain
  have sameParams : (ledger.plan config entries).2.params = ledger.params := by rw [counted]
  rw [← sameParams]
  exact Ledger.runEntries_plain stillPlain others

/-- Some first groups leave the store of running their entries in ascending order of index, in
which the faulting ones may as well be left out. -/
theorem left_by_first_groups (planned : Batch.plan config entries = .ok made)
    (plain : ledger.medium = .ofStore store) (split : made.schedule.groups = ran ++ rest) :
    ((ledger.plan config entries).2.runEntries
        (ran.flatMap (Ledger.membersOf made.graph))).2.medium =
        (ledger.runEntries (listedIn ran entries)).2.medium ∧
      ((ledger.plan config entries).2.runEntries
        (ran.flatMap (Ledger.membersOf made.graph))).2.medium =
        (ledger.runEntries ((listedIn ran entries).filter fun entry =>
          spares (ledger.runEntries (sortBy Entry.index entries)).1 entry.index)).2.medium := by
  obtain ⟨distinct, sameGraph, valid⟩ := valid_of_plan planned
  have left := (runEntries_planned planned plain
    (ran.flatMap (Ledger.membersOf made.graph))).2.1
  rw [sameGraph, (runSerial_listedIn ledger.params store distinct valid split).2] at left
  rw [sameGraph, left, (ledger.runEntries_plain plain _).1, (ledger.runEntries_plain plain _).2.1,
    (ledger.runEntries_plain plain _).2.1, runSerial_spares distinct valid split]
  exact ⟨rfl, rfl⟩

/-- A planned batch runs to its end, and then the serial run meets no fault, or it halts where the
serial run meets one. -/
theorem executeBatch_cases (planned : Batch.plan config entries = .ok made)
    (plain : ledger.medium = .ofStore store) :
    (∃ outcomes, (ledger.executeBatch config entries).1 = .ok outcomes ∧
      ∀ outcome ∈ (ledger.runEntries (sortBy Entry.index entries)).1, outcome.fault? = none) ∨
    ∃ ran group rest index fault, made.schedule.groups = ran ++ group :: rest ∧
      ledger.executeBatch config entries =
        (.error (.fatal index fault), ((ledger.plan config entries).2.runEntries
          ((ran ++ [group]).flatMap (Ledger.membersOf made.graph))).2) ∧
      Halted (ledger.runEntries (sortBy Entry.index entries)).1 ran group index fault := by
  obtain ⟨distinct, sameGraph, valid⟩ := valid_of_plan planned
  rw [ledger.executeBatch_of_planned planned, (ledger.runEntries_plain plain _).1]
  have counted : (ledger.plan config entries).2 =
      ⟨ledger.params, ledger.medium, ledger.counters.countBatch⟩ := by
    rw [ledger.plan_of_planned planned]
  rw [← counted]
  rcases Ledger.runGroups_cases made.graph (ledger.plan config entries).2 made.schedule.groups with
    ⟨finished, faultless⟩ | ⟨ran, group, rest, index, fault, split, halted, faultless, first⟩
  · rw [(runEntries_planned planned plain _).1, sameGraph] at faultless
    rw [finished]
    refine .inl ⟨_, rfl, fun outcome member => faultless outcome ?_⟩
    exact (outcomes_runSerial_perm ledger.params store distinct valid).mem_iff.mpr member
  · obtain ⟨before, middle, params⟩ :=
      runEntries_planned planned plain (ran.flatMap (Ledger.membersOf made.graph))
    rw [before, sameGraph] at faultless
    rw [(Ledger.runEntries_plain middle _).1, params, sameGraph] at first
    rw [halted]
    exact .inr ⟨ran, group, rest, index, fault, split, rfl,
      halted_of_runSerial distinct valid split faultless first⟩

end Planned

/-- A batch halts on a fault exactly when the serial run of its entries meets one.  It halts at
the smallest faulting index of the first group with a fault, with the fault that the serial run
meets there; it has run exactly the entries of the groups up to that one, and leaves the store of
running these in ascending order of index, in which the faulting ones may as well be left out.
Every order of the steps of its members ends in this way. -/
theorem halted_batch_is_serial_prefix {config : Config} {entries : List Entry} {made : Plan}
    (planned : Batch.plan config entries = .ok made) {ledger : Ledger} {store : Store}
    (plain : ledger.medium = .ofStore store) :
    (∀ result final, RunsBatch ledger.params config entries store result final →
        result = (ledger.executeBatch config entries).1 ∧
          .ofStore final = (ledger.executeBatch config entries).2.medium) ∧
      ((∃ index fault, (ledger.executeBatch config entries).1 = .error (.fatal index fault)) ↔
        ∃ outcome ∈ (ledger.runEntries (sortBy Entry.index entries)).1,
          ∃ fault, outcome.result = .error (.fatal fault)) ∧
      ∀ index fault, (ledger.executeBatch config entries).1 = .error (.fatal index fault) →
        ∃ ran group rest, made.schedule.groups = ran ++ group :: rest ∧
          Halted (ledger.runEntries (sortBy Entry.index entries)).1 ran group index fault ∧
          (ledger.executeBatch config entries).2 =
            ((ledger.plan config entries).2.runEntries
              ((ran ++ [group]).flatMap (Ledger.membersOf made.graph))).2 ∧
          (ledger.executeBatch config entries).2.medium =
            (ledger.runEntries (listedIn (ran ++ [group]) entries)).2.medium ∧
          (ledger.executeBatch config entries).2.medium =
            (ledger.runEntries ((listedIn (ran ++ [group]) entries).filter fun entry =>
              spares (ledger.runEntries (sortBy Entry.index entries)).1 entry.index)).2.medium := by
  refine ⟨fun result final ran => ?_, ?_⟩
  · have whole : ledger = ⟨ledger.params, .ofStore store, ledger.counters⟩ := by rw [← plain]
    obtain ⟨_, ranBatch⟩ := (runsBatch_iff ledger.counters result final).mp ran
    rw [whole, ranBatch]
    exact ⟨rfl, rfl⟩
  rcases executeBatch_cases planned plain with
    ⟨outcomes, finished, faultless⟩ | ⟨ran, group, rest, index, fault, split, halted, stopped⟩
  · rw [finished]
    refine ⟨⟨nofun, ?_⟩, nofun⟩
    rintro ⟨outcome, member, fault, isFault⟩
    have faulty := Outcome.fault?_eq_some_iff.mpr ⟨rfl, isFault⟩
    rw [faultless outcome member] at faulty
    cases faulty
  · obtain ⟨outcome, member, isFault⟩ := stopped.met
    have splitAfter : made.schedule.groups = (ran ++ [group]) ++ rest := by
      rw [split, List.append_assoc, List.singleton_append]
    obtain ⟨listed, spared⟩ := left_by_first_groups planned plain splitAfter
    rw [halted]
    refine ⟨⟨fun _ => ?_, fun _ => ⟨index, fault, rfl⟩⟩, ?_⟩
    · exact ⟨outcome, member, fault, (Outcome.fault?_eq_some_iff.mp isFault).2⟩
    · rintro index fault ⟨⟩
      exact ⟨ran, group, rest, split, stopped, rfl, listed, spared⟩

/-- The first account has 9 coins, and the balance of the fourth is damaged. -/
def damagedStore : Store :=
  .ofList [(.ofBalance (accountOf 1), BalanceRecord.encode 9), (.ofBalance (accountOf 4), [7])]

/-- A transfer, another one that waits for it, and one that spends from the damaged balance. -/
def spentDamage : List Entry :=
  [⟨0, accountOf 1, .transfer (accountOf 2) 3 []⟩, ⟨1, accountOf 2, .transfer (accountOf 3) 1 []⟩,
    ⟨2, accountOf 4, .transfer (accountOf 5) 1 []⟩]

/-- The batch halts at its last entry.  The entry before it has not run, and nothing has changed
but by the first transfer. -/
theorem spentDamage_is_serial_prefix :
    ∃ fault, (Ledger.executeBatch ⟨crossedParams, .ofStore damagedStore, {}⟩ {}
        spentDamage).1 = .error (.fatal 2 fault) ∧
      (Ledger.executeBatch ⟨crossedParams, .ofStore damagedStore, {}⟩ {} spentDamage).2.medium =
        (Ledger.runEntries ⟨crossedParams, .ofStore damagedStore, {}⟩
          [⟨0, accountOf 1, .transfer (accountOf 2) 3 []⟩]).2.medium := by
  have scheduled : Batch.schedule {} spentDamage = .ok (.ofLayers [[0, 2], [1]]) := by
    decide +kernel
  have faulted : (Ledger.executeBatch ⟨crossedParams, .ofStore damagedStore, {}⟩ {}
      spentDamage).1 = .error (.fatal 2
        (.corruptValue (.ofBalance (accountOf 4)) (.invalidLength "balance" 8 1))) := by
    decide +kernel
  have plain : (Ledger.mk crossedParams (.ofStore damagedStore) {}).medium =
      .ofStore damagedStore := rfl
  obtain ⟨made, planned, isSchedule⟩ := plan_of_schedule scheduled
  obtain ⟨_, _, halts⟩ := halted_batch_is_serial_prefix planned plain
  obtain ⟨ran, group, rest, split, stopped, _, _, left⟩ := halts 2 _ faulted
  have inGroup := stopped.listed
  replace split : [⟨0, [0, 2]⟩, ⟨1, [1]⟩] = ran ++ group :: rest := by
    rw [← split, isSchedule]
    rfl
  refine ⟨_, faulted, left.trans ?_⟩
  rcases ran with _ | ⟨first, _ | ⟨second, more⟩⟩
  · cases split
    have kept : ((listedIn ([] ++ [⟨0, [0, 2]⟩]) spentDamage).filter fun entry =>
        spares (Ledger.runEntries ⟨crossedParams, .ofStore damagedStore, {}⟩
          (sortBy Entry.index spentDamage)).1 entry.index) =
        [⟨0, accountOf 1, .transfer (accountOf 2) 3 []⟩] := by
      decide +kernel
    rw [kept]
  · cases split
    simp at inGroup
  · have lengths := congrArg List.length split
    simp at lengths

end Batch

end PoolLedger
