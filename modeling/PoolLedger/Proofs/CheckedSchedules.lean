import PoolLedger.Proofs.BatchSerial

/-!
# Schedules that pass the check

The check of a schedule does not ask where the schedule comes from.  Whatever
passes it, with the members of each group in whatever order, runs every entry of
the batch once and comes to the same as the entries in ascending order of index.
-/

namespace PoolLedger

namespace Batch

/-- The schedule lets entries run in this order: group after group, the members of each group in
any order. -/
def Schedule.Admits (schedule : Schedule) (graph : Graph) (run : List Entry) : Prop :=
  ∃ parts : List (List Entry), parts.flatten = run ∧
    List.Forall₂ List.Perm parts (schedule.groups.map (Ledger.membersOf graph))

/-- A pairwise relation on a list of parts survives a new order inside the parts when within a
part it holds both ways. -/
theorem pairwise_flatten_of_perm {α : Type} {relation within : α → α → Prop}
    (implies : ∀ {first second}, within first second → relation first second)
    (symmetric : ∀ {first second}, within first second → within second first)
    {parts originals : List (List α)} (perms : List.Forall₂ List.Perm parts originals)
    (inside : ∀ original ∈ originals, original.Pairwise within)
    (ordered : originals.flatten.Pairwise relation) : parts.flatten.Pairwise relation := by
  induction perms with
  | nil => exact .nil
  | @cons part original parts originals perm perms ih =>
      rw [List.flatten_cons, List.pairwise_append] at ordered ⊢
      obtain ⟨_, orderedRest, across⟩ := ordered
      have insidePart : part.Pairwise within :=
        (perm.pairwise_iff symmetric).mpr (inside original List.mem_cons_self)
      have restPerm : parts.flatten.Perm originals.flatten := List.Perm.flatten_congr perms
      refine ⟨insidePart.imp implies, ?_, ?_⟩
      · exact ih (fun other member => inside other (List.mem_cons_of_mem _ member)) orderedRest
      · intro first inPart second inRest
        exact across first (perm.mem_iff.mp inPart) second (restPerm.mem_iff.mp inRest)

section Admitted

variable {entries run : List Entry} {schedule : Schedule}

/-- Every entry of the batch runs once. -/
theorem Schedule.Admits.perm (distinct : (entries.map (·.index)).Nodup)
    (fits : schedule.fits (Graph.ofEntries (arrange entries)) = true)
    (admits : schedule.Admits (Graph.ofEntries (arrange entries)) run) : run.Perm entries := by
  obtain ⟨parts, rfl, perms⟩ := admits
  have sameMembers := List.Perm.flatten_congr perms
  rw [← List.flatMap_def] at sameMembers
  exact sameMembers.trans (membersOf_perm distinct fits)

/-- Of two entries that clash the one with the smaller index runs first. -/
theorem Schedule.Admits.clashes_ascend (distinct : (entries.map (·.index)).Nodup)
    (fits : schedule.fits (Graph.ofEntries (arrange entries)) = true)
    (admits : schedule.Admits (Graph.ofEntries (arrange entries)) run) :
    run.Pairwise fun first second => first.Clash second → first.index < second.index := by
  obtain ⟨parts, rfl, perms⟩ := admits
  have ordered := clashes_ascend_membersOf distinct fits
  rw [List.flatMap_def] at ordered
  have inside : ∀ members ∈ schedule.groups.map
      (Ledger.membersOf (Graph.ofEntries (arrange entries))), Unrelated members := by
    intro members isPart
    obtain ⟨group, member, rfl⟩ := List.mem_map.mp isPart
    exact unrelated_of_fits distinct fits member
  exact pairwise_flatten_of_perm (fun noClash clash => absurd clash noClash)
    (fun noClash clash => noClash clash.symm) perms inside ordered

end Admitted

/-- Every schedule that passes the check of a batch with distinct indices is serial: in any order
that the schedule admits every entry runs once, has the result that it has in ascending order of
index, and the final store is the same. -/
theorem checked_schedule_is_serial (params : Params) (store : Store)
    (counters : Telemetry.Counters) {entries : List Entry}
    (distinct : (entries.map (·.index)).Nodup) {schedule : Schedule}
    (fits : schedule.fits (.ofConflicts (arrange entries) (conflicts (arrange entries))) = true)
    {run : List Entry}
    (admits : schedule.Admits (.ofConflicts (arrange entries) (conflicts (arrange entries))) run) :
    run.Perm entries ∧
      sortBy Outcome.index (Ledger.runEntries ⟨params, .ofStore store, counters⟩ run).1 =
        (Ledger.runEntries ⟨params, .ofStore store, counters⟩ (sortBy Entry.index entries)).1 ∧
      (Ledger.runEntries ⟨params, .ofStore store, counters⟩ run).2.medium =
        (Ledger.runEntries ⟨params, .ofStore store, counters⟩
          (sortBy Entry.index entries)).2.medium := by
  have perm : run.Perm entries := admits.perm distinct fits
  have ascending := pairwise_lt_sortBy distinct
  obtain ⟨sameOutcomes, sameFinal⟩ := runSerial_eq_of_clashes_ascend params store
    (perm.trans (sortBy_perm _ _).symm) (admits.clashes_ascend distinct fits) ascending
  obtain ⟨_, ranInGroups⟩ := Ledger.runEntries_ofStore params store counters run
  obtain ⟨_, ranAscending⟩ := Ledger.runEntries_ofStore params store counters
    (sortBy Entry.index entries)
  rw [ranInGroups, ranAscending]
  refine ⟨perm, ?_, congrArg Medium.ofStore sameFinal⟩
  exact sortBy_eq_of_perm sameOutcomes (ascending_runSerial ascending store)

/-- The crossed transfers with the greeting last. -/
def greetingLast : List Entry :=
  [⟨2, accountOf 2, .transfer (accountOf 1) 3 []⟩, ⟨7, accountOf 1, .transfer (accountOf 2) 5 []⟩,
    ⟨4, accountOf 3, .hi []⟩]

/-- The greeting may also run in the second group, and there after the transfer that is listed
behind it. -/
theorem crossedTransfers_checked :
    (Schedule.ofLayers [[2], [4, 7]]).fits
        (.ofConflicts (arrange crossedTransfers) (conflicts (arrange crossedTransfers))) = true ∧
      greetingLast.Perm crossedTransfers ∧
      sortBy Outcome.index
          (Ledger.runEntries ⟨crossedParams, .ofStore crossedStore, {}⟩ greetingLast).1 =
        (Ledger.runEntries ⟨crossedParams, .ofStore crossedStore, {}⟩
          (sortBy Entry.index crossedTransfers)).1 ∧
      (Ledger.runEntries ⟨crossedParams, .ofStore crossedStore, {}⟩ greetingLast).2.medium =
        (Ledger.runEntries ⟨crossedParams, .ofStore crossedStore, {}⟩
          (sortBy Entry.index crossedTransfers)).2.medium := by
  have fits : (Schedule.ofLayers [[2], [4, 7]]).fits
      (.ofConflicts (arrange crossedTransfers) (conflicts (arrange crossedTransfers))) = true := by
    decide +kernel
  have members : (Schedule.ofLayers [[2], [4, 7]]).groups.map (Ledger.membersOf
      (.ofConflicts (arrange crossedTransfers) (conflicts (arrange crossedTransfers)))) =
      [[⟨2, accountOf 2, .transfer (accountOf 1) 3 []⟩],
        [⟨4, accountOf 3, .hi []⟩, ⟨7, accountOf 1, .transfer (accountOf 2) 5 []⟩]] := by
    decide +kernel
  have admits : (Schedule.ofLayers [[2], [4, 7]]).Admits
      (.ofConflicts (arrange crossedTransfers) (conflicts (arrange crossedTransfers)))
      greetingLast := by
    refine ⟨[[_], [_, _]], rfl, ?_⟩
    rw [members]
    exact .cons (.refl _) (.cons (.swap _ _ _) .nil)
  exact ⟨fits, checked_schedule_is_serial crossedParams crossedStore {} (by decide) fits admits⟩

end Batch

end PoolLedger
