import PoolLedger.Proofs.GroupMembers

/-!
# Members of a group do not race

Whatever the order in which the requests and commits of the members of a group
reach the store, every member that has ended has the result of the serial run,
the members can always run to their ends, and then the store is the one that the
serial run leaves.
-/

namespace PoolLedger

namespace Batch

/-- All threads can run to their ends from wherever they are. -/
theorem exists_interleaves_all_ended (before threads : List Thread) (store : Store) :
    ∃ later final, Interleaves (before ++ threads) store (before ++ later) final ∧
      ∀ thread ∈ later, thread.outcome?.isSome = true := by
  induction threads generalizing before store with
  | nil => exact ⟨[], store, .refl _ _, nofun⟩
  | cons thread others ih =>
      obtain ⟨entry, progress⟩ := thread
      obtain ⟨result, between, ended⟩ : ∃ result between,
          Interleaves (before ++ ⟨entry, progress⟩ :: others) store
            (before ++ ⟨entry, .ended result⟩ :: others) between := by
        cases progress with
        | running rest view => exact exists_interleaves_ended before entry others rest view store
        | ended result => exact ⟨result, store, .refl _ _⟩
      obtain ⟨later, final, steps, allEnded⟩ := ih (before ++ [⟨entry, .ended result⟩]) between
      rw [List.append_assoc, List.append_assoc] at steps
      refine ⟨⟨entry, .ended result⟩ :: later, final, ended.trans steps, ?_⟩
      intro other member
      rcases List.mem_cons.mp member with rfl | inLater
      · rfl
      · exact allEnded other inLater

section Races

variable {params : Params} {base final : Store} {members : List Entry} {threads : List Thread}

theorem Thread.Tracks.outcome_eq {thread : Thread} {outcome : Outcome}
    (tracks : thread.Tracks params base) (ended : thread.outcome? = some outcome) :
    outcome = thread.entry.outcome params base := by
  obtain ⟨entry, rest | result⟩ := thread
  · cases ended
  · have isAlone : result = (entry.effect params base).1 := tracks
    rw [Entry.outcome, ← isAlone]
    exact (Option.some.inj ended).symm

/-- A member that has ended has its outcome of the serial run, whatever the others have done. -/
theorem Interleaves.outcome_eq (unrelated : Unrelated members)
    (steps : Interleaves (members.map (Thread.start params)) base threads final)
    {position : Nat} {outcome : Outcome}
    (ended : threads[position]?.bind Thread.outcome? = some outcome) :
    (runSerial params base members).1[position]? = some outcome := by
  have consistent := steps.consistent (consistent_start unrelated base)
  have sameEntries : threads.map (·.entry) = members := by
    rw [steps.map_entry, List.map_map]
    simp [Function.comp_def, Thread.start]
  obtain ⟨thread, found, isOutcome⟩ := Option.bind_eq_some_iff.mp ended
  have tracks := consistent.tracks thread (List.mem_of_getElem? found)
  rw [outcomes_runSerial unrelated, ← sameEntries, List.getElem?_map, List.getElem?_map, found,
    tracks.outcome_eq isOutcome]
  rfl

theorem Interleaves.map_outcome (unrelated : Unrelated members)
    (steps : Interleaves (members.map (Thread.start params)) base threads final)
    (allEnded : ∀ thread ∈ threads, thread.outcome?.isSome = true) :
    threads.map Thread.outcome? = (runSerial params base members).1.map some := by
  have sameLength : threads.length = (runSerial params base members).1.length := by
    have lengths := congrArg List.length steps.map_entry
    simpa [outcomes_runSerial unrelated] using lengths
  apply List.ext_getElem?
  intro position
  rw [List.getElem?_map, List.getElem?_map]
  cases found : threads[position]? with
  | none =>
      rw [List.getElem?_eq_none_iff] at found
      rw [List.getElem?_eq_none (sameLength ▸ found)]
      rfl
  | some thread =>
      obtain ⟨outcome, isOutcome⟩ :=
        Option.isSome_iff_exists.mp (allEnded thread (List.mem_of_getElem? found))
      have ended : threads[position]?.bind Thread.outcome? = some outcome := by
        rw [found]
        exact isOutcome
      have sameOutcome := steps.outcome_eq unrelated ended
      rw [sameOutcome, Option.map_some, Option.map_some, isOutcome]

end Races

/-- The members of a group of a schedule do not race: in every order of their requests and
commits, each member that has ended has its outcome of the serial run in ascending order of index,
the members can go on to their ends, and once all have ended the store is the one that the serial
run leaves. -/
theorem group_members_cannot_race {config : Config} {entries : List Entry} {schedule : Schedule}
    (scheduled : Batch.schedule config entries = .ok schedule) {group : Group}
    (isGroup : group ∈ schedule.groups) (params : Params) (store : Store)
    (counters : Telemetry.Counters) {threads : List Thread} {final : Store}
    (steps : Interleaves ((listedIn [group] entries).map (Thread.start params)) store threads
      final) :
    (∀ (position : Nat) (outcome : Outcome),
        threads[position]?.bind Thread.outcome? = some outcome →
        (Ledger.runEntries ⟨params, .ofStore store, counters⟩
          (listedIn [group] entries)).1[position]? = some outcome) ∧
      (∃ later last, Interleaves threads final later last ∧
        ∀ thread ∈ later, thread.outcome?.isSome = true) ∧
      ((∀ thread ∈ threads, thread.outcome?.isSome = true) →
        threads.map Thread.outcome? =
            (Ledger.runEntries ⟨params, .ofStore store, counters⟩
              (listedIn [group] entries)).1.map some ∧
          .ofStore final = (Ledger.runEntries ⟨params, .ofStore store, counters⟩
            (listedIn [group] entries)).2.medium) := by
  obtain ⟨made, planned, rfl⟩ := plan_of_schedule scheduled
  obtain ⟨distinct, _, valid⟩ := valid_of_plan planned
  have unrelated : Unrelated (listedIn [group] entries) := by
    rw [← membersOf_eq_listedIn distinct valid isGroup]
    exact unrelated_membersOf distinct valid isGroup
  obtain ⟨later, ran⟩ := Ledger.runEntries_ofStore params store counters
    (listedIn [group] entries)
  rw [ran]
  refine ⟨fun position outcome => steps.outcome_eq unrelated,
    exists_interleaves_all_ended [] threads final, fun allEnded => ?_⟩
  have outcomes := steps.map_outcome unrelated allEnded
  have sameRun := (runsGroup_iff unrelated).mp ⟨threads, steps, outcomes⟩
  exact ⟨outcomes, congrArg (fun run => Medium.ofStore run.2) sameRun.symm⟩

/-- The first two of the crossed transfers run side by side to the ends that they have one after
the other. -/
theorem crossedTransfers_cannot_race :
    Batch.schedule {} crossedTransfers = .ok (.ofLayers [[2, 4], [7]]) ∧
      ∃ threads final,
        Interleaves ((listedIn [⟨0, [2, 4]⟩] crossedTransfers).map (Thread.start crossedParams))
          crossedStore threads final ∧
        threads.map Thread.outcome? =
          [some ⟨2, accountOf 2, .ok (.transfer 1 12)⟩,
            some ⟨4, accountOf 3, .ok (.hi (Bytes.ofText "Hi, ") 0)⟩] ∧
        final = .ofList [(.ofBalance (accountOf 1), BalanceRecord.encode 12),
          (.ofBalance (accountOf 2), BalanceRecord.encode 1)] := by
  have scheduled : Batch.schedule {} crossedTransfers = .ok (.ofLayers [[2, 4], [7]]) := by
    decide +kernel
  have isGroup : (⟨0, [2, 4]⟩ : Group) ∈ (Schedule.ofLayers [[2, 4], [7]]).groups :=
    List.mem_cons_self
  obtain ⟨_, ⟨threads, final, steps, allEnded⟩, _⟩ :=
    group_members_cannot_race scheduled isGroup crossedParams crossedStore {} (.refl _ _)
  obtain ⟨_, _, serial⟩ :=
    group_members_cannot_race scheduled isGroup crossedParams crossedStore {} steps
  obtain ⟨outcomes, medium⟩ := serial allEnded
  refine ⟨scheduled, threads, final, steps, outcomes.trans ?_,
    (congrArg Medium.store medium).trans ?_⟩
  · decide +kernel
  · decide +kernel

end Batch

end PoolLedger
