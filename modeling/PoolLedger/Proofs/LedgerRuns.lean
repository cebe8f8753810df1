import PoolLedger.Proofs.BatchSerial
import PoolLedger.Proofs.GenesisSupply

/-!
# Runs of a ledger

A run is a list of calls, each answered by the ledger that the earlier ones
left.  From a sound store no call meets a fault or an overflow, every store on
the way is sound, and only the prices of domains leave the coins.
-/

namespace PoolLedger

open Batch

/-- What is asked of a ledger. -/
inductive Call where
  | execute (actor : Address) (action : Action)
  | executeEncoded (actor : Address) (bytes : Bytes)
  | executeBatch (config : Config) (entries : List Entry)

/-- What a ledger answers. -/
inductive Response where
  | execution (result : Except ExecutionError Output)
  | batch (result : Except OrderingError (List Outcome))

namespace Response

/-- The results of all actions that were executed for the call. -/
def results : Response → List (Except ExecutionError Output)
  | execution result => [result]
  | batch (.ok outcomes) => outcomes.map (·.result)
  | batch (.error _) => []

end Response

namespace Ledger

/-- Answer one call. -/
def answer (ledger : Ledger) : Call → Response × Ledger
  | .execute actor action =>
      let (result, ledger) := ledger.execute actor action
      (.execution result, ledger)
  | .executeEncoded actor bytes =>
      let (result, ledger) := ledger.executeEncoded actor bytes
      (.execution result, ledger)
  | .executeBatch config entries =>
      let (result, ledger) := ledger.executeBatch config entries
      (.batch result, ledger)

/-- Answer calls one after the other. -/
def answers (ledger : Ledger) : List Call → List Response × Ledger
  | [] => ([], ledger)
  | call :: rest =>
      let (response, ledger) := ledger.answer call
      let (responses, ledger) := ledger.answers rest
      (response :: responses, ledger)

end Ledger

/-- The coins that an executed action has paid to nobody. -/
def paidBy : Except ExecutionError Output → Nat
  | .ok output => output.paid
  | .error _ => 0

/-- The coins that all of the responses have paid to nobody. -/
def paidIn (responses : List Response) : Nat :=
  ((responses.flatMap Response.results).map paidBy).sum

/-- Neither a fault nor an overflow. -/
def Faultless (result : Except ExecutionError Output) : Prop :=
  result ≠ .error (.rejected .balanceOverflow) ∧ ∀ fault, result ≠ .error (.fatal fault)

/-- Neither the call nor any action executed for it met a fault or an overflow. -/
def Response.Faultless (response : Response) : Prop :=
  (∀ result ∈ response.results, PoolLedger.Faultless result) ∧
    ∀ index fault, response ≠ .batch (.error (.fatal index fault))

theorem faultless_of_actionError {error : ActionError} (noOverflow : error ≠ .balanceOverflow)
    (noFault : ∀ fault, error ≠ .state fault) : Faultless (.error (.ofActionError error)) := by
  cases error with
  | balanceOverflow => exact absurd rfl noOverflow
  | state fault => exact absurd rfl (noFault fault)
  | _ => exact ⟨nofun, nofun⟩

section Steps

variable (params : Params) {store : Store}

/-- An action executed in a sound store meets no fault and no overflow, and leaves a sound store
without the coins that it has paid to nobody. -/
theorem effect_sound (sound : store.Sound) (actor : Address) (action : Action) :
    Faultless (action.effect params actor store).1 ∧
      Store.Sound (store.commit (action.effect params actor store).2) ∧
      (store.commit (action.effect params actor store).2).coinTotal +
        paidBy (action.effect params actor store).1 = store.coinTotal := by
  have executed := Medium.execute_eq_run params store actor action
  have harmless := Action.harmless sound params actor action
  rw [Medium.execute_ofStore] at executed
  rcases ran : (action.program params actor).run .store store with ⟨result, after⟩
  rw [ran] at executed harmless
  cases result with
  | error error =>
      obtain ⟨sameResult, sameMedium⟩ := Prod.mk.inj executed
      have sameStore : store.commit (action.effect params actor store).2 = store :=
        congrArg Medium.store sameMedium
      rw [sameResult, sameStore]
      exact ⟨faultless_of_actionError harmless.1 harmless.2, sound, rfl⟩
  | ok output =>
      obtain ⟨sameResult, sameMedium⟩ := Prod.mk.inj executed
      have sameStore : store.commit (action.effect params actor store).2 = after :=
        congrArg Medium.store sameMedium
      obtain ⟨readable, total⟩ := harmless
      rw [sameResult, sameStore]
      have bounded : after.coinTotal < 2 ^ 64 := by
        have before := sound.bounded
        omega
      exact ⟨⟨nofun, nofun⟩, ⟨readable, bounded⟩, total⟩

theorem runSerial_sound (sound : store.Sound) (entries : List Entry) :
    (∀ outcome ∈ (runSerial params store entries).1, Faultless outcome.result) ∧
      (runSerial params store entries).2.Sound ∧
      (runSerial params store entries).2.coinTotal +
        ((runSerial params store entries).1.map (paidBy ·.result)).sum = store.coinTotal := by
  induction entries generalizing store with
  | nil => exact ⟨nofun, sound, rfl⟩
  | cons entry rest ih =>
      have step := effect_sound params sound entry.actor entry.action
      have afterSound : (entry.after params store).Sound := step.2.1
      have afterTotal : (entry.after params store).coinTotal +
          paidBy (entry.outcome params store).result = store.coinTotal := step.2.2
      obtain ⟨restFaultless, restSound, restTotal⟩ := ih afterSound
      refine ⟨?_, restSound, ?_⟩
      · intro outcome member
        rcases List.mem_cons.mp member with rfl | inRest
        · exact step.1
        · exact restFaultless outcome inRest
      · simp only [runSerial, List.map_cons, List.sum_cons]
        omega

theorem fault?_eq_none {outcome : Outcome} (faultless : Faultless outcome.result) :
    outcome.fault? = none := by
  rw [Outcome.fault?]
  split
  · rename_i fault isFault
    exact absurd isFault (faultless.2 fault)
  · rfl

/-- Groups that run in a sound store run to the end. -/
theorem runGroups_sound (sound : store.Sound) (graph : Graph) (groups : List Group)
    (counters : Telemetry.Counters) :
    ∃ outcomes final later,
      Ledger.runGroups graph ⟨params, .ofStore store, counters⟩ groups =
        (.ok outcomes, ⟨params, .ofStore final, later⟩) ∧
      (∀ outcome ∈ outcomes, Faultless outcome.result) ∧ final.Sound ∧
      final.coinTotal + (outcomes.map (paidBy ·.result)).sum = store.coinTotal := by
  induction groups generalizing store counters with
  | nil => exact ⟨[], store, counters, rfl, nofun, sound, rfl⟩
  | cons group rest ih =>
      obtain ⟨counted, ran⟩ := Ledger.runEntries_ofStore params store counters
        (Ledger.membersOf graph group)
      obtain ⟨faultless, middleSound, middleTotal⟩ :=
        runSerial_sound params sound (Ledger.membersOf graph group)
      obtain ⟨outcomes, final, later, ranRest, restFaultless, finalSound, finalTotal⟩ :=
        ih middleSound counted
      have noFault : (runSerial params store (Ledger.membersOf graph group)).1.findSome?
          Outcome.fault? = none :=
        List.findSome?_eq_none_iff.mpr fun outcome member =>
          fault?_eq_none (faultless outcome member)
      refine ⟨(runSerial params store (Ledger.membersOf graph group)).1 ++ outcomes, final, later,
        ?_, ?_, finalSound, ?_⟩
      · simp only [Ledger.runGroups, ran, noFault, ranRest]
        rfl
      · intro outcome member
        rcases List.mem_append.mp member with inGroup | inRest
        · exact faultless outcome inGroup
        · exact restFaultless outcome inRest
      · rw [List.map_append, List.sum_append]
        omega

theorem plan_ne_fatal (config : Config) (entries : List Entry) (index : Nat)
    (fault : StateError) : Batch.plan config entries ≠ .error (.fatal index fault) := by
  intro planned
  rw [Batch.plan] at planned
  split at planned
  · rename_i invalid
    cases planned
    cases refused_of_validate 0 invalid
  · rename_i passed
    obtain ⟨_, _, distinct⟩ := validate_eq_ok_iff.mp passed
    obtain ⟨layered, found, _, _⟩ := schedule_ofEntries distinct
    rw [planValid, ← Graph.ofEntries, found] at planned
    split at planned
    · cases planned
    · split at planned
      · cases planned
      · cases planned

theorem execute_sound (sound : store.Sound) (counters : Telemetry.Counters) (actor : Address)
    (action : Action) :
    ∃ result final later,
      Ledger.execute ⟨params, .ofStore store, counters⟩ actor action =
        (result, ⟨params, .ofStore final, later⟩) ∧
      Faultless result ∧ final.Sound ∧ final.coinTotal + paidBy result = store.coinTotal := by
  obtain ⟨later, executed⟩ := Ledger.execute_ofStore params store counters actor action
  exact ⟨_, _, later, executed, effect_sound params sound actor action⟩

theorem executeEncoded_sound (sound : store.Sound) (counters : Telemetry.Counters)
    (actor : Address) (bytes : Bytes) :
    ∃ result final later,
      Ledger.executeEncoded ⟨params, .ofStore store, counters⟩ actor bytes =
        (result, ⟨params, .ofStore final, later⟩) ∧
      Faultless result ∧ final.Sound ∧ final.coinTotal + paidBy result = store.coinTotal := by
  cases decoded : Action.decode bytes with
  | error cause =>
      refine ⟨.error (.decode cause), store, counters, ?_, ⟨nofun, nofun⟩, sound, rfl⟩
      simp only [Ledger.executeEncoded, decoded]
  | ok action =>
      simp only [Ledger.executeEncoded, decoded]
      exact execute_sound params sound counters actor action

theorem Response.faultless_execution {result : Except ExecutionError Output}
    (faultless : PoolLedger.Faultless result) : (Response.execution result).Faultless := by
  refine ⟨?_, nofun⟩
  intro other member
  rw [List.mem_singleton.mp member]
  exact faultless

theorem executeBatch_sound (sound : store.Sound) (counters : Telemetry.Counters)
    (config : Config) (entries : List Entry) :
    ∃ result final later,
      Ledger.executeBatch ⟨params, .ofStore store, counters⟩ config entries =
        (result, ⟨params, .ofStore final, later⟩) ∧
      (Response.batch result).Faultless ∧ final.Sound ∧
      final.coinTotal + ((Response.batch result).results.map paidBy).sum = store.coinTotal := by
  cases planned : Batch.plan config entries with
  | error error =>
      refine ⟨.error error, store, counters, ?_, ⟨?_, ?_⟩, sound, rfl⟩
      · exact Ledger.executeBatch_of_refused _ planned
      · intro result member
        cases member
      · rintro index fault isFatal
        cases isFatal
        exact plan_ne_fatal config entries index fault planned
  | ok made =>
      obtain ⟨outcomes, final, later, ran, faultless, finalSound, total⟩ :=
        runGroups_sound params sound made.graph made.schedule.groups
          counters.countBatch
      have perm := sortBy_perm Outcome.index outcomes
      refine ⟨.ok (sortBy Outcome.index outcomes), final, later, ?_, ⟨?_, ?_⟩, finalSound, ?_⟩
      · rw [Ledger.executeBatch_of_planned _ planned, ran]
        rfl
      · intro result member
        obtain ⟨outcome, inSorted, rfl⟩ := List.mem_map.mp member
        exact faultless outcome (perm.mem_iff.mp inSorted)
      · rintro index fault isFatal
        cases isFatal
      · have sameSum := (perm.map (paidBy ·.result)).sum_eq
        simp only [Response.results, List.map_map, Function.comp_def]
        rw [sameSum]
        exact total

/-- A call to a ledger with a sound store is answered without a fault or an overflow. -/
theorem answer_sound (sound : store.Sound) (counters : Telemetry.Counters) (call : Call) :
    ∃ response final later,
      Ledger.answer ⟨params, .ofStore store, counters⟩ call =
        (response, ⟨params, .ofStore final, later⟩) ∧
      response.Faultless ∧ final.Sound ∧
      final.coinTotal + (response.results.map paidBy).sum = store.coinTotal := by
  cases call with
  | execute actor action =>
      obtain ⟨result, final, later, executed, faultless, finalSound, total⟩ :=
        execute_sound params sound counters actor action
      exact ⟨.execution result, final, later, by simp only [Ledger.answer, executed],
        Response.faultless_execution faultless, finalSound, by simpa [Response.results] using total⟩
  | executeEncoded actor bytes =>
      obtain ⟨result, final, later, executed, faultless, finalSound, total⟩ :=
        executeEncoded_sound params sound counters actor bytes
      exact ⟨.execution result, final, later, by simp only [Ledger.answer, executed],
        Response.faultless_execution faultless, finalSound, by simpa [Response.results] using total⟩
  | executeBatch config entries =>
      obtain ⟨result, final, later, executed, faultless, finalSound, total⟩ :=
        executeBatch_sound params sound counters config entries
      exact ⟨.batch result, final, later, by simp only [Ledger.answer, executed], faultless,
        finalSound, total⟩

/-- A run from a sound store is answered without faults and overflows. -/
theorem answers_sound (sound : store.Sound) (counters : Telemetry.Counters) (calls : List Call) :
    ∃ responses final later,
      Ledger.answers ⟨params, .ofStore store, counters⟩ calls =
        (responses, ⟨params, .ofStore final, later⟩) ∧
      (∀ response ∈ responses, response.Faultless) ∧ final.Sound ∧
      final.coinTotal + paidIn responses = store.coinTotal := by
  induction calls generalizing store counters with
  | nil => exact ⟨[], store, counters, rfl, nofun, sound, rfl⟩
  | cons call rest ih =>
      obtain ⟨response, middle, counted, answered, faultless, middleSound, middleTotal⟩ :=
        answer_sound params sound counters call
      obtain ⟨responses, final, later, ran, restFaultless, finalSound, total⟩ :=
        ih middleSound counted
      refine ⟨response :: responses, final, later, ?_, ?_, finalSound, ?_⟩
      · simp only [Ledger.answers, answered, ran]
      · intro other member
        rcases List.mem_cons.mp member with rfl | inRest
        · exact faultless
        · exact restFaultless other inRest
      · rw [paidIn, List.flatMap_cons, List.map_append, List.sum_append]
        rw [paidIn] at total
        omega

end Steps

/-- From the first state of an accepted genesis, no run of calls meets a fault or an overflow. -/
theorem run_from_genesis_faultless (config : GenesisConfig) (genesis : Genesis)
    (accepted : Genesis.ofConfig config = .ok genesis) :
    ∃ store, genesis.initialStore = .ok store ∧
      ∀ (counters : Telemetry.Counters) (calls : List Call),
        ∀ response ∈ (Ledger.answers ⟨genesis.params, .ofStore store, counters⟩ calls).1,
          response.Faultless := by
  obtain ⟨store, initial, sound, _⟩ := Genesis.initialStore_of_ofConfig accepted
  refine ⟨store, initial, fun counters calls => ?_⟩
  obtain ⟨responses, final, later, ran, faultless, _⟩ :=
    answers_sound genesis.params sound counters calls
  rw [ran]
  exact faultless

/-- A genesis that gives 20000 and 5 coins to two accounts. -/
def twoAccounts : GenesisConfig where
  allocations := [⟨accountOf 1, 20000⟩, ⟨accountOf 2, 5⟩]

/-- A claim of a domain that is paid, a batch of transfers, bytes that are no action, and a
transfer that is too large. -/
def mixedCalls : List Call :=
  [.execute (accountOf 1) (.claimDomain "harbour"), .executeBatch {} crossedTransfers,
    .executeEncoded (accountOf 2) [], .execute (accountOf 2) (.transfer (accountOf 1) 30000 [])]

theorem accepted_twoAccounts : ∃ genesis, Genesis.ofConfig twoAccounts = .ok genesis := by
  have isOk : (Genesis.ofConfig twoAccounts).isOk = true := by decide +kernel
  cases accepted : Genesis.ofConfig twoAccounts with
  | error error =>
      rw [accepted] at isOk
      cases isOk
  | ok genesis => exact ⟨genesis, rfl⟩

theorem mixedCalls_faultless :
    ∃ genesis, Genesis.ofConfig twoAccounts = .ok genesis ∧
      ∃ store, genesis.initialStore = .ok store ∧
        ∀ response ∈ (Ledger.answers ⟨genesis.params, .ofStore store, {}⟩ mixedCalls).1,
          response.Faultless := by
  obtain ⟨genesis, accepted⟩ := accepted_twoAccounts
  obtain ⟨store, initial, faultless⟩ := run_from_genesis_faultless twoAccounts genesis accepted
  exact ⟨genesis, accepted, store, initial, faultless {} mixedCalls⟩

theorem paidBy_eq_zero {params : Params} {actor : Address} {action : Action} {store : Store}
    (free : (∀ domain, action ≠ .claimDomain domain) ∨
      ∃ error, (action.effect params actor store).1 = .error error) :
    paidBy (action.effect params actor store).1 = 0 := by
  cases result : (action.effect params actor store).1 with
  | error error => rfl
  | ok output =>
      have sameKind := Action.kind_of_effect result
      rcases free with noClaim | ⟨error, failed⟩
      · cases output with
        | claimDomain amount =>
            cases action with
            | claimDomain domain => exact absurd rfl (noClaim domain)
            | _ => cases sameKind
        | _ => rfl
      · rw [failed] at result
        cases result

/-- From the first state of an accepted genesis, every run of calls leaves balances that can be
read, and their sum is the supply without what the claimed domains have cost.  No action but a
successful claim of a domain changes the sum. -/
theorem supply_conserved (config : GenesisConfig) (genesis : Genesis)
    (accepted : Genesis.ofConfig config = .ok genesis) :
    ∃ store, genesis.initialStore = .ok store ∧
      ∀ (counters : Telemetry.Counters) (calls : List Call), ∃ final later,
        (Ledger.answers ⟨genesis.params, .ofStore store, counters⟩ calls).2 =
            ⟨genesis.params, .ofStore final, later⟩ ∧
        (∀ key value, final.get? key = some value → key.kind? = some .balance →
          ∃ amount, BalanceRecord.decode value = .ok amount) ∧
        final.coinTotal +
            paidIn (Ledger.answers ⟨genesis.params, .ofStore store, counters⟩ calls).1 =
          genesis.supply.toNat ∧
        ∀ actor action,
          ((∀ domain, action ≠ .claimDomain domain) ∨ ∃ error,
            (Ledger.execute ⟨genesis.params, .ofStore final, later⟩ actor action).1 =
              .error error) →
          (Ledger.execute ⟨genesis.params, .ofStore final, later⟩ actor
            action).2.medium.store.coinTotal = final.coinTotal := by
  obtain ⟨store, initial, sound, supply⟩ := Genesis.initialStore_of_ofConfig accepted
  refine ⟨store, initial, fun counters calls => ?_⟩
  obtain ⟨responses, final, later, ran, _, finalSound, total⟩ :=
    answers_sound genesis.params sound counters calls
  refine ⟨final, later, by rw [ran], finalSound.readable.balances, by rw [ran, ← supply, total],
    fun actor action free => ?_⟩
  obtain ⟨counted, executed⟩ := Ledger.execute_ofStore genesis.params final later actor action
  rw [executed] at free ⊢
  have conserved := (effect_sound genesis.params finalSound actor action).2.2
  rw [paidBy_eq_zero free, Nat.add_zero] at conserved
  exact conserved

theorem mixedCalls_conserve :
    ∃ genesis, Genesis.ofConfig twoAccounts = .ok genesis ∧
      ∃ store, genesis.initialStore = .ok store ∧ ∃ final later,
        (Ledger.answers ⟨genesis.params, .ofStore store, {}⟩ mixedCalls).2 =
            ⟨genesis.params, .ofStore final, later⟩ ∧
        final.coinTotal +
            paidIn (Ledger.answers ⟨genesis.params, .ofStore store, {}⟩ mixedCalls).1 =
          genesis.supply.toNat ∧
        (Ledger.execute ⟨genesis.params, .ofStore final, later⟩ (accountOf 2)
          (.transfer (accountOf 1) 1 [])).2.medium.store.coinTotal = final.coinTotal := by
  obtain ⟨genesis, accepted⟩ := accepted_twoAccounts
  obtain ⟨store, initial, run⟩ := supply_conserved twoAccounts genesis accepted
  obtain ⟨final, later, left, _, total, unchanged⟩ := run {} mixedCalls
  exact ⟨genesis, accepted, store, initial, final, later, left, total,
    unchanged (accountOf 2) _ (.inl nofun)⟩

end PoolLedger
