import PoolLedger.Proofs.RunHistory
import PoolLedger.Proofs.HaltedBatch

/-!
# What the counters count

Ledgers with states of their own may share their counters.  Whatever they are
asked, every action that is executed adds one to one of the counters, by its
result, and nothing else does but a batch that can be planned.  In a batch that
halts these are the actions of the groups that have run, whether or not their
outcomes are answered.
-/

namespace PoolLedger

open Batch Telemetry

namespace ActionKind

theorem name_inj {first second : ActionKind} : first.name = second.name ↔ first = second := by
  constructor
  · intro same
    cases first <;> cases second <;> simp_all [name]
  · rintro rfl
    rfl

end ActionKind

namespace Execution

def succeeded (execution : Execution) : Bool :=
  execution.result.isOk

def rejected (execution : Execution) : Bool :=
  match execution.result with
  | .error (.rejected _) => true
  | _ => false

/-- The execution met a fault of the state. -/
def faulted (execution : Execution) : Bool :=
  match execution.result with
  | .error (.fatal _) => true
  | _ => false

theorem faulted_iff {execution : Execution} :
    execution.faulted = true ↔ ∃ fault, execution.result = .error (.fatal fault) := by
  obtain ⟨actor, action, result⟩ := execution
  rcases result with (cause | fault | cause) | output <;> simp [faulted]

end Execution

theorem Telemetry.LabelledCounts.count_add (counts : LabelledCounts) (label : String)
    (amount : Nat) (other : String) :
    (counts.add label amount).count other =
      counts.count other + if label = other then amount else 0 := by
  unfold count add
  rw [SortedMap.get?_insert]
  by_cases same : label = other
  · subst same
    simp [count]
  · simp [same, Ne.symm same]

/-- The later counters are the earlier ones with every execution counted once, under the name of
its action, and every batch. -/
structure Telemetry.Counters.Accounts (before after : Counters) (executions : List Execution)
    (batches : Nat) : Prop where
  executed : ∀ kind : ActionKind, after.executed.count kind.name =
    before.executed.count kind.name +
      executions.countP fun execution => execution.action.kind = kind ∧ execution.succeeded
  rejected : ∀ kind : ActionKind, after.rejected.count kind.name =
    before.rejected.count kind.name +
      executions.countP fun execution => execution.action.kind = kind ∧ execution.rejected
  faults : after.faults = before.faults + executions.countP Execution.faulted
  batches : after.batches = before.batches + batches

namespace Telemetry.Counters

variable {first second third : Counters} {executions later : List Execution}
  {batches laterBatches : Nat}

theorem Accounts.refl (counters : Counters) : counters.Accounts counters [] 0 := by
  constructor <;> simp

theorem Accounts.trans (before : first.Accounts second executions batches)
    (after : second.Accounts third later laterBatches) :
    first.Accounts third (executions ++ later) (batches + laterBatches) := by
  constructor
  · intro kind
    rw [after.executed, before.executed, List.countP_append, Nat.add_assoc]
  · intro kind
    rw [after.rejected, before.rejected, List.countP_append, Nat.add_assoc]
  · rw [after.faults, before.faults, List.countP_append, Nat.add_assoc]
  · rw [after.batches, before.batches, Nat.add_assoc]

theorem accounts_countBatch (counters : Counters) : counters.Accounts counters.countBatch [] 1 := by
  constructor <;> simp [countBatch]

/-- An execution is counted once, by its result. -/
theorem accounts_countOutcome (counters : Counters) (execution : Execution) :
    counters.Accounts
      ((counters.countTimed execution.action.kind).countOutcome execution.action.kind
        execution.result) [execution] 0 := by
  obtain ⟨actor, action, result⟩ := execution
  rcases result with (cause | fault | cause) | output
  · constructor <;> intros <;>
      simp [countOutcome, countRejected, countTimed, LabelledCounts.count_add,
        ActionKind.name_inj, Execution.succeeded, Execution.rejected, Execution.faulted,
        Except.isOk, Except.toBool]
  · constructor <;> intros <;>
      simp [countOutcome, countFault, countTimed, Execution.succeeded, Execution.rejected,
        Execution.faulted, Except.isOk, Except.toBool]
  · constructor <;> intros <;>
      simp [countOutcome, countTimed, Execution.succeeded, Execution.rejected,
        Execution.faulted, Except.isOk, Except.toBool]
  · constructor <;> intros <;>
      simp [countOutcome, countExecuted, countTimed, LabelledCounts.count_add,
        ActionKind.name_inj, Execution.succeeded, Execution.rejected, Execution.faulted,
        Except.isOk, Except.toBool]

end Telemetry.Counters

namespace Ledger

variable {params : Params}

/-- What entries execute that run one after the other: their actions, with the results of their
outcomes. -/
def executionsOf (ledger : Ledger) (entries : List Entry) : List Execution :=
  entries.zipWith (fun entry outcome => ⟨entry.actor, entry.action, outcome.result⟩)
    (ledger.runEntries entries).1

/-- The groups that run: all of them, or those up to the first one with a fault. -/
def reached (graph : Graph) (ledger : Ledger) : List Group → List Group
  | [] => []
  | group :: rest =>
      let (outcomes, after) := ledger.runEntries (membersOf graph group)
      match outcomes.findSome? Outcome.fault? with
      | some _ => [group]
      | none => group :: reached graph after rest

theorem accounts_execute (ledger : Ledger) (actor : Address) (action : Action) :
    ledger.counters.Accounts (ledger.execute actor action).2.counters
      [⟨actor, action, (ledger.execute actor action).1⟩] 0 :=
  ledger.counters.accounts_countOutcome ⟨actor, action, (ledger.execute actor action).1⟩

theorem accounts_runEntries (ledger : Ledger) (entries : List Entry) :
    ledger.counters.Accounts (ledger.runEntries entries).2.counters
      (ledger.executionsOf entries) 0 := by
  induction entries generalizing ledger with
  | nil => exact .refl ledger.counters
  | cons entry rest ih =>
      exact (ledger.accounts_execute entry.actor entry.action).trans
        (ih (ledger.execute entry.actor entry.action).2)

/-- Groups leave what the members of those that are reached leave one after the other. -/
theorem runGroups_eq_reached (graph : Graph) (ledger : Ledger) (groups : List Group) :
    (runGroups graph ledger groups).2 =
      (ledger.runEntries ((reached graph ledger groups).flatMap (membersOf graph))).2 := by
  induction groups generalizing ledger with
  | nil => rfl
  | cons group rest ih =>
      simp only [runGroups, reached]
      cases (ledger.runEntries (membersOf graph group)).1.findSome? Outcome.fault? with
      | some found => simp only [List.flatMap_singleton]
      | none => simp only [ih, List.flatMap_cons, runEntries_append]

/-- The groups that are reached end with the first one with a fault. -/
theorem reached_of_first_fault {graph : Graph} {ledger : Ledger} {ran rest : List Group}
    {group : Group} {found : Nat × StateError}
    (faultless : ∀ outcome ∈ (ledger.runEntries (ran.flatMap (membersOf graph))).1,
      outcome.fault? = none)
    (first : ((ledger.runEntries (ran.flatMap (membersOf graph))).2.runEntries
      (membersOf graph group)).1.findSome? Outcome.fault? = some found) :
    reached graph ledger (ran ++ group :: rest) = ran ++ [group] := by
  induction ran generalizing ledger with
  | nil =>
      replace first : (ledger.runEntries (membersOf graph group)).1.findSome? Outcome.fault? =
        some found := first
      simp only [List.nil_append, reached, first]
  | cons head others ih =>
      rw [List.flatMap_cons, runEntries_append] at faultless first
      have headFaultless : (ledger.runEntries (membersOf graph head)).1.findSome?
          Outcome.fault? = none :=
        List.findSome?_eq_none_iff.mpr fun outcome member =>
          faultless outcome (List.mem_append_left _ member)
      have later := ih (fun outcome member => faultless outcome (List.mem_append_right _ member))
        first
      simp only [List.cons_append, reached, headFaultless, later]

/-- Entries have executed what their outcomes tell. -/
theorem map_result_executionsOf (ledger : Ledger) (entries : List Entry) :
    (ledger.executionsOf entries).map (·.result) =
      (ledger.runEntries entries).1.map (·.result) := by
  induction entries generalizing ledger with
  | nil => rfl
  | cons entry rest ih =>
      exact congrArg ((ledger.execute entry.actor entry.action).1 :: ·)
        (ih (ledger.execute entry.actor entry.action).2)

theorem exists_execution_iff (ledger : Ledger) (entries : List Entry)
    (result : Except ExecutionError Output) :
    (∃ execution ∈ ledger.executionsOf entries, execution.result = result) ↔
      ∃ outcome ∈ (ledger.runEntries entries).1, outcome.result = result := by
  have same := ledger.map_result_executionsOf entries
  simpa only [List.mem_map] using iff_of_eq (congrArg (result ∈ ·) same)

end Ledger

/-- What is asked of a ledger: one of the calls, or a schedule for a batch that is not run. -/
inductive Task where
  | call (call : Call)
  | schedule (config : Config) (entries : List Entry)

/-- Whether a batch is to be planned, and can be. -/
def Task.plans : Task → Bool
  | .call (.executeBatch config entries) | .schedule config entries =>
      (Batch.plan config entries).isOk
  | .call (.execute ..) | .call (.executeEncoded ..) => false

namespace Ledger

/-- The ledger after a task. -/
def perform (ledger : Ledger) : Task → Ledger
  | .call call => (ledger.answer call).2
  | .schedule config entries => (ledger.schedule config entries).2

/-- What a ledger executes for a task. -/
def executions (ledger : Ledger) : Task → List Execution
  | .call (.execute actor action) => [⟨actor, action, (ledger.execute actor action).1⟩]
  | .call (.executeEncoded actor bytes) =>
      match Action.decode bytes with
      | .error _ => []
      | .ok action => [⟨actor, action, (ledger.execute actor action).1⟩]
  | .call (.executeBatch config entries) =>
      match ledger.plan config entries with
      | (.error _, _) => []
      | (.ok plan, planned) =>
          planned.executionsOf
            ((reached plan.graph planned plan.schedule.groups).flatMap (membersOf plan.graph))
  | .schedule _ _ => []

/-- Every task counts what it executes and what it plans. -/
theorem accounts_perform (ledger : Ledger) (task : Task) :
    ledger.counters.Accounts (ledger.perform task).counters (ledger.executions task)
      (if task.plans then 1 else 0) := by
  cases task with
  | schedule config entries =>
      cases planned : Batch.plan config entries with
      | error error =>
          simp only [perform, schedule, executions, Task.plans, plan, planned]
          exact .refl ledger.counters
      | ok made =>
          simp only [perform, schedule, executions, Task.plans, plan, planned]
          exact ledger.counters.accounts_countBatch
  | call call =>
      cases call with
      | execute actor action => exact ledger.accounts_execute actor action
      | executeEncoded actor bytes =>
          simp only [perform, answer, executeEncoded, executions, Task.plans]
          cases Action.decode bytes with
          | error cause => exact .refl ledger.counters
          | ok action => exact ledger.accounts_execute actor action
      | executeBatch config entries =>
          cases planned : Batch.plan config entries with
          | error error =>
              simp only [perform, answer, executeBatch, executions, Task.plans, plan, planned]
              exact .refl ledger.counters
          | ok made =>
              simp only [perform, answer, executeBatch, executions, Task.plans, plan, planned]
              have ran := accounts_runEntries { ledger with counters := ledger.counters.countBatch }
                ((reached made.graph { ledger with counters := ledger.counters.countBatch }
                  made.schedule.groups).flatMap (membersOf made.graph))
              rw [← runGroups_eq_reached] at ran
              exact ledger.counters.accounts_countBatch.trans ran

/-- Bytes that are no action change nothing. -/
theorem perform_of_undecodable (ledger : Ledger) (actor : Address) {bytes : Bytes}
    {cause : WireError} (undecodable : Action.decode bytes = .error cause) :
    ledger.perform (.call (.executeEncoded actor bytes)) = ledger := by
  simp only [perform, answer, executeEncoded, undecodable]

/-- A batch that is refused changes nothing. -/
theorem perform_of_refused (ledger : Ledger) {config : Config} {entries : List Entry}
    {error : OrderingError} (refused : Batch.plan config entries = .error error) :
    ledger.perform (.schedule config entries) = ledger ∧
      ledger.perform (.call (.executeBatch config entries)) = ledger := by
  simp only [perform, schedule, answer, executeBatch, plan, refused, and_self]

/-- A batch that halts has executed the entries of the groups up to the first one with a fault. -/
theorem executions_of_halt (ledger : Ledger) {config : Config} {entries : List Entry}
    {index : Nat} {fault : StateError}
    (halted : (ledger.executeBatch config entries).1 = .error (.fatal index fault)) :
    ∃ made ran group rest, Batch.plan config entries = .ok made ∧
      made.schedule.groups = ran ++ group :: rest ∧
      ledger.executions (.call (.executeBatch config entries)) =
        (ledger.plan config entries).2.executionsOf
          ((ran ++ [group]).flatMap (membersOf made.graph)) ∧
      (∀ execution ∈ (ledger.plan config entries).2.executionsOf
        (ran.flatMap (membersOf made.graph)), execution.faulted = false) ∧
      ∃ execution ∈ ledger.executions (.call (.executeBatch config entries)),
        execution.result = .error (.fatal fault) := by
  cases planned : Batch.plan config entries with
  | error error =>
      simp only [executeBatch, plan, planned] at halted
      cases halted
      exact absurd planned (plan_ne_fatal config entries index fault)
  | ok made =>
      simp only [executeBatch, executions, plan, planned] at halted ⊢
      generalize { ledger with counters := ledger.counters.countBatch } = counted at halted ⊢
      rcases runGroups_cases made.graph counted made.schedule.groups with
        ⟨ran, _⟩ | ⟨ran, group, rest, found, met, split, stopped, faultless, first⟩
      · rw [ran] at halted
        cases halted
      · rw [stopped] at halted
        cases halted
        have reaches : reached made.graph counted (ran ++ group :: rest) = ran ++ [group] :=
          reached_of_first_fault faultless first
        rw [← split] at reaches
        refine ⟨made, ran, group, rest, rfl, split, by rw [reaches], ?_, ?_⟩
        · intro execution member
          rw [← Bool.not_eq_true, Execution.faulted_iff]
          rintro ⟨fault, isFault⟩
          obtain ⟨outcome, isOutcome, same⟩ :=
            (counted.exists_execution_iff _ _).mp ⟨execution, member, isFault⟩
          have faulty := Outcome.fault?_eq_some_iff.mpr ⟨rfl, same⟩
          rw [faultless outcome isOutcome] at faulty
          cases faulty
        · obtain ⟨outcome, isOutcome, isFault⟩ := List.exists_of_findSome?_eq_some first
          rw [reaches]
          apply (counted.exists_execution_iff _ _).mpr
          refine ⟨outcome, ?_, (Outcome.fault?_eq_some_iff.mp isFault).2⟩
          rw [List.flatMap_append, List.flatMap_singleton, runEntries_append]
          exact List.mem_append_right _ isOutcome

end Ledger

/-- The parameters and the state of one of several ledgers. -/
structure Site where
  params : Params
  medium : Medium

/-- Ledgers by their names, with counters that they share. -/
structure Fleet (ι : Type) where
  sites : ι → Site
  counters : Counters

namespace Fleet

variable {ι : Type} [DecidableEq ι]

def ledger (fleet : Fleet ι) (name : ι) : Ledger :=
  ⟨(fleet.sites name).params, (fleet.sites name).medium, fleet.counters⟩

/-- The ledgers after one of them has performed a task. -/
def perform (fleet : Fleet ι) (name : ι) (task : Task) : Fleet ι :=
  let after := (fleet.ledger name).perform task
  ⟨Function.update fleet.sites name ⟨after.params, after.medium⟩, after.counters⟩

/-- The ledgers after tasks that are performed one after the other. -/
def performAll (fleet : Fleet ι) : List (ι × Task) → Fleet ι
  | [] => fleet
  | (name, task) :: rest => (fleet.perform name task).performAll rest

/-- What the ledgers execute for these tasks. -/
def executionsIn (fleet : Fleet ι) : List (ι × Task) → List Execution
  | [] => []
  | (name, task) :: rest =>
      (fleet.ledger name).executions task ++ (fleet.perform name task).executionsIn rest

theorem accounts_performAll (fleet : Fleet ι) (tasks : List (ι × Task)) :
    fleet.counters.Accounts (fleet.performAll tasks).counters (fleet.executionsIn tasks)
      (tasks.countP fun task => task.2.plans) := by
  induction tasks generalizing fleet with
  | nil => exact .refl fleet.counters
  | cons head rest ih =>
      obtain ⟨name, task⟩ := head
      rw [List.countP_cons, Nat.add_comm]
      exact ((fleet.ledger name).accounts_perform task).trans (ih (fleet.perform name task))

end Fleet

/-- Whatever ledgers with common counters are asked, the counters grow by what is executed, once
for each execution, and by the batches that are planned.  Bytes that are no action and batches that
are refused change nothing, and a batch that halts has executed nothing of the groups after the
first one with a fault. -/
theorem counters_account_for_executions {ι : Type} [DecidableEq ι] (fleet : Fleet ι)
    (tasks : List (ι × Task)) :
    fleet.counters.Accounts (fleet.performAll tasks).counters (fleet.executionsIn tasks)
        (tasks.countP fun task => task.2.plans) ∧
      (∀ (ledger : Ledger) (actor : Address) (bytes : Bytes) (cause : WireError),
        Action.decode bytes = .error cause →
          ledger.perform (.call (.executeEncoded actor bytes)) = ledger) ∧
      (∀ (ledger : Ledger) (config : Config) (entries : List Entry) (error : OrderingError),
        Batch.plan config entries = .error error →
          ledger.perform (.schedule config entries) = ledger ∧
            ledger.perform (.call (.executeBatch config entries)) = ledger) ∧
      ∀ (ledger : Ledger) (config : Config) (entries : List Entry) (index : Nat)
        (fault : StateError),
        (ledger.executeBatch config entries).1 = .error (.fatal index fault) →
          ∃ made ran group rest, Batch.plan config entries = .ok made ∧
            made.schedule.groups = ran ++ group :: rest ∧
            ledger.executions (.call (.executeBatch config entries)) =
              (ledger.plan config entries).2.executionsOf
                ((ran ++ [group]).flatMap (Ledger.membersOf made.graph)) ∧
            (∀ execution ∈ (ledger.plan config entries).2.executionsOf
              (ran.flatMap (Ledger.membersOf made.graph)), execution.faulted = false) ∧
            ∃ execution ∈ ledger.executions (.call (.executeBatch config entries)),
              execution.result = .error (.fatal fault) :=
  ⟨fleet.accounts_performAll tasks,
    fun ledger actor _ _ undecodable => ledger.perform_of_undecodable actor undecodable,
    fun ledger _ _ _ refused => ledger.perform_of_refused refused,
    fun ledger _ _ _ _ halted => ledger.executions_of_halt halted⟩

/-- A ledger with a damaged balance, and another one. -/
def damagedFleet : Fleet Bool where
  sites damaged :=
    if damaged then ⟨crossedParams, .ofStore damagedStore⟩
    else ⟨crossedParams, .ofStore crossedStore⟩
  counters := {}

/-- A batch that halts, one that does not and is also scheduled, one that is refused, bytes that
are no action, and a transfer that is too large. -/
def damagedTasks : List (Bool × Task) :=
  [(true, .call (.executeBatch {} spentDamage)), (false, .call (.executeBatch {} crossedTransfers)),
    (false, .schedule {} crossedTransfers), (false, .schedule {} []),
    (true, .call (.executeEncoded (accountOf 1) [])),
    (true, .call (.execute (accountOf 2) (.transfer (accountOf 3) 100 [])))]

/-- Three transfers are executed and one is rejected, one entry meets a fault and another one is
never reached, and two batches are planned, one of them twice. -/
theorem damagedTasks_accounted :
    (damagedFleet.performAll damagedTasks).counters.executed.count "transfer" = 3 ∧
      (damagedFleet.performAll damagedTasks).counters.rejected.count "transfer" = 1 ∧
      (damagedFleet.performAll damagedTasks).counters.faults = 1 ∧
      (damagedFleet.performAll damagedTasks).counters.batches = 3 ∧
      Action.decode [] = .error .empty ∧
      (damagedFleet.ledger true).perform (.call (.executeEncoded (accountOf 1) [])) =
        damagedFleet.ledger true ∧
      Batch.plan {} [] = .error .emptyBatch ∧
      (damagedFleet.ledger true).perform (.schedule {} []) = damagedFleet.ledger true ∧
      ∃ fault, ((damagedFleet.ledger true).executeBatch {} spentDamage).1 =
          .error (.fatal 2 fault) ∧
        ∃ execution ∈ (damagedFleet.ledger true).executions (.call (.executeBatch {} spentDamage)),
          execution.result = .error (.fatal fault) := by
  obtain ⟨accounts, undecodable, refused, halts⟩ :=
    counters_account_for_executions damagedFleet damagedTasks
  have faulted : ((damagedFleet.ledger true).executeBatch {} spentDamage).1 =
      .error (.fatal 2 (.corruptValue (.ofBalance (accountOf 4)) (.invalidLength "balance" 8 1))) := by
    decide +kernel
  have empty : Batch.plan {} [] = .error .emptyBatch := by decide +kernel
  obtain ⟨_, _, _, _, _, _, _, _, met⟩ := halts _ _ _ _ _ faulted
  refine ⟨(accounts.executed .transfer).trans ?_, (accounts.rejected .transfer).trans ?_,
    accounts.faults.trans ?_, accounts.batches.trans ?_, rfl, undecodable _ _ _ _ rfl, empty,
    (refused _ _ _ _ empty).1, _, faulted, met⟩
  · decide +kernel
  · decide +kernel
  · decide +kernel
  · decide +kernel

end PoolLedger
