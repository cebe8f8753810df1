import PoolLedger.Proofs.ActionEffect
import PoolLedger.Proofs.HaltedBatch
import PoolLedger.Proofs.EarlyFailure
import PoolLedger.Proofs.ViewEnforcement

/-!
# What an execution looks at and changes

An execution sees a ledger through the declared keys only.  It changes nothing if
it fails.  If it succeeds, it changes declared keys as their modes allow: a value
that is replaced was there, one that is created was declared for allocation, and
none disappears.
-/

namespace PoolLedger

open Batch

namespace View

variable {view after : View} {base : Reading} {key : StateKey} {value : Bytes}

/-- Every recorded change puts a value that its key has room for, under a key that the
declaration lets change and that has a value beneath unless it may be allocated. -/
def Orderly (view : View) (base : Reading) : Prop :=
  ∀ key change, view.changes.get? key = some change →
    ∃ value mode, change = some value ∧ value.length ≤ key.maxValueLength ∧
      view.declared.get? key = some mode ∧ mode.isMutating = true ∧
      (mode = .write → ∃ old, base key = .ok (some old))

theorem orderly_start (declared : Declaration) (base : Reading) :
    (start declared).Orderly base := by
  intro key change found
  cases found

theorem Orderly.restrained (orderly : view.Orderly base) : view.Restrained base := by
  intro key change recorded
  obtain ⟨value, mode, rfl, fits, declared, mutating, replaces⟩ := orderly key change recorded
  refine ⟨mode, declared, mutating, ?_⟩
  rintro _ ⟨⟩
  exact ⟨fits, replaces⟩

theorem Orderly.of_insert (orderly : view.Orderly base)
    (inserted : view.insert base key value = .ok after) : after.Orderly base := by
  obtain ⟨mode, declared, mutating, replaces, fits, rfl⟩ := insert_eq_ok_iff.mp inserted
  intro touched change found
  by_cases same : touched = key
  · subst same
    replace found := (SortedMap.get?_insert_self _ touched (some value)).symm.trans found
    cases found
    refine ⟨value, mode, rfl, fits, declared, mutating, ?_⟩
    rintro rfl
    obtain ⟨old, current⟩ := replaces rfl
    exact orderly.restrained.beneath_of_current declared current
  · exact orderly touched change ((SortedMap.get?_insert_of_ne _ _ same).symm.trans found)

end View

/-- A program that removes nothing leaves an orderly view. -/
theorem Program.orderly_run_view {ε α : Type} [CarriesFault ε] (program : Program ε α)
    {passes : ε → Prop} (early : program.FailsEarly passes) {view : View} {base : Reading}
    (orderly : view.Orderly base) : (program.run (.view base) view).2.Orderly base := by
  induction program generalizing view passes with
  | done value => exact orderly
  | fail error => exact orderly
  | get key next ih =>
      simp only [run, Backend.view]
      split
      · exact orderly
      · exact ih _ (early _) orderly
  | insert key value next ih =>
      simp only [run, Backend.view]
      split
      · exact orderly
      · rename_i after inserted
        exact ih early (orderly.of_insert inserted)
  | remove key next ih => exact early.elim

/-- The later store differs from the earlier one as the declaration allows. -/
structure Store.Framed (declared : Declaration) (before after : Store) : Prop where
  changed : ∀ key, after.get? key ≠ before.get? key →
    ∃ mode, declared.get? key = some mode ∧ mode.isMutating = true
  created : ∀ key, before.get? key = none → after.get? key ≠ none →
    declared.get? key = some .allocate
  kept : ∀ key, before.get? key ≠ none → after.get? key ≠ none
  fits : ∀ key value, after.get? key = some value → before.get? key ≠ some value →
    value.length ≤ key.maxValueLength

/-- A key that was not found cannot be replaced, so a value that is created was allocated. -/
theorem View.Orderly.framed_commit {view : View} {medium : Medium}
    (orderly : view.Orderly medium.read) :
    medium.store.Framed view.declared (medium.store.commit view.changes) := by
  have changes : ∀ key, (medium.store.commit view.changes).get? key ≠ medium.store.get? key →
      ∃ value mode, (medium.store.commit view.changes).get? key = some value ∧
        value.length ≤ key.maxValueLength ∧ view.declared.get? key = some mode ∧
        mode.isMutating = true ∧ (mode = .write → medium.store.get? key ≠ none) := by
    intro key differs
    rw [Store.get?_commit] at differs ⊢
    cases recorded : view.changes.get? key with
    | none =>
        rw [recorded] at differs
        exact absurd rfl differs
    | some change =>
        obtain ⟨value, mode, rfl, fits, declared, mutating, replaces⟩ :=
          orderly key change recorded
        refine ⟨value, mode, rfl, fits, declared, mutating, fun isWrite => ?_⟩
        obtain ⟨old, beneath⟩ := replaces isWrite
        rw [Medium.get?_of_read beneath]
        exact Option.some_ne_none old
  constructor
  · intro key differs
    obtain ⟨_, mode, _, _, declared, mutating, _⟩ := changes key differs
    exact ⟨mode, declared, mutating⟩
  · intro key absent present
    obtain ⟨_, mode, _, _, declared, mutating, replaces⟩ := changes key (by rwa [absent])
    cases mode with
    | read => cases mutating
    | write => exact absurd absent (replaces rfl)
    | allocate => exact declared
  · intro key present absent
    obtain ⟨value, _, found, _⟩ := changes key fun same => present (same ▸ absent)
    rw [absent] at found
    cases found
  · intro key value found differs
    obtain ⟨_, _, changed, fits, _⟩ := changes key fun same => differs (same ▸ found)
    rw [found] at changed
    cases changed
    exact fits

namespace Medium

/-- What an execution may do to a medium: nothing if it fails, else what was declared. -/
theorem execute_framed (params : Params) (medium : Medium) (actor : Address) (action : Action) :
    match medium.execute params actor action with
    | (.error _, after) => after = medium
    | (.ok _, after) => medium.store.Framed (action.declared actor) after.store := by
  have orderly := Program.orderly_run_view (action.program params actor)
    (action.failsEarly params actor) (View.orderly_start (action.declared actor) medium.read)
  have sameDeclared := (Program.confined_run_view (action.program params actor) medium.read
    (View.confined_start (action.declared actor))).2
  rw [execute, runInView]
  rcases ran : (action.program params actor).run (.view medium.read)
    (.start (action.declared actor)) with ⟨result, view⟩
  rw [ran] at orderly sameDeclared
  have framed := orderly.framed_commit
  cases result with
  | error error => rfl
  | ok output =>
      simp only [commit]
      by_cases refused : medium.uncommittable.any view.changes.contains = true
      · simp only [refused, if_true]
      · simp only [refused, Bool.false_eq_true, if_false]
        rw [sameDeclared] at framed
        exact framed

end Medium

namespace Ledger

theorem execute_framed (ledger : Ledger) (actor : Address) (action : Action) :
    match ledger.execute actor action with
    | (.error _, after) => after.medium = ledger.medium
    | (.ok _, after) => ledger.medium.store.Framed (action.declared actor) after.medium.store := by
  have framed := ledger.medium.execute_framed ledger.params actor action
  rw [execute]
  rcases executed : ledger.medium.execute ledger.params actor action with ⟨result, medium⟩
  rw [executed] at framed
  cases result with
  | error error => exact framed
  | ok output => exact framed

/-- An execution that fails leaves the state as it was, whatever the state held and the medium
refused; one that succeeds changes it as the declaration of its action allows.  Bytes that are no
action fail. -/
theorem execution_atomic_and_framed (ledger : Ledger) (actor : Address) (action : Action)
    (bytes : Bytes) :
    (match ledger.execute actor action with
      | (.error _, after) => after.medium = ledger.medium
      | (.ok _, after) =>
          ledger.medium.store.Framed (action.declared actor) after.medium.store) ∧
    match ledger.executeEncoded actor bytes with
      | (.error _, after) => after.medium = ledger.medium
      | (.ok _, after) => ∃ decoded, Action.decode bytes = .ok decoded ∧
          ledger.medium.store.Framed (decoded.declared actor) after.medium.store := by
  refine ⟨ledger.execute_framed actor action, ?_⟩
  rw [executeEncoded]
  cases decoded : Action.decode bytes with
  | error cause => rfl
  | ok found =>
      have framed := ledger.execute_framed actor found
      simp only
      rcases executed : ledger.execute actor found with ⟨result, after⟩
      rw [executed] at framed
      cases result with
      | error error => exact framed
      | ok output => exact ⟨found, rfl, framed⟩

/-- A transfer to an account whose balance is damaged leaves the state; one to an account without a
record changes it as declared. -/
theorem damagedStore_atomic_and_framed :
    (∃ fault after, Ledger.execute ⟨crossedParams, .ofStore damagedStore, {}⟩ (accountOf 1)
        (.transfer (accountOf 4) 3 []) = (.error (.fatal fault), after) ∧
      after.medium = .ofStore damagedStore) ∧
    ∃ after, Ledger.execute ⟨crossedParams, .ofStore damagedStore, {}⟩ (accountOf 1)
        (.transfer (accountOf 5) 3 []) = (.ok (.transfer 6 3), after) ∧
      damagedStore.Framed ((Action.transfer (accountOf 5) 3 []).declared (accountOf 1))
        after.medium.store := by
  constructor
  · have atomic := (execution_atomic_and_framed ⟨crossedParams, .ofStore damagedStore, {}⟩
      (accountOf 1) (.transfer (accountOf 4) 3 []) []).1
    have faulty : (Ledger.execute ⟨crossedParams, .ofStore damagedStore, {}⟩ (accountOf 1)
        (.transfer (accountOf 4) 3 [])).1 =
        .error (.fatal (.corruptValue (.ofBalance (accountOf 4))
          (.invalidLength "balance" 8 1))) := by
      decide +kernel
    rcases executed : Ledger.execute ⟨crossedParams, .ofStore damagedStore, {}⟩ (accountOf 1)
      (.transfer (accountOf 4) 3 []) with ⟨result, after⟩
    rw [executed] at atomic faulty
    cases faulty
    exact ⟨_, after, rfl, atomic⟩
  · have framed := (execution_atomic_and_framed ⟨crossedParams, .ofStore damagedStore, {}⟩
      (accountOf 1) (.transfer (accountOf 5) 3 []) []).1
    have answer : (Ledger.execute ⟨crossedParams, .ofStore damagedStore, {}⟩ (accountOf 1)
        (.transfer (accountOf 5) 3 [])).1 = .ok (.transfer 6 3) := by
      decide +kernel
    rcases executed : Ledger.execute ⟨crossedParams, .ofStore damagedStore, {}⟩ (accountOf 1)
      (.transfer (accountOf 5) 3 []) with ⟨result, after⟩
    rw [executed] at framed answer
    cases answer
    exact ⟨after, rfl, framed⟩

end Ledger

namespace Store

instance (declared : Declaration) (first second : Store) :
    Decidable (AgreeOn declared first second) :=
  decidable_of_iff (∀ entry ∈ declared.toList, first.get? entry.1 = second.get? entry.1) <| by
    simp only [AgreeOn, Prod.forall, SortedMap.mem_toList_iff]

/-- The same changes leave the same under every declared key. -/
theorem AgreeOn.commit {declared : Declaration} {first second : Store}
    (agree : AgreeOn declared first second) (changes : ChangeSet) :
    AgreeOn declared (first.commit changes) (second.commit changes) := by
  intro key mode isDeclared
  rw [get?_commit, get?_commit, agree key mode isDeclared]

end Store

theorem Action.untouched_of_undeclared {params : Params} {actor : Address} {action : Action}
    {store : Store} {key : StateKey} (undeclared : (action.declared actor).get? key = none) :
    (action.effect params actor store).2.get? key = none := by
  rw [Option.eq_none_iff_forall_ne_some]
  intro change changed
  obtain ⟨mode, declared, _⟩ := declared_of_effect changed
  rw [undeclared] at declared
  cases declared

/-- On two stores that hold the same under the declared keys of an action, it has the same result
and leaves the same under those keys.  Under all other keys each store keeps its own. -/
theorem execution_sees_declared_keys (params : Params) (actor : Address) (action : Action)
    {first second : Store} (agree : Store.AgreeOn (action.declared actor) first second)
    (firstCounters secondCounters : Telemetry.Counters) :
    ∃ result firstAfter secondAfter firstLater secondLater,
      Ledger.execute ⟨params, .ofStore first, firstCounters⟩ actor action =
          (result, ⟨params, .ofStore firstAfter, firstLater⟩) ∧
      Ledger.execute ⟨params, .ofStore second, secondCounters⟩ actor action =
          (result, ⟨params, .ofStore secondAfter, secondLater⟩) ∧
      Store.AgreeOn (action.declared actor) firstAfter secondAfter ∧
      ∀ key, (action.declared actor).get? key = none →
        firstAfter.get? key = first.get? key ∧ secondAfter.get? key = second.get? key := by
  obtain ⟨firstLater, ranFirst⟩ := Ledger.execute_ofStore params first firstCounters actor action
  obtain ⟨secondLater, ranSecond⟩ :=
    Ledger.execute_ofStore params second secondCounters actor action
  rw [← Action.effect_congr agree] at ranSecond
  refine ⟨_, _, _, firstLater, secondLater, ranFirst, ranSecond, agree.commit _, ?_⟩
  intro key undeclared
  have untouched : (action.effect params actor first).2.get? key = none :=
    Action.untouched_of_undeclared undeclared
  exact ⟨Store.get?_commit_of_untouched untouched, Store.get?_commit_of_untouched untouched⟩

/-- The two accounts of the crossed transfers, and a third one whose balance is damaged. -/
def crossedDamagedStore : Store :=
  crossedStore.insert (.ofBalance (accountOf 4)) [7]

/-- A transfer between the first two accounts does not notice the damage and leaves it. -/
theorem transfer_sees_declared_keys :
    Store.AgreeOn ((Action.transfer (accountOf 2) 3 []).declared (accountOf 1)) crossedStore
        crossedDamagedStore ∧
      ∃ secondAfter later,
        Ledger.execute ⟨crossedParams, .ofStore crossedDamagedStore, {}⟩ (accountOf 1)
            (.transfer (accountOf 2) 3 []) =
          (.ok (.transfer 6 7), ⟨crossedParams, .ofStore secondAfter, later⟩) ∧
        secondAfter.get? (.ofBalance (accountOf 4)) = some [7] := by
  have agree : Store.AgreeOn ((Action.transfer (accountOf 2) 3 []).declared (accountOf 1))
      crossedStore crossedDamagedStore := by
    decide +kernel
  obtain ⟨result, _, secondAfter, _, later, ranFirst, ranSecond, _, others⟩ :=
    execution_sees_declared_keys crossedParams (accountOf 1) (.transfer (accountOf 2) 3 []) agree
      {} {}
  have answer : (Ledger.execute ⟨crossedParams, .ofStore crossedStore, {}⟩ (accountOf 1)
      (.transfer (accountOf 2) 3 [])).1 = .ok (.transfer 6 7) := by
    decide +kernel
  rw [ranFirst] at answer
  cases answer
  refine ⟨agree, secondAfter, later, ranSecond, ?_⟩
  rw [(others (.ofBalance (accountOf 4)) (by decide +kernel)).2]
  decide +kernel

end PoolLedger
