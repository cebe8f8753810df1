import Mathlib.Data.List.Perm.Basic
import PoolLedger.Batch.Run
import PoolLedger.Proofs.ActionEffect

/-!
# Order of execution

Entries that do not clash may change places in a serial run: each keeps its
outcome and the final store is the same.  The clashing pairs alone decide what
a serial run does.
-/

namespace PoolLedger

namespace Batch

namespace Entry

/-- The result of an entry and the changes it commits. -/
def effect (params : Params) (entry : Entry) (store : Store) :
    Except ExecutionError Output × ChangeSet :=
  entry.action.effect params entry.actor store

/-- What becomes of an entry that is executed against a store. -/
def outcome (params : Params) (entry : Entry) (store : Store) : Outcome :=
  ⟨entry.index, entry.actor, (entry.effect params store).1⟩

/-- The store that an entry leaves. -/
def after (params : Params) (entry : Entry) (store : Store) : Store :=
  store.commit (entry.effect params store).2

variable {params : Params} {first second : Entry}

theorem effect_after (noClash : ¬ first.Clash second) (store : Store) :
    second.effect params (first.after params store) = second.effect params store :=
  Action.effect_commit_of_not_clash noClash store

theorem outcome_after (noClash : ¬ first.Clash second) (store : Store) :
    second.outcome params (first.after params store) = second.outcome params store := by
  simp only [outcome, effect_after noClash]

theorem after_comm (noClash : ¬ first.Clash second) (store : Store) :
    second.after params (first.after params store) =
      first.after params (second.after params store) := by
  have otherWay : ¬ second.Clash first := fun clash => noClash clash.symm
  have apart : (first.effect params store).2.Apart (second.effect params store).2 :=
    Action.effects_apart noClash store
  calc
    second.after params (first.after params store) =
        (first.after params store).commit (second.effect params store).2 := by
      rw [after, effect_after noClash]
    _ = (second.after params store).commit (first.effect params store).2 :=
      store.commit_comm apart
    _ = first.after params (second.after params store) := by
      rw [after.eq_def params first, effect_after otherWay]

end Entry

/-- Execute entries one after the other against a store. -/
def runSerial (params : Params) : Store → List Entry → List Outcome × Store
  | store, [] => ([], store)
  | store, entry :: rest =>
      let later := runSerial params (entry.after params store) rest
      (entry.outcome params store :: later.1, later.2)

section Serial

variable {params : Params}

theorem runSerial_append (store : Store) (first second : List Entry) :
    runSerial params store (first ++ second) =
      ((runSerial params store first).1 ++
          (runSerial params (runSerial params store first).2 second).1,
        (runSerial params (runSerial params store first).2 second).2) := by
  induction first generalizing store with
  | nil => rfl
  | cons entry rest ih => simp [runSerial, ih]

theorem map_index_runSerial (store : Store) (entries : List Entry) :
    (runSerial params store entries).1.map (·.index) = entries.map (·.index) := by
  induction entries generalizing store with
  | nil => rfl
  | cons entry rest ih => simp [runSerial, ih, Entry.outcome]

theorem ascending_runSerial {entries : List Entry}
    (ascending : entries.Pairwise fun first second => first.index < second.index)
    (store : Store) :
    (runSerial params store entries).1.Pairwise
      fun first second => first.index < second.index := by
  have indices : ((runSerial params store entries).1.map (·.index)).Pairwise (· < ·) := by
    rw [map_index_runSerial]
    exact List.pairwise_map.mpr ascending
  exact List.pairwise_map.mp indices

/-- Entries that clash with none before them may run first. -/
theorem runSerial_to_front (params : Params) (store : Store) (before : List Entry) (entry : Entry)
    (later : List Entry) (noClash : ∀ other ∈ before, ¬ other.Clash entry) :
    (runSerial params store (before ++ entry :: later)).1.Perm
        (runSerial params store (entry :: (before ++ later))).1 ∧
      (runSerial params store (before ++ entry :: later)).2 =
        (runSerial params store (entry :: (before ++ later))).2 := by
  induction before generalizing store with
  | nil => exact ⟨.refl _, rfl⟩
  | cons head rest ih =>
      have headNoClash := noClash head List.mem_cons_self
      have headOther : ¬ entry.Clash head := fun clash => headNoClash clash.symm
      obtain ⟨outcomes, final⟩ := ih (head.after params store)
        fun other member => noClash other (List.mem_cons_of_mem _ member)
      simp only [List.cons_append, runSerial, Entry.outcome_after headNoClash,
        Entry.outcome_after headOther, Entry.after_comm headNoClash] at outcomes final ⊢
      exact ⟨(outcomes.cons _).trans (.swap _ _ _), final⟩

/-- An entry that clashes with none of the others may join them anywhere. -/
theorem runSerial_insert (params : Params) (store : Store) (before : List Entry) (entry : Entry)
    (later : List Entry) (noClash : ∀ other ∈ before ++ later, ¬ other.Clash entry) :
    (runSerial params store (before ++ entry :: later)).2 =
      entry.after params (runSerial params store (before ++ later)).2 := by
  have front := (runSerial_to_front params store before entry later
    fun other member => noClash other (List.mem_append_left _ member)).2
  have back := (runSerial_to_front params store (before ++ later) entry [] noClash).2
  rw [runSerial_append, List.append_nil] at back
  exact front.trans back.symm

/-- Entries leave what they do not clash with as it is. -/
theorem runSerial_agreeOn {entries : List Entry} {entry : Entry}
    (noClash : ∀ other ∈ entries, ¬ other.Clash entry) (store : Store) :
    Store.AgreeOn (entry.action.declared entry.actor) (runSerial params store entries).2
      store := by
  induction entries generalizing store with
  | nil => exact fun _ _ _ => rfl
  | cons head rest ih =>
      intro key mode declared
      have restAgrees := ih (fun other member => noClash other (List.mem_cons_of_mem _ member))
        (head.after params store) key mode declared
      have untouched : (head.effect params store).2.get? key = none :=
        Action.untouched_of_not_clash (noClash head List.mem_cons_self) declared
      calc
        (runSerial params store (head :: rest)).2.get? key =
            (head.after params store).get? key := restAgrees
        _ = store.get? key := Store.get?_commit_of_untouched untouched

/-- Entries that do not clash do not see each other. -/
theorem outcomes_runSerial {entries : List Entry}
    (noClash : entries.Pairwise fun first second => ¬ first.Clash second) (store : Store) :
    (runSerial params store entries).1 = entries.map (·.outcome params store) := by
  induction entries generalizing store with
  | nil => rfl
  | cons head rest ih =>
      obtain ⟨headNoClash, restNoClash⟩ := List.pairwise_cons.mp noClash
      simp only [runSerial, ih restNoClash, List.map_cons, List.cons.injEq, true_and]
      apply List.map_congr_left
      intro entry member
      exact Entry.outcome_after (headNoClash entry member) store

/-- Two serial runs that keep every clashing pair in ascending order of index give each entry
the same outcome and leave the same store. -/
theorem runSerial_eq_of_clashes_ascend (params : Params) (store : Store)
    {entries sorted : List Entry}
    (perm : entries.Perm sorted)
    (clashesAscend : entries.Pairwise fun first second =>
      first.Clash second → first.index < second.index)
    (ascending : sorted.Pairwise fun first second => first.index < second.index) :
    (runSerial params store entries).1.Perm (runSerial params store sorted).1 ∧
      (runSerial params store entries).2 = (runSerial params store sorted).2 := by
  -- The smallest index clashes with nothing that runs before it, so it can run first.
  induction sorted generalizing store entries with
  | nil =>
      rw [perm.eq_nil]
      exact ⟨.refl _, rfl⟩
  | cons least rest ih =>
      have leastBelow := (List.pairwise_cons.mp ascending).1
      obtain ⟨before, later, rfl⟩ :=
        List.append_of_mem (perm.mem_iff.mpr List.mem_cons_self)
      have noClash : ∀ other ∈ before, ¬ other.Clash least := by
        intro other member clash
        have otherBelow : other.index < least.index :=
          (List.pairwise_append.mp clashesAscend).2.2 other member least List.mem_cons_self clash
        have inSorted : other ∈ least :: rest :=
          perm.mem_iff.mp (List.mem_append_left _ member)
        rcases List.mem_cons.mp inSorted with rfl | inRest
        · exact Nat.lt_irrefl _ otherBelow
        · exact Nat.lt_asymm otherBelow (leastBelow other inRest)
      have restPerm : (before ++ later).Perm rest :=
        (List.perm_middle.symm.trans perm).cons_inv
      have restAscend := clashesAscend.sublist
        ((List.sublist_cons_self least later).append_left before)
      obtain ⟨frontOutcomes, frontFinal⟩ :=
        runSerial_to_front params store before least later noClash
      obtain ⟨restOutcomes, restFinal⟩ := ih (least.after params store) restPerm restAscend
        (List.pairwise_cons.mp ascending).2
      exact ⟨frontOutcomes.trans (restOutcomes.cons _), frontFinal.trans restFinal⟩

end Serial

end Batch

namespace Ledger

open Batch

theorem execute_ofStore (params : Params) (store : Store) (counters : Telemetry.Counters)
    (actor : Address) (action : Action) :
    ∃ later, Ledger.execute ⟨params, .ofStore store, counters⟩ actor action =
      ((action.effect params actor store).1,
        ⟨params, .ofStore (store.commit (action.effect params actor store).2), later⟩) :=
  ⟨_, by simp only [execute, Medium.execute_ofStore]; rfl⟩

/-- On a medium that refuses nothing, running entries is the serial run of its store. -/
theorem runEntries_ofStore (params : Params) (store : Store) (counters : Telemetry.Counters)
    (entries : List Entry) :
    ∃ later, Ledger.runEntries ⟨params, .ofStore store, counters⟩ entries =
      ((runSerial params store entries).1,
        ⟨params, .ofStore (runSerial params store entries).2, later⟩) := by
  induction entries generalizing store counters with
  | nil => exact ⟨counters, rfl⟩
  | cons entry rest ih =>
      obtain ⟨counted, executed⟩ := execute_ofStore params store counters entry.actor entry.action
      obtain ⟨later, ran⟩ := ih (entry.after params store) counted
      refine ⟨later, ?_⟩
      simp only [Entry.after, Entry.effect] at ran
      simp only [runEntries, executed, ran]
      rfl

end Ledger

end PoolLedger
