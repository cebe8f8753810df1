import PoolLedger.Service
import PoolLedger.Proofs.DeclarationClash
import PoolLedger.Proofs.ProgramFootprint
import PoolLedger.Proofs.StoreCommit

/-!
# The effect of an action

On a medium that refuses nothing, executing an action amounts to a result and a
change set that is committed; a failed action changes nothing.  The effect of
an action depends on the store through its declared keys only and changes
mutated keys only.  Hence actions whose declarations do not clash do not see
each other.
-/

namespace PoolLedger

/-- Two stores hold the same under every declared key. -/
def Store.AgreeOn (declared : Declaration) (first second : Store) : Prop :=
  ∀ key mode, declared.get? key = some mode → first.get? key = second.get? key

namespace Action

/-- The result of a run in a view and the changes it commits, none if it fails. -/
def settle : Except ActionError Output × View → Except ExecutionError Output × ChangeSet
  | (.error error, _) => (.error (.ofActionError error), .empty)
  | (.ok output, view) => (.ok output, view.changes)

/-- The result of an action and the changes it commits. -/
def effect (params : Params) (actor : Address) (action : Action) (store : Store) :
    Except ExecutionError Output × ChangeSet :=
  settle (Medium.runInView params (Medium.ofStore store).read actor action)

variable {params : Params} {actor other : Address} {action later : Action} {store : Store}

theorem effect_congr {first second : Store}
    (agree : Store.AgreeOn (action.declared actor) first second) :
    action.effect params actor first = action.effect params actor second := by
  have readings : Reading.AgreeOn (View.start (action.declared actor)).declared
      (Medium.ofStore first).read (Medium.ofStore second).read := by
    intro key mode declared
    simp [agree key mode declared]
  have sameRun : Medium.runInView params (Medium.ofStore first).read actor action =
      Medium.runInView params (Medium.ofStore second).read actor action :=
    Program.run_view_congr (action.program params actor) readings
  simp only [effect, sameRun]

/-- An action commits changes of keys that it declares for change. -/
theorem declared_of_effect {key : StateKey} {change : Option Bytes}
    (changed : (action.effect params actor store).2.get? key = some change) :
    ∃ mode, (action.declared actor).get? key = some mode ∧ mode.isMutating = true := by
  obtain ⟨confined, declared⟩ := Program.confined_run_view (action.program params actor)
    (Medium.ofStore store).read (View.confined_start (action.declared actor))
  unfold effect settle Medium.runInView at changed
  split at changed
  · cases changed
  · rename_i output view ran
    rw [ran] at confined declared
    obtain ⟨mode, found, mutating⟩ := confined key change changed
    rw [declared] at found
    exact ⟨mode, found, mutating⟩

section NoClash

variable (noClash : ¬ (action.declared actor).Clash (later.declared other))

include noClash

theorem untouched_of_not_clash {key : StateKey} {mode : AccessMode}
    (declared : (later.declared other).get? key = some mode) :
    (action.effect params actor store).2.get? key = none := by
  rw [Option.eq_none_iff_forall_ne_some]
  intro change changed
  obtain ⟨ownMode, own, mutating⟩ := declared_of_effect changed
  exact noClash ⟨key, ownMode, mode, own, declared, .inl mutating⟩

theorem effect_commit_of_not_clash (before : Store) :
    later.effect params other (before.commit (action.effect params actor store).2) =
      later.effect params other before := by
  apply effect_congr
  intro key mode declared
  exact Store.get?_commit_of_untouched (untouched_of_not_clash noClash declared)

theorem effects_apart (before : Store) :
    (action.effect params actor store).2.Apart (later.effect params other before).2 := by
  intro key
  cases changed : (later.effect params other before).2.get? key with
  | none => exact .inr rfl
  | some change =>
      obtain ⟨mode, declared, _⟩ := declared_of_effect changed
      exact .inl (untouched_of_not_clash noClash declared)

end NoClash

end Action

theorem Medium.execute_ofStore (params : Params) (store : Store) (actor : Address)
    (action : Action) :
    (Medium.ofStore store).execute params actor action =
      ((action.effect params actor store).1,
        .ofStore (store.commit (action.effect params actor store).2)) := by
  rcases ran : runInView params (Medium.ofStore store).read actor action with ⟨result, view⟩
  cases result with
  | error error => simp [execute, Action.effect, Action.settle, ran]
  | ok output => simp [execute, Action.effect, Action.settle, ran]

end PoolLedger
