import PoolLedger.Program
import PoolLedger.Proofs.StoreCommit
import PoolLedger.Proofs.ViewAccess

/-!
# Programs within their declaration

A program stays within a declaration when every request of its run against a
plain store is one that a view under the declaration grants.  Such a program
cannot tell the view from the store: it ends the same way, and committing what
the view has recorded gives the store that the plain run leaves.
-/

namespace PoolLedger

namespace Program

section Bind

variable {ε α β σ : Type} [CarriesFault ε] {backend : Backend σ}

theorem run_bind (program : Program ε α) (next : α → Program ε β) (state : σ) :
    (program >>= next).run backend state =
      match program.run backend state with
      | (.ok value, after) => (next value).run backend after
      | (.error error, after) => (.error error, after) := by
  induction program generalizing state with
  | done value => rfl
  | fail error => rfl
  | get key rest ih =>
      simp only [Bind.bind, bind, run]
      split
      · rfl
      · exact ih _ state
  | insert key value rest ih =>
      simp only [Bind.bind, bind, run]
      split
      · rfl
      · exact ih _
  | remove key rest ih =>
      simp only [Bind.bind, bind, run]
      split
      · rfl
      · exact ih _

theorem run_bind_of_ok {program : Program ε α} {state after : σ} {value : α}
    (ran : program.run backend state = (.ok value, after)) (next : α → Program ε β) :
    (program >>= next).run backend state = (next value).run backend after := by
  rw [run_bind, ran]

theorem run_bind_eq_ok_iff {program : Program ε α} {next : α → Program ε β} {state after : σ}
    {value : β} :
    (program >>= next).run backend state = (.ok value, after) ↔
      ∃ first middle, program.run backend state = (.ok first, middle) ∧
        (next first).run backend middle = (.ok value, after) := by
  rw [run_bind]
  rcases program.run backend state with ⟨error | first, middle⟩
  · simp
  · constructor
    · exact fun ran => ⟨first, middle, rfl, ran⟩
    · rintro ⟨_, _, same, ran⟩
      cases same
      exact ran

@[simp]
theorem run_check_bind (condition : Bool) (error : ε) (next : Unit → Program ε β) (state : σ) :
    (check condition error >>= next).run backend state =
      if condition then (next ()).run backend state else (.error error, state) := by
  cases condition <;> rfl

theorem run_check_bind_eq_ok_iff {condition : Bool} {error : ε} {next : Unit → Program ε β}
    {state after : σ} {value : β} :
    (check condition error >>= next).run backend state = (.ok value, after) ↔
      condition = true ∧ (next ()).run backend state = (.ok value, after) := by
  cases condition <;> simp

theorem run_check_eq_ok_iff {condition : Bool} {error : ε} {state after : σ} :
    (check condition error).run backend state = (.ok (), after) ↔
      condition = true ∧ after = state := by
  cases condition
  · simp [check, run]
  · simp [check, run, eq_comm]

end Bind

variable {ε α β : Type} [CarriesFault ε]

/-- Every request of the run against the store is one that the declaration grants. -/
def Granted (declared : Declaration) : Program ε α → Store → Prop
  | done _, _ => True
  | fail _, _ => True
  | get key next, store =>
      (∃ mode, declared.get? key = some mode) ∧ (next (store.get? key)).Granted declared store
  | insert key value next, store =>
      (∃ mode, declared.get? key = some mode ∧ mode.isMutating = true ∧
        (mode = .write → ∃ old, store.get? key = some old)) ∧
      value.length ≤ key.maxValueLength ∧ next.Granted declared (store.insert key value)
  | remove key next, store =>
      (∃ mode, declared.get? key = some mode ∧ mode.isMutating = true) ∧
      next.Granted declared (store.erase key)

theorem granted_bind {declared : Declaration} {program : Program ε α} {next : α → Program ε β}
    {store : Store} (first : program.Granted declared store)
    (rest : ∀ value after, program.run .store store = (.ok value, after) →
      (next value).Granted declared after) :
    (program >>= next).Granted declared store := by
  induction program generalizing store with
  | done value => exact rest value store rfl
  | fail error => trivial
  | get key later ih => exact ⟨first.1, ih _ first.2 rest⟩
  | insert key value later ih => exact ⟨first.1, first.2.1, ih first.2.2 rest⟩
  | remove key later ih => exact ⟨first.1, ih first.2 rest⟩

omit [CarriesFault ε] in
theorem granted_check (declared : Declaration) (condition : Bool) (error : ε) (store : Store) :
    (check condition error).Granted declared store := by
  cases condition <;> trivial

/-- A program within its declaration runs in a view as it runs against the plain store. -/
theorem run_view_of_granted (program : Program ε α) (view : View) (base : Store)
    (granted : program.Granted view.declared (base.commit view.changes)) :
    (program.run (.view (Medium.ofStore base).read) view).1 =
        (program.run .store (base.commit view.changes)).1 ∧
      base.commit (program.run (.view (Medium.ofStore base).read) view).2.changes =
        (program.run .store (base.commit view.changes)).2 := by
  induction program generalizing view with
  | done value => exact ⟨rfl, rfl⟩
  | fail error => exact ⟨rfl, rfl⟩
  | get key next ih =>
      obtain ⟨⟨mode, declared⟩, restGranted⟩ := granted
      have found : view.get (Medium.ofStore base).read key =
          .ok ((base.commit view.changes).get? key) := by
        rw [View.get_of_declared declared, View.current_ofStore]
      simp only [run, Backend.view, Backend.store, found]
      exact ih _ _ restGranted
  | insert key value next ih =>
      obtain ⟨⟨mode, declared, mutating, replaces⟩, fits, restGranted⟩ := granted
      have inserted : view.insert (Medium.ofStore base).read key value =
          .ok { view with changes := view.changes.put key value } := by
        refine View.insert_eq_ok_iff.mpr ⟨mode, declared, mutating, fun isWrite => ?_, fits, rfl⟩
        obtain ⟨old, found⟩ := replaces isWrite
        exact ⟨old, by rw [View.current_ofStore, found]⟩
      simp only [run, Backend.view, Backend.store, inserted]
      rw [← Store.commit_put] at restGranted ⊢
      exact ih _ restGranted
  | remove key next ih =>
      obtain ⟨⟨mode, declared, mutating⟩, restGranted⟩ := granted
      have removed : view.remove key =
          .ok { view with changes := view.changes.delete key } :=
        View.remove_eq_ok_iff.mpr ⟨mode, declared, mutating, rfl⟩
      simp only [run, Backend.view, Backend.store, removed]
      rw [← Store.commit_delete] at restGranted ⊢
      exact ih _ restGranted

/-- A program that succeeds in a view over a medium, whatever the medium cannot read, succeeds
against what a commit of the view leaves, and leaves what a commit leaves then. -/
theorem run_store_of_run_view (program : Program ε α) {medium : Medium} {view after : View}
    {value : α} (ran : program.run (.view medium.read) view = (.ok value, after)) :
    program.run .store (medium.store.commit view.changes) =
      (.ok value, medium.store.commit after.changes) := by
  induction program generalizing view with
  | done found =>
      cases ran
      rfl
  | fail error => cases ran
  | get key next ih =>
      simp only [run, Backend.view] at ran
      split at ran
      · cases ran
      · rename_i found granted
        simp only [run, Backend.store, View.get?_commit_of_get granted]
        exact ih found ran
  | insert key bytes next ih =>
      simp only [run, Backend.view] at ran
      split at ran
      · cases ran
      · rename_i middle inserted
        obtain ⟨_, _, _, _, _, rfl⟩ := View.insert_eq_ok_iff.mp inserted
        simp only [run, Backend.store, ← Store.commit_put]
        exact ih ran
  | remove key next ih =>
      simp only [run, Backend.view] at ran
      split at ran
      · cases ran
      · rename_i middle removed
        obtain ⟨_, _, _, rfl⟩ := View.remove_eq_ok_iff.mp removed
        simp only [run, Backend.store, ← Store.commit_delete]
        exact ih ran

end Program

end PoolLedger
