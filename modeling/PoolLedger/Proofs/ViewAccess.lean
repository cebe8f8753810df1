import PoolLedger.Checked
import PoolLedger.View
import PoolLedger.Proofs.StoreCommit

/-!
# Access through a view

What a view answers to each request, by the mode of the key.  A view looks at
what lies beneath it under declared keys only, and it records changes of
mutated keys only.
-/

namespace PoolLedger

/-- Two readings find the same under every declared key. -/
def Reading.AgreeOn (declared : Declaration) (first second : Reading) : Prop :=
  ∀ key mode, declared.get? key = some mode → first key = second key

namespace View

variable {view after : View} {base : Reading} {key : StateKey} {value : Bytes}

/-- Every recorded change is of a key that the declaration lets change. -/
def Confined (view : View) : Prop :=
  ∀ key change, view.changes.get? key = some change →
    ∃ mode, view.declared.get? key = some mode ∧ mode.isMutating = true

theorem confined_start (declared : Declaration) : (start declared).Confined := by
  intro key change found
  cases found

theorem get_of_undeclared (undeclared : view.declared.get? key = none) :
    view.get base key = .error (.undeclaredKey key) := by
  simp [get, require, undeclared, bind, Except.bind]

theorem get_of_declared {mode : AccessMode} (declared : view.declared.get? key = some mode) :
    view.get base key = view.current base key := by
  have permitted : mode.permits .read = true := by cases mode <;> rfl
  simp [get, require, declared, permitted, bind, Except.bind]

theorem require_write_eq_ok_iff {mode : AccessMode} :
    view.require key .write = .ok mode ↔
      view.declared.get? key = some mode ∧ mode.isMutating = true := by
  cases declared : view.declared.get? key with
  | none => simp [require, declared]
  | some found =>
      cases found <;>
        simp only [require, declared, AccessMode.permits, AccessMode.strength] <;>
        simp <;> rintro rfl <;> rfl

/-- A value is recorded for a mutated key if it fits, and under mode `Write` if there is one
to replace. -/
theorem insert_eq_ok_iff :
    view.insert base key value = .ok after ↔
      ∃ mode, view.declared.get? key = some mode ∧ mode.isMutating = true ∧
        (mode = .write → ∃ old, view.current base key = .ok (some old)) ∧
        value.length ≤ key.maxValueLength ∧
        after = { view with changes := view.changes.put key value } := by
  cases required : view.require key .write with
  | error fault =>
      simp only [insert, required, bind, Except.bind, reduceCtorEq, false_iff]
      rintro ⟨mode, declared, mutating, _⟩
      rw [require_write_eq_ok_iff.mpr ⟨declared, mutating⟩] at required
      cases required
  | ok mode =>
      obtain ⟨declared, mutating⟩ := require_write_eq_ok_iff.mp required
      simp only [declared, Option.some.injEq, exists_eq_left', mutating, true_and]
      by_cases isWrite : mode = .write
      · cases found : view.current base key with
        | error fault => simp [insert, required, isWrite, found, bind, Except.bind]
        | ok old =>
            cases old with
            | none =>
                simp [insert, required, isWrite, found, bind, Except.bind, throw, throwThe,
                  MonadExceptOf.throw]
            | some old =>
                by_cases fits : value.length ≤ key.maxValueLength
                · simp only [insert, required, isWrite, found, bind, Except.bind, if_true,
                    Option.isNone_some, Bool.false_eq_true, if_false, fits, Nat.not_lt.mpr fits,
                    GT.gt, pure, Except.pure, Except.ok.injEq, Option.some.injEq, exists_eq',
                    forall_const, true_and]
                  exact eq_comm
                · simp [insert, required, isWrite, found, bind, Except.bind, fits,
                    Nat.lt_of_not_le fits, throw, throwThe, MonadExceptOf.throw]
      · by_cases fits : value.length ≤ key.maxValueLength
        · simp only [insert, required, isWrite, bind, Except.bind, if_false, fits,
            Nat.not_lt.mpr fits, GT.gt, pure, Except.pure, Except.ok.injEq, false_implies,
            true_and]
          exact eq_comm
        · simp [insert, required, isWrite, bind, Except.bind, fits, Nat.lt_of_not_le fits, throw,
            throwThe, MonadExceptOf.throw]

theorem remove_eq_ok_iff :
    view.remove key = .ok after ↔
      ∃ mode, view.declared.get? key = some mode ∧ mode.isMutating = true ∧
        after = { view with changes := view.changes.delete key } := by
  rw [remove, bind_eq_ok_iff_exists]
  apply exists_congr
  intro mode
  rw [require_write_eq_ok_iff, and_assoc]
  simp only [pure, Except.pure, Except.ok.injEq, eq_comm]

/-- A view over a store has what the store will have after the commit. -/
theorem current_ofStore (view : View) (store : Store) (key : StateKey) :
    view.current (Medium.ofStore store).read key =
      .ok ((store.commit view.changes).get? key) := by
  rw [current, Store.get?_commit, Medium.read_ofStore]
  cases view.changes.get? key <;> rfl

/-- What a view over a medium gives is what a commit leaves there, even if the medium cannot read
the key. -/
theorem get?_commit_of_get {medium : Medium} {found : Option Bytes}
    (granted : view.get medium.read key = .ok found) :
    (medium.store.commit view.changes).get? key = found := by
  cases declared : view.declared.get? key with
  | none =>
      rw [get_of_undeclared declared] at granted
      cases granted
  | some mode =>
      rw [get_of_declared declared, current] at granted
      rw [Store.get?_commit]
      cases recorded : view.changes.get? key with
      | some change =>
          rw [recorded] at granted
          exact Except.ok.inj granted
      | none =>
          rw [recorded] at granted
          exact Medium.get?_of_read granted

section Agree

variable {first second : Reading}

theorem current_congr (same : first key = second key) :
    view.current first key = view.current second key := by
  simp [current, same]

theorem get_congr (agree : Reading.AgreeOn view.declared first second) :
    view.get first key = view.get second key := by
  cases declared : view.declared.get? key with
  | none => rw [get_of_undeclared declared, get_of_undeclared declared]
  | some mode =>
      rw [get_of_declared declared, get_of_declared declared]
      exact current_congr (agree key mode declared)

theorem insert_congr (agree : Reading.AgreeOn view.declared first second) :
    view.insert first key value = view.insert second key value := by
  cases declared : view.declared.get? key with
  | none => simp [insert, require, declared, bind, Except.bind]
  | some mode => simp only [insert, current_congr (agree key mode declared)]

end Agree

theorem Confined.of_insert (confined : view.Confined)
    (inserted : view.insert base key value = .ok after) :
    after.Confined ∧ after.declared = view.declared := by
  obtain ⟨mode, declared, mutating, _, _, rfl⟩ := insert_eq_ok_iff.mp inserted
  refine ⟨fun touched change found => ?_, rfl⟩
  by_cases same : touched = key
  · subst same
    exact ⟨mode, declared, mutating⟩
  · exact confined touched change ((SortedMap.get?_insert_of_ne _ _ same).symm.trans found)

theorem Confined.of_remove (confined : view.Confined) (removed : view.remove key = .ok after) :
    after.Confined ∧ after.declared = view.declared := by
  obtain ⟨mode, declared, mutating, rfl⟩ := remove_eq_ok_iff.mp removed
  refine ⟨fun touched change found => ?_, rfl⟩
  by_cases same : touched = key
  · subst same
    exact ⟨mode, declared, mutating⟩
  · exact confined touched change ((SortedMap.get?_insert_of_ne _ _ same).symm.trans found)

end View

end PoolLedger
