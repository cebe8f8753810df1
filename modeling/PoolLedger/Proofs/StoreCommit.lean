import PoolLedger.Proofs.SortedMap
import PoolLedger.Store

/-!
# What a commit leaves under a key

A committed change set decides every key that it touches and no other, so two
change sets without a common key can be committed in either order.  A medium
that refuses nothing reads and commits what its store does.
-/

namespace PoolLedger

/-- No key is touched by both change sets. -/
def ChangeSet.Apart (first second : ChangeSet) : Prop :=
  ∀ key, first.get? key = none ∨ second.get? key = none

namespace Store

theorem get?_apply (store : Store) (key : StateKey) (change : Option Bytes) (wanted : StateKey) :
    (store.apply key change).get? wanted =
      if wanted = key then change else store.get? wanted := by
  cases change with
  | none => exact SortedMap.get?_erase store key wanted
  | some value => exact SortedMap.get?_insert store key value wanted

private theorem get?_foldl_apply (store : Store) {entries : List (StateKey × Option Bytes)}
    (ascending : entries.Pairwise fun first second => compare first.1 second.1 = .lt)
    (wanted : StateKey) :
    (entries.foldl (fun store entry => store.apply entry.1 entry.2) store).get? wanted =
      (SortedMap.lookup wanted entries).getD (store.get? wanted) := by
  induction entries generalizing store with
  | nil => rfl
  | cons head rest ih =>
      obtain ⟨key, change⟩ := head
      have below := (List.pairwise_cons.mp ascending).1
      rw [List.foldl_cons, ih _ (List.pairwise_cons.mp ascending).2, get?_apply]
      by_cases same : wanted = key
      · subst same
        have absent : SortedMap.lookup wanted rest = none :=
          SortedMap.lookup_eq_none_of_forall_ne fun entry member =>
            Ne.symm (SortedMap.ne_of_compare_lt (below entry member))
        rw [absent, SortedMap.lookup_cons_self, if_pos rfl]
        rfl
      · rw [if_neg same, SortedMap.lookup_cons_of_ne same]

/-- A commit decides the keys of its change set and leaves all others as they were. -/
theorem get?_commit (store : Store) (changes : ChangeSet) (key : StateKey) :
    (store.commit changes).get? key = (changes.get? key).getD (store.get? key) :=
  get?_foldl_apply store changes.ascending key

theorem get?_commit_of_untouched {store : Store} {changes : ChangeSet} {key : StateKey}
    (untouched : changes.get? key = none) :
    (store.commit changes).get? key = store.get? key := by
  rw [get?_commit, untouched]
  rfl

@[simp]
theorem commit_empty (store : Store) : store.commit .empty = store :=
  rfl

theorem commit_put (store : Store) (changes : ChangeSet) (key : StateKey) (value : Bytes) :
    store.commit (changes.put key value) = (store.commit changes).insert key value := by
  apply SortedMap.ext_get?
  intro wanted
  rw [get?_commit, ChangeSet.put, SortedMap.get?_insert, SortedMap.get?_insert, get?_commit]
  split <;> rfl

theorem commit_delete (store : Store) (changes : ChangeSet) (key : StateKey) :
    store.commit (changes.delete key) = (store.commit changes).erase key := by
  apply SortedMap.ext_get?
  intro wanted
  rw [get?_commit, ChangeSet.delete, SortedMap.get?_insert, SortedMap.get?_erase, get?_commit]
  split <;> rfl

theorem commit_comm (store : Store) {first second : ChangeSet} (apart : first.Apart second) :
    (store.commit first).commit second = (store.commit second).commit first := by
  apply SortedMap.ext_get?
  intro key
  rcases apart key with untouched | untouched <;>
    simp [get?_commit, untouched]

end Store

namespace Medium

@[simp]
theorem read_ofStore (store : Store) (key : StateKey) :
    (ofStore store).read key = .ok (store.get? key) := by
  simp [ofStore, read]

/-- What can be read is what the store holds. -/
theorem get?_of_read {medium : Medium} {key : StateKey} {found : Option Bytes}
    (granted : medium.read key = .ok found) : medium.store.get? key = found := by
  unfold read at granted
  split at granted
  · cases granted
  · exact Except.ok.inj granted

@[simp]
theorem commit_ofStore (store : Store) (changes : ChangeSet) :
    (ofStore store).commit changes = .ok (ofStore (store.commit changes)) := by
  simp [ofStore, commit]

end Medium

end PoolLedger
