import PoolLedger.Proofs.SortedMap
import PoolLedger.Proofs.StoreCommit

/-!
# Changes as they were recorded

A change set keeps the last change to each key.  That is all a store needs to
know: committing what was recorded leaves the same as making the changes one by
one, and a change set can stand for two that are committed one after the other.
The order in which the keys of a change set are committed does not matter.
-/

namespace PoolLedger

/-- One change to a state. -/
inductive Change where
  | put (key : StateKey) (value : Bytes)
  | delete (key : StateKey)
deriving DecidableEq

namespace ChangeSet

/-- Record one more change. -/
def record (changes : ChangeSet) : Change → ChangeSet
  | .put key value => changes.put key value
  | .delete key => changes.delete key

/-- The change set that records a list of changes. -/
def ofChanges (recorded : List Change) : ChangeSet :=
  recorded.foldl record .empty

/-! ## Merging -/

/-- A key that is changed later has its later change, another one its earlier change. -/
theorem get?_merge (changes later : ChangeSet) (key : StateKey) :
    (changes.merge later).get? key = (later.get? key).or (changes.get? key) :=
  SortedMap.get?_foldl_insert changes later.ascending key

theorem merge_empty (changes : ChangeSet) : changes.merge .empty = changes :=
  rfl

theorem empty_merge (changes : ChangeSet) : merge .empty changes = changes := by
  apply SortedMap.ext_get?
  intro key
  rw [get?_merge, SortedMap.get?_empty, Option.or_none]

theorem merge_assoc (first second third : ChangeSet) :
    (first.merge second).merge third = first.merge (second.merge third) := by
  apply SortedMap.ext_get?
  intro key
  simp only [get?_merge, Option.or_assoc]

end ChangeSet

namespace Store

/-- Make one change. -/
def change (store : Store) : Change → Store
  | .put key value => store.insert key value
  | .delete key => store.erase key

/-- Make some changes, one after the other. -/
def changeAll (store : Store) (made : List Change) : Store :=
  made.foldl change store

theorem commit_record (store : Store) (changes : ChangeSet) (made : Change) :
    store.commit (changes.record made) = (store.commit changes).change made := by
  cases made with
  | put key value => exact commit_put store changes key value
  | delete key => exact commit_delete store changes key

/-- What is recorded after some changes is made after they are committed. -/
theorem commit_foldl_record (store : Store) (changes : ChangeSet) (made : List Change) :
    store.commit (made.foldl ChangeSet.record changes) = (store.commit changes).changeAll made := by
  induction made generalizing changes with
  | nil => rfl
  | cons next rest ih =>
      rw [List.foldl_cons, ih, commit_record]
      rfl

theorem commit_ofChanges (store : Store) (made : List Change) :
    store.commit (.ofChanges made) = store.changeAll made :=
  commit_foldl_record store .empty made

theorem commit_merge (store : Store) (changes later : ChangeSet) :
    store.commit (changes.merge later) = (store.commit changes).commit later := by
  apply SortedMap.ext_get?
  intro key
  rw [get?_commit, get?_commit, get?_commit, ChangeSet.get?_merge]
  cases later.get? key with
  | none => rfl
  | some change => rfl

/-! ## The order of the keys -/

theorem apply_comm (store : Store) {key other : StateKey} (ne : key ≠ other)
    (change otherChange : Option Bytes) :
    (store.apply key change).apply other otherChange =
      (store.apply other otherChange).apply key change := by
  apply SortedMap.ext_get?
  intro wanted
  simp only [get?_apply]
  by_cases isKey : wanted = key
  · subst isKey
    simp [ne]
  · simp [isKey]

/-- The entries of a change set may be applied in any order. -/
theorem foldl_apply_of_perm (store : Store) {changes : ChangeSet}
    {entries : List (StateKey × Option Bytes)} (perm : changes.toList.Perm entries) :
    entries.foldl (fun store entry => store.apply entry.1 entry.2) store =
      store.commit changes := by
  symm
  apply perm.foldl_eq'
  rintro ⟨key, change⟩ listed ⟨other, otherChange⟩ otherListed current
  by_cases same : key = other
  · -- A key is listed once, so this is one and the same entry.
    subst same
    have found := (changes.mem_toList_iff key change).mp listed
    have otherFound := (changes.mem_toList_iff key otherChange).mp otherListed
    cases found.symm.trans otherFound
    rfl
  · exact apply_comm current same change otherChange

end Store

/-- Committing recorded changes to a store leaves what making them one by one leaves, whatever the
order of the keys in the commit.  A change set followed by another one is committed like the merge
of both; merging is associative, and the empty change set is its unit.  Change sets without a
common key are committed in either order. -/
theorem change_sets_act_as_recorded :
    (∀ (store : Store) (made : List Change),
      store.commit (.ofChanges made) = store.changeAll made) ∧
    (∀ (store : Store) (changes : ChangeSet) (entries : List (StateKey × Option Bytes)),
      changes.toList.Perm entries →
        entries.foldl (fun store entry => store.apply entry.1 entry.2) store =
          store.commit changes) ∧
    (∀ (store : Store) (first second : ChangeSet),
      (store.commit first).commit second = store.commit (first.merge second)) ∧
    (∀ first second third : ChangeSet,
      (first.merge second).merge third = first.merge (second.merge third)) ∧
    (∀ changes : ChangeSet, changes.merge .empty = changes ∧ .merge .empty changes = changes) ∧
    ∀ (store : Store) (first second : ChangeSet),
      (∀ key, first.get? key = none ∨ second.get? key = none) →
        (store.commit first).commit second = (store.commit second).commit first := by
  refine ⟨Store.commit_ofChanges, ?_, ?_, ChangeSet.merge_assoc, ?_, ?_⟩
  · exact fun store changes entries perm => store.foldl_apply_of_perm perm
  · exact fun store first second => (store.commit_merge first second).symm
  · exact fun changes => ⟨changes.merge_empty, changes.empty_merge⟩
  · exact fun store first second apart => store.commit_comm apart

/-- Two moorings with a boat each. -/
def moorings : Store :=
  .ofList [(.ofDomain "quay", [1]), (.ofDomain "mole", [2])]

/-- One boat leaves and another comes, one is replaced, and one that was not there leaves. -/
def tideChanges : List Change :=
  [.delete (.ofDomain "quay"), .put (.ofDomain "pier") [3], .put (.ofDomain "quay") [4],
    .delete (.ofDomain "mole"), .put (.ofDomain "pier") [5], .delete (.ofDomain "jetty")]

/-- Four keys are recorded, two of them with the value that was put there last.  The first change
and the second one touch different keys. -/
theorem tideChanges_as_recorded :
    (ChangeSet.ofChanges tideChanges).size = 4 ∧
      moorings.commit (.ofChanges tideChanges) =
        .ofList [(.ofDomain "quay", [4]), (.ofDomain "pier", [5])] ∧
      moorings.changeAll tideChanges = moorings.commit (.ofChanges tideChanges) ∧
      (ChangeSet.ofChanges tideChanges).toList.reverse.foldl
          (fun store entry => store.apply entry.1 entry.2) moorings =
        moorings.commit (.ofChanges tideChanges) ∧
      (moorings.commit (ChangeSet.delete .empty (.ofDomain "quay"))).commit
          (ChangeSet.put .empty (.ofDomain "pier") [3]) =
        (moorings.commit (ChangeSet.put .empty (.ofDomain "pier") [3])).commit
          (ChangeSet.delete .empty (.ofDomain "quay")) := by
  obtain ⟨recorded, anyOrder, _, _, _, apart⟩ := change_sets_act_as_recorded
  have elsewhere : StateKey.ofDomain "quay" ≠ .ofDomain "pier" := by decide +kernel
  refine ⟨by decide +kernel, by decide +kernel, (recorded _ _).symm,
    anyOrder _ _ _ (List.reverse_perm _).symm, apart _ _ _ fun key => ?_⟩
  rw [ChangeSet.delete, ChangeSet.put, SortedMap.get?_insert, SortedMap.get?_insert]
  by_cases isQuay : key = .ofDomain "quay"
  · subst isQuay
    exact .inr (if_neg elsewhere)
  · exact .inl (if_neg isQuay)

end PoolLedger
