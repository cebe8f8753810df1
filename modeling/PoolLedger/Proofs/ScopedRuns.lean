import PoolLedger.Proofs.ActionGrant
import PoolLedger.Proofs.EarlyFailure
import PoolLedger.Proofs.HaltedBatch

/-!
# Runs under sufficient declarations

A declaration is sufficient for an action if it grants at least the access that
the action declares.  A view under any such declaration cannot be told from the
plain store: the action ends the same way in both and leaves the same store.
-/

namespace PoolLedger

open Batch

/-- A mode that permits a mutating one is mutating itself, and no weaker. -/
theorem AccessMode.isMutating_of_permits {granted mode : AccessMode}
    (permits : granted.permits mode = true) (mutating : mode.isMutating = true) :
    granted.isMutating = true ∧ (granted = .write → mode = .write) := by
  cases granted <;> cases mode <;>
    simp_all [AccessMode.permits, AccessMode.strength, AccessMode.isMutating]

namespace Declaration

/-- Every key is granted at least the access that it needs. -/
def Grants (granted needed : Declaration) : Prop :=
  ∀ key mode, needed.get? key = some mode →
    ∃ stronger, granted.get? key = some stronger ∧ stronger.permits mode = true

instance (granted needed : Declaration) : Decidable (granted.Grants needed) :=
  decidable_of_iff
    (∀ entry ∈ needed.toList, (granted.get? entry.1).any (·.permits entry.2) = true) <| by
      simp only [Grants, Option.any_eq_true, Prod.forall, SortedMap.mem_toList_iff]

end Declaration

/-- A program within its declaration is within every one that grants as much. -/
theorem Program.Granted.mono {ε α : Type} {program : Program ε α} {granted needed : Declaration}
    {store : Store} (grants : granted.Grants needed) (within : program.Granted needed store) :
    program.Granted granted store := by
  induction program generalizing store with
  | done value => trivial
  | fail error => trivial
  | get key next ih =>
      obtain ⟨⟨mode, declared⟩, restWithin⟩ := within
      obtain ⟨stronger, found, _⟩ := grants key mode declared
      exact ⟨⟨stronger, found⟩, ih _ restWithin⟩
  | insert key value next ih =>
      obtain ⟨⟨mode, declared, mutating, replaces⟩, fits, restWithin⟩ := within
      obtain ⟨stronger, found, permits⟩ := grants key mode declared
      obtain ⟨strongerMutates, noWeaker⟩ := AccessMode.isMutating_of_permits permits mutating
      exact ⟨⟨stronger, found, strongerMutates, fun isWrite => replaces (noWeaker isWrite)⟩, fits,
        ih restWithin⟩
  | remove key next ih =>
      obtain ⟨⟨mode, declared, mutating⟩, restWithin⟩ := within
      obtain ⟨stronger, found, permits⟩ := grants key mode declared
      exact ⟨⟨stronger, found, (AccessMode.isMutating_of_permits permits mutating).1⟩,
        ih restWithin⟩

namespace Action

/-- An action run in a view under a declaration over a plain store. -/
def runScoped (params : Params) (actor : Address) (action : Action) (granted : Declaration)
    (store : Store) : Except ActionError Output × View :=
  (action.program params actor).run (.view (Medium.ofStore store).read) (.start granted)

/-- An action run against a plain store, which keeps every write. -/
def runPlain (params : Params) (actor : Address) (action : Action) (store : Store) :
    Except ActionError Output × Store :=
  (action.program params actor).run .store store

/-- In a view under any sufficient declaration an action ends as it does against the plain store,
whatever that holds, and commits to what it leaves there.  If it fails, the plain store is as it
was; a fault is always a record that cannot be read, never a refused access. -/
theorem runScoped_eq_runPlain (params : Params) (actor : Address) (action : Action)
    (store : Store) {granted : Declaration} (grants : granted.Grants (action.declared actor)) :
    (action.runScoped params actor granted store).1 =
        (action.runPlain params actor store).1 ∧
      store.commit (action.runScoped params actor granted store).2.changes =
        (action.runPlain params actor store).2 ∧
      (∀ error, (action.runPlain params actor store).1 = .error error →
        (action.runPlain params actor store).2 = store) ∧
      ∀ fault, (action.runScoped params actor granted store).1 = .error (.state fault) →
        ∃ key cause, fault = .corruptValue key cause := by
  obtain ⟨sameResult, sameStore⟩ := Program.run_view_of_granted (action.program params actor)
    (.start granted) store ((action.granted params actor store).mono grants)
  have early := action.failsEarly params actor
  simp only [View.start, Store.commit_empty] at sameResult sameStore
  rcases ran : (action.program params actor).run .store store with ⟨result, after⟩
  rw [ran] at sameResult sameStore
  simp only [runScoped, runPlain, View.start, sameResult, sameStore, ran, true_and]
  constructor
  · rintro error rfl
    exact (early.of_run_store ran).1
  · rintro fault rfl
    exact (early.of_run_store ran).2 fault rfl

/-- Both accounts may be allocated, and a token may be written besides. -/
def wideDeclaration : Declaration :=
  .ofKeys [(.ofBalance (accountOf 1), .allocate), (.ofBalance (accountOf 4), .allocate),
    (.ofToken (accountOf 9), .write)]

/-- A transfer to an account with a damaged balance fails before it has written anything. -/
theorem runScoped_damagedRecipient :
    wideDeclaration.Grants ((transfer (accountOf 4) 3 []).declared (accountOf 1)) ∧
      ((transfer (accountOf 4) 3 []).runScoped crossedParams (accountOf 1) wideDeclaration
          damagedStore).1 =
        .error (.state (.corruptValue (.ofBalance (accountOf 4))
          (.invalidLength "balance" 8 1))) ∧
      ((transfer (accountOf 4) 3 []).runPlain crossedParams (accountOf 1) damagedStore).2 =
        damagedStore := by
  have grants : wideDeclaration.Grants
      ((transfer (accountOf 4) 3 []).declared (accountOf 1)) := by
    decide +kernel
  obtain ⟨same, _, unchanged, _⟩ := runScoped_eq_runPlain crossedParams (accountOf 1)
    (transfer (accountOf 4) 3 []) damagedStore grants
  have failed : ((transfer (accountOf 4) 3 []).runPlain crossedParams (accountOf 1)
      damagedStore).1 =
        .error (.state (.corruptValue (.ofBalance (accountOf 4))
          (.invalidLength "balance" 8 1))) := by
    decide +kernel
  exact ⟨grants, same.trans failed, unchanged _ failed⟩

end Action

end PoolLedger
