import PoolLedger.Program.Records
import PoolLedger.Proofs.StoreCommit
import PoolLedger.Proofs.ViewAccess

/-!
# Requests to a view

A view refines the state beneath it.  A refused request changes nothing, and
the granted requests, made of a copy of the state, find there what they found
in the view and leave what the view commits to.
-/

namespace PoolLedger

/-- One request for access to a state. -/
inductive Request where
  | get (key : StateKey)
  | insert (key : StateKey) (value : Bytes)
  | remove (key : StateKey)
deriving DecidableEq

/-- What is found, nothing for a request that changes the state, or why it was refused. -/
abbrev Answer := Except StateError (Option Bytes)

/-- The program that makes one request. -/
def Request.program : Request → Program StateError (Option Bytes)
  | get key => .get key .done
  | insert key value => .insert key value (.done none)
  | remove key => .remove key (.done none)

/-- A medium and a view over it. -/
structure Scope where
  medium : Medium
  view : View

namespace Backend

variable {σ : Type}

/-- A view together with the medium that it reads. -/
def scope : Backend Scope where
  get scope := scope.view.get scope.medium.read
  insert scope key value :=
    (scope.view.insert scope.medium.read key value).map fun view => { scope with view }
  remove scope key := (scope.view.remove key).map fun view => { scope with view }

/-- The answer to a request, and the state after it. -/
def serve (backend : Backend σ) (request : Request) (state : σ) : Answer × σ :=
  request.program.run backend state

/-- The answers to requests that are made one after the other, and the state after them. -/
def serveAll (backend : Backend σ) : List Request → σ → List Answer × σ
  | [], state => ([], state)
  | request :: rest, state =>
      let served := backend.serve request state
      let later := backend.serveAll rest served.2
      (served.1 :: later.1, later.2)

/-- The requests that are granted, each with its answer. -/
def granted (backend : Backend σ) (requests : List Request) (state : σ) :
    List (Request × Answer) :=
  (requests.zip (backend.serveAll requests state).1).filter (·.2.isOk)

/-- A request that is refused leaves the state as it was. -/
theorem serve_of_error {backend : Backend σ} {request : Request} {state : σ} {fault : StateError}
    (refused : (backend.serve request state).1 = .error fault) :
    (backend.serve request state).2 = state := by
  cases request with
  | get key =>
      simp only [serve, Request.program, Program.run]
      split <;> rfl
  | insert key value =>
      simp only [serve, Request.program, Program.run] at refused ⊢
      split at refused
      · rfl
      · cases refused
  | remove key =>
      simp only [serve, Request.program, Program.run] at refused ⊢
      split at refused
      · rfl
      · cases refused

end Backend

namespace Scope

variable {scope : Scope} {request : Request} {found : Option Bytes}

/-- What a commit of the view would leave. -/
def committed (scope : Scope) : Store :=
  scope.medium.store.commit scope.view.changes

/-- A granted request does to the committed store what it does to a plain one. -/
theorem serve_committed (granted : (Backend.scope.serve request scope).1 = .ok found) :
    Backend.store.serve request scope.committed =
      (.ok found, (Backend.scope.serve request scope).2.committed) := by
  cases request with
  | get key =>
      simp only [Backend.serve, Request.program, Program.run, Backend.scope] at granted ⊢
      cases answer : scope.view.get scope.medium.read key with
      | error fault =>
          rw [answer] at granted
          cases granted
      | ok value =>
          rw [answer] at granted
          cases granted
          simp only [Backend.store, committed, View.get?_commit_of_get answer]
  | insert key value =>
      simp only [Backend.serve, Request.program, Program.run, Backend.scope] at granted ⊢
      cases inserted : scope.view.insert scope.medium.read key value with
      | error fault =>
          rw [inserted] at granted
          cases granted
      | ok after =>
          rw [inserted] at granted
          cases granted
          obtain ⟨_, _, _, _, _, rfl⟩ := View.insert_eq_ok_iff.mp inserted
          simp only [Except.map, committed, Store.commit_put, Backend.store]
  | remove key =>
      simp only [Backend.serve, Request.program, Program.run, Backend.scope] at granted ⊢
      cases removed : scope.view.remove key with
      | error fault =>
          rw [removed] at granted
          cases granted
      | ok after =>
          rw [removed] at granted
          cases granted
          obtain ⟨_, _, _, rfl⟩ := View.remove_eq_ok_iff.mp removed
          simp only [Except.map, committed, Store.commit_delete, Backend.store]

theorem medium_serve (request : Request) (scope : Scope) :
    (Backend.scope.serve request scope).2.medium = scope.medium := by
  cases request with
  | get key =>
      simp only [Backend.serve, Request.program, Program.run]
      split <;> rfl
  | insert key value =>
      simp only [Backend.serve, Request.program, Program.run, Backend.scope]
      cases scope.view.insert scope.medium.read key value <;> rfl
  | remove key =>
      simp only [Backend.serve, Request.program, Program.run, Backend.scope]
      cases scope.view.remove key <;> rfl

theorem medium_serveAll (requests : List Request) (scope : Scope) :
    (Backend.scope.serveAll requests scope).2.medium = scope.medium := by
  induction requests generalizing scope with
  | nil => rfl
  | cons request rest ih => exact (ih _).trans (medium_serve request scope)

/-- The granted requests of a run do to the committed store what they do to a plain one. -/
theorem serveAll_committed (requests : List Request) (scope : Scope) :
    Backend.store.serveAll ((Backend.scope.granted requests scope).map (·.1)) scope.committed =
      ((Backend.scope.granted requests scope).map (·.2),
        (Backend.scope.serveAll requests scope).2.committed) := by
  induction requests generalizing scope with
  | nil => rfl
  | cons request rest ih =>
      have later := ih (Backend.scope.serve request scope).2
      simp only [Backend.granted, Backend.serveAll, List.zip_cons_cons] at later ⊢
      cases answer : (Backend.scope.serve request scope).1 with
      | error fault =>
          rw [Backend.serve_of_error answer] at later ⊢
          rw [List.filter_cons_of_neg (by simp [Except.isOk, Except.toBool])]
          exact later
      | ok found =>
          rw [List.filter_cons_of_pos (by rfl)]
          simp only [List.map_cons, Backend.serveAll, serve_committed answer, later]

end Scope

/-- A request to a view that is refused changes neither the view nor the medium beneath, and no
request ever changes the medium.  The granted requests of a run, made of a copy of the store
instead, have the same answers there, and the copy becomes what the view's changes are committed
to. -/
theorem view_refines_store (medium : Medium) (declared : Declaration) (requests : List Request) :
    (∀ (scope : Scope) (request : Request) (fault : StateError),
      (Backend.scope.serve request scope).1 = .error fault →
        (Backend.scope.serve request scope).2 = scope) ∧
    (Backend.scope.serveAll requests ⟨medium, .start declared⟩).2.medium = medium ∧
    Backend.store.serveAll
        ((Backend.scope.granted requests ⟨medium, .start declared⟩).map (·.1)) medium.store =
      ((Backend.scope.granted requests ⟨medium, .start declared⟩).map (·.2),
        medium.store.commit
          (Backend.scope.serveAll requests ⟨medium, .start declared⟩).2.view.changes) := by
  have same := Scope.medium_serveAll requests ⟨medium, .start declared⟩
  have replayed := Scope.serveAll_committed requests ⟨medium, .start declared⟩
  refine ⟨fun scope request fault refused => Backend.serve_of_error refused, same, ?_⟩
  simp only [Scope.committed, same] at replayed
  exact replayed

/-- A store with one balance, of nine coins. -/
def oneBalance : Store :=
  .ofList [(.ofBalance .zero, BalanceRecord.encode 9)]

/-- Remove a balance, try to put it back and to look at a domain, and read the balance twice. -/
def removalRequests : List Request :=
  [.get (.ofBalance .zero), .remove (.ofBalance .zero),
    .insert (.ofBalance .zero) (BalanceRecord.encode 5), .get (.ofDomain "island"),
    .get (.ofBalance .zero)]

/-- A key declared for `Write` cannot be created again, and the domain is not declared.  The other
three requests find the same in the store. -/
theorem removalRequests_refine :
    Backend.scope.granted removalRequests
        ⟨.ofStore oneBalance, .start (.ofKeys [(.ofBalance .zero, .write)])⟩ =
      [(.get (.ofBalance .zero), .ok (some (BalanceRecord.encode 9))),
        (.remove (.ofBalance .zero), .ok none), (.get (.ofBalance .zero), .ok none)] ∧
    Backend.store.serveAll
        [.get (.ofBalance .zero), .remove (.ofBalance .zero), .get (.ofBalance .zero)] oneBalance =
      ([.ok (some (BalanceRecord.encode 9)), .ok none, .ok none],
        oneBalance.commit (Backend.scope.serveAll removalRequests
          ⟨.ofStore oneBalance, .start (.ofKeys [(.ofBalance .zero, .write)])⟩).2.view.changes) := by
  have granted : Backend.scope.granted removalRequests
      ⟨.ofStore oneBalance, .start (.ofKeys [(.ofBalance .zero, .write)])⟩ =
      [(.get (.ofBalance .zero), .ok (some (BalanceRecord.encode 9))),
        (.remove (.ofBalance .zero), .ok none), (.get (.ofBalance .zero), .ok none)] := by
    decide +kernel
  obtain ⟨_, _, replayed⟩ := view_refines_store (.ofStore oneBalance)
    (.ofKeys [(.ofBalance .zero, .write)]) removalRequests
  rw [granted] at replayed
  exact ⟨granted, replayed⟩

end PoolLedger
