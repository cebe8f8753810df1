import PoolLedger.Proofs.ScopedRuns
import PoolLedger.Proofs.ViewRefinement

/-!
# Stronger declarations

What a view grants under a declaration it also grants under one that is at least
as strong for every key, with the same answer and the same change.  A mode that
may create a value is not asked for one to replace, so the two modes that change
a key are compared request by request.
-/

namespace PoolLedger

namespace View

variable {view after : View} {base : Reading} {granted : Declaration} {key : StateKey}
  {value : Bytes}

/-- The changes of a view, under another declaration. -/
def redeclare (view : View) (declared : Declaration) : View :=
  { view with declared }

theorem get_redeclare (grants : granted.Grants view.declared) {found : Option Bytes}
    (answered : view.get base key = .ok found) :
    (view.redeclare granted).get base key = .ok found := by
  cases declared : view.declared.get? key with
  | none =>
      rw [get_of_undeclared declared] at answered
      cases answered
  | some mode =>
      obtain ⟨stronger, isGranted, _⟩ := grants key mode declared
      have sameReading : (view.redeclare granted).get base key = view.current base key :=
        get_of_declared isGranted
      rw [sameReading, ← get_of_declared declared]
      exact answered

theorem insert_redeclare (grants : granted.Grants view.declared)
    (inserted : view.insert base key value = .ok after) :
    (view.redeclare granted).insert base key value = .ok (after.redeclare granted) := by
  obtain ⟨mode, declared, mutating, replaces, fits, rfl⟩ := insert_eq_ok_iff.mp inserted
  obtain ⟨stronger, isGranted, permits⟩ := grants key mode declared
  obtain ⟨strongerMutates, noWeaker⟩ := AccessMode.isMutating_of_permits permits mutating
  apply insert_eq_ok_iff.mpr
  refine ⟨stronger, isGranted, strongerMutates, ?_, fits, rfl⟩
  -- Only a mode that needs a value to replace leads here, and then so did the weaker one.
  intro isWrite
  exact replaces (noWeaker isWrite)

theorem remove_redeclare (grants : granted.Grants view.declared)
    (removed : view.remove key = .ok after) :
    (view.redeclare granted).remove key = .ok (after.redeclare granted) := by
  obtain ⟨mode, declared, mutating, rfl⟩ := remove_eq_ok_iff.mp removed
  obtain ⟨stronger, isGranted, permits⟩ := grants key mode declared
  apply remove_eq_ok_iff.mpr
  exact ⟨stronger, isGranted, (AccessMode.isMutating_of_permits permits mutating).1, rfl⟩

section Requests

variable {request : Request} {found : Option Bytes}

/-- A granted request is granted under every stronger declaration, and the two views go on with the
same changes. -/
theorem serve_redeclare (grants : granted.Grants view.declared)
    (served : (Backend.view base).serve request view = (.ok found, after)) :
    (Backend.view base).serve request (view.redeclare granted) =
        (.ok found, after.redeclare granted) ∧
      after.declared = view.declared := by
  cases request with
  | get key =>
      simp only [Backend.serve, Request.program, Program.run, Backend.view] at served ⊢
      split at served
      · cases served
      · rename_i answer answered
        cases served
        rw [get_redeclare grants answered]
        exact ⟨rfl, rfl⟩
  | insert key value =>
      simp only [Backend.serve, Request.program, Program.run, Backend.view] at served ⊢
      split at served
      · cases served
      · rename_i middle inserted
        cases served
        obtain ⟨_, _, _, _, _, isAfter⟩ := insert_eq_ok_iff.mp inserted
        rw [insert_redeclare grants inserted]
        exact ⟨rfl, by rw [isAfter]⟩
  | remove key =>
      simp only [Backend.serve, Request.program, Program.run, Backend.view] at served ⊢
      split at served
      · cases served
      · rename_i middle removed
        cases served
        obtain ⟨_, _, _, isAfter⟩ := remove_eq_ok_iff.mp removed
        rw [remove_redeclare grants removed]
        exact ⟨rfl, by rw [isAfter]⟩

/-- The same for requests that are made one after the other, if all of them are granted. -/
theorem serveAll_redeclare {requests : List Request} (grants : granted.Grants view.declared)
    (allGranted : ∀ answer ∈ ((Backend.view base).serveAll requests view).1,
      answer.isOk = true) :
    (Backend.view base).serveAll requests (view.redeclare granted) =
      (((Backend.view base).serveAll requests view).1,
        ((Backend.view base).serveAll requests view).2.redeclare granted) := by
  induction requests generalizing view with
  | nil => rfl
  | cons request rest ih =>
      rcases served : (Backend.view base).serve request view with ⟨answer, after⟩
      simp only [Backend.serveAll, served] at allGranted ⊢
      cases answer with
      | error fault =>
          have isOk := allGranted (.error fault) List.mem_cons_self
          cases isOk
      | ok found =>
          obtain ⟨sameAnswer, sameDeclared⟩ := serve_redeclare grants served
          have restGranted : ∀ answer ∈ ((Backend.view base).serveAll rest after).1,
              answer.isOk = true :=
            fun answer member => allGranted answer (List.mem_cons_of_mem _ member)
          rw [← sameDeclared] at grants
          rw [sameAnswer, ih grants restGranted]

end Requests

end View

/-- Requests that a view over any base grants are granted, every one with the same answer, under
each declaration that is at least as strong for every key, and they leave the same change set. -/
theorem stronger_declaration_serves_alike (base : Reading) {granted needed : Declaration}
    (grants : granted.Grants needed) (requests : List Request)
    (allGranted : ∀ answer ∈ ((Backend.view base).serveAll requests (.start needed)).1,
      answer.isOk = true) :
    (∀ answer ∈ ((Backend.view base).serveAll requests (.start granted)).1,
        answer.isOk = true) ∧
      ((Backend.view base).serveAll requests (.start granted)).1 =
        ((Backend.view base).serveAll requests (.start needed)).1 ∧
      ((Backend.view base).serveAll requests (.start granted)).2.changes =
        ((Backend.view base).serveAll requests (.start needed)).2.changes := by
  have alike : (Backend.view base).serveAll requests (.start granted) =
      (((Backend.view base).serveAll requests (.start needed)).1,
        ((Backend.view base).serveAll requests (.start needed)).2.redeclare granted) :=
    View.serveAll_redeclare grants allGranted
  rw [alike]
  exact ⟨allGranted, rfl, rfl⟩

/-- A balance that may be replaced, and a domain to look at. -/
def quietKeys : Declaration :=
  .ofKeys [(.ofBalance .zero, .write), (.ofDomain "island", .read)]

/-- The balance may be created as well, the domain replaced, and a token looked at besides. -/
def looseKeys : Declaration :=
  .ofKeys [(.ofBalance .zero, .allocate), (.ofDomain "island", .write), (.ofToken .zero, .read)]

/-- Replace the balance, look for the domain, remove the balance and look for it. -/
def quietRequests : List Request :=
  [.insert (.ofBalance .zero) (BalanceRecord.encode 5), .get (.ofDomain "island"),
    .remove (.ofBalance .zero), .get (.ofBalance .zero)]

/-- A medium with one balance that cannot read a token. -/
def tokenlessMedium : Medium :=
  { store := oneBalance, unreadable := [.ofToken .zero] }

theorem quietRequests_served_alike :
    looseKeys.Grants quietKeys ∧
      ((Backend.view tokenlessMedium.read).serveAll quietRequests (.start quietKeys)).1 =
        [.ok none, .ok none, .ok none, .ok none] ∧
      ((Backend.view tokenlessMedium.read).serveAll quietRequests (.start looseKeys)).1 =
        [.ok none, .ok none, .ok none, .ok none] ∧
      ((Backend.view tokenlessMedium.read).serveAll quietRequests
        (.start looseKeys)).2.changes = ChangeSet.delete .empty (.ofBalance .zero) := by
  have grants : looseKeys.Grants quietKeys := by decide +kernel
  have answers : ((Backend.view tokenlessMedium.read).serveAll quietRequests
      (.start quietKeys)).1 = [.ok none, .ok none, .ok none, .ok none] := by
    decide +kernel
  have changes : ((Backend.view tokenlessMedium.read).serveAll quietRequests
      (.start quietKeys)).2.changes = ChangeSet.delete .empty (.ofBalance .zero) := by
    decide +kernel
  have allGranted : ∀ answer ∈ ((Backend.view tokenlessMedium.read).serveAll quietRequests
      (.start quietKeys)).1, answer.isOk = true := by
    rw [answers]
    simp [Except.isOk, Except.toBool]
  obtain ⟨_, sameAnswers, sameChanges⟩ :=
    stronger_declaration_serves_alike tokenlessMedium.read grants quietRequests allGranted
  exact ⟨grants, answers, sameAnswers.trans answers, sameChanges.trans changes⟩

end PoolLedger
