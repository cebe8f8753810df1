import PoolLedger.Proofs.ViewRefinement

/-!
# What a view lets through

Whatever is asked of a view, and whether or not it is granted, the store that
the view commits to differs from the store beneath as the declaration allows.
A key that was removed under mode `Write` cannot come back, because the view
sees its own removal when it looks for a value to replace.
-/

namespace PoolLedger

/-- The key that a request is about. -/
def Request.key : Request → StateKey
  | get key | insert key _ | remove key => key

namespace View

variable {view after : View} {base : Reading} {key : StateKey} {value : Bytes}

/-- Every recorded change is of a key that the declaration lets change.  If it puts a value, the
key has room for it, and has a value beneath unless it may be allocated. -/
def Restrained (view : View) (base : Reading) : Prop :=
  ∀ key change, view.changes.get? key = some change →
    ∃ mode, view.declared.get? key = some mode ∧ mode.isMutating = true ∧
      ∀ value, change = some value →
        value.length ≤ key.maxValueLength ∧ (mode = .write → ∃ old, base key = .ok (some old))

theorem restrained_start (declared : Declaration) (base : Reading) :
    (start declared).Restrained base := by
  intro key change found
  cases found

/-- A value that a restrained view has for a key declared for `Write` takes the place of one
beneath. -/
theorem Restrained.beneath_of_current (restrained : view.Restrained base) {old : Bytes}
    (declared : view.declared.get? key = some .write)
    (found : view.current base key = .ok (some old)) : ∃ old, base key = .ok (some old) := by
  unfold current at found
  cases recorded : view.changes.get? key with
  | none =>
      rw [recorded] at found
      exact ⟨old, found⟩
  | some change =>
      rw [recorded] at found
      have isPut : change = some old := Except.ok.inj found
      obtain ⟨mode, modeDeclared, _, puts⟩ := restrained key change recorded
      rw [declared] at modeDeclared
      cases modeDeclared
      exact (puts old isPut).2 rfl

theorem Restrained.of_insert (restrained : view.Restrained base)
    (inserted : view.insert base key value = .ok after) : after.Restrained base := by
  obtain ⟨mode, declared, mutating, replaces, fits, rfl⟩ := insert_eq_ok_iff.mp inserted
  intro touched change found
  by_cases same : touched = key
  · subst same
    replace found := (SortedMap.get?_insert_self _ touched (some value)).symm.trans found
    cases found
    refine ⟨mode, declared, mutating, ?_⟩
    rintro _ ⟨⟩
    constructor
    · exact fits
    · rintro rfl
      obtain ⟨old, current⟩ := replaces rfl
      exact restrained.beneath_of_current declared current
  · exact restrained touched change ((SortedMap.get?_insert_of_ne _ _ same).symm.trans found)

theorem Restrained.of_remove (restrained : view.Restrained base)
    (removed : view.remove key = .ok after) : after.Restrained base := by
  obtain ⟨mode, declared, mutating, rfl⟩ := remove_eq_ok_iff.mp removed
  intro touched change found
  by_cases same : touched = key
  · subst same
    replace found := (SortedMap.get?_insert_self _ touched none).symm.trans found
    cases found
    exact ⟨mode, declared, mutating, nofun⟩
  · exact restrained touched change ((SortedMap.get?_insert_of_ne _ _ same).symm.trans found)

theorem insert_of_undeclared (undeclared : view.declared.get? key = none) :
    view.insert base key value = .error (.undeclaredKey key) := by
  simp [insert, require, undeclared, bind, Except.bind]

theorem remove_of_undeclared (undeclared : view.declared.get? key = none) :
    view.remove key = .error (.undeclaredKey key) := by
  simp [remove, require, undeclared, bind, Except.bind]

end View

/-- The later store differs from the earlier one only as the declaration allows: keys that are not
declared, or are declared for `Read`, keep what they hold, `Write` creates nothing, and a new value
has no more bytes than its key allows. -/
structure Store.Respects (declared : Declaration) (before after : Store) : Prop where
  untouched : ∀ key, declared.get? key = none ∨ declared.get? key = some .read →
    after.get? key = before.get? key
  uncreated : ∀ key, declared.get? key = some .write → before.get? key = none →
    after.get? key = none
  fits : ∀ key value, after.get? key = some value → before.get? key ≠ some value →
    value.length ≤ key.maxValueLength

theorem View.Restrained.respects_commit {view : View} {medium : Medium}
    (restrained : view.Restrained medium.read) :
    medium.store.Respects view.declared (medium.store.commit view.changes) := by
  constructor
  · intro key notMutable
    apply Store.get?_commit_of_untouched
    rw [Option.eq_none_iff_forall_ne_some]
    intro change recorded
    obtain ⟨mode, declared, mutating, _⟩ := restrained key change recorded
    rw [declared] at notMutable
    rcases notMutable with undeclared | isRead
    · cases undeclared
    · cases isRead
      cases mutating
  · intro key declared absent
    rw [Store.get?_commit]
    cases recorded : view.changes.get? key with
    | none => exact absent
    | some change =>
        cases change with
        | none => rfl
        | some value =>
            obtain ⟨mode, modeDeclared, _, puts⟩ := restrained key (some value) recorded
            rw [declared] at modeDeclared
            cases modeDeclared
            obtain ⟨old, beneath⟩ := (puts value rfl).2 rfl
            rw [Medium.get?_of_read beneath] at absent
            cases absent
  · intro key value found differs
    rw [Store.get?_commit] at found
    cases recorded : view.changes.get? key with
    | none =>
        rw [recorded] at found
        exact absurd found differs
    | some change =>
        rw [recorded] at found
        obtain ⟨_, _, _, puts⟩ := restrained key change recorded
        exact (puts value found).1

namespace Scope

variable {scope : Scope}

/-- No request changes the declaration of a view. -/
theorem declared_serve (request : Request) (scope : Scope) :
    (Backend.scope.serve request scope).2.view.declared = scope.view.declared := by
  cases request with
  | get key =>
      simp only [Backend.serve, Request.program, Program.run]
      split <;> rfl
  | insert key value =>
      simp only [Backend.serve, Request.program, Program.run, Backend.scope]
      cases inserted : scope.view.insert scope.medium.read key value with
      | error fault => rfl
      | ok after =>
          obtain ⟨_, _, _, _, _, rfl⟩ := View.insert_eq_ok_iff.mp inserted
          rfl
  | remove key =>
      simp only [Backend.serve, Request.program, Program.run, Backend.scope]
      cases removed : scope.view.remove key with
      | error fault => rfl
      | ok after =>
          obtain ⟨_, _, _, rfl⟩ := View.remove_eq_ok_iff.mp removed
          rfl

theorem declared_serveAll (requests : List Request) (scope : Scope) :
    (Backend.scope.serveAll requests scope).2.view.declared = scope.view.declared := by
  induction requests generalizing scope with
  | nil => rfl
  | cons request rest ih => exact (ih _).trans (declared_serve request scope)

/-- A request, granted or refused, leaves the view restrained. -/
theorem restrained_serve (restrained : scope.view.Restrained scope.medium.read)
    (request : Request) :
    (Backend.scope.serve request scope).2.view.Restrained scope.medium.read := by
  cases request with
  | get key =>
      simp only [Backend.serve, Request.program, Program.run]
      split <;> exact restrained
  | insert key value =>
      simp only [Backend.serve, Request.program, Program.run, Backend.scope]
      cases inserted : scope.view.insert scope.medium.read key value with
      | error fault => exact restrained
      | ok after => exact restrained.of_insert inserted
  | remove key =>
      simp only [Backend.serve, Request.program, Program.run, Backend.scope]
      cases removed : scope.view.remove key with
      | error fault => exact restrained
      | ok after => exact restrained.of_remove removed

theorem restrained_serveAll (restrained : scope.view.Restrained scope.medium.read)
    (requests : List Request) :
    (Backend.scope.serveAll requests scope).2.view.Restrained scope.medium.read := by
  induction requests generalizing scope with
  | nil => exact restrained
  | cons request rest ih =>
      have served := restrained_serve restrained request
      rw [← medium_serve request scope] at served ⊢
      exact ih served

theorem serve_of_undeclared {request : Request}
    (undeclared : scope.view.declared.get? request.key = none) :
    (Backend.scope.serve request scope).1 = .error (.undeclaredKey request.key) := by
  unfold Request.key at undeclared ⊢
  cases request with
  | get key =>
      simp only [Backend.serve, Request.program, Program.run, Backend.scope,
        View.get_of_undeclared undeclared]
      rfl
  | insert key value =>
      simp only [Backend.serve, Request.program, Program.run, Backend.scope,
        View.insert_of_undeclared undeclared, Except.map]
      rfl
  | remove key =>
      simp only [Backend.serve, Request.program, Program.run, Backend.scope,
        View.remove_of_undeclared undeclared, Except.map]
      rfl

/-- At every point of a run, a request for a key that is not declared is refused as such. -/
theorem getElem?_serveAll_of_undeclared {requests : List Request} {position : Nat}
    {request : Request} (asked : requests[position]? = some request)
    (undeclared : scope.view.declared.get? request.key = none) :
    (Backend.scope.serveAll requests scope).1[position]? =
      some (.error (.undeclaredKey request.key)) := by
  induction requests generalizing scope position with
  | nil => cases asked
  | cons head rest ih =>
      cases position with
      | zero =>
          cases asked
          exact congrArg some (serve_of_undeclared undeclared)
      | succ position =>
          apply ih asked
          rw [declared_serve]
          exact undeclared

end Scope

/-- Whatever is asked of a view over a medium, the store that its changes are committed to
respects the declaration, and every request for an undeclared key is refused as such. -/
theorem view_enforces_declaration (medium : Medium) (declared : Declaration)
    (requests : List Request) :
    medium.store.Respects declared
        (medium.store.commit
          (Backend.scope.serveAll requests ⟨medium, .start declared⟩).2.view.changes) ∧
      ∀ (position : Nat) (request : Request), requests[position]? = some request →
        declared.get? request.key = none →
          (Backend.scope.serveAll requests ⟨medium, .start declared⟩).1[position]? =
            some (.error (.undeclaredKey request.key)) := by
  constructor
  · have restrained : (Backend.scope.serveAll requests
        ⟨medium, .start declared⟩).2.view.Restrained medium.read :=
      Scope.restrained_serveAll (View.restrained_start declared medium.read) requests
    have respects := restrained.respects_commit
    rw [Scope.declared_serveAll] at respects
    exact respects
  · intro position request asked undeclared
    exact Scope.getElem?_serveAll_of_undeclared asked undeclared

/-- A balance to look at, a domain to replace, and a domain that may be created. -/
def harbourKeys : Declaration :=
  .ofKeys [(.ofBalance .zero, .read), (.ofDomain "island", .write), (.ofDomain "harbour", .allocate)]

/-- Remove what may only be read, create what may only be replaced, twice with a removal between,
put a value that is too long and one that is not, and look at a token. -/
def harbourRequests : List Request :=
  [.remove (.ofBalance .zero), .insert (.ofDomain "island") [1], .remove (.ofDomain "island"),
    .insert (.ofDomain "island") [1], .insert (.ofDomain "harbour") (List.replicate 65 0),
    .insert (.ofDomain "harbour") [7], .get (.ofToken .zero)]

/-- Two of the seven requests change something, and only one of them the store. -/
theorem harbourRequests_respect :
    ∃ after, after = oneBalance.commit (Backend.scope.serveAll harbourRequests
        ⟨.ofStore oneBalance, .start harbourKeys⟩).2.view.changes ∧
      harbourKeys.get? (.ofBalance .zero) = some .read ∧
      after.get? (.ofBalance .zero) = oneBalance.get? (.ofBalance .zero) ∧
      harbourKeys.get? (.ofDomain "island") = some .write ∧
      oneBalance.get? (.ofDomain "island") = none ∧ after.get? (.ofDomain "island") = none ∧
      after.get? (.ofDomain "harbour") = some [7] ∧
      oneBalance.get? (.ofDomain "harbour") ≠ some [7] ∧
      [(7 : UInt8)].length ≤ (StateKey.ofDomain "harbour").maxValueLength ∧
      harbourRequests[6]? = some (.get (.ofToken .zero)) ∧
      harbourKeys.get? (.ofToken .zero) = none ∧
      (Backend.scope.serveAll harbourRequests
        ⟨.ofStore oneBalance, .start harbourKeys⟩).1[6]? =
          some (.error (.undeclaredKey (.ofToken .zero))) := by
  obtain ⟨respects, refuses⟩ :=
    view_enforces_declaration (.ofStore oneBalance) harbourKeys harbourRequests
  have isRead : harbourKeys.get? (.ofBalance .zero) = some .read := by decide +kernel
  have isWrite : harbourKeys.get? (.ofDomain "island") = some .write := by decide +kernel
  have absent : oneBalance.get? (.ofDomain "island") = none := by decide +kernel
  have isPut : (oneBalance.commit (Backend.scope.serveAll harbourRequests
      ⟨.ofStore oneBalance, .start harbourKeys⟩).2.view.changes).get? (.ofDomain "harbour") =
        some [7] := by
    decide +kernel
  have isNew : oneBalance.get? (.ofDomain "harbour") ≠ some [7] := by decide +kernel
  have undeclared : harbourKeys.get? (.ofToken .zero) = none := by decide +kernel
  exact ⟨_, rfl, isRead, respects.untouched _ (.inr isRead), isWrite, absent,
    respects.uncreated _ isWrite absent, isPut, isNew, respects.fits _ _ isPut isNew, rfl,
    undeclared, refuses 6 (.get (.ofToken .zero)) rfl undeclared⟩

end PoolLedger
