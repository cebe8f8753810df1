import PoolLedger.Proofs.ActionEffect
import PoolLedger.Proofs.ActionRuns
import PoolLedger.Proofs.CanonicalConflicts

/-!
# Actions within their declarations

Every action stays within its declaration whatever the state holds, so it ends
as it would against the plain store.  No access is ever refused by the view.
-/

namespace PoolLedger

namespace Program

variable {ε α : Type} {keys : List (StateKey × AccessMode)} {key : StateKey} {mode : AccessMode}
  {value : Bytes} {store : Store}

theorem granted_read [CarriesFault ε] (listed : (key, mode) ∈ keys)
    (decode : Bytes → Except CodecError α) :
    (read key decode : Program ε (Option α)).Granted (.ofKeys keys) store := by
  obtain ⟨declared, found, _⟩ := Declaration.get?_ofKeys listed
  refine ⟨⟨declared, found⟩, ?_⟩
  cases store.get? key with
  | none => trivial
  | some bytes =>
      simp only
      cases decode bytes <;> trivial

theorem granted_hasValue (listed : (key, mode) ∈ keys) :
    (hasValue key : Program ε Bool).Granted (.ofKeys keys) store := by
  obtain ⟨declared, found, _⟩ := Declaration.get?_ofKeys listed
  exact ⟨⟨declared, found⟩, trivial⟩

/-- A value may be put under a key that is listed for allocation. -/
theorem granted_allocate (listed : (key, .allocate) ∈ keys)
    (fits : value.length ≤ key.maxValueLength) :
    (insert key value (done ()) : Program ε Unit).Granted (.ofKeys keys) store := by
  obtain ⟨declared, found, allocates⟩ := Declaration.get?_ofKeys listed
  refine ⟨⟨declared, found, ?_⟩, fits, trivial⟩
  cases declared with
  | read => simp [AccessMode.strength] at allocates
  | write => simp [AccessMode.strength] at allocates
  | allocate =>
      refine ⟨rfl, ?_⟩
      intro isWrite
      cases isWrite

/-- A value may be replaced under a key that is listed for writing. -/
theorem granted_replace (listed : (key, .write) ∈ keys)
    (replaces : ∃ old, store.get? key = some old) (fits : value.length ≤ key.maxValueLength) :
    (insert key value (done ()) : Program ε Unit).Granted (.ofKeys keys) store := by
  obtain ⟨declared, found, writes⟩ := Declaration.get?_ofKeys listed
  refine ⟨⟨declared, found, ?_, fun _ => replaces⟩, fits, trivial⟩
  cases declared with
  | read => simp [AccessMode.strength] at writes
  | write => rfl
  | allocate => rfl

theorem granted_write [CarriesFault ε] {encoded : Except CodecError Bytes}
    (written : encoded = .ok value) (listed : (key, .allocate) ∈ keys)
    (fits : value.length ≤ key.maxValueLength) :
    (write key encoded : Program ε Unit).Granted (.ofKeys keys) store := by
  rw [written]
  exact granted_allocate listed fits

theorem granted_balance [CarriesFault ε] {account : Address}
    (listed : (.ofBalance account, mode) ∈ keys) :
    (balance account : Program ε Amount).Granted (.ofKeys keys) store :=
  granted_bind (granted_read listed _) fun _ _ _ => trivial

theorem granted_domainOwner [CarriesFault ε] {domain : String}
    (listed : (.ofDomain domain, mode) ∈ keys) :
    (domainOwner domain : Program ε (Option Address)).Granted (.ofKeys keys) store :=
  granted_bind (granted_read listed _) fun _ _ _ => trivial

theorem granted_setDomainOwner [CarriesFault ε] {domain : String} {owner : Address}
    (listed : (.ofDomain domain, .allocate) ∈ keys) :
    (setDomainOwner domain owner : Program ε Unit).Granted (.ofKeys keys) store :=
  granted_write (DomainRecord.encode_eq _) listed (DomainRecord.length_le_max domain owner)

theorem granted_setToken [CarriesFault ε] {token : Address} {record : TokenRecord}
    (bounded : record.Bounded) (listed : (.ofToken token, .allocate) ∈ keys) :
    (setToken token record : Program ε Unit).Granted (.ofKeys keys) store := by
  obtain ⟨bytes, written, length⟩ := TokenRecord.encode_of_bounded bounded
  apply granted_write written listed
  rw [length]
  exact TokenRecord.length_le_max token bounded

theorem granted_setPool [CarriesFault ε] {pool : Address} {record : PoolRecord}
    (listed : (.ofPool pool, .allocate) ∈ keys) :
    (setPool pool record : Program ε Unit).Granted (.ofKeys keys) store := by
  obtain ⟨bytes, written, length⟩ := PoolRecord.encode_eq record
  apply granted_write written listed
  rw [length]
  exact PoolRecord.length_le_max pool

theorem granted_credit {account : Address} (amount : Amount)
    (listed : (.ofBalance account, .allocate) ∈ keys) :
    (credit account amount).Granted (.ofKeys keys) store := by
  refine granted_bind (granted_balance listed) fun current after _ => ?_
  cases Amount.add? current amount with
  | none => trivial
  | some updated =>
      have fits := BalanceRecord.length_le_max account updated
      exact granted_bind (granted_allocate listed fits) fun _ _ _ => trivial

theorem granted_debit {account : Address} {amount : Amount} (positive : amount ≠ 0)
    (listed : (.ofBalance account, .write) ∈ keys) :
    (debit account amount).Granted (.ofKeys keys) store := by
  refine granted_bind (granted_balance listed) fun available after ran => ?_
  obtain ⟨found, rfl⟩ := run_balance_eq_ok_iff.mp ran
  cases enough : Amount.sub? available amount with
  | none => trivial
  | some remaining =>
      have fits := BalanceRecord.length_le_max account remaining
      have replaces := Store.exists_of_balance_ne_zero found
        (Amount.ne_zero_of_sub? enough positive)
      exact granted_bind (granted_replace listed replaces fits) fun _ _ _ => trivial

end Program

namespace Action

open Program

section Granted

variable {store : Store}

theorem granted_transfer (actor recipient : Address) (value : Amount) (memo : Bytes) :
    (runTransfer actor recipient value memo).Granted
      (declared actor (.transfer recipient value memo)) store := by
  refine granted_bind (granted_check _ _ _ _) fun _ _ checked => ?_
  obtain ⟨positive, rfl⟩ := run_check_eq_ok_iff.mp checked
  refine granted_bind (granted_check _ _ _ _) fun _ _ checked => ?_
  obtain ⟨_, rfl⟩ := run_check_eq_ok_iff.mp checked
  refine granted_bind (granted_balance List.mem_cons_self) fun available _ ran => ?_
  obtain ⟨found, rfl⟩ := run_balance_eq_ok_iff.mp ran
  cases enough : Amount.sub? available value with
  | none => trivial
  | some remaining =>
      have positiveFound := Amount.ne_zero_of_sub? enough (by simpa using positive)
      obtain ⟨old, stored⟩ := Store.exists_of_balance_ne_zero found positiveFound
      simp only
      split
      · trivial
      · have recipientListed : (StateKey.ofBalance recipient, AccessMode.allocate) ∈
            [(StateKey.ofBalance actor, AccessMode.write), (.ofBalance recipient, .allocate)] :=
          List.mem_cons_of_mem _ List.mem_cons_self
        refine granted_bind (granted_credit value recipientListed) fun received after ran => ?_
        obtain ⟨_, _, _, rfl⟩ := of_run_credit ran
        have replaces := Store.exists_get?_insert stored (.ofBalance recipient)
          (BalanceRecord.encode received)
        exact granted_bind (granted_replace List.mem_cons_self replaces
          (BalanceRecord.length_le_max actor remaining)) fun _ _ _ => trivial

theorem granted_hi (actor : Address) (name : Bytes) :
    (runHi actor name).Granted (declared actor (.hi name)) store := by
  refine granted_bind (granted_check _ _ _ _) fun _ _ _ => ?_
  exact granted_bind (granted_balance List.mem_cons_self) fun _ _ _ => trivial

theorem granted_claimDomain (actor : Address) (domain : String) :
    (runClaimDomain actor domain).Granted (declared actor (.claimDomain domain)) store := by
  have domainListed : (StateKey.ofDomain domain, AccessMode.allocate) ∈
      [(StateKey.ofBalance actor, AccessMode.write), (.ofDomain domain, .allocate)] :=
    List.mem_cons_of_mem _ List.mem_cons_self
  refine granted_bind (granted_check _ _ _ _) fun _ _ checked => ?_
  obtain ⟨notShort, rfl⟩ := run_check_eq_ok_iff.mp checked
  refine granted_bind (granted_check _ _ _ _) fun _ _ checked => ?_
  obtain ⟨notLong, rfl⟩ := run_check_eq_ok_iff.mp checked
  refine granted_bind (granted_domainOwner domainListed) fun owner _ _ => ?_
  refine granted_bind (granted_check _ _ _ _) fun _ _ _ => ?_
  refine granted_bind (granted_debit ?_ List.mem_cons_self) fun _ _ _ => ?_
  · exact domainPrice_ne_zero (of_decide_eq_true notShort) (of_decide_eq_true notLong)
  · exact granted_bind (granted_setDomainOwner domainListed) fun _ _ _ => trivial

theorem granted_whois (actor : Address) (domain : String) :
    (runWhois domain).Granted (declared actor (.whois domain)) store :=
  granted_bind (granted_domainOwner List.mem_cons_self) fun _ _ _ => trivial

theorem granted_createToken (actor : Address) (name symbol metadata : Bytes) (decimals : UInt8) :
    (runCreateToken actor name symbol metadata decimals).Granted
      (declared actor (.createToken name symbol metadata decimals)) store := by
  rw [runCreateToken]
  cases checked : TokenRecord.checkFields name symbol metadata decimals with
  | error error => trivial
  | ok passed =>
      have bounded := TokenRecord.bounded_of_checkFields checked actor
      refine granted_bind trivial fun _ _ _ => ?_
      refine granted_bind (granted_hasValue List.mem_cons_self) fun _ _ _ => ?_
      refine granted_bind (granted_check _ _ _ _) fun _ _ _ => ?_
      exact granted_bind (granted_setToken bounded List.mem_cons_self) fun _ _ _ => trivial

theorem granted_getTokenAddress (actor : Address) (name symbol metadata : Bytes) :
    (runGetTokenAddress name symbol metadata).Granted
      (declared actor (.getTokenAddress name symbol metadata)) store :=
  granted_bind (granted_hasValue List.mem_cons_self) fun _ _ _ => trivial

theorem granted_createLiquidityPool (params : Params) (actor : Address) (functionId : UInt8)
    (tokenX tokenY : Address) (fee : UInt64) :
    (runCreateLiquidityPool params actor functionId tokenX tokenY fee).Granted
      (declared actor (.createLiquidityPool functionId tokenX tokenY fee)) store := by
  refine granted_bind (granted_check _ _ _ _) fun _ _ _ => ?_
  refine granted_bind (granted_hasValue List.mem_cons_self) fun _ _ _ => ?_
  refine granted_bind (granted_check _ _ _ _) fun _ _ _ => ?_
  refine granted_bind (granted_hasValue (List.mem_cons_of_mem _ List.mem_cons_self)) fun _ _ _ => ?_
  refine granted_bind (granted_check _ _ _ _) fun _ _ _ => ?_
  refine granted_bind (granted_check _ _ _ _) fun _ _ _ => ?_
  refine granted_bind (granted_hasValue
    (List.mem_cons_of_mem _ (List.mem_cons_of_mem _ List.mem_cons_self))) fun _ _ _ => ?_
  refine granted_bind (granted_check _ _ _ _) fun _ _ _ => ?_
  refine granted_bind (granted_setToken (TokenRecord.bounded_ofPool _) (by simp)) fun _ _ _ => ?_
  exact granted_bind (granted_setPool (by simp)) fun _ _ _ => trivial

/-- Every action stays within its declaration, whatever the store holds. -/
theorem granted (params : Params) (actor : Address) (action : Action) (store : Store) :
    (action.program params actor).Granted (action.declared actor) store := by
  cases action with
  | transfer recipient value memo => exact granted_transfer actor recipient value memo
  | hi name => exact granted_hi actor name
  | claimDomain domain => exact granted_claimDomain actor domain
  | whois domain => exact granted_whois actor domain
  | createToken name symbol metadata decimals =>
      exact granted_createToken actor name symbol metadata decimals
  | getTokenAddress name symbol metadata =>
      exact granted_getTokenAddress actor name symbol metadata
  | createLiquidityPool functionId tokenX tokenY fee =>
      exact granted_createLiquidityPool params actor functionId tokenX tokenY fee

end Granted

end Action

/-- On a medium that refuses nothing, an action ends as it would against the plain store, and
the store is the one that it leaves there, or the old one if it fails. -/
theorem Medium.execute_eq_run (params : Params) (store : Store) (actor : Address)
    (action : Action) :
    (Medium.ofStore store).execute params actor action =
      match (action.program params actor).run .store store with
      | (.ok output, after) => (.ok output, .ofStore after)
      | (.error error, _) => (.error (.ofActionError error), .ofStore store) := by
  obtain ⟨sameResult, sameStore⟩ := Program.run_view_of_granted (action.program params actor)
    (.start (action.declared actor)) store (action.granted params actor store)
  rw [execute_ofStore, Action.effect, runInView]
  rcases inView : (action.program params actor).run (.view (Medium.ofStore store).read)
    (.start (action.declared actor)) with ⟨viewResult, view⟩
  rcases direct : (action.program params actor).run .store store with ⟨result, after⟩
  rw [inView] at sameResult sameStore
  simp only [View.start, Store.commit_empty, direct] at sameResult sameStore
  subst sameResult
  cases viewResult with
  | error error => rfl
  | ok output => simp only [Action.settle, sameStore]

/-- An execution that succeeds, on whatever medium, ends as the action does against the plain
store. -/
theorem Medium.run_of_execute {params : Params} {medium after : Medium} {actor : Address}
    {action : Action} {output : Output}
    (executed : medium.execute params actor action = (.ok output, after)) :
    (action.program params actor).run .store medium.store = (.ok output, after.store) := by
  rw [execute, runInView] at executed
  rcases ran : (action.program params actor).run (.view medium.read)
    (.start (action.declared actor)) with ⟨result, view⟩
  rw [ran] at executed
  cases result with
  | error error => cases executed
  | ok found =>
      have plain := Program.run_store_of_run_view _ ran
      rw [View.start, Store.commit_empty] at plain
      simp only [commit] at executed
      by_cases refused : medium.uncommittable.any view.changes.contains = true
      · simp only [refused, if_true] at executed
        cases executed
      · simp only [refused, Bool.false_eq_true, if_false] at executed
        cases executed
        exact plain

theorem Ledger.run_of_execute {ledger after : Ledger} {actor : Address} {action : Action}
    {output : Output} (executed : ledger.execute actor action = (.ok output, after)) :
    (action.program ledger.params actor).run .store ledger.medium.store =
      (.ok output, after.medium.store) := by
  rw [execute] at executed
  rcases inMedium : ledger.medium.execute ledger.params actor action with ⟨result, medium⟩
  rw [inMedium] at executed
  cases executed
  exact Medium.run_of_execute inMedium

end PoolLedger
