import PoolLedger.Proofs.ActionGrant
import PoolLedger.Proofs.BatchSerial
import PoolLedger.Proofs.StoredBooks

/-!
# Actions keep the books

In a well-formed store every action is answered as its books say: with the first
reason to refuse it, or with the output of its entry.  The store stays well
formed, keeps the books after the entry, and holds what it held under all keys
that are not the keys of records.
-/

namespace PoolLedger

open Batch

namespace Amount

theorem sub?_eq_none_iff {first second : Amount} : sub? first second = none ↔ first < second := by
  simp [sub?]

theorem sub?_eq_some_iff {first second rest : Amount} :
    sub? first second = some rest ↔ second ≤ first ∧ first - second = rest := by
  simp [sub?]

theorem add?_eq_none_iff {first second : Amount} :
    add? first second = none ↔ UInt64.size ≤ first.toNat + second.toNat := by
  simp [add?]

theorem add?_eq_some_iff {first second sum : Amount} :
    add? first second = some sum ↔
      first.toNat + second.toNat < UInt64.size ∧ first + second = sum := by
  simp [add?]

end Amount

theorem ExecutionError.ofActionError_eq {error : ActionError}
    (notFault : ∀ fault, error ≠ .state fault) : ofActionError error = .rejected error := by
  cases error with
  | state fault => exact absurd rfl (notFault fault)
  | _ => rfl

/-- A run of an action in a store has the answer and leaves the books that were reckoned. -/
structure KeepsBooks {ε : Type} (store : Store) (ran : Except ε Output × Store)
    (reckoned : Except ε Output × Books) : Prop where
  answer : ran.1 = reckoned.1
  wellFormed : ran.2.WellFormed
  books : ran.2.books = reckoned.2
  elsewhere : ∀ key, ¬ key.OfRecord → ran.2.get? key = store.get? key

namespace KeepsBooks

variable {store : Store} {ran : Except ActionError Output × Store} {applies : Bool}
  {error : ActionError} {refusals : List Refusal} {entered : Output × Books}

theorem refused (wellFormed : store.WellFormed) (first : Refusal.first? refusals = some error) :
    KeepsBooks store (.error error, store) (store.books.settle refusals entered) := by
  rw [Books.settle, first]
  exact ⟨rfl, wellFormed, rfl, fun _ _ => rfl⟩

theorem unchanged (wellFormed : store.WellFormed) (output : Output) :
    KeepsBooks store (.ok output, store) (store.books.settle [] (output, store.books)) :=
  ⟨rfl, wellFormed, rfl, fun _ _ => rfl⟩

/-- A reason that does not apply may be left out. -/
theorem passed (passes : applies = false)
    (rest : KeepsBooks store ran (store.books.settle refusals entered)) :
    KeepsBooks store ran (store.books.settle (⟨applies, error⟩ :: refusals) entered) := by
  simpa only [Books.settle, Refusal.first?, passes, Bool.false_eq_true, if_false] using rest

/-- A check of the run is a reason to refuse. -/
theorem check (wellFormed : store.WellFormed) {condition : Prop} [Decidable condition]
    (same : condition ↔ applies = true)
    (rest : ¬ condition → KeepsBooks store ran (store.books.settle refusals entered)) :
    KeepsBooks store (if condition then (.error error, store) else ran)
      (store.books.settle (⟨applies, error⟩ :: refusals) entered) := by
  by_cases holds : condition
  · rw [if_pos holds]
    refine refused wellFormed ?_
    rw [Refusal.first?, if_pos (same.mp holds)]
  · rw [if_neg holds]
    exact passed (Bool.eq_false_iff.mpr fun positive => holds (same.mpr positive)) (rest holds)

end KeepsBooks

namespace Action

section Actions

variable {store : Store} (wellFormed : store.WellFormed) (params : Params) (actor : Address)

include wellFormed

theorem keepsBooks_transfer (recipient : Address) (value : Amount) (memo : Bytes) :
    KeepsBooks store ((runTransfer actor recipient value memo).run .store store)
      (store.books.transition params actor (.transfer recipient value memo)) := by
  rw [run_transfer value memo (wellFormed.balance actor) (wellFormed.balance recipient)]
  refine .check wellFormed decide_eq_true_iff.symm fun _ => ?_
  refine .check wellFormed decide_eq_true_iff.symm fun _ => ?_
  cases enough : Amount.sub? (store.books.balance actor) value with
  | none =>
      have short := Amount.sub?_eq_none_iff.mp enough
      exact .refused wellFormed (by simp [Refusal.first?, short])
  | some remaining =>
      obtain ⟨covered, rfl⟩ := Amount.sub?_eq_some_iff.mp enough
      refine .passed (decide_eq_false (UInt64.not_lt.mpr covered)) ?_
      by_cases self : actor = recipient
      · simp only [if_pos self, Books.enter]
        exact .passed (by simp [self]) (.unchanged wellFormed _)
      · simp only [if_neg self, Books.enter]
        cases sum : Amount.add? (store.books.balance recipient) value with
        | none =>
            have overflows := Amount.add?_eq_none_iff.mp sum
            exact .refused wellFormed (by simpa [Refusal.first?, self] using overflows)
        | some received =>
            obtain ⟨fits, rfl⟩ := Amount.add?_eq_some_iff.mp sum
            refine .passed (by simpa [self] using fits) ?_
            refine ⟨rfl, (wellFormed.setBalance _ _).setBalance _ _, ?_, fun key notRecord => ?_⟩
            · rw [Store.books_setBalance, Store.books_setBalance]
              rfl
            · rw [Store.get?_setBalance notRecord, Store.get?_setBalance notRecord]

theorem keepsBooks_hi (name : Bytes) :
    KeepsBooks store ((runHi actor name).run .store store)
      (store.books.transition params actor (.hi name)) := by
  rw [run_hi name (wellFormed.balance actor)]
  exact .check wellFormed decide_eq_true_iff.symm fun _ => .unchanged wellFormed _

theorem keepsBooks_claimDomain (domain : String) :
    KeepsBooks store ((runClaimDomain actor domain).run .store store)
      (store.books.transition params actor (.claimDomain domain)) := by
  rw [run_claimDomain domain (wellFormed.balance actor) (wellFormed.domainOwner domain),
    Bytes.length_ofText]
  refine .check wellFormed decide_eq_true_iff.symm fun _ => ?_
  refine .check wellFormed decide_eq_true_iff.symm fun _ => ?_
  refine .check wellFormed Iff.rfl fun _ => ?_
  simp only
  cases enough : Amount.sub? (store.books.balance actor) (10 ^ (11 - domain.utf8ByteSize)) with
  | none =>
      have short := Amount.sub?_eq_none_iff.mp enough
      exact .refused wellFormed (by simp [Refusal.first?, Books.price, short])
  | some remaining =>
      obtain ⟨covered, rfl⟩ := Amount.sub?_eq_some_iff.mp enough
      refine .passed (decide_eq_false (UInt64.not_lt.mpr covered)) ?_
      refine ⟨rfl, (wellFormed.setBalance _ _).setDomainOwner _ _, ?_, fun key notRecord => ?_⟩
      · rw [Store.books_setDomainOwner, Store.books_setBalance]
        rfl
      · rw [Store.get?_setDomainOwner notRecord, Store.get?_setBalance notRecord]

theorem keepsBooks_whois (domain : String) :
    KeepsBooks store ((runWhois domain).run .store store)
      (store.books.transition params actor (.whois domain)) := by
  rw [run_whois domain (wellFormed.domainOwner domain)]
  exact .unchanged wellFormed _

theorem keepsBooks_createToken (name symbol metadata : Bytes) (decimals : UInt8) :
    KeepsBooks store ((runCreateToken actor name symbol metadata decimals).run .store store)
      (store.books.transition params actor (.createToken name symbol metadata decimals)) := by
  rw [run_createToken, Books.checkFields_eq]
  simp only [wellFormed.hasToken]
  cases refused : Refusal.first? (Books.fieldRefusals name symbol metadata decimals) with
  | some error =>
      refine .refused wellFormed ?_
      rw [Books.refusals, Refusal.first?_append, refused, Option.some_or]
  | none =>
      have checked : TokenRecord.checkFields name symbol metadata decimals = .ok () := by
        rw [Books.checkFields_eq, refused]
      have bounded := TokenRecord.bounded_of_checkFields checked actor
      rw [Books.transition, Books.refusals, Books.settle_append refused]
      refine .check wellFormed Iff.rfl fun _ => ?_
      refine ⟨rfl, wellFormed.setToken _ bounded, Store.books_setToken _ _ bounded,
        fun key notRecord => ?_⟩
      exact Store.get?_setToken notRecord

theorem keepsBooks_getTokenAddress (name symbol metadata : Bytes) :
    KeepsBooks store ((runGetTokenAddress name symbol metadata).run .store store)
      (store.books.transition params actor (.getTokenAddress name symbol metadata)) := by
  rw [run_getTokenAddress, wellFormed.hasToken]
  exact .unchanged wellFormed _

theorem keepsBooks_createLiquidityPool (functionId : UInt8) (tokenX tokenY : Address)
    (fee : UInt64) :
    KeepsBooks store
      ((runCreateLiquidityPool params actor functionId tokenX tokenY fee).run .store store)
      (store.books.transition params actor
        (.createLiquidityPool functionId tokenX tokenY fee)) := by
  rw [run_createLiquidityPool]
  simp only [wellFormed.hasToken, wellFormed.hasPool]
  refine .check wellFormed decide_eq_true_iff.symm fun _ => ?_
  refine .check wellFormed (by simp) fun _ => ?_
  refine .check wellFormed (by simp) fun _ => ?_
  refine .check wellFormed (by simp [SortedMap.contains]) fun _ => ?_
  refine .check wellFormed Iff.rfl fun _ => ?_
  have bounded := TokenRecord.bounded_ofPool (.ofPool tokenX tokenY)
  refine ⟨rfl, (wellFormed.setToken _ bounded).setPool _ _, ?_, fun key notRecord => ?_⟩
  · rw [Store.books_setPool, Store.books_setToken _ _ bounded]
    rfl
  · rw [Store.get?_setPool notRecord, Store.get?_setToken notRecord]

/-- Every action keeps the books of a well-formed store. -/
theorem keepsBooks (action : Action) :
    KeepsBooks store ((action.program params actor).run .store store)
      (store.books.transition params actor action) := by
  cases action with
  | transfer recipient value memo =>
      exact keepsBooks_transfer wellFormed params actor recipient value memo
  | hi name => exact keepsBooks_hi wellFormed params actor name
  | claimDomain domain => exact keepsBooks_claimDomain wellFormed params actor domain
  | whois domain => exact keepsBooks_whois wellFormed params actor domain
  | createToken name symbol metadata decimals =>
      exact keepsBooks_createToken wellFormed params actor name symbol metadata decimals
  | getTokenAddress name symbol metadata =>
      exact keepsBooks_getTokenAddress wellFormed params actor name symbol metadata
  | createLiquidityPool functionId tokenX tokenY fee =>
      exact keepsBooks_createLiquidityPool wellFormed params actor functionId tokenX tokenY fee

/-- The effect of an action keeps the books; what is refused in them is rejected. -/
theorem effect_keepsBooks (action : Action) :
    KeepsBooks store
      ((action.effect params actor store).1, store.commit (action.effect params actor store).2)
      ((store.books.transition params actor action).1.mapError .rejected,
        (store.books.transition params actor action).2) := by
  have executed := Medium.execute_eq_run params store actor action
  have kept := keepsBooks wellFormed params actor action
  rw [Medium.execute_ofStore] at executed
  rcases ran : (action.program params actor).run .store store with ⟨result, after⟩
  rw [ran] at executed kept
  cases result with
  | ok output =>
      obtain ⟨sameResult, sameMedium⟩ := Prod.mk.inj executed
      have sameStore : store.commit (action.effect params actor store).2 = after :=
        congrArg Medium.store sameMedium
      rw [sameResult, sameStore, ← kept.answer, ← kept.books]
      exact ⟨rfl, kept.wellFormed, rfl, kept.elsewhere⟩
  | error error =>
      obtain ⟨sameResult, sameMedium⟩ := Prod.mk.inj executed
      have sameStore : store.commit (action.effect params actor store).2 = store :=
        congrArg Medium.store sameMedium
      obtain ⟨notFault, sameBooks⟩ := Books.transition_error kept.answer.symm
      rw [sameResult, sameStore, ← kept.answer, sameBooks, ExecutionError.ofActionError_eq notFault]
      exact ⟨rfl, wellFormed, rfl, fun _ _ => rfl⟩

end Actions

end Action

/-- In a well-formed store every action has exactly the output or the rejection that the books of
the store say, and leaves a well-formed store with the books after it; what is not a record stays
as it is. -/
theorem execute_refines_books {store : Store} (wellFormed : store.WellFormed) (params : Params)
    (counters : Telemetry.Counters) (actor : Address) (action : Action) :
    ∃ after later,
      Ledger.execute ⟨params, .ofStore store, counters⟩ actor action =
        ((store.books.transition params actor action).1.mapError .rejected,
          ⟨params, .ofStore after, later⟩) ∧
      after.WellFormed ∧ after.books = (store.books.transition params actor action).2 ∧
      ∀ key, ¬ key.OfRecord → after.get? key = store.get? key := by
  obtain ⟨later, executed⟩ := Ledger.execute_ofStore params store counters actor action
  have kept := Action.effect_keepsBooks wellFormed params actor action
  refine ⟨_, later, ?_, kept.wellFormed, kept.books, kept.elsewhere⟩
  rw [executed, kept.answer]

/-- The first account gives all of its coins to the second one. -/
theorem crossedStore_refines_books :
    crossedStore.WellFormed ∧ ∃ after later,
      Ledger.execute ⟨crossedParams, .ofStore crossedStore, {}⟩ (accountOf 1)
          (.transfer (accountOf 2) 9 []) =
        (.ok (.transfer 0 13), ⟨crossedParams, .ofStore after, later⟩) ∧
      after.WellFormed ∧ after.books.balance (accountOf 1) = 0 ∧
      after.books.balance (accountOf 2) = 13 := by
  have empty : Store.WellFormed .empty := ⟨nofun, nofun, nofun, nofun⟩
  have wellFormed : crossedStore.WellFormed :=
    (empty.setBalance (accountOf 1) 9).setBalance (accountOf 2) 4
  obtain ⟨after, later, executed, afterWellFormed, books, _⟩ :=
    execute_refines_books wellFormed crossedParams {} (accountOf 1)
      (.transfer (accountOf 2) 9 [])
  have answer : (crossedStore.books.transition crossedParams (accountOf 1)
      (.transfer (accountOf 2) 9 [])).1 = .ok (.transfer 0 13) := by
    decide +kernel
  rw [answer] at executed
  refine ⟨wellFormed, after, later, executed, afterWellFormed, ?_, ?_⟩
  · rw [books]
    decide +kernel
  · rw [books]
    decide +kernel

end PoolLedger
