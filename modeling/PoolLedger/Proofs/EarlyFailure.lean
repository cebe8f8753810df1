import PoolLedger.Proofs.ActionSafety

/-!
# Checks before writes

All checks of an action precede its first write, and no action removes a value.
So an action that fails has changed nothing, even in a plain store where nothing
is ever rolled back, and it fails for a reason of its own or because a record
cannot be read.
-/

namespace PoolLedger

namespace Program

variable {ε α β : Type} {passes : ε → Prop}

/-- Whatever it finds, the program only reads, and it can fail only with an error that passes. -/
def OnlyReads : Program ε α → (ε → Prop) → Prop
  | done _, _ => True
  | fail error, passes => passes error
  | get _ next, passes => ∀ found, (next found).OnlyReads passes
  | insert _ _ _, _ => False
  | remove _ _, _ => False

/-- Whatever it finds, the program can fail only before its first write and with an error that
passes, and it removes nothing. -/
def FailsEarly : Program ε α → (ε → Prop) → Prop
  | done _, _ => True
  | fail error, passes => passes error
  | get _ next, passes => ∀ found, (next found).FailsEarly passes
  | insert _ _ next, _ => next.FailsEarly fun _ => False
  | remove _ _, _ => False

/-- Once it is reached, the program cannot fail. -/
abbrev Succeeds (program : Program ε α) : Prop :=
  program.FailsEarly fun _ => False

theorem Succeeds.failsEarly {program : Program ε α} (succeeds : program.Succeeds)
    (passes : ε → Prop) : program.FailsEarly passes := by
  induction program with
  | done value => trivial
  | fail error => exact succeeds.elim
  | get key next ih => exact fun found => ih found (succeeds found)
  | insert key value next ih => exact succeeds
  | remove key next ih => exact succeeds

/-- What reading and failing do not spoil holds of some reads and what follows, if it holds of what
follows. -/
theorem OnlyReads.bind {program : Program ε α} {next : α → Program ε β}
    {motive : Program ε β → Prop} (reads : program.OnlyReads passes)
    (fails : ∀ error, passes error → motive (fail error))
    (gets : ∀ key later, (∀ found, motive (later found)) → motive (get key later))
    (rest : ∀ value, motive (next value)) : motive (program >>= next) := by
  induction program with
  | done value => exact rest value
  | fail error => exact fails error reads
  | get key later ih => exact gets key _ fun found => ih found (reads found)
  | insert key value later ih => exact reads.elim
  | remove key later ih => exact reads.elim

theorem onlyReads_bind {program : Program ε α} {next : α → Program ε β}
    (reads : program.OnlyReads passes) (rest : ∀ value, (next value).OnlyReads passes) :
    (program >>= next).OnlyReads passes :=
  reads.bind (motive := fun later => later.OnlyReads passes) (fun _ => id) (fun _ _ => id) rest

/-- What follows reads may still fail. -/
theorem failsEarly_after_reads {program : Program ε α} {next : α → Program ε β}
    (reads : program.OnlyReads passes) (rest : ∀ value, (next value).FailsEarly passes) :
    (program >>= next).FailsEarly passes :=
  reads.bind (motive := fun later => later.FailsEarly passes) (fun _ => id) (fun _ _ => id) rest

/-- What follows a program that may write must not fail. -/
theorem failsEarly_bind {program : Program ε α} {next : α → Program ε β}
    (early : program.FailsEarly passes) (rest : ∀ value, (next value).Succeeds) :
    (program >>= next).FailsEarly passes := by
  induction program generalizing passes with
  | done value => exact (rest value).failsEarly passes
  | fail error => exact early
  | get key later ih => exact fun found => ih found (early found)
  | insert key value later ih => exact ih early
  | remove key later ih => exact early.elim

/-- A failed run against a plain store has left it as it was. -/
theorem FailsEarly.of_run_store [CarriesFault ε] {program : Program ε α}
    (early : program.FailsEarly passes) {store after : Store} {error : ε}
    (ran : program.run .store store = (.error error, after)) : after = store ∧ passes error := by
  induction program generalizing store passes with
  | done value => cases ran
  | fail found =>
      cases ran
      exact ⟨rfl, early⟩
  | get key next ih => exact ih _ (early _) ran
  | insert key value next ih => exact (ih early ran).2.elim
  | remove key next ih => exact early.elim

end Program

/-- The error is a reason of the action's own, or tells of a record that cannot be read. -/
def ActionError.Expected (error : ActionError) : Prop :=
  ∀ fault, error = .state fault → ∃ key cause, fault = .corruptValue key cause

theorem ActionError.expected_corruptValue (key : StateKey) (cause : CodecError) :
    Expected (CarriesFault.ofFault (.corruptValue key cause)) := by
  rintro fault ⟨⟩
  exact ⟨key, cause, rfl⟩

namespace Program

theorem onlyReads_check {condition : Bool} {error : ActionError} (expected : error.Expected) :
    (check condition error).OnlyReads ActionError.Expected := by
  cases condition
  · exact expected
  · trivial

theorem onlyReads_require {checked : Except ActionError Unit}
    (expected : ∀ error, checked = .error error → error.Expected) :
    (require checked).OnlyReads ActionError.Expected := by
  cases checked with
  | error error => exact expected error rfl
  | ok passed => trivial

theorem onlyReads_read {α : Type} (key : StateKey) (decode : Bytes → Except CodecError α) :
    (read key decode : Program ActionError (Option α)).OnlyReads ActionError.Expected := by
  intro found
  cases found with
  | none => trivial
  | some bytes =>
      simp only
      cases decode bytes with
      | error cause => exact ActionError.expected_corruptValue key cause
      | ok record => trivial

theorem onlyReads_hasValue (key : StateKey) :
    (hasValue key : Program ActionError Bool).OnlyReads ActionError.Expected :=
  fun _ => trivial

theorem onlyReads_balance (account : Address) :
    (balance account : Program ActionError Amount).OnlyReads ActionError.Expected :=
  onlyReads_bind (onlyReads_read _ _) fun _ => trivial

theorem onlyReads_domainOwner (domain : String) :
    (domainOwner domain : Program ActionError (Option Address)).OnlyReads ActionError.Expected :=
  onlyReads_bind (onlyReads_read _ _) fun _ => trivial

theorem succeeds_write {key : StateKey} {encoded : Except CodecError Bytes} {bytes : Bytes}
    (written : encoded = .ok bytes) : (write key encoded : Program ActionError Unit).Succeeds := by
  rw [written]
  trivial

theorem succeeds_setDomainOwner (domain : String) (owner : Address) :
    (setDomainOwner domain owner : Program ActionError Unit).Succeeds :=
  succeeds_write (DomainRecord.encode_eq _)

theorem succeeds_setToken (token : Address) {record : TokenRecord} (bounded : record.Bounded) :
    (setToken token record : Program ActionError Unit).Succeeds := by
  obtain ⟨_, written, _⟩ := TokenRecord.encode_of_bounded bounded
  exact succeeds_write written

theorem succeeds_setPool (pool : Address) (record : PoolRecord) :
    (setPool pool record : Program ActionError Unit).Succeeds := by
  obtain ⟨_, written, _⟩ := PoolRecord.encode_eq record
  exact succeeds_write written

theorem failsEarly_debit (account : Address) (amount : Amount) :
    (debit account amount).FailsEarly ActionError.Expected := by
  refine failsEarly_after_reads (onlyReads_balance account) fun available => ?_
  cases Amount.sub? available amount with
  | none => exact nofun
  | some remaining => trivial

theorem failsEarly_credit (account : Address) (amount : Amount) :
    (credit account amount).FailsEarly ActionError.Expected := by
  refine failsEarly_after_reads (onlyReads_balance account) fun current => ?_
  cases Amount.add? current amount with
  | none => exact nofun
  | some updated => trivial

end Program

namespace Action

open Program

theorem failsEarly_transfer (actor recipient : Address) (value : Amount) (memo : Bytes) :
    (runTransfer actor recipient value memo).FailsEarly ActionError.Expected := by
  refine failsEarly_after_reads (onlyReads_check nofun) fun _ => ?_
  refine failsEarly_after_reads (onlyReads_check nofun) fun _ => ?_
  refine failsEarly_after_reads (onlyReads_balance actor) fun available => ?_
  cases Amount.sub? available value with
  | none => exact nofun
  | some remaining =>
      simp only
      split
      · trivial
      · exact failsEarly_bind (failsEarly_credit recipient value) fun _ => trivial

theorem failsEarly_claimDomain (actor : Address) (domain : String) :
    (runClaimDomain actor domain).FailsEarly ActionError.Expected := by
  refine failsEarly_after_reads (onlyReads_check nofun) fun _ => ?_
  refine failsEarly_after_reads (onlyReads_check nofun) fun _ => ?_
  refine failsEarly_after_reads (onlyReads_domainOwner domain) fun _ => ?_
  refine failsEarly_after_reads (onlyReads_check nofun) fun _ => ?_
  refine failsEarly_bind (failsEarly_debit actor _) fun _ => ?_
  exact failsEarly_bind (succeeds_setDomainOwner domain actor) fun _ => trivial

theorem failsEarly_createToken (actor : Address) (name symbol metadata : Bytes)
    (decimals : UInt8) :
    (runCreateToken actor name symbol metadata decimals).FailsEarly ActionError.Expected := by
  rw [runCreateToken]
  cases checked : TokenRecord.checkFields name symbol metadata decimals with
  | error error =>
      have notFault := (TokenRecord.checkFields_error checked).2
      exact fun fault isFault => absurd isFault (notFault fault)
  | ok passed =>
      have bounded := TokenRecord.bounded_of_checkFields checked actor
      refine failsEarly_after_reads (onlyReads_require (by rintro _ ⟨⟩)) fun _ => ?_
      refine failsEarly_after_reads (onlyReads_hasValue _) fun _ => ?_
      refine failsEarly_after_reads (onlyReads_check (by rintro _ ⟨⟩)) fun _ => ?_
      exact failsEarly_bind ((succeeds_setToken _ bounded).failsEarly _) fun _ => trivial

theorem failsEarly_createLiquidityPool (params : Params) (actor : Address) (functionId : UInt8)
    (tokenX tokenY : Address) (fee : UInt64) :
    (runCreateLiquidityPool params actor functionId tokenX tokenY fee).FailsEarly
      ActionError.Expected := by
  refine failsEarly_after_reads (onlyReads_check nofun) fun _ => ?_
  refine failsEarly_after_reads (onlyReads_hasValue _) fun _ => ?_
  refine failsEarly_after_reads (onlyReads_check nofun) fun _ => ?_
  refine failsEarly_after_reads (onlyReads_hasValue _) fun _ => ?_
  refine failsEarly_after_reads (onlyReads_check nofun) fun _ => ?_
  refine failsEarly_after_reads (onlyReads_check nofun) fun _ => ?_
  refine failsEarly_after_reads (onlyReads_hasValue _) fun _ => ?_
  refine failsEarly_after_reads (onlyReads_check nofun) fun _ => ?_
  have lpSucceeds := succeeds_setToken (.ofPoolToken (.ofPool tokenX tokenY))
    (TokenRecord.bounded_ofPool (.ofPool tokenX tokenY))
  refine failsEarly_bind (lpSucceeds.failsEarly _) fun _ => ?_
  exact failsEarly_bind (succeeds_setPool _ _) fun _ => trivial

/-- Every action checks before it writes. -/
theorem failsEarly (params : Params) (actor : Address) (action : Action) :
    (action.program params actor).FailsEarly ActionError.Expected := by
  cases action with
  | transfer recipient value memo => exact failsEarly_transfer actor recipient value memo
  | hi name =>
      refine failsEarly_after_reads (onlyReads_check nofun) fun _ => ?_
      exact failsEarly_after_reads (onlyReads_balance actor) fun _ => trivial
  | claimDomain domain => exact failsEarly_claimDomain actor domain
  | whois domain => exact failsEarly_after_reads (onlyReads_domainOwner domain) fun _ => trivial
  | createToken name symbol metadata decimals =>
      exact failsEarly_createToken actor name symbol metadata decimals
  | getTokenAddress name symbol metadata =>
      exact failsEarly_after_reads (onlyReads_hasValue _) fun _ => trivial
  | createLiquidityPool functionId tokenX tokenY fee =>
      exact failsEarly_createLiquidityPool params actor functionId tokenX tokenY fee

end Action

end PoolLedger
