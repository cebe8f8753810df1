import PoolLedger.Proofs.ActionEffect

/-!
# The kind of an answer

Whatever an action finds in the state, it answers in its own kind if it
succeeds.
-/

namespace PoolLedger

namespace Program

variable {ε α β σ : Type}

/-- Every value that the program can end with, whatever it finds, passes the test. -/
def Yields (passes : α → Prop) : Program ε α → Prop
  | done value => passes value
  | fail _ => True
  | get _ next => ∀ found, (next found).Yields passes
  | insert _ _ next => next.Yields passes
  | remove _ next => next.Yields passes

theorem yields_bind {passes : β → Prop} (program : Program ε α) {next : α → Program ε β}
    (rest : ∀ value, (next value).Yields passes) : (program >>= next).Yields passes := by
  induction program with
  | done value => exact rest value
  | fail error => trivial
  | get key later ih => exact fun found => ih found
  | insert key value later ih => exact ih
  | remove key later ih => exact ih

theorem Yields.of_run [CarriesFault ε] {passes : α → Prop} {program : Program ε α}
    (yields : program.Yields passes) {backend : Backend σ} {state after : σ} {value : α}
    (ran : program.run backend state = (.ok value, after)) : passes value := by
  induction program generalizing state with
  | done value =>
      cases ran
      exact yields
  | fail error => cases ran
  | get key next ih =>
      rw [run] at ran
      split at ran
      · cases ran
      · exact ih _ (yields _) ran
  | insert key value next ih =>
      rw [run] at ran
      split at ran
      · cases ran
      · exact ih yields ran
  | remove key next ih =>
      rw [run] at ran
      split at ran
      · cases ran
      · exact ih yields ran

end Program

/-- The kind of the actions that answer so. -/
def Output.kind : Output → ActionKind
  | .transfer .. => .transfer
  | .hi .. => .hi
  | .claimDomain .. => .claimDomain
  | .whois .. => .whois
  | .createToken .. => .createToken
  | .getTokenAddress .. => .getTokenAddress
  | .createLiquidityPool .. => .createLiquidityPool

namespace Action

open Program

/-- Every action answers in its own kind. -/
theorem yields_kind (params : Params) (actor : Address) (action : Action) :
    (action.program params actor).Yields (fun output => output.kind = action.kind) := by
  cases action with
  | transfer recipient value memo =>
      refine yields_bind _ fun _ => yields_bind _ fun _ => yields_bind _ fun available => ?_
      cases Amount.sub? available value with
      | none => trivial
      | some remaining =>
          simp only
          split
          · rfl
          · exact yields_bind _ fun _ => yields_bind _ fun _ => rfl
  | hi name => exact yields_bind _ fun _ => yields_bind _ fun _ => rfl
  | claimDomain domain =>
      refine yields_bind _ fun _ => yields_bind _ fun _ => yields_bind _ fun _ => ?_
      exact yields_bind _ fun _ => yields_bind _ fun _ => yields_bind _ fun _ => rfl
  | whois domain => exact yields_bind _ fun _ => rfl
  | createToken name symbol metadata decimals =>
      refine yields_bind _ fun _ => yields_bind _ fun _ => yields_bind _ fun _ => ?_
      exact yields_bind _ fun _ => rfl
  | getTokenAddress name symbol metadata => exact yields_bind _ fun _ => rfl
  | createLiquidityPool functionId tokenX tokenY fee =>
      refine yields_bind _ fun _ => yields_bind _ fun _ => yields_bind _ fun _ => ?_
      refine yields_bind _ fun _ => yields_bind _ fun _ => yields_bind _ fun _ => ?_
      refine yields_bind _ fun _ => yields_bind _ fun _ => ?_
      exact yields_bind _ fun _ => yields_bind _ fun _ => rfl

theorem kind_of_effect {params : Params} {actor : Address} {action : Action} {store : Store}
    {output : Output} (succeeded : (action.effect params actor store).1 = .ok output) :
    output.kind = action.kind := by
  rw [effect, Medium.runInView] at succeeded
  rcases ran : (action.program params actor).run (.view (Medium.ofStore store).read)
    (.start (action.declared actor)) with ⟨result, view⟩
  rw [ran] at succeeded
  cases result with
  | error error => cases succeeded
  | ok found =>
      cases succeeded
      exact (yields_kind params actor action).of_run ran

end Action

end PoolLedger
