/-!
# Results of checked computations

A checked computation ends in a value or in an error.  Two results can be
compared when their values and their errors can.
-/

namespace PoolLedger

variable {ε α β : Type}

/-- Results are equal when both are the same value or both the same error. -/
instance instDecidableEqExcept [DecidableEq ε] [DecidableEq α] : DecidableEq (Except ε α)
  | .ok first, .ok second =>
      if same : first = second then isTrue (by rw [same])
      else isFalse fun eq => same (Except.ok.inj eq)
  | .error first, .error second =>
      if same : first = second then isTrue (by rw [same])
      else isFalse fun eq => same (Except.error.inj eq)
  | .ok _, .error _ => isFalse nofun
  | .error _, .ok _ => isFalse nofun

/-- Two computations in a row end in a value when both do. -/
theorem bind_eq_ok_iff_exists {first : Except ε α} {next : α → Except ε β} {value : β} :
    (first >>= next) = .ok value ↔ ∃ middle, first = .ok middle ∧ next middle = .ok value := by
  cases first with
  | error error => simp [bind, Except.bind]
  | ok middle => simp [bind, Except.bind]

end PoolLedger
