/-!
# Amounts

Balances, prices and supplies are 64-bit words.  Sums and differences that do
not fit have no value.
-/

namespace PoolLedger

abbrev Amount := UInt64

namespace Amount

/-- The sum, if it fits. -/
def add? (first second : Amount) : Option Amount :=
  if first.toNat + second.toNat < UInt64.size then some (first + second) else none

/-- The difference, if there is enough to take from. -/
def sub? (first second : Amount) : Option Amount :=
  if second ≤ first then some (first - second) else none

theorem toNat_of_add? {first second sum : Amount} (fits : add? first second = some sum) :
    sum.toNat = first.toNat + second.toNat := by
  unfold add? at fits
  split at fits
  · rename_i small
    cases fits
    rw [UInt64.toNat_add]
    exact Nat.mod_eq_of_lt small
  · cases fits

theorem size_le_of_add? {first second : Amount} (overflows : add? first second = none) :
    UInt64.size ≤ first.toNat + second.toNat := by
  unfold add? at overflows
  split at overflows
  · cases overflows
  · rename_i large
    exact Nat.le_of_not_lt large

theorem toNat_of_sub? {first second rest : Amount} (enough : sub? first second = some rest) :
    rest.toNat + second.toNat = first.toNat := by
  unfold sub? at enough
  split at enough
  · rename_i le
    cases enough
    rw [UInt64.toNat_sub_of_le _ _ le]
    have := UInt64.le_iff_toNat_le.mp le
    omega
  · cases enough

end Amount

end PoolLedger
