/-!
# Sorting by a number

Elements are listed in ascending order of a number that each of them has;
elements with the same number keep their order.
-/

namespace PoolLedger

variable {α : Type}

/-- Put an element before the first one whose number is not smaller. -/
def insertBy (number : α → Nat) (element : α) : List α → List α
  | [] => [element]
  | head :: rest =>
      if number element ≤ number head then element :: head :: rest
      else head :: insertBy number element rest

def sortBy (number : α → Nat) : List α → List α
  | [] => []
  | head :: rest => insertBy number head (sortBy number rest)

end PoolLedger
