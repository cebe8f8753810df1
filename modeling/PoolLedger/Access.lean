import PoolLedger.SortedMap
import PoolLedger.StateKey

/-!
# Declared access

An action declares every key it will touch, each with the strongest access it
needs.  Two declarations conflict when they share a key that at least one of
them may change, and conflicts are found without running anything.
-/

namespace PoolLedger

/-- What an action may do with the value of a key. -/
inductive AccessMode where
  /-- Look at the value. -/
  | read
  /-- Look at the value and replace it if there is one. -/
  | write
  /-- Look at the value, replace it, or create it. -/
  | allocate
deriving DecidableEq, Repr

namespace AccessMode

def strength : AccessMode → Nat
  | read => 0
  | write => 1
  | allocate => 2

def name : AccessMode → String
  | read => "Read"
  | write => "Write"
  | allocate => "Allocate"

instance : Ord AccessMode := ⟨fun first second => compare first.strength second.strength⟩

def isMutating : AccessMode → Bool
  | read => false
  | write | allocate => true

/-- Whether the mode grants at least what `required` grants. -/
def permits (mode required : AccessMode) : Bool :=
  required.strength ≤ mode.strength

def stronger (first second : AccessMode) : AccessMode :=
  if first.strength ≤ second.strength then second else first

end AccessMode

/-- How two declarations overlap on a key. -/
inductive OverlapKind where
  /-- Both may change the value. -/
  | writeWrite
  /-- One looks at what the other may change. -/
  | readWrite
deriving DecidableEq, Repr

def OverlapKind.name : OverlapKind → String
  | writeWrite => "WriteWrite"
  | readWrite => "ReadWrite"

/-- The keys an action will touch, each with its access. -/
abbrev Declaration := SortedMap StateKey AccessMode

namespace Declaration

/-- Declare a key; a key that is declared twice keeps the stronger access. -/
def declare (declaration : Declaration) (key : StateKey) (mode : AccessMode) : Declaration :=
  declaration.insert key <|
    match declaration.get? key with
    | none => mode
    | some declared => declared.stronger mode

def ofKeys (keys : List (StateKey × AccessMode)) : Declaration :=
  keys.foldl (fun declaration entry => declaration.declare entry.1 entry.2) .empty

/-- The keys that may be changed, in order. -/
def mutatedKeys (declaration : Declaration) : List StateKey :=
  (declaration.toList.filter (·.2.isMutating)).map (·.1)

/-- How the access to a key overlaps with the access that another declaration has to it. -/
def overlapKind? (mode other : AccessMode) : Option OverlapKind :=
  match mode.isMutating, other.isMutating with
  | true, true => some .writeWrite
  | true, false | false, true => some .readWrite
  | false, false => none

/-- Every overlap with another declaration, in key order. -/
def overlaps (declaration other : Declaration) : List (StateKey × OverlapKind) :=
  declaration.toList.filterMap fun (key, mode) =>
    (other.get? key).bind fun otherMode => (overlapKind? mode otherMode).map (key, ·)

/-- The first key that both may change, else the first key that one may change and the other
looks at. -/
def conflict? (declaration other : Declaration) : Option (StateKey × OverlapKind) :=
  let found := declaration.overlaps other
  (found.find? (·.2 = .writeWrite)).orElse fun _ => found.head?

end Declaration

end PoolLedger
