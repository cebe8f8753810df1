import PoolLedger.Store

/-!
# Views

A view gives access to the keys of a declaration and to no others.  Its writes
are kept in a change set and seen by its own later reads; what lies beneath it
is only read, key by key, whenever an operation needs it.
-/

namespace PoolLedger

/-- A declaration and the changes made under it so far. -/
structure View where
  declared : Declaration
  changes : ChangeSet
deriving DecidableEq

namespace View

def start (declared : Declaration) : View :=
  ⟨declared, .empty⟩

/-- The declared access to a key, if it grants what is `required`. -/
def require (view : View) (key : StateKey) (required : AccessMode) :
    Except StateError AccessMode :=
  match view.declared.get? key with
  | none => .error (.undeclaredKey key)
  | some declared =>
      if declared.permits required then .ok declared
      else .error (.permissionDenied key declared required)

/-- The value that the view has for a key: its own change, else what lies beneath. -/
def current (view : View) (base : Reading) : Reading := fun key =>
  match view.changes.get? key with
  | some change => .ok change
  | none => base key

def get (view : View) (base : Reading) : Reading := fun key => do
  let _ ← view.require key .read
  view.current base key

/-- Put a value under a key.  Only a key declared for allocation may be created. -/
def insert (view : View) (base : Reading) (key : StateKey) (value : Bytes) :
    Except StateError View := do
  let declared ← view.require key .write
  if declared = .write then
    if (← view.current base key).isNone then
      throw (.permissionDenied key declared .allocate)
  if value.length > key.maxValueLength then
    throw (.valueTooLarge key value.length key.maxValueLength)
  return { view with changes := view.changes.put key value }

/-- Remove the value of a key. -/
def remove (view : View) (key : StateKey) : Except StateError View := do
  let _ ← view.require key .write
  return { view with changes := view.changes.delete key }

end View

end PoolLedger
