import PoolLedger.View

/-!
# Programs over the ledger state

What an action does to the state is written once, as a program: a tree of
requests to read, write or remove a key, each followed by what to do next.  The
same program then runs against a plain state, against a view, or one request at
a time.
-/

namespace PoolLedger

/-- A computation that asks for state access and ends in a value or an error. -/
inductive Program (ε α : Type) where
  | done (value : α)
  | fail (error : ε)
  | get (key : StateKey) (next : Option Bytes → Program ε α)
  /-- Put a value under a key and go on. -/
  | insert (key : StateKey) (value : Bytes) (next : Program ε α)
  /-- Remove the value of a key and go on. -/
  | remove (key : StateKey) (next : Program ε α)

/-- An error type that has a place for failed state access. -/
class CarriesFault (ε : Type) where
  /-- The error of a failed state access. -/
  ofFault : StateError → ε

instance : CarriesFault StateError := ⟨id⟩

/-- A kind of state that programs can run against. -/
structure Backend (σ : Type) where
  get : σ → Reading
  insert : σ → StateKey → Bytes → Except StateError σ
  remove : σ → StateKey → Except StateError σ

namespace Backend

/-- A plain state, open to every request. -/
def store : Backend Store where
  get store key := .ok (store.get? key)
  insert store key value := .ok (store.insert key value)
  remove store key := .ok (store.erase key)

/-- A view over what `base` reads. -/
def view (base : Reading) : Backend View where
  get view := view.get base
  insert view := view.insert base
  remove := View.remove

end Backend

namespace Program

variable {ε α β σ : Type}

/-- Run one program and then another that depends on its value. -/
def bind : Program ε α → (α → Program ε β) → Program ε β
  | done value, next => next value
  | fail error, _ => fail error
  | get key rest, next => get key fun found => (rest found).bind next
  | insert key value rest, next => insert key value (rest.bind next)
  | remove key rest, next => remove key (rest.bind next)

instance : Monad (Program ε) where
  pure := done
  bind := bind

/-- Stop with `error` unless `condition` holds. -/
def check (condition : Bool) (error : ε) : Program ε Unit :=
  if condition then done () else fail error

/-- Run a program.  A refused request ends it; changes made before an end in error stay. -/
def run [CarriesFault ε] (backend : Backend σ) : Program ε α → σ → Except ε α × σ
  | done value, state => (.ok value, state)
  | fail error, state => (.error error, state)
  | get key next, state =>
      match backend.get state key with
      | .error fault => (.error (CarriesFault.ofFault fault), state)
      | .ok found => (next found).run backend state
  | insert key value next, state =>
      match backend.insert state key value with
      | .error fault => (.error (CarriesFault.ofFault fault), state)
      | .ok state => next.run backend state
  | remove key next, state =>
      match backend.remove state key with
      | .error fault => (.error (CarriesFault.ofFault fault), state)
      | .ok state => next.run backend state

end Program

end PoolLedger
