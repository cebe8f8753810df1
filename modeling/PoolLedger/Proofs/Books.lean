import Mathlib.Logic.Function.Basic
import PoolLedger.Action.Basic
import PoolLedger.Action.Error
import PoolLedger.Params
import PoolLedger.Record.Pool

/-!
# The books of a ledger

The books say who has how many coins, which tokens and pools there are, and who
owns which domain; they know nothing of keys and bytes.  An action is refused for
the first reason that applies, in a fixed order, and is entered into the books if
there is none.
-/

namespace PoolLedger

@[ext]
structure Books where
  balance : Address → Amount
  token? : Address → Option TokenRecord
  owner? : String → Option Address
  pool? : Address → Option PoolRecord

/-- A reason to refuse an action, and the error that tells of it. -/
structure Refusal where
  applies : Bool
  error : ActionError

namespace Refusal

/-- The error of the first reason that applies. -/
def first? : List Refusal → Option ActionError
  | [] => none
  | refusal :: rest => if refusal.applies then some refusal.error else first? rest

theorem first?_append (first second : List Refusal) :
    first? (first ++ second) = (first? first).or (first? second) := by
  induction first with
  | nil => rfl
  | cons refusal rest ih =>
      cases applies : refusal.applies with
      | true => simp [first?, applies]
      | false => simpa [first?, applies] using ih

theorem first?_eq_none_iff {refusals : List Refusal} :
    first? refusals = none ↔ ∀ refusal ∈ refusals, refusal.applies = false := by
  induction refusals with
  | nil => simp [first?]
  | cons refusal rest ih =>
      cases applies : refusal.applies with
      | true => simp [first?, applies]
      | false => simpa [first?, applies] using ih

theorem exists_of_first? {refusals : List Refusal} {error : ActionError}
    (first : first? refusals = some error) : ∃ refusal ∈ refusals, refusal.error = error := by
  induction refusals with
  | nil => cases first
  | cons refusal rest ih =>
      rw [first?] at first
      split at first
      · exact ⟨refusal, List.mem_cons_self, Option.some.inj first⟩
      · obtain ⟨other, member, isError⟩ := ih first
        exact ⟨other, List.mem_cons_of_mem _ member, isError⟩

end Refusal

namespace Books

def setBalance (books : Books) (account : Address) (amount : Amount) : Books :=
  { books with balance := Function.update books.balance account amount }

def setToken (books : Books) (token : Address) (record : TokenRecord) : Books :=
  { books with token? := Function.update books.token? token (some record) }

def setOwner (books : Books) (domain : String) (owner : Address) : Books :=
  { books with owner? := Function.update books.owner? domain (some owner) }

def setPool (books : Books) (pool : Address) (record : PoolRecord) : Books :=
  { books with pool? := Function.update books.pool? pool (some record) }

theorem token?_setToken (books : Books) (token : Address) (record : TokenRecord)
    (other : Address) :
    (books.setToken token record).token? other =
      if other = token then some record else books.token? other :=
  Function.update_apply ..

theorem owner?_setOwner (books : Books) (domain : String) (owner : Address) (other : String) :
    (books.setOwner domain owner).owner? other =
      if other = domain then some owner else books.owner? other :=
  Function.update_apply ..

theorem pool?_setPool (books : Books) (pool : Address) (record : PoolRecord) (other : Address) :
    (books.setPool pool record).pool? other =
      if other = pool then some record else books.pool? other :=
  Function.update_apply ..

@[simp]
theorem token?_setPool (books : Books) (pool : Address) (record : PoolRecord) :
    (books.setPool pool record).token? = books.token? :=
  rfl

@[simp]
theorem pool?_setToken (books : Books) (token : Address) (record : TokenRecord) :
    (books.setToken token record).pool? = books.pool? :=
  rfl

/-- What a domain costs: a coin for eleven bytes, ten times more for each byte less. -/
def price (domain : String) : Amount :=
  10 ^ (11 - domain.utf8ByteSize)

/-- The reasons to refuse the fields of a token. -/
def fieldRefusals (name symbol metadata : Bytes) (decimals : UInt8) : List Refusal :=
  [⟨name = [], .emptyTokenName⟩,
    ⟨64 < name.length, .tokenNameTooLarge name.length 64⟩,
    ⟨symbol = [], .emptyTokenSymbol⟩,
    ⟨8 < symbol.length, .tokenSymbolTooLarge symbol.length 8⟩,
    ⟨256 < metadata.length, .tokenMetadataTooLarge metadata.length 256⟩,
    ⟨18 < decimals, .tooManyDecimals decimals 18⟩]

/-- The fields of a token pass their check if there is no reason to refuse them. -/
theorem checkFields_eq (name symbol metadata : Bytes) (decimals : UInt8) :
    TokenRecord.checkFields name symbol metadata decimals =
      match Refusal.first? (fieldRefusals name symbol metadata decimals) with
      | some error => .error error
      | none => .ok () := by
  simp only [TokenRecord.checkFields, fieldRefusals, Refusal.first?, decide_eq_true_eq,
    List.isEmpty_iff, TokenRecord.maxName, TokenRecord.maxSymbol, TokenRecord.maxMetadata,
    TokenRecord.maxDecimals, gt_iff_lt]
  repeat' split
  all_goals simp_all

/-- The reasons to refuse an action, in the order in which they are looked at. -/
def refusals (params : Params) (actor : Address) (books : Books) : Action → List Refusal
  | .transfer recipient value memo =>
      [⟨value = 0, .zeroTransfer⟩,
        ⟨256 < memo.length, .memoTooLarge memo.length 256⟩,
        ⟨books.balance actor < value, .insufficientFunds value (books.balance actor)⟩,
        ⟨actor ≠ recipient ∧ UInt64.size ≤ (books.balance recipient).toNat + value.toNat,
          .balanceOverflow⟩]
  | .hi name => [⟨256 < name.length, .nameTooLarge name.length 256⟩]
  | .claimDomain domain =>
      [⟨domain.utf8ByteSize < 2, .domainTooShort domain.utf8ByteSize 2⟩,
        ⟨10 < domain.utf8ByteSize, .domainTooLong domain.utf8ByteSize 10⟩,
        ⟨(books.owner? domain).isSome, .domainAlreadyTaken domain⟩,
        ⟨books.balance actor < price domain,
          .insufficientFunds (price domain) (books.balance actor)⟩]
  | .whois _ => []
  | .createToken name symbol metadata decimals =>
      fieldRefusals name symbol metadata decimals ++
        [⟨(books.token? (.ofToken name symbol metadata)).isSome,
          .tokenAlreadyExists (.ofToken name symbol metadata)⟩]
  | .getTokenAddress _ _ _ => []
  | .createLiquidityPool functionId tokenX tokenY fee =>
      [⟨fee = 0, .invalidFee⟩,
        ⟨(books.token? tokenX).isNone, .tokenXDoesNotExist⟩,
        ⟨(books.token? tokenY).isNone, .tokenYDoesNotExist⟩,
        ⟨(params.models.get? functionId).isNone, .functionDoesNotExist functionId⟩,
        ⟨(books.pool? (.ofPool tokenX tokenY)).isSome,
          .poolAlreadyExists (.ofPool tokenX tokenY)⟩]

/-- The answer to an action that is not refused, and the books with its entries. -/
def enter (actor : Address) (books : Books) : Action → Output × Books
  | .transfer recipient value _ =>
      if actor = recipient then
        (.transfer (books.balance actor) (books.balance actor), books)
      else
        let paid := books.balance actor - value
        let received := books.balance recipient + value
        (.transfer paid received, (books.setBalance recipient received).setBalance actor paid)
  | .hi name => (.hi (Bytes.ofText "Hi, " ++ name) (books.balance actor), books)
  | .claimDomain domain =>
      (.claimDomain (price domain),
        (books.setBalance actor (books.balance actor - price domain)).setOwner domain actor)
  | .whois domain =>
      (.whois (books.owner? domain).isSome ((books.owner? domain).getD .zero), books)
  | .createToken name symbol metadata decimals =>
      let token := Address.ofToken name symbol metadata
      (.createToken token,
        books.setToken token { name, symbol, metadata, decimals, owner := actor })
  | .getTokenAddress name symbol metadata =>
      let token := Address.ofToken name symbol metadata
      (.getTokenAddress token (books.token? token).isSome, books)
  | .createLiquidityPool functionId tokenX tokenY fee =>
      let pool := Address.ofPool tokenX tokenY
      let lpToken := Address.ofPoolToken pool
      (.createLiquidityPool pool lpToken,
        (books.setToken lpToken (.ofPool pool)).setPool pool
          { functionId, tokenX, tokenY, fee, feeTo := actor, reserveX := 0, reserveY := 0,
            lpToken, kLast := 0 })

/-- The books and the answer after the reasons to refuse were looked at. -/
def settle (books : Books) (refusals : List Refusal) (entered : Output × Books) :
    Except ActionError Output × Books :=
  match Refusal.first? refusals with
  | some error => (.error error, books)
  | none => (.ok entered.1, entered.2)

theorem settle_append {first : List Refusal} (passes : Refusal.first? first = none)
    (books : Books) (second : List Refusal) (entered : Output × Books) :
    books.settle (first ++ second) entered = books.settle second entered := by
  rw [settle, Refusal.first?_append, passes, Option.none_or, settle]

/-- The answer to an action, and the books that it leaves. -/
def transition (params : Params) (actor : Address) (action : Action) (books : Books) :
    Except ActionError Output × Books :=
  books.settle (books.refusals params actor action) (books.enter actor action)

/-- No reason to refuse an action is a fault. -/
theorem error_ne_state {params : Params} {actor : Address} {books : Books} {action : Action}
    {refusal : Refusal} (member : refusal ∈ books.refusals params actor action)
    (fault : StateError) : refusal.error ≠ .state fault := by
  cases action <;> simp only [refusals, fieldRefusals, List.cons_append, List.nil_append,
    List.mem_cons, List.not_mem_nil, or_false] at member
  all_goals rcases member with rfl | rfl | rfl | rfl | rfl | rfl | rfl
  all_goals simp

/-- A refused action is no fault and leaves the books as they are. -/
theorem transition_error {params : Params} {actor : Address} {action : Action} {books : Books}
    {error : ActionError} (refused : (books.transition params actor action).1 = .error error) :
    (∀ fault, error ≠ .state fault) ∧ (books.transition params actor action).2 = books := by
  rw [transition, settle] at refused ⊢
  cases first : Refusal.first? (books.refusals params actor action) with
  | none =>
      rw [first] at refused
      cases refused
  | some found =>
      rw [first] at refused
      cases refused
      obtain ⟨refusal, member, rfl⟩ := Refusal.exists_of_first? first
      exact ⟨error_ne_state member, rfl⟩

end Books

end PoolLedger
