import PoolLedger.Action.Basic
import PoolLedger.Action.Limits
import PoolLedger.Json.Fields

/-!
# JSON form of actions and outputs

An action or an output is a variant: an object with one member whose key is
the variant's name and whose value is the record of its fields.
-/

namespace PoolLedger

namespace Action

def toJson : Action → Json
  | transfer recipient value memo =>
      .ofFields
        [("Transfer",
          .ofFields [("to", .ofAddress recipient), ("value", .ofWord value), ("memo", .ofBytes memo)])]
  | hi name => .ofFields [("Hi", .ofFields [("name", .ofBytes name)])]
  | claimDomain domain =>
      .ofFields [("ClaimDomain", .ofFields [("domain", .ofText domain)])]
  | whois domain => .ofFields [("Whois", .ofFields [("domain", .ofText domain)])]
  | createToken name symbol metadata decimals =>
      .ofFields
        [("CreateToken",
          .ofFields
            [("name", .ofBytes name), ("symbol", .ofBytes symbol), ("metadata", .ofBytes metadata),
              ("decimals", .ofByte decimals)])]
  | getTokenAddress name symbol metadata =>
      .ofFields
        [("GetTokenAddress",
          .ofFields
            [("name", .ofBytes name), ("symbol", .ofBytes symbol),
              ("metadata", .ofBytes metadata)])]
  | createLiquidityPool functionId tokenX tokenY fee =>
      .ofFields
        [("CreateLiquidityPool",
          .ofFields
            [("function_id", .ofByte functionId), ("token_x", .ofAddress tokenX),
              ("token_y", .ofAddress tokenY), ("fee", .ofWord fee)])]

def transferOfJson? (json : Json) : Option Action := do
  match ← json.fields? ["to", "value", "memo"] with
  | [recipient, value, memo] =>
      return .transfer (← Json.required Json.toAddress? recipient) (← Json.required Json.toWord? value)
        (← Json.required Json.toBytes? memo)
  | _ => none

def hiOfJson? (json : Json) : Option Action := do
  match ← json.fields? ["name"] with
  | [name] => return .hi (← Json.required Json.toBytes? name)
  | _ => none

def domainOfJson? (action : String → Action) (json : Json) : Option Action := do
  match ← json.fields? ["domain"] with
  | [domain] => return action (← Json.required Json.toText? domain)
  | _ => none

def createTokenOfJson? (json : Json) : Option Action := do
  match ← json.fields? ["name", "symbol", "metadata", "decimals"] with
  | [name, symbol, metadata, decimals] =>
      return .createToken (← Json.required Json.toBytes? name)
        (← Json.required Json.toBytes? symbol) (← Json.required Json.toBytes? metadata)
        (← Json.required Json.toByte? decimals)
  | _ => none

def getTokenAddressOfJson? (json : Json) : Option Action := do
  match ← json.fields? ["name", "symbol", "metadata"] with
  | [name, symbol, metadata] =>
      return .getTokenAddress (← Json.required Json.toBytes? name)
        (← Json.required Json.toBytes? symbol) (← Json.required Json.toBytes? metadata)
  | _ => none

def createLiquidityPoolOfJson? (json : Json) : Option Action := do
  match ← json.fields? ["function_id", "token_x", "token_y", "fee"] with
  | [functionId, tokenX, tokenY, fee] =>
      return .createLiquidityPool (← Json.required Json.toByte? functionId)
        (← Json.required Json.toAddress? tokenX) (← Json.required Json.toAddress? tokenY)
        (← Json.required Json.toWord? fee)
  | _ => none

def ofJson? (json : Json) : Option Action := do
  match ← json.variant? with
  | ("Transfer", content) => transferOfJson? content
  | ("Hi", content) => hiOfJson? content
  | ("ClaimDomain", content) => domainOfJson? .claimDomain content
  | ("Whois", content) => domainOfJson? .whois content
  | ("CreateToken", content) => createTokenOfJson? content
  | ("GetTokenAddress", content) => getTokenAddressOfJson? content
  | ("CreateLiquidityPool", content) => createLiquidityPoolOfJson? content
  | _ => none

end Action

namespace Output

def toJson : Output → Json
  | transfer senderBalance receiverBalance =>
      .ofFields
        [("Transfer",
          .ofFields
            [("sender_balance", .ofWord senderBalance),
              ("receiver_balance", .ofWord receiverBalance)])]
  | hi greeting balance =>
      .ofFields
        [("Hi", .ofFields [("greeting", .ofBytes greeting), ("balance", .ofWord balance)])]
  | claimDomain amountPaid =>
      .ofFields [("ClaimDomain", .ofFields [("amount_paid", .ofWord amountPaid)])]
  | whois found owner =>
      .ofFields [("Whois", .ofFields [("found", .bool found), ("owner", .ofAddress owner)])]
  | createToken address =>
      .ofFields [("CreateToken", .ofFields [("address", .ofAddress address)])]
  | getTokenAddress address registered =>
      .ofFields
        [("GetTokenAddress",
          .ofFields [("address", .ofAddress address), ("registered", .bool registered)])]
  | createLiquidityPool poolAddress poolTokenAddress =>
      .ofFields
        [("CreateLiquidityPool",
          .ofFields
            [("pool_address", .ofAddress poolAddress),
              ("pool_token_address", .ofAddress poolTokenAddress)])]

def pairOfJson? {α β : Type} (names : String × String) (first : Json → Option α)
    (second : Json → Option β) (output : α → β → Output) (json : Json) : Option Output := do
  match ← json.fields? [names.1, names.2] with
  | [left, right] =>
      return output (← Json.required first left) (← Json.required second right)
  | _ => none

def singleOfJson? {α : Type} (name : String) (read : Json → Option α) (output : α → Output)
    (json : Json) : Option Output := do
  match ← json.fields? [name] with
  | [field] => return output (← Json.required read field)
  | _ => none

def ofJson? (json : Json) : Option Output := do
  match ← json.variant? with
  | ("Transfer", content) =>
      pairOfJson? ("sender_balance", "receiver_balance") Json.toWord? Json.toWord? .transfer content
  | ("Hi", content) => pairOfJson? ("greeting", "balance") Json.toBytes? Json.toWord? .hi content
  | ("ClaimDomain", content) => singleOfJson? "amount_paid" Json.toWord? .claimDomain content
  | ("Whois", content) => pairOfJson? ("found", "owner") Json.toBool? Json.toAddress? .whois content
  | ("CreateToken", content) => singleOfJson? "address" Json.toAddress? .createToken content
  | ("GetTokenAddress", content) =>
      pairOfJson? ("address", "registered") Json.toAddress? Json.toBool? .getTokenAddress content
  | ("CreateLiquidityPool", content) =>
      pairOfJson? ("pool_address", "pool_token_address") Json.toAddress? Json.toAddress?
        .createLiquidityPool content
  | _ => none

end Output

namespace ValidityWindow

def toJson (window : ValidityWindow) : Json :=
  .ofFields [("start", .ofInt window.start.toInt), ("end", .ofInt window.stop.toInt)]

def ofJson? (json : Json) : Option ValidityWindow := do
  match ← json.fields? ["start", "end"] with
  | [start, stop] =>
      return ⟨← Json.required Json.toInt64? start, ← Json.required Json.toInt64? stop⟩
  | _ => none

end ValidityWindow

end PoolLedger
