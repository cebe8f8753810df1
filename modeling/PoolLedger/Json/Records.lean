import PoolLedger.Access
import PoolLedger.Json.Fields
import PoolLedger.Record.Domain
import PoolLedger.Record.Pool
import PoolLedger.Record.Token

/-!
# JSON form of records and access

Domain, pool and token records, access modes and kinds of overlap.
-/

namespace PoolLedger

namespace AccessMode

def toJson (mode : AccessMode) : Json :=
  .ofText mode.name

def ofJson? (json : Json) : Option AccessMode := do
  match ← json.unit? with
  | "Read" => return read
  | "Write" => return write
  | "Allocate" => return allocate
  | _ => none

end AccessMode

namespace OverlapKind

def toJson (kind : OverlapKind) : Json :=
  .ofText kind.name

def ofJson? (json : Json) : Option OverlapKind := do
  match ← json.unit? with
  | "WriteWrite" => return writeWrite
  | "ReadWrite" => return readWrite
  | _ => none

end OverlapKind

namespace DomainRecord

def toJson (record : DomainRecord) : Json :=
  .ofFields [("owner", .ofAddress record.owner)]

def ofJson? (json : Json) : Option DomainRecord := do
  match ← json.fields? ["owner"] with
  | [owner] => return { owner := ← Json.required Json.toAddress? owner }
  | _ => none

end DomainRecord

namespace PoolRecord

def toJson (record : PoolRecord) : Json :=
  .ofFields
    [("function_id", .ofByte record.functionId), ("token_x", .ofAddress record.tokenX),
      ("token_y", .ofAddress record.tokenY), ("fee", .ofWord record.fee),
      ("fee_to", .ofAddress record.feeTo), ("reserve_x", .ofWord record.reserveX),
      ("reserve_y", .ofWord record.reserveY), ("lp_token", .ofAddress record.lpToken),
      ("k_last", .ofWord record.kLast)]

def ofJson? (json : Json) : Option PoolRecord := do
  let fields ← json.fields?
    ["function_id", "token_x", "token_y", "fee", "fee_to", "reserve_x", "reserve_y", "lp_token",
      "k_last"]
  match fields with
  | [functionId, tokenX, tokenY, fee, feeTo, reserveX, reserveY, lpToken, kLast] =>
      return {
        functionId := ← Json.required Json.toByte? functionId
        tokenX := ← Json.required Json.toAddress? tokenX
        tokenY := ← Json.required Json.toAddress? tokenY
        fee := ← Json.required Json.toWord? fee
        feeTo := ← Json.required Json.toAddress? feeTo
        reserveX := ← Json.required Json.toWord? reserveX
        reserveY := ← Json.required Json.toWord? reserveY
        lpToken := ← Json.required Json.toAddress? lpToken
        kLast := ← Json.required Json.toWord? kLast }
  | _ => none

end PoolRecord

namespace TokenRecord

def toJson (record : TokenRecord) : Json :=
  .ofFields
    [("name", .ofBytes record.name), ("symbol", .ofBytes record.symbol),
      ("metadata", .ofBytes record.metadata), ("decimals", .ofByte record.decimals),
      ("owner", .ofAddress record.owner)]

def ofJson? (json : Json) : Option TokenRecord := do
  match ← json.fields? ["name", "symbol", "metadata", "decimals", "owner"] with
  | [name, symbol, metadata, decimals, owner] =>
      return {
        name := ← Json.required Json.toBytes? name
        symbol := ← Json.required Json.toBytes? symbol
        metadata := ← Json.required Json.toBytes? metadata
        decimals := ← Json.required Json.toByte? decimals
        owner := ← Json.required Json.toAddress? owner }
  | _ => none

end TokenRecord

end PoolLedger
