import PoolLedger.Json.Actions
import PoolLedger.Json.Configs
import PoolLedger.Proofs.AddressText
import PoolLedger.Proofs.JsonText

/-!
# Configurations and actions as JSON texts

A value of known shape is read back from the value that it is written as, since
a record has its fields under distinct names and a list its items in order.
So a genesis configuration or an action is read back from its text, in which
each of its addresses stands in its hexadecimal form.
-/

namespace PoolLedger

namespace Json

@[simp]
theorem toText?_ofText (text : String) : (ofText text).toText? = some text :=
  rfl

theorem toNat?_ofNat {number greatest : Nat} (bound : number ≤ greatest) :
    (ofNat number).toNat? greatest = some number :=
  if_pos bound

@[simp]
theorem toByte?_ofByte (value : UInt8) : (ofByte value).toByte? = some value := by
  have bound : value.toNat ≤ 255 := Nat.le_of_lt_succ value.toNat_lt
  rw [toByte?, ofByte, toNat?_ofNat bound, Option.map_some, UInt8.ofNat_toNat]

@[simp]
theorem toWord?_ofWord (value : UInt64) : (ofWord value).toWord? = some value := by
  have bound : value.toNat ≤ UInt64.size - 1 := Nat.le_of_lt_succ value.toNat_lt
  rw [toWord?, ofWord, toNat?_ofNat bound, Option.map_some, UInt64.ofNat_toNat]

@[simp]
theorem toAddress?_ofAddress (address : Address) :
    (ofAddress address).toAddress? = some address := by
  rw [toAddress?, ofAddress, toText?_ofText, Option.bind_some, Address.parse_render]
  rfl

theorem mapM_map_eq_some {α β γ : Type} {form : α → β} {read : β → Option γ} {value : α → γ}
    {list : List α} (reads : ∀ member ∈ list, read (form member) = some (value member)) :
    (list.map form).mapM read = some (list.map value) := by
  induction list with
  | nil => rfl
  | cons head rest ih =>
      obtain ⟨readsHead, readsRest⟩ := List.forall_mem_cons.mp reads
      rw [List.map_cons, List.mapM_cons, readsHead, ih readsRest]
      rfl

/-- A list is read back if each of its items is. -/
theorem toList?_array {α : Type} {item : Json → Option α} {form : α → Json}
    (reads : ∀ value, item (form value) = some value) (values : List α) :
    toList? item (array (values.map form)) = some values := by
  rw [toList?, mapM_map_eq_some fun value _ => reads value, List.map_id']

@[simp]
theorem toBytes?_ofBytes (bytes : Bytes) : (ofBytes bytes).toBytes? = some bytes :=
  toList?_array toByte?_ofByte bytes

/-- A field is the only one of its name. -/
theorem filter_name_eq {fields : List (String × Json)} (distinct : (fields.map (·.1)).Nodup)
    {field : String × Json} (listed : field ∈ fields) :
    fields.filter (fun other => other.1 == field.1) = [field] := by
  induction fields with
  | nil => cases listed
  | cons head rest ih =>
      obtain ⟨fresh, restDistinct⟩ := List.nodup_cons.mp distinct
      have apart : ∀ other ∈ rest, head.1 ≠ other.1 := by
        intro other member same
        have taken : head.1 ∈ rest.map (·.1) := by
          rw [same]
          exact List.mem_map_of_mem member
        exact fresh taken
      rw [List.filter_cons]
      rcases List.mem_cons.mp listed with rfl | inRest
      · have noOther : rest.filter (fun other => other.1 == field.1) = [] := by
          rw [List.filter_eq_nil_iff]
          intro other member
          simpa using (apart other member).symm
        rw [noOther, beq_self_eq_true, if_pos rfl]
      · rw [ih restDistinct inRest, if_neg (by simpa using apart field inRest)]

theorem member?_ofFields {fields : List (String × Json)} (distinct : (fields.map (·.1)).Nodup)
    {field : String × Json} (listed : field ∈ fields) :
    member? (fields.map fun field => (some field.1, field.2)) field.1 = some (some field.2) := by
  have found : (fields.map fun field => (some field.1, field.2)).filter
      (fun member => member.1 == some field.1) = [(some field.1, field.2)] := by
    rw [List.filter_map]
    exact congrArg _ (filter_name_eq distinct listed)
  rw [member?, found]

/-- The fields of a record are found under their names. -/
theorem fields?_ofFields {fields : List (String × Json)}
    (distinct : (fields.map (·.1)).Nodup) :
    (ofFields fields).fields? (fields.map (·.1)) =
      some (fields.map fun field => some field.2) := by
  have spelled : ((fields.map fun field => (some field.1, field.2)).all
      fun member : Option String × Json => member.1.isSome) = true := by
    simp
  rw [ofFields, fields?, if_pos spelled]
  exact mapM_map_eq_some fun field listed => member?_ofFields distinct listed

/-- What is done with the fields of a record is done with their values. -/
theorem bind_fields? {α : Type} {fields : List (String × Json)}
    (distinct : (fields.map (·.1)).Nodup) (next : List (Option Json) → Option α) :
    ((ofFields fields).fields? (fields.map (·.1)) >>= next) =
      next (fields.map fun field => some field.2) := by
  rw [fields?_ofFields distinct]
  rfl

theorem bind_variant? {α : Type} (name : String) (content : Json)
    (next : String × Json → Option α) :
    ((ofFields [(name, content)]).variant? >>= next) = next (name, content) :=
  rfl

@[simp]
theorem required_some {α : Type} (read : Json → Option α) (value : Json) :
    required read (some value) = read value :=
  rfl

@[simp]
theorem optional_some {α : Type} (read : Json → Option α) (default : α) (value : Json) :
    optional read default (some value) = read value :=
  rfl

end Json

theorem PricingModel.ofJson?_toJson (model : PricingModel) : ofJson? model.toJson = some model := by
  refine (Json.bind_fields? (by simp) _).trans ?_
  simp

theorem Allocation.ofJson?_toJson (allocation : Allocation) :
    ofJson? allocation.toJson = some allocation := by
  refine (Json.bind_fields? (by simp) _).trans ?_
  simp

theorem LedgerConfig.ofJson?_toJson (config : LedgerConfig) :
    ofJson? config.toJson = some config := by
  have models := Json.toList?_array PricingModel.ofJson?_toJson config.pricingModels
  refine (Json.bind_fields? (by simp) _).trans ?_
  simp [models]

theorem GenesisConfig.ofJson?_toJson (config : GenesisConfig) :
    ofJson? config.toJson = some config := by
  have allocations := Json.toList?_array Allocation.ofJson?_toJson config.allocations
  refine (Json.bind_fields? (by simp) _).trans ?_
  simp [LedgerConfig.ofJson?_toJson, allocations]

/-- An action is read by the name of its variant, and then by its fields. -/
theorem Action.ofJson?_toJson (action : Action) : ofJson? action.toJson = some action := by
  cases action
  all_goals
    refine (Json.bind_variant? _ _ _).trans ?_
    refine (Json.bind_fields? (by simp) _).trans ?_
    simp

/-! ## Addresses in texts -/

theorem Json.flatMap_escape_of_plain {chars : List Char}
    (plain : ∀ char ∈ chars, escape char = [char]) : chars.flatMap escape = chars := by
  induction chars with
  | nil => rfl
  | cons head rest ih =>
      obtain ⟨plainHead, plainRest⟩ := List.forall_mem_cons.mp plain
      rw [List.flatMap_cons, plainHead, ih plainRest, List.singleton_append]

theorem Json.escape_of_mem_digits {bytes : Bytes} {char : Char}
    (member : char ∈ Hex.digits bytes) : escape char = [char] := by
  have table : ∀ value < 16, escape (Hex.digit value) = [Hex.digit value] := by decide
  rw [Hex.digits_eq_map_nibbles] at member
  obtain ⟨nibble, inNibbles, rfl⟩ := List.mem_map.mp member
  exact table nibble (Hex.lt_of_mem_nibbles inNibbles)

/-- No character of an address is escaped. -/
theorem Json.render_ofAddress (address : Address) :
    (ofAddress address).render = "\"" ++ address.render ++ "\"" := by
  have spelled : address.render.toList = '0' :: 'x' :: Hex.digits address.bytes := by
    simp [Address.render, Address.toHex, Hex.encode]
  have plain : ∀ char ∈ address.render.toList, escape char = [char] := by
    rw [spelled]
    rintro char (_ | ⟨_, _ | ⟨_, member⟩⟩)
    · rfl
    · rfl
    · exact escape_of_mem_digits member
  apply String.toList_inj.mp
  simp [render, ofAddress, ofText, renderChars, renderString, flatMap_escape_of_plain plain]

/-- The accounts and tokens that an action names. -/
def Action.addresses : Action → List Address
  | transfer recipient _ _ => [recipient]
  | createLiquidityPool _ tokenX tokenY _ => [tokenX, tokenY]
  | _ => []

namespace Json

theorem Inside.ofFields {inner content : Json} {fields : List (String × Json)} {name : String}
    (listed : (name, content) ∈ fields) (deeper : Inside inner content) :
    Inside inner (ofFields fields) :=
  .member (List.mem_map_of_mem listed) deeper

theorem inside_action {action : Action} {address : Address} (named : address ∈ action.addresses) :
    Inside (ofAddress address) action.toJson := by
  cases action with
  | transfer recipient value memo =>
      cases List.mem_singleton.mp named
      exact .ofFields List.mem_cons_self (.ofFields List.mem_cons_self .here)
  | createLiquidityPool functionId tokenX tokenY fee =>
      rcases List.mem_cons.mp named with rfl | isSecond
      · exact .ofFields List.mem_cons_self
          (.ofFields (List.mem_cons_of_mem _ List.mem_cons_self) .here)
      · cases List.mem_singleton.mp isSecond
        exact .ofFields List.mem_cons_self
          (.ofFields (List.mem_cons_of_mem _ (List.mem_cons_of_mem _ List.mem_cons_self)) .here)
  | _ => cases named

theorem inside_genesis {config : GenesisConfig} {allocation : Allocation}
    (listed : allocation ∈ config.allocations) :
    Inside (ofAddress allocation.address) config.toJson := by
  have inAllocation : Inside (ofAddress allocation.address) allocation.toJson :=
    .ofFields List.mem_cons_self .here
  have inList := Inside.item (List.mem_map_of_mem listed) inAllocation
  exact .ofFields (List.mem_cons_of_mem _ List.mem_cons_self) inList

theorem Inside.infix_render {inner outer : Json} (inside : Inside inner outer) :
    inner.render.toList <:+: outer.render.toList := by
  rw [render, render, String.toList_ofList, String.toList_ofList]
  exact inside.isInfix

end Json

/-- A genesis configuration, an action and an address are read back from their texts, whatever
texts, numbers and lists they hold.  An address has its hexadecimal form between quotes for its
text, and in this form it stands in the text of a configuration that allocates to it, or of an
action that names it. -/
theorem texts_read_back :
    (∀ config : GenesisConfig, GenesisConfig.parse config.toJson.render = some config ∧
        ∀ allocation ∈ config.allocations,
          (Json.ofAddress allocation.address).render.toList <:+: config.toJson.render.toList) ∧
      (∀ action : Action, (Json.parse action.toJson.render).bind Action.ofJson? = some action ∧
        ∀ address ∈ action.addresses,
          (Json.ofAddress address).render.toList <:+: action.toJson.render.toList) ∧
      ∀ address : Address,
        (Json.ofAddress address).render = "\"" ++ address.render ++ "\"" ∧
          (Json.parse (Json.ofAddress address).render).bind Json.toAddress? = some address := by
  refine ⟨fun config => ⟨?_, ?_⟩, fun action => ⟨?_, ?_⟩, fun address => ⟨?_, ?_⟩⟩
  · rw [GenesisConfig.parse, Json.parse_render, Option.bind_some, config.ofJson?_toJson]
  · intro allocation listed
    exact (Json.inside_genesis listed).infix_render
  · rw [Json.parse_render, Option.bind_some, action.ofJson?_toJson]
  · intro address named
    exact (Json.inside_action named).infix_render
  · exact Json.render_ofAddress address
  · rw [Json.parse_render, Option.bind_some, Json.toAddress?_ofAddress]

/-- A configuration whose texts have to be escaped in several ways, with a model that is listed
twice, the greatest balance, and an account that is listed twice. -/
def quotedGenesis : GenesisConfig where
  ledger :=
    { coinName := "\"Gold\\\u0001\n", coinSymbol := "\u007f€\u200b", coinMetadata := ""
      pricingModels := [⟨255, "/"⟩, ⟨255, "\t"⟩] }
  allocations := [⟨.zero, 18446744073709551615⟩, ⟨.zero, 0⟩]

theorem quotedGenesis_reads_back :
    (Json.ofText quotedGenesis.ledger.coinName).render = "\"\\\"Gold\\\\\\u0001\\n\"" ∧
      GenesisConfig.parse quotedGenesis.toJson.render = some quotedGenesis ∧
      ∃ allocation ∈ quotedGenesis.allocations,
        (Json.ofAddress allocation.address).render.toList <:+:
          quotedGenesis.toJson.render.toList := by
  obtain ⟨readsBack, stands⟩ := texts_read_back.1 quotedGenesis
  exact ⟨by decide +kernel, readsBack, _, List.mem_cons_self, stands _ List.mem_cons_self⟩

end PoolLedger
