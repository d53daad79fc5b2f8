import AlphaDesk.Records.Stored

/-! # Flows of accounts and vaults

A flow record keeps the total credited and the total debited to one owner: an
account in a scope, or a vault. Both totals share a scale, which grows with the
amounts that are added.
-/

namespace AlphaDesk

open Bytes Wire

def accountReasonCode : RecordCodecError → String
  | .invalidKey => "account_state.codec.invalid_key"
  | .codec => "account_state.codec.decode"
  | .nonCanonical => "account_state.codec.noncanonical"
  | .invalidRecord => "account_state.codec.invalid_record"
  | .keyMismatch => "account_state.codec.key_mismatch"
  | .limitExceeded => "account_state.codec.limit_exceeded"

def accountCodecError (e : RecordCodecError) : ReducerError :=
  ⟨accountReasonCode e, "account state codec or key operation failed"⟩

def accountCurrentRecordError : ReducerError :=
  ⟨"account_state.current_record_invalid",
    "existing account current record is corrupt or key mismatched"⟩

def flowArithmeticError : ReducerError :=
  ⟨"account_state.flow_arithmetic", "account flow arithmetic or exact scale expansion failed"⟩

variable (J : SerdeJson) (state : Entries) {T : Type} [Stored T]

def currentMutation (key : Except RecordCodecError StateKey)
    (next : Option T → Except ReducerError T) : Except ReducerError StateMutation := do
  let key ← key.mapError accountCodecError
  let current ← (state[key]?).mapM fun bytes =>
    (Stored.decodeAt J key bytes).mapError fun _ => accountCurrentRecordError
  let record ← next current
  return .put key (← (Stored.encode J record).mapError accountCodecError)

variable {J state}

theorem putsIn_currentMutation {ns : String} {identities : List (List UInt8)} {nss : List String}
    {next : Option T → Except ReducerError T} {m : StateMutation} {ms : List StateMutation}
    (h : currentMutation J state (framedKey ns identities) next = .ok m) (hns : ns ∈ nss)
    (hms : PutsIn nss ms) : PutsIn nss (m :: ms) := by
  simp only [currentMutation, Except.bind_eq_ok] at h
  obtain ⟨k, hk, -, -, r, -, bytes, -, h⟩ := h
  obtain rfl := Except.ok.inj h
  exact .put ((ns_framedKey (Except.mapError_eq_ok.mp hk)).1 ▸ hns) hms

/-- What a flow is kept for, with the fields that name it in a record. -/
class FlowOwner (O : Type) where
  {Prefix : Type}
  layout : Layout Prefix
  toPrefix : O → Prefix
  ofPrefix : Prefix → Option O
  ofPrefix_toPrefix : ∀ o, ofPrefix (toPrefix o) = some o := by exact fun _ => rfl
  ns : String
  schema : String
  creditsName : String
  debitsName : String
  nodup : ("schema" :: (layout.fields.map Prod.fst ++
    [creditsName, debitsName, "last_event_id", "last_block_height"])).Nodup := by decide
  identities : O → List (List UInt8)
  identities_injective : Function.Injective identities

structure FlowRecord (O : Type) where
  owner : O
  credits : Decimal
  debits : Decimal
  lastEventId : EventId
  lastBlockHeight : BlockHeight

variable {O : Type} [FlowOwner O]

def validTotals (left right : Decimal) : Bool :=
  0 ≤ left.raw && 0 ≤ right.raw && left.scale == right.scale

def flowKey (o : O) : Except RecordCodecError StateKey :=
  framedKey (FlowOwner.ns O) (FlowOwner.identities o)

def FlowRecord.layout : Layout (FlowOwner.Prefix O × Decimal × Decimal × EventId × BlockHeight) :=
  .tag "schema" (FlowOwner.schema O) <| .append (FlowOwner.layout (O := O)) <|
    .and (FlowOwner.creditsName O) <| .and (FlowOwner.debitsName O) <| .and "last_event_id" <|
    .last "last_block_height"

instance : Stored (FlowRecord O) where
  ns := FlowOwner.ns O
  keyOf r := flowKey r.owner
  exact := true
  format :=
    { layout := FlowRecord.layout
      fields r := (FlowOwner.toPrefix r.owner, r.credits, r.debits, r.lastEventId,
        r.lastBlockHeight)
      record := fun (owner, credits, debits, lastEventId, lastBlockHeight) =>
        (FlowOwner.ofPrefix owner).map fun o => ⟨o, credits, debits, lastEventId, lastBlockHeight⟩
      valid r := validTotals r.credits r.debits
      nodup := by
        simpa [FlowRecord.layout, Layout.tag, Layout.append, Layout.and, Layout.last] using
          FlowOwner.nodup (O := O)
      record_fields r := by simp [FlowOwner.ofPrefix_toPrefix] }

theorem flowKey_inj {o o' : O} {k : StateKey} (h : flowKey o = .ok k) (h' : flowKey o' = .ok k) :
    o = o' :=
  FlowOwner.identities_injective (framedKey_inj h h')

inductive AccountQuantityFlowScopeV1
  | externalAsset (assetId : AssetId)
  | spotTransferAsset (assetId : AssetId)
  | subaccountTransferAsset (assetId : AssetId)
  | feeAsset (assetId : AssetId)
  | builderFeeAsset (assetId : AssetId)
  | referralRewardAsset (assetId : AssetId)
  | vaultShares (vaultId : VaultId)
  | spotGenesisAsset (assetId : AssetId)

namespace AccountQuantityFlowScopeV1

def asWireName : AccountQuantityFlowScopeV1 → String
  | externalAsset _ => "external_asset"
  | spotTransferAsset _ => "spot_transfer_asset"
  | subaccountTransferAsset _ => "subaccount_transfer_asset"
  | feeAsset _ => "fee_asset"
  | builderFeeAsset _ => "builder_fee_asset"
  | referralRewardAsset _ => "referral_reward_asset"
  | vaultShares _ => "vault_shares"
  | spotGenesisAsset _ => "spot_genesis_asset"

def parse (scope : String) (assetId : Option AssetId) (vaultId : Option VaultId) :
    Option AccountQuantityFlowScopeV1 :=
  match scope, vaultId with
  | "external_asset", none => assetId.map externalAsset
  | "spot_transfer_asset", none => assetId.map spotTransferAsset
  | "subaccount_transfer_asset", none => assetId.map subaccountTransferAsset
  | "fee_asset", none => assetId.map feeAsset
  | "builder_fee_asset", none => assetId.map builderFeeAsset
  | "referral_reward_asset", none => assetId.map referralRewardAsset
  | "vault_shares", some vaultId => if assetId.isNone then some (vaultShares vaultId) else none
  | "spot_genesis_asset", none => assetId.map spotGenesisAsset
  | _, _ => none

def assetId : AccountQuantityFlowScopeV1 → Option AssetId
  | externalAsset a | spotTransferAsset a | subaccountTransferAsset a | feeAsset a
  | builderFeeAsset a | referralRewardAsset a | spotGenesisAsset a => some a
  | vaultShares _ => none

def vaultId : AccountQuantityFlowScopeV1 → Option VaultId
  | vaultShares v => some v
  | _ => none

def identity : AccountQuantityFlowScopeV1 → List UInt8
  | externalAsset a | spotTransferAsset a | subaccountTransferAsset a | feeAsset a
  | builderFeeAsset a | referralRewardAsset a | spotGenesisAsset a => a.asBytes
  | vaultShares v => v.asBytes

theorem parse_asWireName (s : AccountQuantityFlowScopeV1) :
    parse s.asWireName s.assetId s.vaultId = some s := by
  cases s <;> rfl

end AccountQuantityFlowScopeV1

inductive AccountQuoteFlowScopeV1
  | defaultPerpQuote
  | marketFunding (marketId : MarketId)
  | vaultPrincipal (vaultId : VaultId)
  | spotClassQuote
  | rewardClaimedQuote

namespace AccountQuoteFlowScopeV1

def asWireName : AccountQuoteFlowScopeV1 → String
  | defaultPerpQuote => "default_perp_quote"
  | marketFunding _ => "market_funding"
  | vaultPrincipal _ => "vault_principal"
  | spotClassQuote => "spot_class_quote"
  | rewardClaimedQuote => "reward_claimed_quote"

def parse (scope : String) (marketId : Option MarketId) (vaultId : Option VaultId) :
    Option AccountQuoteFlowScopeV1 :=
  match scope, marketId, vaultId with
  | "default_perp_quote", none, none => some defaultPerpQuote
  | "spot_class_quote", none, none => some spotClassQuote
  | "reward_claimed_quote", none, none => some rewardClaimedQuote
  | "market_funding", some marketId, none => some (marketFunding marketId)
  | "vault_principal", none, some vaultId => some (vaultPrincipal vaultId)
  | _, _, _ => none

def marketId : AccountQuoteFlowScopeV1 → Option MarketId
  | marketFunding m => some m
  | _ => none

def vaultId : AccountQuoteFlowScopeV1 → Option VaultId
  | vaultPrincipal v => some v
  | _ => none

def identity : AccountQuoteFlowScopeV1 → Option (List UInt8)
  | marketFunding m => some m.asBytes
  | vaultPrincipal v => some v.asBytes
  | defaultPerpQuote | spotClassQuote | rewardClaimedQuote => none

theorem parse_asWireName (s : AccountQuoteFlowScopeV1) :
    parse s.asWireName s.marketId s.vaultId = some s := by
  cases s <;> rfl

end AccountQuoteFlowScopeV1

structure AccountQuantityFlow where
  accountId : Address
  scope : AccountQuantityFlowScopeV1

structure AccountQuoteFlow where
  accountId : Address
  scope : AccountQuoteFlowScopeV1

structure VaultPrincipalFlow where
  vaultId : VaultId

structure VaultShareFlow where
  vaultId : VaultId

instance : FlowOwner AccountQuantityFlow where
  layout := .and "account_id" <| .and "scope" <| .and "asset_id" <| .last "vault_id"
  toPrefix o := (o.accountId, o.scope.asWireName, o.scope.assetId, o.scope.vaultId)
  ofPrefix := fun (accountId, scope, assetId, vaultId) =>
    (AccountQuantityFlowScopeV1.parse scope assetId vaultId).map fun s => ⟨accountId, s⟩
  ofPrefix_toPrefix o := by simp [AccountQuantityFlowScopeV1.parse_asWireName]
  ns := "account-quantity-flow-current.v1"
  schema := "hyperliquid-alpha-desk/account-quantity-flow-current/v1"
  creditsName := "credits"
  debitsName := "debits"
  identities o := [o.accountId.toList, utf8 o.scope.asWireName, o.scope.identity]
  identities_injective := by
    rintro ⟨a, s⟩ ⟨a', s'⟩ h
    simp only [List.cons.injEq, and_true, utf8_inj] at h
    obtain ⟨ha, hname, hid⟩ := h
    obtain rfl : a = a' := Vector.toList_inj.mp ha
    cases s <;> cases s' <;> simp_all [AccountQuantityFlowScopeV1.asWireName,
      AccountQuantityFlowScopeV1.identity, StringId.asBytes_injective.eq_iff]

instance : FlowOwner AccountQuoteFlow where
  layout := .and "account_id" <| .and "scope" <| .and "market_id" <| .last "vault_id"
  toPrefix o := (o.accountId, o.scope.asWireName, o.scope.marketId, o.scope.vaultId)
  ofPrefix := fun (accountId, scope, marketId, vaultId) =>
    (AccountQuoteFlowScopeV1.parse scope marketId vaultId).map fun s => ⟨accountId, s⟩
  ofPrefix_toPrefix o := by simp [AccountQuoteFlowScopeV1.parse_asWireName]
  ns := "account-quote-flow-current.v1"
  schema := "hyperliquid-alpha-desk/account-quote-flow-current/v1"
  creditsName := "credits"
  debitsName := "debits"
  identities o := o.accountId.toList :: utf8 o.scope.asWireName :: o.scope.identity.toList
  identities_injective := by
    rintro ⟨a, s⟩ ⟨a', s'⟩ h
    simp only [List.cons.injEq, utf8_inj] at h
    obtain ⟨ha, hname, hid⟩ := h
    obtain rfl : a = a' := Vector.toList_inj.mp ha
    cases s <;> cases s' <;> simp_all [AccountQuoteFlowScopeV1.asWireName,
      AccountQuoteFlowScopeV1.identity, StringId.asBytes_injective.eq_iff]

instance : FlowOwner VaultPrincipalFlow where
  layout := .last "vault_id"
  toPrefix o := o.vaultId
  ofPrefix vaultId := some ⟨vaultId⟩
  ns := "vault-principal-flow-current.v1"
  schema := "hyperliquid-alpha-desk/vault-principal-flow-current/v1"
  creditsName := "deposits"
  debitsName := "withdrawals"
  identities o := [o.vaultId.asBytes]
  identities_injective := by
    rintro ⟨v⟩ ⟨v'⟩ h
    simpa [StringId.asBytes_injective.eq_iff] using h

instance : FlowOwner VaultShareFlow where
  layout := .last "vault_id"
  toPrefix o := o.vaultId
  ofPrefix vaultId := some ⟨vaultId⟩
  ns := "vault-share-flow-current.v1"
  schema := "hyperliquid-alpha-desk/vault-share-flow-current/v1"
  creditsName := "shares_issued"
  debitsName := "shares_redeemed"
  identities o := [o.vaultId.asBytes]
  identities_injective := by
    rintro ⟨v⟩ ⟨v'⟩ h
    simpa [StringId.asBytes_injective.eq_iff] using h

abbrev AccountQuantityFlowCurrentRecordV1 := FlowRecord AccountQuantityFlow

abbrev AccountQuoteFlowCurrentRecordV1 := FlowRecord AccountQuoteFlow

abbrev VaultPrincipalFlowCurrentRecordV1 := FlowRecord VaultPrincipalFlow

/-- The credits of a vault's share record are the shares issued, its debits the shares redeemed. -/
abbrev VaultShareFlowCurrentRecordV1 := FlowRecord VaultShareFlow

inductive FlowSide
  | credit
  | debit
  deriving DecidableEq

/-- Bring the totals and an amount to their largest scale and add the amount to one side. -/
def normalizeTotals (credits debits amount : Decimal) (side : FlowSide) :
    Except ReducerError (Decimal × Decimal) := do
  let scale := max (max credits.scale debits.scale) amount.scale
  let credits ← (credits.rescale scale .towardZero).mapError fun _ => flowArithmeticError
  let debits ← (debits.rescale scale .towardZero).mapError fun _ => flowArithmeticError
  let amount ← (amount.rescale scale .towardZero).mapError fun _ => flowArithmeticError
  match side with
  | .credit =>
    return (← (credits.checkedAdd amount).mapError fun _ => flowArithmeticError, debits)
  | .debit =>
    return (credits, ← (debits.checkedAdd amount).mapError fun _ => flowArithmeticError)

/-- The totals after an amount, which are the amount and zero at first. -/
def nextTotals (current : Option (Decimal × Decimal)) (amount : Decimal) (side : FlowSide) :
    Except ReducerError (Decimal × Decimal) := do
  let zero ← (amount.checkedSub amount).mapError fun _ => flowArithmeticError
  match current, side with
  | some (credits, debits), side => normalizeTotals credits debits amount side
  | none, .credit => return (amount, zero)
  | none, .debit => return (zero, amount)

variable (J : SerdeJson) (state : Entries)

def flowMutation {O : Type} [FlowOwner O] (owner : O) (amount : Decimal) (side : FlowSide)
    (eventId : EventId) (blockHeight : BlockHeight) : Except ReducerError StateMutation :=
  currentMutation J state (flowKey owner) fun current => do
    let (credits, debits) ← nextTotals (current.map fun r => (r.credits, r.debits)) amount side
    return (⟨owner, credits, debits, eventId, blockHeight⟩ : FlowRecord O)

def quantityFlowMutation (accountId : Address) (scope : AccountQuantityFlowScopeV1)
    (amount : Quantity) (side : FlowSide) (eventId : EventId) (blockHeight : BlockHeight) :
    Except ReducerError StateMutation :=
  flowMutation J state (⟨accountId, scope⟩ : AccountQuantityFlow) amount side eventId blockHeight

def quoteFlowMutation (accountId : Address) (scope : AccountQuoteFlowScopeV1)
    (amount : QuoteAmount) (side : FlowSide) (eventId : EventId) (blockHeight : BlockHeight) :
    Except ReducerError StateMutation :=
  flowMutation J state (⟨accountId, scope⟩ : AccountQuoteFlow) amount side eventId blockHeight

def vaultPrincipalMutation (vaultId : VaultId) (amount : QuoteAmount) (side : FlowSide)
    (eventId : EventId) (blockHeight : BlockHeight) : Except ReducerError StateMutation :=
  flowMutation J state (⟨vaultId⟩ : VaultPrincipalFlow) amount side eventId blockHeight

def vaultShareMutation (vaultId : VaultId) (amount : Quantity) (side : FlowSide)
    (eventId : EventId) (blockHeight : BlockHeight) : Except ReducerError StateMutation :=
  flowMutation J state (⟨vaultId⟩ : VaultShareFlow) amount side eventId blockHeight

/-- What an amount adds to the credits, or to the debits, by its side. -/
def sideAmount (side other : FlowSide) (amount : ℚ) : ℚ := if side = other then amount else 0

end AlphaDesk
