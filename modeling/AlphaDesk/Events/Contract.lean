import AlphaDesk.Events.Payload

/-! # What a payload must satisfy

An envelope is only built around a payload that its own encoder accepts. The
checks below are those of the encoder, in its order: signs of amounts, distinct
endpoints, changed values and bounded texts.
-/

namespace AlphaDesk

open Bytes

inductive ContractError
  | unsupportedSchema (version : String)
  | missing (field : String)
  | invalid (field : String) (reason : String)
  deriving DecidableEq

def require (p : Bool) (reason : String) : Except ContractError Unit :=
  if p then .ok () else .error (.invalid "payload" reason)

/-- A check of the wire codec, whose error names the payload kind. -/
def requireWire (kind : String) (p : Bool) (reason : String) : Except ContractError Unit :=
  require p ("invalid " ++ kind ++ " payload: " ++ reason)

def requirePositive (value : Decimal) (fieldName : String) : Except ContractError Unit :=
  require (0 < value.raw) (fieldName ++ " must be positive")

theorem require_eq_ok {p : Bool} {reason : String} {u : Unit} :
    require p reason = .ok u ↔ p = true := by
  cases p <;> simp [require]

theorem requirePositive_eq_ok {value : Decimal} {fieldName : String} {u : Unit} :
    requirePositive value fieldName = .ok u ↔ 0 < value.raw := by
  rw [requirePositive, require_eq_ok, decide_eq_true_eq]

/-- The Unicode category of control characters. -/
def isControl (c : Char) : Bool := c.toNat < 0x20 || (0x7F ≤ c.toNat && c.toNat < 0xA0)

def isAsciiControl (b : UInt8) : Bool := b.toNat < 0x20 || b.toNat == 0x7F

def requiredPayloadField (kind field value : String) : Except ContractError Unit :=
  requireWire kind (validId value) (field ++ " must be non-empty without surrounding whitespace")

def requiredBoundedText (kind field value : String) (maxBytes : ℕ) : Except ContractError Unit := do
  requiredPayloadField kind field value
  requireWire kind ((utf8 value).length ≤ maxBytes && !value.toList.any isControl)
    (field ++ " must be control-free and at most " ++ toString maxBytes ++ " bytes")

def requiredReference (kind field value : String) : Except ContractError Unit := do
  requiredPayloadField kind field value
  requireWire kind ((utf8 value).length ≤ 256 && !(utf8 value).any isAsciiControl)
    (field ++ " must have 1..=256 bytes and no ASCII controls")

def requireDistinctAccounts (kind leftField : String) (left : Address) (rightField : String)
    (right : Address) : Except ContractError Unit :=
  requireWire kind (left ≠ right) (leftField ++ " and " ++ rightField ++ " must differ")

def requireDistinctEndpoints (kind : String) (source target : Address) :
    Except ContractError Unit :=
  requireDistinctAccounts kind "from_account_id" source "to_account_id" target

/-- A lowercase `0x` followed by 32 hexadecimal digits. -/
def isCanonicalTradeClientOrderId (value : String) : Bool :=
  match value.toList with
  | '0' :: 'x' :: digits => digits.length == 32 && digits.all fun c => (Address.hexValue c).isSome
  | _ => false

def validateFeeRateSemantics (feeType : FeeTypeV1) (feeRate : FeeRate) :
    Except ContractError Unit :=
  require (if feeType = .makerRebate then feeRate.raw < 0 else 0 < feeRate.raw)
    "maker_rebate requires a negative fee rate; charged fees require a positive fee rate"

def validateLiquidationStartedSemantics (marginValue maintenanceRequirement : UsdAmount) :
    Except ContractError Unit := do
  require (0 ≤ marginValue.raw && 0 ≤ maintenanceRequirement.raw)
    "LiquidationStarted margin values must be nonnegative"
  require (marginValue.scale = maintenanceRequirement.scale)
    "LiquidationStarted margin values must use the same scale"
  require (compare marginValue maintenanceRequirement = .lt)
    "LiquidationStarted margin_value must be less than maintenance_requirement"

def validateMarketCreatedSemantics (p : MarketCreated) : Except ContractError Unit := do
  require (p.baseAssetId ≠ p.quoteAssetId) "MarketCreated base and quote assets must differ"
  require (0 < p.tickSize.raw && 0 < p.lotSize.raw)
    "MarketCreated tick and lot sizes must be positive"

def validateOpenInterestCapSemantics (p : OpenInterestCapChanged) : Except ContractError Unit := do
  require (0 ≤ p.previousCap.raw && 0 ≤ p.newCap.raw)
    "OpenInterestCapChanged values must be nonnegative"
  require (!p.previousCap.numEq p.newCap) "OpenInterestCapChanged values must differ"

def validateTwapCompleted (p : TwapCompleted) : Except ContractError Unit := do
  require (0 ≤ p.filledQuantity.raw) "TwapCompleted filled_quantity must be nonnegative"
  if p.filledQuantity.raw = 0 then
    require (p.averagePrice.raw = 0)
      "TwapCompleted average_price must be zero when filled_quantity is zero"
  else requirePositive p.averagePrice "TwapCompleted average_price"

def validateTradeClientOrderId (participant : TradeParticipantV1) : Except ContractError Unit :=
  requireWire "TradeMatched"
    (participant.clientOrderId.all fun i => isCanonicalTradeClientOrderId i.value)
    ("participants.client_order_id must be lowercase 0x followed by exactly 32 lowercase " ++
      "hexadecimal digits")

namespace TradeMatched

def validate (p : TradeMatched) : Except ContractError Unit := do
  require (0 < p.price.raw) "TradeMatched price must be positive"
  require (0 < p.quantity.raw) "TradeMatched quantity must be positive"
  match p.participants with
  | none => return
  | some (buyer, seller) =>
    require (buyer.role = .buyer && seller.role = .seller)
      "TradeMatched participants must be ordered buyer then seller"
    require (buyer.accountId ≠ seller.accountId) "TradeMatched participant accounts must differ"

/-- What the wire codec of a trade checks beyond `validate`. -/
def validateTradeParticipants (p : TradeMatched) : Except ContractError Unit :=
  match p.participants with
  | none => return
  | some (buyer, seller) => do
    validateTradeClientOrderId buyer
    validateTradeClientOrderId seller

end TradeMatched

namespace EventPayload

/-- The checks of the payload's encoder. The order payloads that rest, fill or
modify carry no check of their own: their reducer makes them. -/
def validate : EventPayload → Except ContractError Unit
  | orderCancelled p => requiredBoundedText "OrderCancelled" "reason" p.reason 1024
  | orderRejected p => do
    requiredBoundedText "OrderRejected" "reason_code" p.reasonCode 128
    requiredBoundedText "OrderRejected" "reason" p.reason 1024
  | triggerOrderActivated p => do
    requirePositive p.triggerPrice "TriggerOrderActivated trigger_price"
    requirePositive p.oraclePrice "TriggerOrderActivated oracle_price"
  | twapStarted p => requirePositive p.totalQuantity "TwapStarted total_quantity"
  | twapSliceFilled p => do
    requirePositive p.fillPrice "TwapSliceFilled fill_price"
    requirePositive p.fillQuantity "TwapSliceFilled fill_quantity"
  | twapCompleted p => validateTwapCompleted p
  | tradeMatched p => do
    p.validate
    p.validateTradeParticipants
  | depositCredited p => do
    requirePositive p.amount "DepositCredited amount"
    requiredReference "DepositCredited" "deposit_reference" p.depositReference
  | withdrawalDebited p => do
    requirePositive p.amount "WithdrawalDebited amount"
    requiredReference "WithdrawalDebited" "withdrawal_reference" p.withdrawalReference
  | spotTransfer p => do
    requirePositive p.amount "SpotTransfer amount"
    requireDistinctEndpoints "SpotTransfer" p.fromAccountId p.toAccountId
  | perpTransfer p => do
    requirePositive p.quoteAmount "PerpTransfer quote_amount"
    requireDistinctEndpoints "PerpTransfer" p.fromAccountId p.toAccountId
  | subaccountTransfer p => do
    requirePositive p.amount "SubaccountTransfer amount"
    requireDistinctEndpoints "SubaccountTransfer" p.fromAccountId p.toAccountId
  | vaultDeposit p => do
    requirePositive p.amount "VaultDeposit amount"
    requirePositive p.sharesIssued "VaultDeposit shares_issued"
  | vaultWithdrawal p => do
    requirePositive p.amount "VaultWithdrawal amount"
    requirePositive p.sharesRedeemed "VaultWithdrawal shares_redeemed"
  | feeCharged p => do
    requirePositive p.amount "FeeCharged amount"
    validateFeeRateSemantics p.feeType p.feeRate
  | builderFeeCharged p => do
    requirePositive p.amount "BuilderFeeCharged amount"
    requireDistinctAccounts "BuilderFeeCharged" "account_id" p.accountId
      "builder_account_id" p.builderAccountId
  | fundingPaid p => requirePositive p.amount "FundingPaid amount"
  | fundingReceived p => requirePositive p.amount "FundingReceived amount"
  | referralReward p => do
    requirePositive p.amount "ReferralReward amount"
    requireDistinctAccounts "ReferralReward" "account_id" p.accountId
      "referrer_account_id" p.referrerAccountId
  | accountModeChanged p =>
    require (p.previousMode ≠ p.newMode) "AccountModeChanged modes must differ"
  | marginModeChanged p =>
    require (p.previousMode ≠ p.newMode) "MarginModeChanged modes must differ"
  | leverageChanged p => do
    requirePositive p.previousLeverage "LeverageChanged previous_leverage"
    requirePositive p.newLeverage "LeverageChanged new_leverage"
    require (!p.previousLeverage.numEq p.newLeverage) "LeverageChanged leverage values must differ"
  | liquidationStarted p =>
    validateLiquidationStartedSemantics p.marginValue p.maintenanceRequirement
  | liquidationFill p => do
    requirePositive p.price "LiquidationFill price"
    requirePositive p.quantity "LiquidationFill quantity"
  | backstopLiquidation p => do
    require (p.accountId ≠ p.backstopAccountId) "BackstopLiquidation accounts must differ"
    requirePositive p.quantity "BackstopLiquidation quantity"
  | positionSettled p => do
    require (0 ≤ p.settlementPrice.raw) "PositionSettled settlement_price must be nonnegative"
    requirePositive p.settledQuantity "PositionSettled settled_quantity"
  | dexCreated p => requiredBoundedText "DexCreated" "name" p.name 256
  | assetContextUpdated p =>
    requiredBoundedText "AssetContextUpdated" "context_version" p.contextVersion 128
  | marketCreated p => validateMarketCreatedSemantics p
  | marketMetadataChanged p =>
    requiredBoundedText "MarketMetadataChanged" "metadata_version" p.metadataVersion 128
  | marketHalted p => requiredBoundedText "MarketHalted" "reason" p.reason 1024
  | marketResumed p => requiredBoundedText "MarketResumed" "reason" p.reason 1024
  | openInterestCapChanged p => validateOpenInterestCapSemantics p
  | marginTableChanged p => do
    requiredBoundedText "MarginTableChanged" "previous_table_hash" p.previousTableHash 256
    requiredBoundedText "MarginTableChanged" "new_table_hash" p.newTableHash 256
    requireWire "MarginTableChanged" (p.previousTableHash ≠ p.newTableHash)
      "previous_table_hash and new_table_hash must differ"
  | oracleUpdated p => do
    require (0 < p.oraclePrice.raw) "OracleUpdated price must be positive"
    requiredBoundedText "OracleUpdated" "source" p.source 256
  | outcomeCreated p => requiredBoundedText "OutcomeCreated" "description" p.description 2048
  | outcomeResolved p =>
    require (0 ≤ p.settlementValue.raw) "OutcomeResolved settlement value must be nonnegative"
  | _ => return

/-- An enriched trade's envelope names exactly its buyer and its seller. -/
def validateTradeAccountBinding (payload : EventPayload) (accountIds : List Address) :
    Except ContractError Unit :=
  match payload with
  | tradeMatched { participants := some (buyer, seller), .. } =>
    if accountIds = [buyer.accountId, seller.accountId] then return
    else .error (.invalid "account_ids"
      "TradeMatched envelope accounts must exactly match participant buyer/seller order")
  | _ => return

end EventPayload

end AlphaDesk
