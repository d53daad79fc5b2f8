import AlphaDesk.Domain.Decimal

/-! # Event payloads

The kinds of canonical events and the payload of each. The payloads of schema
1.0 hold domain values; those added by schema 1.1 are kept as the texts of
their wire message, to be parsed by the reducer that owns them.
-/

namespace AlphaDesk

inductive EventKind
  | orderAccepted
  | orderRested
  | orderModified
  | orderPartiallyFilled
  | orderFilled
  | orderCancelled
  | orderRejected
  | triggerOrderActivated
  | twapStarted
  | twapSliceFilled
  | twapCompleted
  | tradeMatched
  | depositCredited
  | withdrawalDebited
  | spotTransfer
  | perpTransfer
  | subaccountTransfer
  | vaultDeposit
  | vaultWithdrawal
  | feeCharged
  | builderFeeCharged
  | fundingPaid
  | fundingReceived
  | referralReward
  | accountModeChanged
  | marginModeChanged
  | leverageChanged
  | liquidationStarted
  | liquidationFill
  | backstopLiquidation
  | positionSettled
  | marketHalted
  | marketResumed
  | openInterestCapChanged
  | marginTableChanged
  | marketCreated
  | marketMetadataChanged
  | oracleUpdated
  | fundingRateUpdated
  | assetContextUpdated
  | dexCreated
  | outcomeCreated
  | outcomeResolved
  | nonUserOrderCancelled
  | internalTransfer
  | accountClassTransfer
  | vaultCreated
  | vaultDistribution
  | vaultLeaderCommissionPaid
  | rewardClaimed
  | spotGenesisApplied
  | stakingDeposit
  | stakingDelegated
  | stakingUndelegated
  | stakingWithdrawalQueued
  | stakingWithdrawalCompleted
  | validatorRewardPaid
  deriving DecidableEq

def EventKind.asWireName : EventKind → String
  | .orderAccepted => "OrderAccepted"
  | .orderRested => "OrderRested"
  | .orderModified => "OrderModified"
  | .orderPartiallyFilled => "OrderPartiallyFilled"
  | .orderFilled => "OrderFilled"
  | .orderCancelled => "OrderCancelled"
  | .orderRejected => "OrderRejected"
  | .triggerOrderActivated => "TriggerOrderActivated"
  | .twapStarted => "TwapStarted"
  | .twapSliceFilled => "TwapSliceFilled"
  | .twapCompleted => "TwapCompleted"
  | .tradeMatched => "TradeMatched"
  | .depositCredited => "DepositCredited"
  | .withdrawalDebited => "WithdrawalDebited"
  | .spotTransfer => "SpotTransfer"
  | .perpTransfer => "PerpTransfer"
  | .subaccountTransfer => "SubaccountTransfer"
  | .vaultDeposit => "VaultDeposit"
  | .vaultWithdrawal => "VaultWithdrawal"
  | .feeCharged => "FeeCharged"
  | .builderFeeCharged => "BuilderFeeCharged"
  | .fundingPaid => "FundingPaid"
  | .fundingReceived => "FundingReceived"
  | .referralReward => "ReferralReward"
  | .accountModeChanged => "AccountModeChanged"
  | .marginModeChanged => "MarginModeChanged"
  | .leverageChanged => "LeverageChanged"
  | .liquidationStarted => "LiquidationStarted"
  | .liquidationFill => "LiquidationFill"
  | .backstopLiquidation => "BackstopLiquidation"
  | .positionSettled => "PositionSettled"
  | .marketHalted => "MarketHalted"
  | .marketResumed => "MarketResumed"
  | .openInterestCapChanged => "OpenInterestCapChanged"
  | .marginTableChanged => "MarginTableChanged"
  | .marketCreated => "MarketCreated"
  | .marketMetadataChanged => "MarketMetadataChanged"
  | .oracleUpdated => "OracleUpdated"
  | .fundingRateUpdated => "FundingRateUpdated"
  | .assetContextUpdated => "AssetContextUpdated"
  | .dexCreated => "DexCreated"
  | .outcomeCreated => "OutcomeCreated"
  | .outcomeResolved => "OutcomeResolved"
  | .nonUserOrderCancelled => "NonUserOrderCancelled"
  | .internalTransfer => "InternalTransfer"
  | .accountClassTransfer => "AccountClassTransfer"
  | .vaultCreated => "VaultCreated"
  | .vaultDistribution => "VaultDistribution"
  | .vaultLeaderCommissionPaid => "VaultLeaderCommissionPaid"
  | .rewardClaimed => "RewardClaimed"
  | .spotGenesisApplied => "SpotGenesisApplied"
  | .stakingDeposit => "StakingDeposit"
  | .stakingDelegated => "StakingDelegated"
  | .stakingUndelegated => "StakingUndelegated"
  | .stakingWithdrawalQueued => "StakingWithdrawalQueued"
  | .stakingWithdrawalCompleted => "StakingWithdrawalCompleted"
  | .validatorRewardPaid => "ValidatorRewardPaid"

def EventKind.all : List EventKind :=
  [.orderAccepted, .orderRested, .orderModified, .orderPartiallyFilled, .orderFilled,
   .orderCancelled, .orderRejected, .triggerOrderActivated, .twapStarted, .twapSliceFilled,
   .twapCompleted, .tradeMatched, .depositCredited, .withdrawalDebited, .spotTransfer,
   .perpTransfer, .subaccountTransfer, .vaultDeposit, .vaultWithdrawal, .feeCharged,
   .builderFeeCharged, .fundingPaid, .fundingReceived, .referralReward, .accountModeChanged,
   .marginModeChanged, .leverageChanged, .liquidationStarted, .liquidationFill,
   .backstopLiquidation, .positionSettled, .marketHalted, .marketResumed, .openInterestCapChanged,
   .marginTableChanged, .marketCreated, .marketMetadataChanged, .oracleUpdated,
   .fundingRateUpdated, .assetContextUpdated, .dexCreated, .outcomeCreated, .outcomeResolved,
   .nonUserOrderCancelled, .internalTransfer, .accountClassTransfer, .vaultCreated,
   .vaultDistribution, .vaultLeaderCommissionPaid, .rewardClaimed, .spotGenesisApplied,
   .stakingDeposit, .stakingDelegated, .stakingUndelegated, .stakingWithdrawalQueued,
   .stakingWithdrawalCompleted, .validatorRewardPaid]

theorem EventKind.mem_all (k : EventKind) : k ∈ EventKind.all := by
  cases k <;> decide +kernel

theorem EventKind.find_all :
    ∀ k ∈ EventKind.all, EventKind.all.find? (·.asWireName == k.asWireName) = some k := by
  decide +kernel

def EventKind.ofWireName (name : String) : Option EventKind :=
  EventKind.all.find? (·.asWireName == name)

theorem EventKind.ofWireName_asWireName (k : EventKind) :
    EventKind.ofWireName k.asWireName = some k :=
  EventKind.find_all k (EventKind.mem_all k)

theorem EventKind.asWireName_injective : Function.Injective EventKind.asWireName := by
  intro k k' h
  have hk := EventKind.ofWireName_asWireName k
  rw [h, EventKind.ofWireName_asWireName] at hk
  exact (Option.some.inj hk).symm

structure OrderAccepted where
  orderId : OrderId
  accountId : Address
  marketId : MarketId
  side : OrderSide
  limitPrice : Price
  quantity : Quantity
  deriving DecidableEq

structure OrderRested where
  orderId : OrderId
  marketId : MarketId
  remainingQuantity : Quantity
  limitPrice : Price
  deriving DecidableEq

structure OrderModified where
  orderId : OrderId
  previousPrice : Price
  newPrice : Price
  previousQuantity : Quantity
  newQuantity : Quantity
  deriving DecidableEq

structure OrderPartiallyFilled where
  orderId : OrderId
  tradeId : TradeId
  fillPrice : Price
  fillQuantity : Quantity
  remainingQuantity : Quantity
  deriving DecidableEq

structure OrderFilled where
  orderId : OrderId
  tradeId : TradeId
  fillPrice : Price
  fillQuantity : Quantity
  deriving DecidableEq

structure OrderCancelled where
  orderId : OrderId
  reason : String
  remainingQuantity : Quantity
  deriving DecidableEq

structure OrderRejected where
  clientOrderId : ClientOrderId
  accountId : Address
  reasonCode : String
  reason : String
  deriving DecidableEq

structure TriggerOrderActivated where
  orderId : OrderId
  triggerPrice : Price
  oraclePrice : Price
  deriving DecidableEq

structure TwapStarted where
  orderId : OrderId
  accountId : Address
  marketId : MarketId
  totalQuantity : Quantity
  endTime : ProtocolTime
  deriving DecidableEq

structure TwapSliceFilled where
  orderId : OrderId
  sliceIndex : UInt32
  fillPrice : Price
  fillQuantity : Quantity
  deriving DecidableEq

structure TwapCompleted where
  orderId : OrderId
  filledQuantity : Quantity
  averagePrice : Price
  deriving DecidableEq

inductive TradeParticipantRoleV1
  | buyer
  | seller
  deriving DecidableEq

structure TradeParticipantV1 where
  role : TradeParticipantRoleV1
  accountId : Address
  startPosition : PositionQuantity
  orderId : OrderId
  twapId : Option TwapId
  clientOrderId : Option ClientOrderId
  deriving DecidableEq

/-- A matched trade; the participants are the buyer and the seller. -/
structure TradeMatched where
  tradeId : Option TradeId
  marketId : Option MarketId
  makerOrderId : Option OrderId
  takerOrderId : Option OrderId
  price : Price
  quantity : Quantity
  deterministicSeed : UInt64
  participants : Option (TradeParticipantV1 × TradeParticipantV1)
  deriving DecidableEq

structure DepositCredited where
  accountId : Address
  assetId : AssetId
  amount : Quantity
  depositReference : String
  deriving DecidableEq

structure WithdrawalDebited where
  accountId : Address
  assetId : AssetId
  amount : Quantity
  withdrawalReference : String
  deriving DecidableEq

structure SpotTransfer where
  fromAccountId : Address
  toAccountId : Address
  assetId : AssetId
  amount : Quantity
  deriving DecidableEq

structure PerpTransfer where
  fromAccountId : Address
  toAccountId : Address
  quoteAmount : QuoteAmount
  deriving DecidableEq

structure SubaccountTransfer where
  masterAccountId : Address
  fromAccountId : Address
  toAccountId : Address
  assetId : AssetId
  amount : Quantity
  deriving DecidableEq

structure VaultDeposit where
  vaultId : VaultId
  accountId : Address
  amount : QuoteAmount
  sharesIssued : Quantity
  deriving DecidableEq

structure VaultWithdrawal where
  vaultId : VaultId
  accountId : Address
  amount : QuoteAmount
  sharesRedeemed : Quantity
  deriving DecidableEq

structure FeeCharged where
  accountId : Address
  assetId : AssetId
  amount : Quantity
  feeRate : FeeRate
  feeType : FeeTypeV1
  deriving DecidableEq

structure BuilderFeeCharged where
  accountId : Address
  builderAccountId : Address
  assetId : AssetId
  amount : Quantity
  deriving DecidableEq

structure FundingPaid where
  accountId : Address
  marketId : MarketId
  amount : QuoteAmount
  fundingRate : FundingRate
  deriving DecidableEq

structure FundingReceived where
  accountId : Address
  marketId : MarketId
  amount : QuoteAmount
  fundingRate : FundingRate
  deriving DecidableEq

structure ReferralReward where
  accountId : Address
  referrerAccountId : Address
  assetId : AssetId
  amount : Quantity
  deriving DecidableEq

structure AccountModeChanged where
  accountId : Address
  previousMode : AccountAbstractionModeV1
  newMode : AccountAbstractionModeV1
  deriving DecidableEq

structure MarginModeChanged where
  accountId : Address
  marketId : MarketId
  previousMode : MarginModeV1
  newMode : MarginModeV1
  deriving DecidableEq

structure LeverageChanged where
  accountId : Address
  marketId : MarketId
  previousLeverage : Leverage
  newLeverage : Leverage
  deriving DecidableEq

structure LiquidationStarted where
  accountId : Address
  liquidationId : LiquidationId
  marginValue : UsdAmount
  maintenanceRequirement : UsdAmount
  deriving DecidableEq

structure LiquidationFill where
  liquidationId : LiquidationId
  accountId : Address
  marketId : MarketId
  price : Price
  quantity : Quantity
  deriving DecidableEq

structure BackstopLiquidation where
  liquidationId : LiquidationId
  accountId : Address
  backstopAccountId : Address
  marketId : MarketId
  quantity : Quantity
  deriving DecidableEq

structure PositionSettled where
  accountId : Address
  marketId : MarketId
  settlementPrice : Price
  settledQuantity : Quantity
  realizedPnl : QuoteAmount
  deriving DecidableEq

structure DexCreated where
  dexId : DexId
  name : String
  operatorAccountId : Address
  deriving DecidableEq

structure AssetContextUpdated where
  assetId : AssetId
  contextVersion : String
  contextHash : Hash32
  deriving DecidableEq

structure MarketCreated where
  marketId : MarketId
  dexId : DexId
  baseAssetId : AssetId
  quoteAssetId : AssetId
  tickSize : Price
  lotSize : Quantity
  deriving DecidableEq

structure MarketMetadataChanged where
  marketId : MarketId
  metadataVersion : String
  metadataHash : Hash32
  deriving DecidableEq

structure MarketHalted where
  marketId : MarketId
  reason : String
  deriving DecidableEq

structure MarketResumed where
  marketId : MarketId
  reason : String
  deriving DecidableEq

structure OpenInterestCapChanged where
  marketId : MarketId
  previousCap : QuoteAmount
  newCap : QuoteAmount
  deriving DecidableEq

structure MarginTableChanged where
  marketId : MarketId
  previousTableHash : String
  newTableHash : String
  deriving DecidableEq

structure OracleUpdated where
  marketId : MarketId
  oraclePrice : Price
  source : String
  effectiveAt : ProtocolTime
  deriving DecidableEq

structure FundingRateUpdated where
  marketId : MarketId
  fundingRate : FundingRate
  effectiveAt : ProtocolTime
  deriving DecidableEq

structure OutcomeCreated where
  marketId : MarketId
  outcomeId : OutcomeId
  description : String
  deriving DecidableEq

structure OutcomeResolved where
  marketId : MarketId
  outcomeId : OutcomeId
  settlementValue : Price
  resolvedAt : ProtocolTime
  deriving DecidableEq

structure NonUserOrderCancelled where
  orderId : String
  reason : String
  remainingQuantity : String
  deriving DecidableEq

structure InternalTransfer where
  fromAccountId : String
  toAccountId : String
  amount : String
  fee : String
  deriving DecidableEq

structure AccountClassTransfer where
  accountId : String
  amount : String
  toPerp : Bool
  deriving DecidableEq

structure VaultCreated where
  vaultId : String
  amount : String
  fee : String
  deriving DecidableEq

structure VaultDistribution where
  vaultId : String
  amount : String
  deriving DecidableEq

structure VaultLeaderCommissionPaid where
  vaultId : String
  accountId : String
  amount : String
  deriving DecidableEq

structure RewardClaimed where
  accountId : String
  amount : String
  deriving DecidableEq

structure SpotGenesisApplied where
  token : String
  amount : String
  deriving DecidableEq

structure StakingDeposit where
  accountId : String
  amount : String
  deriving DecidableEq

structure StakingDelegated where
  accountId : String
  validator : String
  amount : String
  deriving DecidableEq

structure StakingUndelegated where
  accountId : String
  validator : String
  amount : String
  deriving DecidableEq

structure StakingWithdrawalQueued where
  accountId : String
  amount : String
  deriving DecidableEq

structure StakingWithdrawalCompleted where
  accountId : String
  amount : String
  deriving DecidableEq

structure ValidatorRewardPaid where
  validator : String
  amount : String
  deriving DecidableEq

inductive EventPayload
  | orderAccepted (p : OrderAccepted)
  | orderRested (p : OrderRested)
  | orderModified (p : OrderModified)
  | orderPartiallyFilled (p : OrderPartiallyFilled)
  | orderFilled (p : OrderFilled)
  | orderCancelled (p : OrderCancelled)
  | orderRejected (p : OrderRejected)
  | triggerOrderActivated (p : TriggerOrderActivated)
  | twapStarted (p : TwapStarted)
  | twapSliceFilled (p : TwapSliceFilled)
  | twapCompleted (p : TwapCompleted)
  | tradeMatched (p : TradeMatched)
  | depositCredited (p : DepositCredited)
  | withdrawalDebited (p : WithdrawalDebited)
  | spotTransfer (p : SpotTransfer)
  | perpTransfer (p : PerpTransfer)
  | subaccountTransfer (p : SubaccountTransfer)
  | vaultDeposit (p : VaultDeposit)
  | vaultWithdrawal (p : VaultWithdrawal)
  | feeCharged (p : FeeCharged)
  | builderFeeCharged (p : BuilderFeeCharged)
  | fundingPaid (p : FundingPaid)
  | fundingReceived (p : FundingReceived)
  | referralReward (p : ReferralReward)
  | accountModeChanged (p : AccountModeChanged)
  | marginModeChanged (p : MarginModeChanged)
  | leverageChanged (p : LeverageChanged)
  | liquidationStarted (p : LiquidationStarted)
  | liquidationFill (p : LiquidationFill)
  | backstopLiquidation (p : BackstopLiquidation)
  | positionSettled (p : PositionSettled)
  | marketHalted (p : MarketHalted)
  | marketResumed (p : MarketResumed)
  | openInterestCapChanged (p : OpenInterestCapChanged)
  | marginTableChanged (p : MarginTableChanged)
  | marketCreated (p : MarketCreated)
  | marketMetadataChanged (p : MarketMetadataChanged)
  | oracleUpdated (p : OracleUpdated)
  | fundingRateUpdated (p : FundingRateUpdated)
  | assetContextUpdated (p : AssetContextUpdated)
  | dexCreated (p : DexCreated)
  | outcomeCreated (p : OutcomeCreated)
  | outcomeResolved (p : OutcomeResolved)
  | nonUserOrderCancelled (p : NonUserOrderCancelled)
  | internalTransfer (p : InternalTransfer)
  | accountClassTransfer (p : AccountClassTransfer)
  | vaultCreated (p : VaultCreated)
  | vaultDistribution (p : VaultDistribution)
  | vaultLeaderCommissionPaid (p : VaultLeaderCommissionPaid)
  | rewardClaimed (p : RewardClaimed)
  | spotGenesisApplied (p : SpotGenesisApplied)
  | stakingDeposit (p : StakingDeposit)
  | stakingDelegated (p : StakingDelegated)
  | stakingUndelegated (p : StakingUndelegated)
  | stakingWithdrawalQueued (p : StakingWithdrawalQueued)
  | stakingWithdrawalCompleted (p : StakingWithdrawalCompleted)
  | validatorRewardPaid (p : ValidatorRewardPaid)
  deriving DecidableEq

def EventPayload.kind : EventPayload → EventKind
  | .orderAccepted _ => .orderAccepted
  | .orderRested _ => .orderRested
  | .orderModified _ => .orderModified
  | .orderPartiallyFilled _ => .orderPartiallyFilled
  | .orderFilled _ => .orderFilled
  | .orderCancelled _ => .orderCancelled
  | .orderRejected _ => .orderRejected
  | .triggerOrderActivated _ => .triggerOrderActivated
  | .twapStarted _ => .twapStarted
  | .twapSliceFilled _ => .twapSliceFilled
  | .twapCompleted _ => .twapCompleted
  | .tradeMatched _ => .tradeMatched
  | .depositCredited _ => .depositCredited
  | .withdrawalDebited _ => .withdrawalDebited
  | .spotTransfer _ => .spotTransfer
  | .perpTransfer _ => .perpTransfer
  | .subaccountTransfer _ => .subaccountTransfer
  | .vaultDeposit _ => .vaultDeposit
  | .vaultWithdrawal _ => .vaultWithdrawal
  | .feeCharged _ => .feeCharged
  | .builderFeeCharged _ => .builderFeeCharged
  | .fundingPaid _ => .fundingPaid
  | .fundingReceived _ => .fundingReceived
  | .referralReward _ => .referralReward
  | .accountModeChanged _ => .accountModeChanged
  | .marginModeChanged _ => .marginModeChanged
  | .leverageChanged _ => .leverageChanged
  | .liquidationStarted _ => .liquidationStarted
  | .liquidationFill _ => .liquidationFill
  | .backstopLiquidation _ => .backstopLiquidation
  | .positionSettled _ => .positionSettled
  | .marketHalted _ => .marketHalted
  | .marketResumed _ => .marketResumed
  | .openInterestCapChanged _ => .openInterestCapChanged
  | .marginTableChanged _ => .marginTableChanged
  | .marketCreated _ => .marketCreated
  | .marketMetadataChanged _ => .marketMetadataChanged
  | .oracleUpdated _ => .oracleUpdated
  | .fundingRateUpdated _ => .fundingRateUpdated
  | .assetContextUpdated _ => .assetContextUpdated
  | .dexCreated _ => .dexCreated
  | .outcomeCreated _ => .outcomeCreated
  | .outcomeResolved _ => .outcomeResolved
  | .nonUserOrderCancelled _ => .nonUserOrderCancelled
  | .internalTransfer _ => .internalTransfer
  | .accountClassTransfer _ => .accountClassTransfer
  | .vaultCreated _ => .vaultCreated
  | .vaultDistribution _ => .vaultDistribution
  | .vaultLeaderCommissionPaid _ => .vaultLeaderCommissionPaid
  | .rewardClaimed _ => .rewardClaimed
  | .spotGenesisApplied _ => .spotGenesisApplied
  | .stakingDeposit _ => .stakingDeposit
  | .stakingDelegated _ => .stakingDelegated
  | .stakingUndelegated _ => .stakingUndelegated
  | .stakingWithdrawalQueued _ => .stakingWithdrawalQueued
  | .stakingWithdrawalCompleted _ => .stakingWithdrawalCompleted
  | .validatorRewardPaid _ => .validatorRewardPaid

end AlphaDesk
