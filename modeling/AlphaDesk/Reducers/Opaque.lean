import AlphaDesk.Domain.Text
import AlphaDesk.Ledger.Apply

/-! # Opaque payloads

The later event kinds carry their fields as texts. Reducers decode them on the
spot, and refuse texts that are no identities or amounts.
-/

namespace AlphaDesk

open Bytes

def payloadError : ReducerError :=
  ⟨"canonical_state.invalid_payload", "v1.1 payload fields are missing, empty, or not canonical"⟩

def emptyAmount : ReducerError :=
  ⟨"canonical_state.empty_amount", "v1.1 amount fields must be nonempty canonical decimals"⟩

def invalidText (value : String) (maxBytes : ℕ) : Bool :=
  value.isEmpty || decide (maxBytes < (utf8 value).length) || trim value != value ||
    value.toList.any isControl

def parseAccount (value : String) : Except ReducerError Address :=
  (Address.parseApi value).mapError fun _ => payloadError

def parseIdentity (value : String) : Except ReducerError StringId :=
  (StringId.new value).mapError fun _ => payloadError

def parseAmount (value : String) : Except ReducerError Decimal :=
  (Decimal.fromText value).mapError fun _ => emptyAmount

def parsePositive (value : String) : Except ReducerError Decimal := do
  let amount ← parseAmount value
  if amount.raw ≤ 0 then throw emptyAmount
  return amount

def parseNonnegative (value : String) : Except ReducerError Decimal := do
  let amount ← parseAmount value
  if amount.raw < 0 then throw emptyAmount
  return amount

def requireIdentity (value : String) : Except ReducerError String :=
  if value.isEmpty || trim value != value || value.toList.any isControl then .error payloadError
  else .ok value

structure DecodedNonUserCancel where
  orderId : OrderId
  remainingQuantity : Quantity

structure DecodedInternalTransfer where
  fromAccountId : Address
  toAccountId : Address
  amount : QuoteAmount
  fee : QuoteAmount

structure DecodedAccountClassTransfer where
  accountId : Address
  amount : QuoteAmount
  toPerp : Bool

structure DecodedVaultCreated where
  vaultId : VaultId
  amount : QuoteAmount
  fee : QuoteAmount

structure DecodedVaultDistribution where
  vaultId : VaultId
  amount : QuoteAmount

structure DecodedRewardClaimed where
  accountId : Address
  amount : QuoteAmount

structure DecodedSpotGenesis where
  token : AssetId
  amount : Quantity

structure DecodedStakingAmount where
  accountId : Address
  amount : Quantity

structure DecodedStakingDelegation where
  accountId : Address
  validator : String
  amount : Quantity

structure DecodedValidatorReward where
  validator : String
  amount : Quantity

def decodeNonUserCancel (p : NonUserOrderCancelled) : Except ReducerError DecodedNonUserCancel := do
  let remainingQuantity ← parseAmount p.remainingQuantity
  if remainingQuantity.raw < 0 then
    throw ⟨"order_state.invalid_quantity", "order quantity must be nonnegative"⟩
  if invalidText p.reason 1024 then
    throw ⟨"order_state.invalid_cancellation", "system cancellation reason contract is invalid"⟩
  return { orderId := ← parseIdentity p.orderId, remainingQuantity := remainingQuantity }

def decodeInternal (p : InternalTransfer) : Except ReducerError DecodedInternalTransfer :=
  return {
    fromAccountId := ← parseAccount p.fromAccountId
    toAccountId := ← parseAccount p.toAccountId
    amount := ← parsePositive p.amount
    fee := ← parseNonnegative p.fee }

def decodeClassTransfer (p : AccountClassTransfer) :
    Except ReducerError DecodedAccountClassTransfer :=
  return {
    accountId := ← parseAccount p.accountId
    amount := ← parsePositive p.amount
    toPerp := p.toPerp }

def decodeVaultCreate (p : VaultCreated) : Except ReducerError DecodedVaultCreated :=
  return {
    vaultId := ← parseIdentity p.vaultId
    amount := ← parsePositive p.amount
    fee := ← parseNonnegative p.fee }

def decodeVaultDist (p : VaultDistribution) : Except ReducerError DecodedVaultDistribution :=
  return { vaultId := ← parseIdentity p.vaultId, amount := ← parsePositive p.amount }

def decodeReward (p : RewardClaimed) : Except ReducerError DecodedRewardClaimed :=
  return { accountId := ← parseAccount p.accountId, amount := ← parsePositive p.amount }

def decodeSpotGenesis (p : SpotGenesisApplied) : Except ReducerError DecodedSpotGenesis :=
  return { token := ← parseIdentity p.token, amount := ← parsePositive p.amount }

def stakingAmount (accountId amount : String) : Except ReducerError DecodedStakingAmount :=
  return { accountId := ← parseAccount accountId, amount := ← parsePositive amount }

def decodeStakingDepositAmount (p : StakingDeposit) : Except ReducerError DecodedStakingAmount :=
  stakingAmount p.accountId p.amount

def decodeStakingWithdrawQueued (p : StakingWithdrawalQueued) :
    Except ReducerError DecodedStakingAmount :=
  stakingAmount p.accountId p.amount

def decodeStakingWithdrawCompleted (p : StakingWithdrawalCompleted) :
    Except ReducerError DecodedStakingAmount :=
  stakingAmount p.accountId p.amount

def stakingDelegation (accountId validator amount : String) :
    Except ReducerError DecodedStakingDelegation :=
  return {
    accountId := ← parseAccount accountId
    validator := ← requireIdentity validator
    amount := ← parsePositive amount }

def decodeStakingDelegate (p : StakingDelegated) : Except ReducerError DecodedStakingDelegation :=
  stakingDelegation p.accountId p.validator p.amount

def decodeStakingUndelegate (p : StakingUndelegated) :
    Except ReducerError DecodedStakingDelegation :=
  stakingDelegation p.accountId p.validator p.amount

def decodeValidatorReward (p : ValidatorRewardPaid) : Except ReducerError DecodedValidatorReward :=
  return { validator := ← requireIdentity p.validator, amount := ← parsePositive p.amount }

end AlphaDesk
