import AlphaDesk.Reducers.Account.Flows
import AlphaDesk.Reducers.Opaque

/-! # The validator and the staking reducer

The rewards paid to a validator are added up. What an account has staked lies in its
liquid balance, in withdrawals that are pending and in one balance for each validator
it delegates to. A balance keeps its credits and its debits, and refuses a debit above
its credits.
-/

namespace AlphaDesk

open Bytes Wire

def validatorReducerVersion : String := "hyperliquid-alpha-desk-canonical-validator@1.0.0"

def validatorCodecError : RecordCodecError → ReducerError :=
  codecReducerError "validator_state" "validator" "is not canonical"

def validatorUnsupported : ReducerError :=
  ⟨"validator_state.unsupported_event", "validator reducer received an unsupported event"⟩

structure ValidatorFactRecordV1 where
  eventId : EventId
  validator : String
  blockHeight : BlockHeight
  payloadHash : Hash32

def ValidatorFactRecordV1.stateKey (eventId : EventId) : Except RecordCodecError StateKey :=
  framedKey "validator-fact.v1" [eventId.asBytes]

instance : Stored ValidatorFactRecordV1 where
  ns := "validator-fact.v1"
  keyOf r := ValidatorFactRecordV1.stateKey r.eventId
  format :=
    { layout := .tag "schema" "hyperliquid-alpha-desk/validator-fact/v1" <| .and "event_id" <|
        .and "validator" <| .and "block_height" <| .and "payload_blake3" <| .last "rule_version"
      fields r := (r.eventId, r.validator, r.blockHeight, r.payloadHash, validatorReducerVersion)
      record := fun (eventId, validator, blockHeight, payloadHash, (_ : String)) =>
        some ⟨eventId, validator, blockHeight, payloadHash⟩
      valid _ := true }

structure ValidatorRewardCurrentRecordV1 where
  validator : String
  credits : Quantity
  lastEventId : EventId
  lastBlockHeight : BlockHeight

def ValidatorRewardCurrentRecordV1.stateKey (validator : String) :
    Except RecordCodecError StateKey :=
  framedKey "validator-reward-current.v1" [utf8 validator]

/-- A validator without a name has no key, so only the reader can meet one. -/
instance : Stored ValidatorRewardCurrentRecordV1 where
  ns := "validator-reward-current.v1"
  keyOf r := ValidatorRewardCurrentRecordV1.stateKey r.validator
  exact := true
  format :=
    { layout := .tag "schema" "hyperliquid-alpha-desk/validator-reward-current/v1" <|
        .and "validator" <| .and "credits" <| .and "last_event_id" <| .last "last_block_height"
      fields r := (r.validator, r.credits, r.lastEventId, r.lastBlockHeight)
      record := fun (a, b, c, d) => some ⟨a, b, c, d⟩
      valid r := !r.validator.isEmpty }

variable (J : SerdeJson) (state : Entries) (event : CanonicalEventEnvelope)

def validatorSupports : Bool :=
  event.schemaVersion = "1.0.0" && event.eventKind = .validatorRewardPaid

def nextRewards (current : Option ValidatorRewardCurrentRecordV1) (amount : Quantity) :
    Except ReducerError Quantity :=
  match current with
  | some current => (current.credits.checkedAdd amount).mapError fun _ =>
      ⟨"validator_state.flow_arithmetic", "validator reward quantity arithmetic failed"⟩
  | none => .ok amount

def reduceValidator : Except ReducerError (List StateMutation) := do
  if !validatorSupports event then throw validatorUnsupported
  if event.accountIds ≠ [] then
    throw ⟨"validator_state.account_inferred", "validator rewards are not account-owned"⟩
  match event.payload with
  | .validatorRewardPaid p =>
    let decoded ← decodeValidatorReward p
    let factKey ← (ValidatorFactRecordV1.stateKey event.eventId).mapError validatorCodecError
    refuseKey state factKey
      ⟨"validator_state.event_identity_collision", "validator event identity is already present"⟩
    let currentKey ← (ValidatorRewardCurrentRecordV1.stateKey decoded.validator).mapError
      validatorCodecError
    let credits ← nextRewards (← findRecord J validatorCodecError state currentKey) decoded.amount
    let current : ValidatorRewardCurrentRecordV1 :=
      ⟨decoded.validator, credits, event.eventId, event.blockHeight⟩
    let fact : ValidatorFactRecordV1 :=
      ⟨event.eventId, decoded.validator, event.blockHeight, event.payloadHash⟩
    return [← putRecord J validatorCodecError factKey fact,
      ← putRecord J validatorCodecError currentKey current]
  | _ => throw validatorUnsupported

def canonicalValidatorReducer : EventReducer where
  reducerSetVersion := validatorReducerVersion
  supports := validatorSupports
  reduce state event _ := reduceValidator J state event
  validateBlockDelta _ _ _ := .ok ()

variable {J : SerdeJson} {s : Entries} {event : CanonicalEventEnvelope} {ms : List StateMutation}

def validatorNamespaces : List String := ["validator-fact.v1", "validator-reward-current.v1"]

theorem putsIn_reduceValidator (h : reduceValidator J s event = .ok ms) :
    PutsIn validatorNamespaces ms := by
  obtain ⟨-, h⟩ := Except.of_check h
  obtain ⟨-, h⟩ := Except.of_check h
  split at h
  next =>
    simp only [Except.bind_eq_ok, Except.mapError_eq_ok] at h
    obtain ⟨_, -, fk, hfk, -, -, ck, hck, -, -, credits, -, m₁, hm₁, m₂, hm₂, h⟩ := h
    obtain rfl := Except.ok.inj h
    refine putsIn_putRecord hm₁ ?_ (putsIn_putRecord hm₂ ?_ putsIn_nil)
    · rw [(ns_framedKey hfk).1]
      decide
    · rw [(ns_framedKey hck).1]
      decide
  next => cases h

def stakingReducerVersion : String := "hyperliquid-alpha-desk-canonical-staking@1.0.0"

def stakingCodecError : RecordCodecError → ReducerError :=
  codecReducerError "staking_state" "staking" "is not canonical"

def stakingArithmetic : ReducerError :=
  ⟨"staking_state.flow_arithmetic", "staking quantity arithmetic failed"⟩

def stakingUnsupported : ReducerError :=
  ⟨"staking_state.unsupported_event", "staking reducer received an unsupported event"⟩

structure StakingFactRecordV1 where
  eventId : EventId
  eventKind : EventKind
  accountId : Address
  validator : Option String
  blockHeight : BlockHeight
  payloadHash : Hash32

namespace StakingFactRecordV1

def validate (r : StakingFactRecordV1) : Bool :=
  match r.eventKind with
  | .stakingDelegated | .stakingUndelegated => r.validator.any (!·.isEmpty)
  | .stakingDeposit | .stakingWithdrawalQueued | .stakingWithdrawalCompleted => r.validator.isNone
  | _ => false

def stateKey (eventId : EventId) : Except RecordCodecError StateKey :=
  framedKey "staking-fact.v1" [eventId.asBytes]

instance : Stored StakingFactRecordV1 where
  ns := "staking-fact.v1"
  keyOf r := stateKey r.eventId
  format :=
    { layout := .tag "schema" "hyperliquid-alpha-desk/staking-fact/v1" <| .and "event_id" <|
        .and "event_kind" <| .and "account_id" <| .and "validator" <| .and "block_height" <|
        .and "payload_blake3" <| .last "rule_version"
      fields r := (r.eventId, r.eventKind, r.accountId, r.validator, r.blockHeight, r.payloadHash,
        stakingReducerVersion)
      record := fun (eventId, eventKind, accountId, validator, blockHeight, payloadHash,
          (_ : String)) =>
        some ⟨eventId, eventKind, accountId, validator, blockHeight, payloadHash⟩
      valid := validate }

def fromEvent (event : CanonicalEventEnvelope) (accountId : Address) (validator : Option String) :
    Except ReducerError StakingFactRecordV1 :=
  let record : StakingFactRecordV1 := ⟨event.eventId, event.eventKind, accountId, validator,
    event.blockHeight, event.payloadHash⟩
  if record.validate then .ok record else .error (stakingCodecError .invalidRecord)

end StakingFactRecordV1

/-- What a staking balance is kept for, and how it refuses to be overdrawn. -/
class StakingOwner (O : Type) extends FlowOwner O where
  valid : O → Bool
  insufficient : ReducerError

/-- The credits and debits of one owner. Amounts are added at their own scale only. -/
structure StakingRecord (O : Type) where
  owner : O
  credits : Quantity
  debits : Quantity
  lastEventId : EventId
  lastBlockHeight : BlockHeight

def StakingRecord.layout {O : Type} [StakingOwner O] :
    Layout (FlowOwner.Prefix O × Quantity × Quantity × EventId × BlockHeight) :=
  FlowRecord.layout

instance {O : Type} [StakingOwner O] : Stored (StakingRecord O) where
  ns := FlowOwner.ns O
  keyOf r := flowKey r.owner
  exact := true
  format :=
    { layout := StakingRecord.layout (O := O)
      fields r := (FlowOwner.toPrefix r.owner, r.credits, r.debits, r.lastEventId,
        r.lastBlockHeight)
      record := fun (owner, credits, debits, lastEventId, lastBlockHeight) =>
        (FlowOwner.ofPrefix owner).map fun o => ⟨o, credits, debits, lastEventId, lastBlockHeight⟩
      valid r := StakingOwner.valid r.owner
      nodup := by
        simpa [StakingRecord.layout, FlowRecord.layout, Layout.tag, Layout.append, Layout.and,
          Layout.last] using FlowOwner.nodup (O := O)
      record_fields r := by simp [FlowOwner.ofPrefix_toPrefix] }

structure StakingLiquid where
  accountId : Address
  deriving DecidableEq

structure StakingPending where
  accountId : Address
  deriving DecidableEq

structure StakingDelegation where
  accountId : Address
  validator : String
  deriving DecidableEq

instance : StakingOwner StakingLiquid where
  layout := .last "account_id"
  toPrefix o := o.accountId
  ofPrefix accountId := some ⟨accountId⟩
  ns := "staking-liquid-current.v1"
  schema := "hyperliquid-alpha-desk/staking-liquid-current/v1"
  creditsName := "credits"
  debitsName := "debits"
  identities o := [o.accountId.toList]
  identities_injective := by
    rintro ⟨a⟩ ⟨a'⟩ h
    simpa [Vector.toList_inj] using h
  valid _ := true
  insufficient := ⟨"staking_state.insufficient_liquid", "staking liquid debit exceeds credits"⟩

instance : StakingOwner StakingPending where
  layout := .last "account_id"
  toPrefix o := o.accountId
  ofPrefix accountId := some ⟨accountId⟩
  ns := "staking-pending-current.v1"
  schema := "hyperliquid-alpha-desk/staking-pending-current/v1"
  creditsName := "credits"
  debitsName := "debits"
  identities o := [o.accountId.toList]
  identities_injective := by
    rintro ⟨a⟩ ⟨a'⟩ h
    simpa [Vector.toList_inj] using h
  valid _ := true
  insufficient := ⟨"staking_state.insufficient_pending", "staking pending debit exceeds credits"⟩

/-- A validator without a name has no key, so only the reader can meet one. -/
instance : StakingOwner StakingDelegation where
  layout := .and "account_id" <| .last "validator"
  toPrefix o := (o.accountId, o.validator)
  ofPrefix := fun (a, b) => some ⟨a, b⟩
  ns := "staking-delegation-current.v1"
  schema := "hyperliquid-alpha-desk/staking-delegation-current/v1"
  creditsName := "credits"
  debitsName := "debits"
  identities o := [o.accountId.toList, utf8 o.validator]
  identities_injective := by
    rintro ⟨a, v⟩ ⟨a', v'⟩ h
    simpa [Vector.toList_inj] using h
  valid o := !o.validator.isEmpty
  insufficient := ⟨"staking_state.insufficient_delegation", "undelegate exceeds delegated credits"⟩

abbrev StakingLiquidCurrentRecordV1 := StakingRecord StakingLiquid

abbrev StakingPendingCurrentRecordV1 := StakingRecord StakingPending

abbrev StakingDelegationCurrentRecordV1 := StakingRecord StakingDelegation

variable (J : SerdeJson) (state : Entries) (event : CanonicalEventEnvelope) {O : Type}
  [StakingOwner O]

namespace StakingRecord

def empty (owner : O) (amount : Quantity) : Except ReducerError (StakingRecord O) := do
  let zero ← (amount.checkedSub amount).mapError fun _ => stakingArithmetic
  return ⟨owner, zero, zero, event.eventId, event.blockHeight⟩

def apply (r : StakingRecord O) (amount : Quantity) (side : FlowSide) :
    Except ReducerError (StakingRecord O) := do
  let credits ← match side with
    | .credit => (r.credits.checkedAdd amount).mapError fun _ => stakingArithmetic
    | .debit => .ok r.credits
  let debits ← match side with
    | .credit => .ok r.debits
    | .debit => (r.debits.checkedAdd amount).mapError fun _ => stakingArithmetic
  if !debits.numLe credits then throw (StakingOwner.insufficient O)
  return ⟨r.owner, credits, debits, event.eventId, event.blockHeight⟩

end StakingRecord

/-- Add an amount to one side of a balance. One that is not there is opened, if it may be. -/
def stakingMutation (owner : O) (amount : Quantity) (side : FlowSide)
    (mayOpen : Except ReducerError Unit) : Except ReducerError StateMutation := do
  let key ← (flowKey owner).mapError stakingCodecError
  let current : StakingRecord O ← match (← findRecord J stakingCodecError state key) with
    | some current => .ok current
    | none => do
      mayOpen
      StakingRecord.empty event owner amount
  putRecord J stakingCodecError key (← current.apply event amount side)

def liquidMutation (accountId : Address) (amount : Quantity) (side : FlowSide) :
    Except ReducerError StateMutation :=
  stakingMutation J state event (⟨accountId⟩ : StakingLiquid) amount side (.ok ())

def pendingMutation (accountId : Address) (amount : Quantity) (side : FlowSide) :
    Except ReducerError StateMutation :=
  stakingMutation J state event (⟨accountId⟩ : StakingPending) amount side (.ok ())

def delegationMutation (accountId : Address) (validator : String) (amount : Quantity)
    (side : FlowSide) : Except ReducerError StateMutation :=
  stakingMutation J state event (⟨accountId, validator⟩ : StakingDelegation) amount side
    (match side with
      | .credit => .ok ()
      | .debit => .error ⟨"staking_state.missing_delegation",
          "undelegate requires an existing delegation"⟩)

def requireStakingAccount (accountId : Address) : Except ReducerError Unit :=
  if event.accountIds = [accountId] then .ok ()
  else .error ⟨"staking_state.identity_mismatch",
    "staking envelope account must match the payload user"⟩

def stakingFact (factKey : StateKey) (accountId : Address) (validator : Option String) :
    Except ReducerError StateMutation := do
  requireStakingAccount event accountId
  putRecord J stakingCodecError factKey (← StakingFactRecordV1.fromEvent event accountId validator)

def reduceDelegation (factKey : StateKey) (decoded : DecodedStakingDelegation)
    (delegating : Bool) : Except ReducerError (List StateMutation) := do
  let fact ← stakingFact J event factKey decoded.accountId (some decoded.validator)
  let (liquidSide, delegatedSide) : FlowSide × FlowSide :=
    if delegating then (.debit, .credit) else (.credit, .debit)
  return [fact, ← liquidMutation J state event decoded.accountId decoded.amount liquidSide,
    ← delegationMutation J state event decoded.accountId decoded.validator decoded.amount
      delegatedSide]

def isStakingKind : EventKind → Bool
  | .stakingDeposit | .stakingDelegated | .stakingUndelegated | .stakingWithdrawalQueued
  | .stakingWithdrawalCompleted => true
  | _ => false

def stakingSupports : Bool := event.schemaVersion = "1.0.0" && isStakingKind event.eventKind

def reduceStaking : Except ReducerError (List StateMutation) := do
  if !stakingSupports event then throw stakingUnsupported
  let factKey ← (StakingFactRecordV1.stateKey event.eventId).mapError stakingCodecError
  refuseKey state factKey
    ⟨"staking_state.event_identity_collision", "staking event identity is already present"⟩
  match event.payload with
  | .stakingDeposit p =>
    let decoded ← decodeStakingDepositAmount p
    return [← stakingFact J event factKey decoded.accountId none,
      ← liquidMutation J state event decoded.accountId decoded.amount .credit]
  | .stakingDelegated p => reduceDelegation J state event factKey (← decodeStakingDelegate p) true
  | .stakingUndelegated p =>
    reduceDelegation J state event factKey (← decodeStakingUndelegate p) false
  | .stakingWithdrawalQueued p =>
    let decoded ← decodeStakingWithdrawQueued p
    return [← stakingFact J event factKey decoded.accountId none,
      ← liquidMutation J state event decoded.accountId decoded.amount .debit,
      ← pendingMutation J state event decoded.accountId decoded.amount .credit]
  | .stakingWithdrawalCompleted p =>
    let decoded ← decodeStakingWithdrawCompleted p
    return [← stakingFact J event factKey decoded.accountId none,
      ← pendingMutation J state event decoded.accountId decoded.amount .debit]
  | _ => throw stakingUnsupported

def canonicalStakingReducer : EventReducer where
  reducerSetVersion := stakingReducerVersion
  supports := stakingSupports
  reduce state event _ := reduceStaking J state event
  validateBlockDelta _ _ _ := .ok ()

end AlphaDesk
