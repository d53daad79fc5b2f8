import AlphaDesk.Reducers.Account.Profile
import AlphaDesk.Reducers.Opaque

/-! # The relationship reducer

An account is related to the vaults it takes part in and to the validators it
delegates to. A relation is opened by the first event about it and keeps its
beginning.
-/

namespace AlphaDesk

open Bytes Wire Except

def relationshipReducerVersion : String := "hyperliquid-alpha-desk-canonical-relationships@1.0.0"

def relationshipCodecError : RecordCodecError → ReducerError :=
  codecReducerError "relationship_state" "relationship" "is not canonical"

def relationshipUnsupported : ReducerError :=
  ⟨"relationship_state.unsupported_event", "relationship reducer received an unsupported event"⟩

structure StakingDelegationRelationCurrentRecordV1 where
  accountId : Address
  validator : String
  firstEventId : EventId
  lastEventId : EventId
  firstBlockHeight : BlockHeight
  lastBlockHeight : BlockHeight

namespace StakingDelegationRelationCurrentRecordV1

def stateKey (accountId : Address) (validator : String) : Except RecordCodecError StateKey :=
  framedKey "staking-delegation-relation.v1" [accountId.toList, utf8 validator]

/-- The writer makes no check; the reader's is in `decodeAt`. -/
instance : Stored StakingDelegationRelationCurrentRecordV1 where
  ns := "staking-delegation-relation.v1"
  keyOf r := stateKey r.accountId r.validator
  exact := true
  format :=
    { layout := .tag "schema" "hyperliquid-alpha-desk/staking-delegation-relation/v1" <|
        .and "account_id" <| .and "validator" <| .and "first_event_id" <| .and "last_event_id" <|
        .and "first_block_height" <| .last "last_block_height"
      fields r := (r.accountId, r.validator, r.firstEventId, r.lastEventId, r.firstBlockHeight,
        r.lastBlockHeight)
      record := fun (a, b, c, d, e, f) => some ⟨a, b, c, d, e, f⟩
      valid _ := true }

def decodeAt (J : SerdeJson) (key : StateKey) (bytes : List UInt8) :
    Except RecordCodecError StakingDelegationRelationCurrentRecordV1 := do
  let record : StakingDelegationRelationCurrentRecordV1 ← Stored.decode J bytes
  if record.validator.isEmpty || record.lastBlockHeight < record.firstBlockHeight then
    throw .invalidRecord
  if (← stateKey record.accountId record.validator) = key then return record
  else throw .keyMismatch

end StakingDelegationRelationCurrentRecordV1

variable (J : SerdeJson) (state : Entries) (event : CanonicalEventEnvelope)

def vaultRelation (vaultId : VaultId) : Except ReducerError (List StateMutation) :=
  match event.accountIds with
  | [accountId] => do
    return [← vaultRelationMutation J state accountId vaultId event.eventId event.blockHeight]
  | _ => .ok []

/-- The relation after an event: it keeps its beginning, or begins now. -/
def nextStakingRelation (key : StateKey) (accountId : Address) (validator : String)
    (requireExisting : Bool) :
    Except ReducerError StakingDelegationRelationCurrentRecordV1 :=
  match state[key]? with
  | some bytes => do
    let current ← (StakingDelegationRelationCurrentRecordV1.decodeAt J key bytes).mapError
      relationshipCodecError
    return ⟨accountId, current.validator, current.firstEventId, event.eventId,
      current.firstBlockHeight, event.blockHeight⟩
  | none =>
    if requireExisting then
      .error ⟨"relationship_state.missing_delegation",
        "undelegate requires an existing staking relation"⟩
    else .ok ⟨accountId, validator, event.eventId, event.eventId, event.blockHeight,
      event.blockHeight⟩

def stakingRelation (accountId : Address) (validator : String) (requireExisting : Bool) :
    Except ReducerError (List StateMutation) := do
  if event.accountIds ≠ [accountId] then
    throw ⟨"relationship_state.identity_mismatch",
      "staking relation account must match the payload user"⟩
  let key ← (StakingDelegationRelationCurrentRecordV1.stateKey accountId validator).mapError
    relationshipCodecError
  let record ← nextStakingRelation J state event key accountId validator requireExisting
  return [← putRecord J relationshipCodecError key record]

def isRelationshipKind : EventKind → Bool
  | .vaultCreated | .vaultDistribution | .stakingDelegated | .stakingUndelegated => true
  | _ => false

def relationshipSupports : Bool :=
  event.schemaVersion = "1.0.0" && isRelationshipKind event.eventKind

def reduceRelationship : Except ReducerError (List StateMutation) := do
  if !relationshipSupports event then throw relationshipUnsupported
  match event.payload with
  | .vaultCreated p => vaultRelation J state event (← decodeVaultCreate p).vaultId
  | .vaultDistribution p => vaultRelation J state event (← decodeVaultDist p).vaultId
  | .stakingDelegated p =>
    let decoded ← decodeStakingDelegate p
    stakingRelation J state event decoded.accountId decoded.validator false
  | .stakingUndelegated p =>
    let decoded ← decodeStakingUndelegate p
    stakingRelation J state event decoded.accountId decoded.validator true
  | _ => throw relationshipUnsupported

def canonicalRelationshipReducer : EventReducer where
  reducerSetVersion := relationshipReducerVersion
  supports := relationshipSupports
  reduce state event _ := reduceRelationship J state event
  validateBlockDelta _ _ _ := .ok ()

variable {J : SerdeJson} {s : Entries} {event : CanonicalEventEnvelope} {ms : List StateMutation}

def relationshipNamespaces : List String :=
  ["account-vault-relation.v1", "staking-delegation-relation.v1"]

theorem putsIn_vaultRelation {vaultId : VaultId} (h : vaultRelation J s event vaultId = .ok ms) :
    PutsIn ["account-vault-relation.v1"] ms := by
  unfold vaultRelation at h
  split at h
  next =>
    obtain ⟨m, hm, h⟩ := of_bind h
    obtain rfl := ok.inj h
    exact putsIn_currentMutation hm (by decide) putsIn_nil
  next =>
    obtain rfl := ok.inj h
    exact putsIn_nil

theorem stakingRelation_eq_ok {accountId : Address} {validator : String} {b : Bool}
    (h : stakingRelation J s event accountId validator b = .ok ms) :
    ∃ key bytes, StakingDelegationRelationCurrentRecordV1.stateKey accountId validator = .ok key ∧
      ms = [.put key bytes] := by
  obtain ⟨-, h⟩ := of_check h
  obtain ⟨key, hk, h⟩ := of_bind h
  obtain ⟨record, -, h⟩ := of_bind h
  obtain ⟨m, hm, h⟩ := of_bind h
  obtain ⟨bytes, -, rfl⟩ := putRecord_eq_ok.mp hm
  exact ⟨key, bytes, mapError_eq_ok.mp hk, (ok.inj h).symm⟩

theorem putsIn_reduceRelationship (h : reduceRelationship J s event = .ok ms) :
    PutsIn relationshipNamespaces ms := by
  obtain ⟨-, h⟩ := of_check h
  split at h
  case h_1 | h_2 =>
    obtain ⟨_, -, h⟩ := of_bind h
    exact (putsIn_vaultRelation h).mono (by decide)
  case h_3 | h_4 =>
    obtain ⟨_, -, h⟩ := of_bind h
    obtain ⟨key, bytes, hk, rfl⟩ := stakingRelation_eq_ok h
    exact .put (by rw [(ns_framedKey hk).1]; decide) putsIn_nil
  case h_5 => cases h

end AlphaDesk
