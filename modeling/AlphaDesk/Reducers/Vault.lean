import AlphaDesk.Reducers.Account.Flows
import AlphaDesk.Reducers.Opaque

/-! # The vault reducer

A vault is created with an amount and distributes amounts later. Both move the
principal of the vault and, when the event names one account, the flow of that
account with the vault.
-/

namespace AlphaDesk

open Bytes Except Wire

def vaultReducerVersion : String := "hyperliquid-alpha-desk-canonical-vault@1.0.0"

def vaultCodecError : RecordCodecError → ReducerError :=
  codecReducerError "vault_state" "vault" "is not canonical"

def vaultUnsupported : ReducerError :=
  ⟨"vault_state.unsupported_event", "vault reducer received an unsupported event"⟩

structure VaultFactRecordV1 where
  eventId : EventId
  eventKind : EventKind
  vaultId : Option VaultId
  accountIds : List Address
  blockHeight : BlockHeight
  payloadHash : Hash32

namespace VaultFactRecordV1

def validate (r : VaultFactRecordV1) : Bool :=
  (r.eventKind = .vaultCreated || r.eventKind = .vaultDistribution) && r.vaultId.isSome &&
    r.accountIds.length ≤ 1

def stateKey (eventId : EventId) : Except RecordCodecError StateKey :=
  framedKey "vault-fact.v1" [eventId.asBytes]

instance : Stored VaultFactRecordV1 where
  ns := "vault-fact.v1"
  keyOf r := stateKey r.eventId
  format :=
    { layout := .tag "schema" "hyperliquid-alpha-desk/vault-fact/v1" <| .and "event_id" <|
        .and "event_kind" <| .and "vault_id" <| .and "account_ids" <| .and "block_height" <|
        .and "payload_blake3" <| .last "rule_version"
      fields r := (r.eventId, r.eventKind, r.vaultId, r.accountIds, r.blockHeight, r.payloadHash,
        vaultReducerVersion)
      record := fun (eventId, eventKind, vaultId, accountIds, blockHeight, payloadHash,
          (_ : String)) =>
        some ⟨eventId, eventKind, vaultId, accountIds, blockHeight, payloadHash⟩
      valid := validate }

def fromEvent (event : CanonicalEventEnvelope) (vaultId : VaultId) :
    Except ReducerError VaultFactRecordV1 :=
  let record : VaultFactRecordV1 := ⟨event.eventId, event.eventKind, some vaultId,
    event.accountIds, event.blockHeight, event.payloadHash⟩
  if record.validate then .ok record else .error (vaultCodecError .invalidRecord)

end VaultFactRecordV1

structure VaultCurrentRecordV1 where
  vaultId : VaultId
  createdEventId : EventId
  lastEventId : EventId
  firstBlockHeight : BlockHeight
  lastBlockHeight : BlockHeight
  creationAmount : QuoteAmount
  creationFee : QuoteAmount

namespace VaultCurrentRecordV1

def validate (r : VaultCurrentRecordV1) : Bool :=
  r.firstBlockHeight ≤ r.lastBlockHeight && 0 < r.creationAmount.raw && 0 ≤ r.creationFee.raw

def stateKey (vaultId : VaultId) : Except RecordCodecError StateKey :=
  framedKey "vault-current.v1" [vaultId.asBytes]

instance : Stored VaultCurrentRecordV1 where
  ns := "vault-current.v1"
  keyOf r := stateKey r.vaultId
  exact := true
  format :=
    { layout := .tag "schema" "hyperliquid-alpha-desk/vault-current/v1" <| .and "vault_id" <|
        .and "created_event_id" <| .and "last_event_id" <| .and "first_block_height" <|
        .and "last_block_height" <| .and "creation_amount" <| .last "creation_fee"
      fields r := (r.vaultId, r.createdEventId, r.lastEventId, r.firstBlockHeight,
        r.lastBlockHeight, r.creationAmount, r.creationFee)
      record := fun (a, b, c, d, e, f, g) => some ⟨a, b, c, d, e, f, g⟩
      valid := validate }

end VaultCurrentRecordV1

variable (J : SerdeJson) (state : Entries) (event : CanonicalEventEnvelope)

def optionalSingleAccount : Except ReducerError (Option Address) :=
  match event.accountIds with
  | [] => .ok none
  | [account] => .ok (some account)
  | _ => .error ⟨"vault_state.ambiguous_accounts",
      "vault event with a lumped amount cannot split across multiple accounts"⟩

/-- The fact, the vault and its principal, which every vault event stores. -/
def vaultMutations (factKey currentKey : StateKey) (current : VaultCurrentRecordV1)
    (amount : QuoteAmount) (side : FlowSide) : Except ReducerError (List StateMutation) := do
  let fact ← VaultFactRecordV1.fromEvent event current.vaultId
  return [← putRecord J vaultCodecError factKey fact,
    ← putRecord J vaultCodecError currentKey current,
    ← vaultPrincipalMutation J state current.vaultId amount side event.eventId event.blockHeight]

def reduceVaultCreated (decoded : DecodedVaultCreated) (factKey : StateKey) :
    Except ReducerError (List StateMutation) := do
  let account ← optionalSingleAccount event
  let currentKey ← (VaultCurrentRecordV1.stateKey decoded.vaultId).mapError vaultCodecError
  refuseKey state currentKey
    ⟨"vault_state.vault_id_collision", "vault identity is already present"⟩
  let current : VaultCurrentRecordV1 := ⟨decoded.vaultId, event.eventId, event.eventId,
    event.blockHeight, event.blockHeight, decoded.amount, decoded.fee⟩
  let mutations ← vaultMutations J state event factKey currentKey current decoded.amount .credit
  match account with
  | some accountId =>
    let debit ← (decoded.amount.checkedAdd decoded.fee).mapError fun _ =>
      ⟨"vault_state.flow_arithmetic", "vault amount plus fee could not be added exactly"⟩
    return mutations ++ [← quoteFlowMutation J state accountId (.vaultPrincipal decoded.vaultId)
      debit .debit event.eventId event.blockHeight]
  | none => return mutations

def reduceVaultDistribution (decoded : DecodedVaultDistribution) (factKey : StateKey) :
    Except ReducerError (List StateMutation) := do
  let account ← optionalSingleAccount event
  let currentKey ← (VaultCurrentRecordV1.stateKey decoded.vaultId).mapError vaultCodecError
  let existing : Option VaultCurrentRecordV1 ← findRecord J vaultCodecError state currentKey
  match existing with
  | none => throw ⟨"vault_state.missing_vault", "vault must exist before distribution"⟩
  | some current =>
    let current : VaultCurrentRecordV1 :=
      { current with lastEventId := event.eventId, lastBlockHeight := event.blockHeight }
    let mutations ← vaultMutations J state event factKey currentKey current decoded.amount .debit
    match account with
    | some accountId =>
      return mutations ++ [← quoteFlowMutation J state accountId (.vaultPrincipal decoded.vaultId)
        decoded.amount .credit event.eventId event.blockHeight]
    | none => return mutations

def isVaultKind : EventKind → Bool
  | .vaultCreated | .vaultDistribution => true
  | _ => false

def vaultSupports : Bool := event.schemaVersion = "1.0.0" && isVaultKind event.eventKind

def reduceVault : Except ReducerError (List StateMutation) := do
  if !vaultSupports event then throw vaultUnsupported
  let factKey ← (VaultFactRecordV1.stateKey event.eventId).mapError vaultCodecError
  refuseKey state factKey
    ⟨"vault_state.event_identity_collision", "vault event identity is already present"⟩
  match event.payload with
  | .vaultCreated p => reduceVaultCreated J state event (← decodeVaultCreate p) factKey
  | .vaultDistribution p => reduceVaultDistribution J state event (← decodeVaultDist p) factKey
  | _ => throw vaultUnsupported

def canonicalVaultReducer : EventReducer where
  reducerSetVersion := vaultReducerVersion
  supports := vaultSupports
  reduce state event _ := reduceVault J state event
  validateBlockDelta _ _ _ := .ok ()

variable {J : SerdeJson} {s : Entries} {event : CanonicalEventEnvelope} {ms : List StateMutation}
  {factKey currentKey : StateKey}

def vaultNamespaces : List String :=
  ["vault-fact.v1", "vault-current.v1", "vault-principal-flow-current.v1",
    "account-quote-flow-current.v1"]

theorem putsIn_vaultMutations {current : VaultCurrentRecordV1} {amount : QuoteAmount}
    {side : FlowSide} (hf : factKey.ns = "vault-fact.v1") (hc : currentKey.ns = "vault-current.v1")
    (h : vaultMutations J s event factKey currentKey current amount side = .ok ms) :
    PutsIn vaultNamespaces ms := by
  simp only [vaultMutations, bind_eq_ok] at h
  obtain ⟨fact, -, m₁, hm₁, m₂, hm₂, m₃, hm₃, h⟩ := h
  obtain rfl := ok.inj h
  refine putsIn_putRecord hm₁ (by rw [hf]; decide) (putsIn_putRecord hm₂ (by rw [hc]; decide) ?_)
  exact putsIn_currentMutation hm₃ (by decide) putsIn_nil

theorem putsIn_reduceVaultCreated {decoded : DecodedVaultCreated}
    (hf : factKey.ns = "vault-fact.v1")
    (h : reduceVaultCreated J s event decoded factKey = .ok ms) : PutsIn vaultNamespaces ms := by
  simp only [reduceVaultCreated, bind_eq_ok] at h
  obtain ⟨account, -, key, hk, -, -, base, hb, h⟩ := h
  have hbase := putsIn_vaultMutations hf (ns_framedKey (mapError_eq_ok.mp hk)).1 hb
  split at h
  next =>
    obtain ⟨debit, -, h⟩ := of_bind h
    obtain ⟨m, hm, h⟩ := of_bind h
    obtain rfl := ok.inj h
    exact putsIn_append.mpr ⟨hbase, putsIn_currentMutation hm (by decide) putsIn_nil⟩
  next => exact ok.inj h ▸ hbase

theorem putsIn_reduceVaultDistribution {decoded : DecodedVaultDistribution}
    (hf : factKey.ns = "vault-fact.v1")
    (h : reduceVaultDistribution J s event decoded factKey = .ok ms) :
    PutsIn vaultNamespaces ms := by
  simp only [reduceVaultDistribution, bind_eq_ok] at h
  obtain ⟨account, -, key, hk, current, -, h⟩ := h
  split at h
  next => cases h
  next =>
    obtain ⟨base, hb, h⟩ := of_bind h
    have hbase := putsIn_vaultMutations hf (ns_framedKey (mapError_eq_ok.mp hk)).1 hb
    split at h
    next =>
      obtain ⟨m, hm, h⟩ := of_bind h
      obtain rfl := ok.inj h
      exact putsIn_append.mpr ⟨hbase, putsIn_currentMutation hm (by decide) putsIn_nil⟩
    next => exact ok.inj h ▸ hbase

theorem putsIn_reduceVault (h : reduceVault J s event = .ok ms) : PutsIn vaultNamespaces ms := by
  obtain ⟨-, h⟩ := of_check h
  obtain ⟨key, hk, h⟩ := of_bind h
  obtain ⟨_, -, h⟩ := of_bind h
  have hf := (ns_framedKey (mapError_eq_ok.mp hk)).1
  split at h
  next =>
    obtain ⟨_, -, h⟩ := of_bind h
    exact putsIn_reduceVaultCreated hf h
  next =>
    obtain ⟨_, -, h⟩ := of_bind h
    exact putsIn_reduceVaultDistribution hf h
  next => cases h

end AlphaDesk
