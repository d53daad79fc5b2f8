import AlphaDesk.Reducers.Account.Flows

/-! # Modes and relations of accounts

An account's modes change from the value the event names to another; a record
keeps the value before the first change. A relation keeps its two ends and the
first and the last event about it.
-/

namespace AlphaDesk

open Bytes Wire

/-- A mode of an account, alone or in a market. -/
class Mode (V : Type) where
  {Owner : Type}
  layout : Layout Owner
  identities : Owner → List (List UInt8)
  ns : String
  schema : String
  valid : V → Bool
  same : V → V → Bool
  mismatch : ReducerError
  nodup : ("schema" :: (layout.fields.map Prod.fst ++ ["initial_previous", "current",
    "first_event_id", "last_event_id", "first_block_height", "last_block_height"])).Nodup

structure ModeRecord (V : Type) [Mode V] where
  owner : Mode.Owner V
  initialPrevious : V
  current : V
  firstEventId : EventId
  lastEventId : EventId
  firstBlockHeight : BlockHeight
  lastBlockHeight : BlockHeight

variable {V : Type} [Wire.Field V] [Mode V]

def modeKey (owner : Mode.Owner V) : Except RecordCodecError StateKey :=
  framedKey (Mode.ns V) (Mode.identities owner)

def ModeRecord.layout : Layout (Mode.Owner V × V × V × EventId × EventId × BlockHeight ×
    BlockHeight) :=
  .tag "schema" (Mode.schema V) <| .append (Mode.layout (V := V)) <| .and "initial_previous" <|
    .and "current" <| .and "first_event_id" <| .and "last_event_id" <|
    .and "first_block_height" <| .last "last_block_height"

instance : Stored (ModeRecord V) where
  ns := Mode.ns V
  keyOf r := modeKey r.owner
  exact := true
  format :=
    { layout := ModeRecord.layout
      fields r := (r.owner, r.initialPrevious, r.current, r.firstEventId, r.lastEventId,
        r.firstBlockHeight, r.lastBlockHeight)
      record := fun (a, b, c, d, e, f, g) => some ⟨a, b, c, d, e, f, g⟩
      valid r := Mode.valid r.initialPrevious && Mode.valid r.current &&
        r.firstBlockHeight ≤ r.lastBlockHeight
      nodup := by
        simpa [ModeRecord.layout, Layout.tag, Layout.append, Layout.and, Layout.last] using
          Mode.nodup (V := V) }

instance : Mode AccountAbstractionModeV1 where
  layout := (.last "account_id" : Layout Address)
  identities accountId := [accountId.toList]
  ns := "account-mode-current.v1"
  schema := "hyperliquid-alpha-desk/account-mode-current/v1"
  valid _ := true
  same a b := a = b
  mismatch := ⟨"account_state.previous_account_mode_mismatch",
    "account mode predecessor does not match current state"⟩
  nodup := by decide

instance : Mode MarginModeV1 where
  layout := (.and "account_id" <| .last "market_id" : Layout (Address × MarketId))
  identities owner := [owner.1.toList, owner.2.asBytes]
  ns := "account-margin-mode-current.v1"
  schema := "hyperliquid-alpha-desk/account-margin-mode-current/v1"
  valid _ := true
  same a b := a = b
  mismatch := ⟨"account_state.previous_margin_mode_mismatch",
    "margin mode predecessor does not match current state"⟩
  nodup := by decide

instance : Mode Leverage where
  layout := (.and "account_id" <| .last "market_id" : Layout (Address × MarketId))
  identities owner := [owner.1.toList, owner.2.asBytes]
  ns := "account-leverage-current.v1"
  schema := "hyperliquid-alpha-desk/account-leverage-current/v1"
  valid v := 0 < v.raw
  same := Decimal.numEq
  mismatch := ⟨"account_state.previous_leverage_mismatch",
    "leverage predecessor does not match current state"⟩
  nodup := by decide

abbrev AccountModeCurrentRecordV1 := ModeRecord AccountAbstractionModeV1

abbrev MarginModeCurrentRecordV1 := ModeRecord MarginModeV1

abbrev LeverageCurrentRecordV1 := ModeRecord Leverage

variable (J : SerdeJson) (state : Entries)

def modeMutation (owner : Mode.Owner V) (previous new : V) (eventId : EventId)
    (blockHeight : BlockHeight) : Except ReducerError StateMutation :=
  currentMutation J state (modeKey owner) fun (current : Option (ModeRecord V)) =>
    match current with
    | some current =>
      if !Mode.same current.current previous then .error (Mode.mismatch V)
      else .ok ⟨owner, current.initialPrevious, new, current.firstEventId, eventId,
        current.firstBlockHeight, blockHeight⟩
    | none => .ok ⟨owner, previous, new, eventId, eventId, blockHeight, blockHeight⟩

def accountModeMutation (accountId : Address) (previous new : AccountAbstractionModeV1)
    (eventId : EventId) (blockHeight : BlockHeight) : Except ReducerError StateMutation :=
  modeMutation J state (V := AccountAbstractionModeV1) accountId previous new eventId blockHeight

def marginModeMutation (accountId : Address) (marketId : MarketId) (previous new : MarginModeV1)
    (eventId : EventId) (blockHeight : BlockHeight) : Except ReducerError StateMutation :=
  modeMutation J state (V := MarginModeV1) (accountId, marketId) previous new eventId blockHeight

def leverageMutation (accountId : Address) (marketId : MarketId) (previous new : Leverage)
    (eventId : EventId) (blockHeight : BlockHeight) : Except ReducerError StateMutation :=
  modeMutation J state (V := Leverage) (accountId, marketId) previous new eventId blockHeight

structure SubaccountMasterCurrentRecordV1 where
  subaccountId : Address
  masterAccountId : Address
  firstEventId : EventId
  lastEventId : EventId
  firstBlockHeight : BlockHeight
  lastBlockHeight : BlockHeight

def SubaccountMasterCurrentRecordV1.stateKey (subaccountId : Address) :
    Except RecordCodecError StateKey :=
  framedKey "account-subaccount-master.v1" [subaccountId.toList]

instance : Stored SubaccountMasterCurrentRecordV1 where
  ns := "account-subaccount-master.v1"
  keyOf r := SubaccountMasterCurrentRecordV1.stateKey r.subaccountId
  exact := true
  format :=
    { layout := .tag "schema" "hyperliquid-alpha-desk/account-subaccount-master/v1" <|
        .and "subaccount_id" <| .and "master_account_id" <| .and "first_event_id" <|
        .and "last_event_id" <| .and "first_block_height" <| .last "last_block_height"
      fields r := (r.subaccountId, r.masterAccountId, r.firstEventId, r.lastEventId,
        r.firstBlockHeight, r.lastBlockHeight)
      record := fun (a, b, c, d, e, f) => some ⟨a, b, c, d, e, f⟩
      valid r := r.subaccountId ≠ r.masterAccountId && r.firstBlockHeight ≤ r.lastBlockHeight }

structure AccountVaultRelationCurrentRecordV1 where
  accountId : Address
  vaultId : VaultId
  firstEventId : EventId
  lastEventId : EventId
  firstBlockHeight : BlockHeight
  lastBlockHeight : BlockHeight

/-- A vault named by the account's own address is no relation. -/
def AccountVaultRelationCurrentRecordV1.validate (r : AccountVaultRelationCurrentRecordV1) : Bool :=
  (Address.parseApi r.vaultId.value).toOption ≠ some r.accountId &&
    r.firstBlockHeight ≤ r.lastBlockHeight

def AccountVaultRelationCurrentRecordV1.stateKey (accountId : Address) (vaultId : VaultId) :
    Except RecordCodecError StateKey :=
  framedKey "account-vault-relation.v1" [accountId.toList, vaultId.asBytes]

instance : Stored AccountVaultRelationCurrentRecordV1 where
  ns := "account-vault-relation.v1"
  keyOf r := AccountVaultRelationCurrentRecordV1.stateKey r.accountId r.vaultId
  exact := true
  format :=
    { layout := .tag "schema" "hyperliquid-alpha-desk/account-vault-relation/v1" <|
        .and "account_id" <| .and "vault_id" <| .and "first_event_id" <| .and "last_event_id" <|
        .and "first_block_height" <| .last "last_block_height"
      fields r := (r.accountId, r.vaultId, r.firstEventId, r.lastEventId, r.firstBlockHeight,
        r.lastBlockHeight)
      record := fun (a, b, c, d, e, f) => some ⟨a, b, c, d, e, f⟩
      valid := AccountVaultRelationCurrentRecordV1.validate }

/-- The end of a transfer that is not the master. -/
def subaccountOf (masterAccountId fromAccountId toAccountId : Address) :
    Except ReducerError Address :=
  if masterAccountId = fromAccountId then .ok toAccountId
  else if masterAccountId = toAccountId then .ok fromAccountId
  else .error ⟨"account_state.subaccount_scope_ambiguous",
    "subaccount master must be exactly one transfer endpoint"⟩

def subaccountRelationMutation (masterAccountId fromAccountId toAccountId : Address)
    (eventId : EventId) (blockHeight : BlockHeight) : Except ReducerError StateMutation := do
  let subaccountId ← subaccountOf masterAccountId fromAccountId toAccountId
  currentMutation J state (SubaccountMasterCurrentRecordV1.stateKey subaccountId)
    fun (current : Option SubaccountMasterCurrentRecordV1) =>
      match current with
      | some current =>
        if current.masterAccountId ≠ masterAccountId then
          .error ⟨"account_state.master_conflict", "subaccount is already bound to another master"⟩
        else .ok ⟨subaccountId, masterAccountId, current.firstEventId, eventId,
          current.firstBlockHeight, blockHeight⟩
      | none => .ok ⟨subaccountId, masterAccountId, eventId, eventId, blockHeight, blockHeight⟩

def vaultRelationMutation (accountId : Address) (vaultId : VaultId) (eventId : EventId)
    (blockHeight : BlockHeight) : Except ReducerError StateMutation :=
  currentMutation J state (AccountVaultRelationCurrentRecordV1.stateKey accountId vaultId)
    fun (current : Option AccountVaultRelationCurrentRecordV1) =>
      match current with
      | some current => .ok ⟨accountId, vaultId, current.firstEventId, eventId,
          current.firstBlockHeight, blockHeight⟩
      | none => .ok ⟨accountId, vaultId, eventId, eventId, blockHeight, blockHeight⟩

end AlphaDesk
