import AlphaDesk.Reducers.Account.Profile
import AlphaDesk.Reducers.Market

/-! # The account reducer

An account event is checked against the identities in its envelope and against
the assets and markets it needs. It stores a fact and, by its kind, flows of
accounts and vaults, relations between them or the modes of an account.
-/

namespace AlphaDesk

open Bytes Except Wire

def accountReducerVersion : String := "hyperliquid-alpha-desk-canonical-account@1.0.0"

def accountUnsupported : ReducerError :=
  ⟨"account_state.unsupported_event", "account reducer received an unsupported event"⟩

structure AccountFactRecordV1 where
  eventId : EventId
  eventKind : EventKind
  accountIds : List Address
  marketIds : List MarketId
  assetId : Option AssetId
  vaultId : Option VaultId
  blockHeight : BlockHeight
  payloadHash : Hash32
  ruleVersion : String

namespace AccountFactRecordV1

/-- How many accounts and markets a fact names, by kind, and whether an asset and a vault. -/
def validFactShape (kind : EventKind) (accounts markets : ℕ) (asset vault : Bool) : Bool :=
  match kind with
  | .depositCredited | .withdrawalDebited | .feeCharged =>
    accounts == 1 && markets == 0 && asset && !vault
  | .spotTransfer | .builderFeeCharged | .referralReward =>
    accounts == 2 && markets == 0 && asset && !vault
  | .subaccountTransfer => accounts == 3 && markets == 0 && asset && !vault
  | .perpTransfer => accounts == 2 && markets == 0 && !asset && !vault
  | .vaultDeposit | .vaultWithdrawal => accounts == 1 && markets == 0 && !asset && vault
  | .fundingPaid | .fundingReceived => accounts == 1 && markets == 1 && !asset && !vault
  | .accountModeChanged => accounts == 1 && markets == 0 && !asset && !vault
  | .marginModeChanged | .leverageChanged => accounts == 1 && markets == 1 && !asset && !vault
  | .internalTransfer => accounts == 2 && markets == 0 && !asset && !vault
  | .accountClassTransfer | .rewardClaimed => accounts == 1 && markets == 0 && !asset && !vault
  | .spotGenesisApplied => accounts ≤ 1 && markets == 0 && asset && !vault
  | _ => false

def validate (r : AccountFactRecordV1) : Bool :=
  r.ruleVersion == accountReducerVersion && r.accountIds.length ≤ 3 && r.marketIds.length ≤ 1 &&
    validFactShape r.eventKind r.accountIds.length r.marketIds.length r.assetId.isSome
      r.vaultId.isSome

def stateKey (eventId : EventId) : Except RecordCodecError StateKey :=
  framedKey "account-fact.v1" [eventId.asBytes]

instance : Stored AccountFactRecordV1 where
  ns := "account-fact.v1"
  keyOf r := stateKey r.eventId
  exact := true
  format :=
    { layout := .tag "schema" "hyperliquid-alpha-desk/account-fact/v1" <| .and "event_id" <|
        .and "event_kind" <| .and "account_ids" <| .and "market_ids" <| .and "asset_id" <|
        .and "vault_id" <| .and "block_height" <| .and "payload_blake3" <| .last "rule_version"
      fields r := (r.eventId, r.eventKind, r.accountIds, r.marketIds, r.assetId, r.vaultId,
        r.blockHeight, r.payloadHash, r.ruleVersion)
      record := fun (a, b, c, d, e, f, g, h, i) => some ⟨a, b, c, d, e, f, g, h, i⟩
      valid := validate }

/-- The asset and the vault that a fact names. -/
def subjects : EventPayload → Except ReducerError (Option AssetId × Option VaultId)
  | .depositCredited p => .ok (some p.assetId, none)
  | .withdrawalDebited p => .ok (some p.assetId, none)
  | .spotTransfer p => .ok (some p.assetId, none)
  | .subaccountTransfer p => .ok (some p.assetId, none)
  | .feeCharged p => .ok (some p.assetId, none)
  | .builderFeeCharged p => .ok (some p.assetId, none)
  | .referralReward p => .ok (some p.assetId, none)
  | .vaultDeposit p => .ok (none, some p.vaultId)
  | .vaultWithdrawal p => .ok (none, some p.vaultId)
  | .perpTransfer _ | .fundingPaid _ | .fundingReceived _ | .accountModeChanged _
  | .marginModeChanged _ | .leverageChanged _ | .internalTransfer _ | .accountClassTransfer _
  | .rewardClaimed _ => .ok (none, none)
  | .spotGenesisApplied p => do return (some (← decodeSpotGenesis p).token, none)
  | _ => .error accountUnsupported

def fromEvent (event : CanonicalEventEnvelope) : Except ReducerError AccountFactRecordV1 := do
  let (assetId, vaultId) ← subjects event.payload
  let record : AccountFactRecordV1 := ⟨event.eventId, event.eventKind, event.accountIds,
    event.marketIds, assetId, vaultId, event.blockHeight, event.payloadHash,
    accountReducerVersion⟩
  if record.validate then return record else throw (accountCodecError .invalidRecord)

end AccountFactRecordV1

variable (J : SerdeJson) (state : Entries) (event : CanonicalEventEnvelope)

def identityMatches (accountIds : List Address) (marketIds : List MarketId) : Bool :=
  event.accountIds = accountIds && event.marketIds = marketIds

/-- Whether the envelope names the accounts and markets of the payload, in order. -/
def eventIdentitiesMatch : Except ReducerError Bool :=
  match event.payload with
  | .depositCredited p => .ok (identityMatches event [p.accountId] [])
  | .withdrawalDebited p => .ok (identityMatches event [p.accountId] [])
  | .spotTransfer p => .ok (identityMatches event [p.fromAccountId, p.toAccountId] [])
  | .perpTransfer p => .ok (identityMatches event [p.fromAccountId, p.toAccountId] [])
  | .subaccountTransfer p =>
    .ok (identityMatches event [p.masterAccountId, p.fromAccountId, p.toAccountId] [])
  | .vaultDeposit p => .ok (identityMatches event [p.accountId] [])
  | .vaultWithdrawal p => .ok (identityMatches event [p.accountId] [])
  | .feeCharged p => .ok (identityMatches event [p.accountId] [])
  | .builderFeeCharged p => .ok (identityMatches event [p.accountId, p.builderAccountId] [])
  | .fundingPaid p => .ok (identityMatches event [p.accountId] [p.marketId])
  | .fundingReceived p => .ok (identityMatches event [p.accountId] [p.marketId])
  | .referralReward p => .ok (identityMatches event [p.accountId, p.referrerAccountId] [])
  | .accountModeChanged p => .ok (identityMatches event [p.accountId] [])
  | .marginModeChanged p => .ok (identityMatches event [p.accountId] [p.marketId])
  | .leverageChanged p => .ok (identityMatches event [p.accountId] [p.marketId])
  | .internalTransfer p => do
    let decoded ← decodeInternal p
    return identityMatches event [decoded.fromAccountId, decoded.toAccountId] []
  | .accountClassTransfer p => do
    return identityMatches event [(← decodeClassTransfer p).accountId] []
  | .rewardClaimed p => do return identityMatches event [(← decodeReward p).accountId] []
  | .spotGenesisApplied _ => .ok (event.accountIds.length ≤ 1 && event.marketIds = [])
  | _ => .ok false

def validateEventIdentities : Except ReducerError Unit := do
  if !(← eventIdentitiesMatch event) then
    throw ⟨"account_state.identity_mismatch",
      "ordered envelope identities do not match the payload"⟩

def requiredAsset : Except ReducerError (Option AssetId) :=
  match event.payload with
  | .depositCredited p => .ok (some p.assetId)
  | .withdrawalDebited p => .ok (some p.assetId)
  | .spotTransfer p => .ok (some p.assetId)
  | .subaccountTransfer p => .ok (some p.assetId)
  | .feeCharged p => .ok (some p.assetId)
  | .builderFeeCharged p => .ok (some p.assetId)
  | .referralReward p => .ok (some p.assetId)
  | .spotGenesisApplied p => do return some (← decodeSpotGenesis p).token
  | _ => .ok none

/-- The market that must be known, with exact metadata, before the event. -/
def requiredMarket : EventPayload → Option MarketId
  | .fundingPaid p => some p.marketId
  | .fundingReceived p => some p.marketId
  | .marginModeChanged p => some p.marketId
  | .leverageChanged p => some p.marketId
  | _ => none

def requireAsset (assetId : AssetId) : Except ReducerError Unit := do
  let key ← (AssetContextCurrentRecordV1.stateKey assetId).mapError fun _ =>
    ⟨"account_state.codec_error", "asset prerequisite key construction failed"⟩
  match state[key]? with
  | none => throw ⟨"account_state.asset_prerequisite_missing", "asset prerequisite is missing"⟩
  | some bytes =>
    let _ ← (AssetContextCurrentRecordV1.decodeAt J key bytes).mapError fun _ =>
      ⟨"account_state.asset_prerequisite_invalid",
        "asset prerequisite is corrupt or key mismatched"⟩

def requireMarketExact (marketId : MarketId) : Except ReducerError Unit := do
  let key ← (MarketCurrentRecordV1.stateKey marketId).mapError fun _ =>
    ⟨"account_state.codec_error", "market prerequisite key construction failed"⟩
  match state[key]? with
  | none => throw ⟨"account_state.market_prerequisite_missing", "market prerequisite is missing"⟩
  | some bytes =>
    let market : MarketCurrentRecordV1 ← (Stored.decodeAt J key bytes).mapError fun _ =>
      ⟨"account_state.market_prerequisite_invalid",
        "market prerequisite is corrupt or key mismatched"⟩
    if market.metadataResolution ≠ .exact then
      throw ⟨"account_state.market_metadata_unresolved",
        "market prerequisite metadata is unresolved"⟩

def validatePrerequisites : Except ReducerError Unit := do
  match (← requiredAsset event) with
  | some assetId => requireAsset J state assetId
  | none => pure ()
  match requiredMarket event.payload with
  | some marketId => requireMarketExact J state marketId
  | none => pure ()

def quantityTransfer (fromAccountId toAccountId : Address) (scope : AccountQuantityFlowScopeV1)
    (amount : Quantity) : Except ReducerError (List StateMutation) := do
  return [← quantityFlowMutation J state fromAccountId scope amount .debit event.eventId
      event.blockHeight,
    ← quantityFlowMutation J state toAccountId scope amount .credit event.eventId
      event.blockHeight]

def vaultExchange (accountId : Address) (vaultId : VaultId) (amount : QuoteAmount)
    (shares : Quantity) (accountSide vaultSide : FlowSide) :
    Except ReducerError (List StateMutation) := do
  return [← quoteFlowMutation J state accountId (.vaultPrincipal vaultId) amount accountSide
      event.eventId event.blockHeight,
    ← quantityFlowMutation J state accountId (.vaultShares vaultId) shares vaultSide event.eventId
      event.blockHeight,
    ← vaultPrincipalMutation J state vaultId amount vaultSide event.eventId event.blockHeight,
    ← vaultShareMutation J state vaultId shares vaultSide event.eventId event.blockHeight,
    ← vaultRelationMutation J state accountId vaultId event.eventId event.blockHeight]

def accountMutations : Except ReducerError (List StateMutation) :=
  let eventId := event.eventId
  let height := event.blockHeight
  match event.payload with
  | .depositCredited p => do
    return [← quantityFlowMutation J state p.accountId (.externalAsset p.assetId) p.amount .credit
      eventId height]
  | .withdrawalDebited p => do
    return [← quantityFlowMutation J state p.accountId (.externalAsset p.assetId) p.amount .debit
      eventId height]
  | .spotTransfer p =>
    quantityTransfer J state event p.fromAccountId p.toAccountId (.spotTransferAsset p.assetId)
      p.amount
  | .perpTransfer p => do
    return [← quoteFlowMutation J state p.fromAccountId .defaultPerpQuote p.quoteAmount .debit
        eventId height,
      ← quoteFlowMutation J state p.toAccountId .defaultPerpQuote p.quoteAmount .credit eventId
        height]
  | .subaccountTransfer p => do
    let flows ← quantityTransfer J state event p.fromAccountId p.toAccountId
      (.subaccountTransferAsset p.assetId) p.amount
    return flows ++ [← subaccountRelationMutation J state p.masterAccountId p.fromAccountId
      p.toAccountId eventId height]
  | .vaultDeposit p =>
    vaultExchange J state event p.accountId p.vaultId p.amount p.sharesIssued .debit .credit
  | .vaultWithdrawal p =>
    vaultExchange J state event p.accountId p.vaultId p.amount p.sharesRedeemed .credit .debit
  | .feeCharged p => do
    return [← quantityFlowMutation J state p.accountId (.feeAsset p.assetId) p.amount
      (if p.feeType = .makerRebate then .credit else .debit) eventId height]
  | .builderFeeCharged p =>
    quantityTransfer J state event p.accountId p.builderAccountId (.builderFeeAsset p.assetId)
      p.amount
  | .fundingPaid p => do
    return [← quoteFlowMutation J state p.accountId (.marketFunding p.marketId) p.amount .debit
      eventId height]
  | .fundingReceived p => do
    return [← quoteFlowMutation J state p.accountId (.marketFunding p.marketId) p.amount .credit
      eventId height]
  | .referralReward p => do
    return [← quantityFlowMutation J state p.referrerAccountId (.referralRewardAsset p.assetId)
      p.amount .credit eventId height]
  | .accountModeChanged p => do
    return [← accountModeMutation J state p.accountId p.previousMode p.newMode eventId height]
  | .marginModeChanged p => do
    return [← marginModeMutation J state p.accountId p.marketId p.previousMode p.newMode eventId
      height]
  | .leverageChanged p => do
    return [← leverageMutation J state p.accountId p.marketId p.previousLeverage p.newLeverage
      eventId height]
  | .internalTransfer p => do
    let decoded ← decodeInternal p
    let debit ← (decoded.amount.checkedAdd decoded.fee).mapError fun _ => flowArithmeticError
    return [← quoteFlowMutation J state decoded.fromAccountId .defaultPerpQuote debit .debit
        eventId height,
      ← quoteFlowMutation J state decoded.toAccountId .defaultPerpQuote decoded.amount .credit
        eventId height]
  | .accountClassTransfer p => do
    let decoded ← decodeClassTransfer p
    let (debitScope, creditScope) : AccountQuoteFlowScopeV1 × AccountQuoteFlowScopeV1 :=
      if decoded.toPerp then (.spotClassQuote, .defaultPerpQuote)
      else (.defaultPerpQuote, .spotClassQuote)
    return [← quoteFlowMutation J state decoded.accountId debitScope decoded.amount .debit eventId
        height,
      ← quoteFlowMutation J state decoded.accountId creditScope decoded.amount .credit eventId
        height]
  | .rewardClaimed p => do
    let decoded ← decodeReward p
    return [← quoteFlowMutation J state decoded.accountId .rewardClaimedQuote decoded.amount
      .credit eventId height]
  | .spotGenesisApplied p => do
    let decoded ← decodeSpotGenesis p
    match event.accountIds with
    | [accountId] =>
      return [← quantityFlowMutation J state accountId (.spotGenesisAsset decoded.token)
        decoded.amount .credit eventId height]
    | _ => return []
  | _ => .error accountUnsupported

def isAccountKind : EventKind → Bool
  | .depositCredited | .withdrawalDebited | .spotTransfer | .perpTransfer | .subaccountTransfer
  | .vaultDeposit | .vaultWithdrawal | .feeCharged | .builderFeeCharged | .fundingPaid
  | .fundingReceived | .referralReward | .accountModeChanged | .marginModeChanged
  | .leverageChanged | .internalTransfer | .accountClassTransfer | .rewardClaimed
  | .spotGenesisApplied => true
  | _ => false

def accountSupports : Bool := event.schemaVersion = "1.0.0" && isAccountKind event.eventKind

def reduceAccount : Except ReducerError (List StateMutation) := do
  if !accountSupports event then throw accountUnsupported
  validateEventIdentities event
  validatePrerequisites J state event
  let factKey ← (AccountFactRecordV1.stateKey event.eventId).mapError accountCodecError
  refuseKey state factKey
    ⟨"account_state.event_identity_collision", "account event identity is already present"⟩
  let fact ← AccountFactRecordV1.fromEvent event
  let factPut ← putRecord J accountCodecError factKey fact
  let mutations ← accountMutations J state event
  if ((factPut :: mutations).map StateMutation.key).Nodup then return factPut :: mutations
  else throw ⟨"account_state.duplicate_mutation_key",
    "account event produced duplicate mutation keys"⟩

def canonicalAccountReducer : EventReducer where
  reducerSetVersion := accountReducerVersion
  supports := accountSupports
  reduce state event _ := reduceAccount J state event
  validateBlockDelta _ _ _ := .ok ()

variable {J : SerdeJson} {s : Entries} {event : CanonicalEventEnvelope} {ms : List StateMutation}

def accountNamespaces : List String :=
  ["account-fact.v1", "account-quantity-flow-current.v1", "account-quote-flow-current.v1",
    "vault-principal-flow-current.v1", "vault-share-flow-current.v1",
    "account-subaccount-master.v1", "account-vault-relation.v1", "account-mode-current.v1",
    "account-margin-mode-current.v1", "account-leverage-current.v1"]

theorem putsIn_quantityTransfer {a b : Address} {scope : AccountQuantityFlowScopeV1}
    {amount : Quantity} (h : quantityTransfer J s event a b scope amount = .ok ms) :
    PutsIn accountNamespaces ms := by
  simp only [quantityTransfer, bind_eq_ok] at h
  obtain ⟨m₁, hm₁, m₂, hm₂, h⟩ := h
  obtain rfl := ok.inj h
  exact putsIn_currentMutation hm₁ (by decide)
    (putsIn_currentMutation hm₂ (by decide) putsIn_nil)

theorem putsIn_vaultExchange {a : Address} {v : VaultId} {amount : QuoteAmount} {shares : Quantity}
    {accountSide vaultSide : FlowSide}
    (h : vaultExchange J s event a v amount shares accountSide vaultSide = .ok ms) :
    PutsIn accountNamespaces ms := by
  simp only [vaultExchange, bind_eq_ok] at h
  obtain ⟨m₁, hm₁, m₂, hm₂, m₃, hm₃, m₄, hm₄, m₅, hm₅, h⟩ := h
  obtain rfl := ok.inj h
  exact putsIn_currentMutation hm₁ (by decide) (putsIn_currentMutation hm₂ (by decide)
    (putsIn_currentMutation hm₃ (by decide) (putsIn_currentMutation hm₄ (by decide)
      (putsIn_currentMutation hm₅ (by decide) putsIn_nil))))

theorem putsIn_single {x : Except ReducerError StateMutation} (h : (do return [← x]) = .ok ms)
    (hx : ∀ m, x = .ok m → PutsIn accountNamespaces [m]) : PutsIn accountNamespaces ms := by
  obtain ⟨m, hm, h⟩ := of_bind h
  obtain rfl := ok.inj h
  exact hx m hm

theorem putsIn_pair {x y : Except ReducerError StateMutation}
    (h : (do return [← x, ← y]) = .ok ms) (hx : ∀ m, x = .ok m → PutsIn accountNamespaces [m])
    (hy : ∀ m, y = .ok m → PutsIn accountNamespaces [m]) : PutsIn accountNamespaces ms := by
  obtain ⟨m, hm, h⟩ := of_bind h
  obtain ⟨m', hm', h⟩ := of_bind h
  obtain rfl := ok.inj h
  exact putsIn_append.mpr ⟨hx m hm, hy m' hm'⟩

theorem putsIn_accountMutations (h : accountMutations J s event = .ok ms) :
    PutsIn accountNamespaces ms := by
  unfold accountMutations at h
  split at h
  case h_3 | h_9 => exact putsIn_quantityTransfer h
  case h_4 =>
    exact putsIn_pair h (fun _ hm => putsIn_currentMutation hm (by decide) putsIn_nil)
      fun _ hm => putsIn_currentMutation hm (by decide) putsIn_nil
  case h_5 =>
    obtain ⟨flows, hf, h⟩ := of_bind h
    obtain ⟨m, hm, h⟩ := of_bind h
    obtain rfl := ok.inj h
    obtain ⟨sub, -, hm⟩ := of_bind hm
    exact putsIn_append.mpr
      ⟨putsIn_quantityTransfer hf, putsIn_currentMutation hm (by decide) putsIn_nil⟩
  case h_6 | h_7 => exact putsIn_vaultExchange h
  case h_16 =>
    obtain ⟨_, -, h⟩ := of_bind h
    obtain ⟨_, -, h⟩ := of_bind h
    exact putsIn_pair h (fun _ hm => putsIn_currentMutation hm (by decide) putsIn_nil)
      fun _ hm => putsIn_currentMutation hm (by decide) putsIn_nil
  case h_17 =>
    obtain ⟨_, -, h⟩ := of_bind h
    exact putsIn_pair h (fun _ hm => putsIn_currentMutation hm (by decide) putsIn_nil)
      fun _ hm => putsIn_currentMutation hm (by decide) putsIn_nil
  case h_18 =>
    obtain ⟨_, -, h⟩ := of_bind h
    exact putsIn_single h fun _ hm => putsIn_currentMutation hm (by decide) putsIn_nil
  case h_19 =>
    obtain ⟨_, -, h⟩ := of_bind h
    split at h
    next => exact putsIn_single h fun _ hm => putsIn_currentMutation hm (by decide) putsIn_nil
    next => exact ok.inj h ▸ putsIn_nil
  case h_20 => cases h
  all_goals exact putsIn_single h fun _ hm => putsIn_currentMutation hm (by decide) putsIn_nil

theorem putsIn_reduceAccount (h : reduceAccount J s event = .ok ms) :
    PutsIn accountNamespaces ms := by
  obtain ⟨-, h⟩ := of_check h
  simp only [bind_eq_ok] at h
  obtain ⟨_, -, _, -, key, hk, _, -, fact, -, m, hm, rest, hrest, h⟩ := h
  split at h
  next =>
    obtain rfl := ok.inj h
    refine putsIn_putRecord hm ?_ (putsIn_accountMutations hrest)
    rw [(ns_framedKey (mapError_eq_ok.mp hk)).1]
    decide
  next => cases h

end AlphaDesk
