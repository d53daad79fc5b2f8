import AlphaDesk.Records.Stored
import AlphaDesk.Reducers.Opaque

/-! # The market reducer

Exchanges, assets, markets, the versions of a market's metadata and outcomes.
Creation events refuse identities that are present; the other events load the
market they name, check it and store it anew.
-/

namespace AlphaDesk

open Bytes Wire

def marketReducerVersion : String := "hyperliquid-alpha-desk-canonical-market@1.0.0"

def creationMetadataVersion : String := "creation@1.0.0"

inductive MarketStatusV1
  | active
  | halted
  deriving DecidableEq

instance : Named MarketStatusV1 where
  all := [.active, .halted]
  name
    | .active => "active"
    | .halted => "halted"
  find_name a := by cases a <;> rfl

inductive MarketMetadataResolutionV1
  | exact
  | unresolved
  deriving DecidableEq

instance : Named MarketMetadataResolutionV1 where
  all := [.exact, .unresolved]
  name
    | .exact => "exact"
    | .unresolved => "unresolved"
  find_name a := by cases a <;> rfl

structure MarketFactRecordV1 where
  eventId : EventId
  eventKind : EventKind
  marketId : Option MarketId
  dexId : Option DexId
  assetId : Option AssetId
  outcomeId : Option OutcomeId
  blockHeight : BlockHeight
  payloadHash : Hash32
  ruleVersion : String

namespace MarketFactRecordV1

/-- Which identities a fact carries, by kind: market, exchange, asset, outcome. -/
def identityShape : EventKind → Option (Bool × Bool × Bool × Bool)
  | .dexCreated => some (false, true, false, false)
  | .assetContextUpdated => some (false, false, true, false)
  | .marketCreated => some (true, true, false, false)
  | .marketMetadataChanged | .marketHalted | .marketResumed | .openInterestCapChanged
  | .marginTableChanged | .oracleUpdated | .fundingRateUpdated => some (true, false, false, false)
  | .outcomeCreated | .outcomeResolved => some (true, false, false, true)
  | _ => none

def validate (r : MarketFactRecordV1) : Bool :=
  r.ruleVersion == marketReducerVersion && identityShape r.eventKind ==
    some (r.marketId.isSome, r.dexId.isSome, r.assetId.isSome, r.outcomeId.isSome)

def stateKey (eventId : EventId) : Except RecordCodecError StateKey :=
  framedKey "market-fact.v1" [eventId.asBytes]

instance : Stored MarketFactRecordV1 where
  ns := "market-fact.v1"
  keyOf r := stateKey r.eventId
  format :=
    { layout := .tag "schema" "hyperliquid-alpha-desk/market-fact/v1" <| .and "event_id" <|
        .and "event_kind" <| .and "market_id" <| .and "dex_id" <| .and "asset_id" <|
        .and "outcome_id" <| .and "block_height" <| .and "payload_blake3" <| .last "rule_version"
      fields r := (r.eventId, r.eventKind, r.marketId, r.dexId, r.assetId, r.outcomeId,
        r.blockHeight, r.payloadHash, r.ruleVersion)
      record := fun (a, b, c, d, e, f, g, h, i) => some ⟨a, b, c, d, e, f, g, h, i⟩
      valid := validate }

end MarketFactRecordV1

def validText (value : String) (maxBytes : ℕ) : Bool := !invalidText value maxBytes

structure DexCurrentRecordV1 where
  dexId : DexId
  name : String
  operatorAccountId : Address
  createdAtBlock : BlockHeight

namespace DexCurrentRecordV1

def stateKey (dexId : DexId) : Except RecordCodecError StateKey :=
  framedKey "dex-current.v1" [dexId.asBytes]

/-- The writer makes no check; the reader's is in `decodeAt`. -/
instance : Stored DexCurrentRecordV1 where
  ns := "dex-current.v1"
  keyOf r := stateKey r.dexId
  format :=
    { layout := .tag "schema" "hyperliquid-alpha-desk/dex-current/v1" <| .and "dex_id" <|
        .and "name" <| .and "operator_account_id" <| .last "created_at_block"
      fields r := (r.dexId, r.name, r.operatorAccountId, r.createdAtBlock)
      record := fun (a, b, c, d) => some ⟨a, b, c, d⟩
      valid _ := true }

def decodeAt (J : SerdeJson) (key : StateKey) (bytes : List UInt8) :
    Except RecordCodecError DexCurrentRecordV1 := do
  let record : DexCurrentRecordV1 ← Stored.decode J bytes
  if !validText record.name 256 then throw .invalidRecord
  if (← stateKey record.dexId) = key then return record else throw .keyMismatch

end DexCurrentRecordV1

structure AssetContextCurrentRecordV1 where
  assetId : AssetId
  contextVersion : String
  contextHash : Hash32
  updatedAtBlock : BlockHeight

namespace AssetContextCurrentRecordV1

def stateKey (assetId : AssetId) : Except RecordCodecError StateKey :=
  framedKey "asset-context-current.v1" [assetId.asBytes]

/-- The writer makes no check; the reader's is in `decodeAt`. -/
instance : Stored AssetContextCurrentRecordV1 where
  ns := "asset-context-current.v1"
  keyOf r := stateKey r.assetId
  format :=
    { layout := .tag "schema" "hyperliquid-alpha-desk/asset-context-current/v1" <|
        .and "asset_id" <| .and "context_version" <| .and "context_blake3" <|
        .last "updated_at_block"
      fields r := (r.assetId, r.contextVersion, r.contextHash, r.updatedAtBlock)
      record := fun (a, b, c, d) => some ⟨a, b, c, d⟩
      valid _ := true }

def decodeAt (J : SerdeJson) (key : StateKey) (bytes : List UInt8) :
    Except RecordCodecError AssetContextCurrentRecordV1 := do
  let record : AssetContextCurrentRecordV1 ← Stored.decode J bytes
  if !validText record.contextVersion 128 then throw .invalidRecord
  if (← stateKey record.assetId) = key then return record else throw .keyMismatch

end AssetContextCurrentRecordV1

/-- The four metadata values are present and agree, or are all absent. -/
def validMetadata (resolution : MarketMetadataResolutionV1) (tickSize lotSize : Option Decimal)
    (priceScale quantityScale : Option UInt8) : Bool :=
  match resolution with
  | .exact =>
    match tickSize, lotSize, priceScale, quantityScale with
    | some tick, some lot, some priceScale, some quantityScale =>
      0 < tick.raw && 0 < lot.raw && tick.scale == priceScale.toNat &&
        lot.scale == quantityScale.toNat
    | _, _, _, _ => false
  | .unresolved =>
    tickSize.isNone && lotSize.isNone && priceScale.isNone && quantityScale.isNone

structure MarketCurrentRecordV1 where
  marketId : MarketId
  dexId : DexId
  baseAssetId : AssetId
  quoteAssetId : AssetId
  status : MarketStatusV1
  metadataResolution : MarketMetadataResolutionV1
  metadataVersion : String
  metadataHash : Hash32
  tickSize : Option Price
  lotSize : Option Quantity
  priceScale : Option UInt8
  quantityScale : Option UInt8
  openInterestCap : Option QuoteAmount
  marginTableHash : Option String
  oraclePrice : Option Price
  oracleSource : Option String
  oracleEffectiveAt : Option ProtocolTime
  fundingRate : Option FundingRate
  fundingEffectiveAt : Option ProtocolTime
  createdAtBlock : BlockHeight
  updatedAtBlock : BlockHeight

namespace MarketCurrentRecordV1

def validate (r : MarketCurrentRecordV1) : Bool :=
  let oracleFields := [r.oraclePrice.isSome, r.oracleSource.isSome, r.oracleEffectiveAt.isSome]
  r.baseAssetId ≠ r.quoteAssetId && r.createdAtBlock ≤ r.updatedAtBlock &&
    validText r.metadataVersion 128 && r.openInterestCap.all (0 ≤ ·.raw) &&
    r.marginTableHash.all (validText · 256) && r.oracleSource.all (validText · 256) &&
    (!oracleFields.any id || oracleFields.all id) && r.oraclePrice.all (0 < ·.raw) &&
    r.fundingRate.isSome == r.fundingEffectiveAt.isSome &&
    validMetadata r.metadataResolution r.tickSize r.lotSize r.priceScale r.quantityScale

def stateKey (marketId : MarketId) : Except RecordCodecError StateKey :=
  framedKey "market-current.v1" [marketId.asBytes]

instance : Stored MarketCurrentRecordV1 where
  ns := "market-current.v1"
  keyOf r := stateKey r.marketId
  format :=
    { layout := .tag "schema" "hyperliquid-alpha-desk/market-current/v1" <| .and "market_id" <|
        .and "dex_id" <| .and "base_asset_id" <| .and "quote_asset_id" <| .and "status" <|
        .and "metadata_resolution" <| .and "metadata_version" <| .and "metadata_blake3" <|
        .and "tick_size" <| .and "lot_size" <| .and "price_scale" <| .and "quantity_scale" <|
        .and "open_interest_cap" <| .and "margin_table_hash" <| .and "oracle_price" <|
        .and "oracle_source" <| .and "oracle_effective_at_micros" <| .and "funding_rate" <|
        .and "funding_effective_at_micros" <| .and "created_at_block" <| .last "updated_at_block"
      fields r := (r.marketId, r.dexId, r.baseAssetId, r.quoteAssetId, r.status,
        r.metadataResolution, r.metadataVersion, r.metadataHash, r.tickSize, r.lotSize,
        r.priceScale, r.quantityScale, r.openInterestCap, r.marginTableHash, r.oraclePrice,
        r.oracleSource, r.oracleEffectiveAt, r.fundingRate, r.fundingEffectiveAt,
        r.createdAtBlock, r.updatedAtBlock)
      record := fun (a, b, c, d, e, f, g, h, i, j, k, l, m, n, o, p, q, r, s, t, u) =>
        some ⟨a, b, c, d, e, f, g, h, i, j, k, l, m, n, o, p, q, r, s, t, u⟩
      valid := validate }

end MarketCurrentRecordV1

structure MarketMetadataVersionRecordV1 where
  marketId : MarketId
  metadataVersion : String
  metadataHash : Hash32
  effectiveFromBlock : BlockHeight
  effectiveUntilBlock : Option BlockHeight
  resolution : MarketMetadataResolutionV1
  tickSize : Option Price
  lotSize : Option Quantity
  priceScale : Option UInt8
  quantityScale : Option UInt8

namespace MarketMetadataVersionRecordV1

def validate (r : MarketMetadataVersionRecordV1) : Bool :=
  validText r.metadataVersion 128 && r.effectiveUntilBlock.all (r.effectiveFromBlock ≤ ·) &&
    validMetadata r.resolution r.tickSize r.lotSize r.priceScale r.quantityScale

def stateKey (marketId : MarketId) (metadataVersion : String) :
    Except RecordCodecError StateKey :=
  framedKey "market-metadata-version.v1" [marketId.asBytes, utf8 metadataVersion]

instance : Stored MarketMetadataVersionRecordV1 where
  ns := "market-metadata-version.v1"
  keyOf r := stateKey r.marketId r.metadataVersion
  format :=
    { layout := .tag "schema" "hyperliquid-alpha-desk/market-metadata-version/v1" <|
        .and "market_id" <| .and "metadata_version" <| .and "metadata_blake3" <|
        .and "effective_from_block" <| .and "effective_until_block" <| .and "resolution" <|
        .and "tick_size" <| .and "lot_size" <| .and "price_scale" <| .last "quantity_scale"
      fields r := (r.marketId, r.metadataVersion, r.metadataHash, r.effectiveFromBlock,
        r.effectiveUntilBlock, r.resolution, r.tickSize, r.lotSize, r.priceScale, r.quantityScale)
      record := fun (a, b, c, d, e, f, g, h, i, j) => some ⟨a, b, c, d, e, f, g, h, i, j⟩
      valid := validate }

end MarketMetadataVersionRecordV1

structure OutcomeCurrentRecordV1 where
  marketId : MarketId
  outcomeId : OutcomeId
  description : String
  settlementValue : Option Price
  resolvedAt : Option ProtocolTime
  createdAtBlock : BlockHeight
  updatedAtBlock : BlockHeight

namespace OutcomeCurrentRecordV1

def validate (r : OutcomeCurrentRecordV1) : Bool :=
  validText r.description 2048 && r.settlementValue.isSome == r.resolvedAt.isSome &&
    r.settlementValue.all (0 ≤ ·.raw) && r.createdAtBlock ≤ r.updatedAtBlock

def stateKey (marketId : MarketId) (outcomeId : OutcomeId) : Except RecordCodecError StateKey :=
  framedKey "market-outcome-current.v1" [marketId.asBytes, outcomeId.asBytes]

instance : Stored OutcomeCurrentRecordV1 where
  ns := "market-outcome-current.v1"
  keyOf r := stateKey r.marketId r.outcomeId
  format :=
    { layout := .tag "schema" "hyperliquid-alpha-desk/market-outcome-current/v1" <|
        .and "market_id" <| .and "outcome_id" <| .and "description" <|
        .and "settlement_value" <| .and "resolved_at_micros" <| .and "created_at_block" <|
        .last "updated_at_block"
      fields r := (r.marketId, r.outcomeId, r.description, r.settlementValue, r.resolvedAt,
        r.createdAtBlock, r.updatedAtBlock)
      record := fun (a, b, c, d, e, f, g) => some ⟨a, b, c, d, e, f, g⟩
      valid := validate }

end OutcomeCurrentRecordV1

variable (J : SerdeJson) (state : Entries) (event : CanonicalEventEnvelope)

def marketCodecError : RecordCodecError → ReducerError :=
  codecReducerError "market_state" "market" "encoding failed"

def putMarket {T : Type} [Stored T] (key : StateKey) (record : T) :
    Except ReducerError StateMutation := do
  return .put key (← (Stored.encode J record).mapError marketCodecError)

def invalidMarketEvent : ReducerError :=
  ⟨"market_state.invalid_event", "market reducer received a non-market payload"⟩

def invalidMarketFixedPoint (message : String) : ReducerError :=
  ⟨"market_state.invalid_fixed_point", message⟩

def marketMetadataUnresolved : ReducerError :=
  ⟨"market_state.metadata_unresolved", "market metadata values are unresolved"⟩

def metadataCollision : ReducerError :=
  ⟨"market_state.metadata_identity_collision", "market metadata identity is already present"⟩

def MarketFactRecordV1.fromEvent : Except ReducerError MarketFactRecordV1 := do
  let fact (marketId : Option MarketId) (dexId : Option DexId) (assetId : Option AssetId)
      (outcomeId : Option OutcomeId) : Except ReducerError MarketFactRecordV1 :=
    .ok ⟨event.eventId, event.eventKind, marketId, dexId, assetId, outcomeId, event.blockHeight,
      event.payloadHash, marketReducerVersion⟩
  match event.payload with
  | .dexCreated p => fact none p.dexId none none
  | .assetContextUpdated p => fact none none p.assetId none
  | .marketCreated p => fact p.marketId p.dexId none none
  | .marketMetadataChanged p => fact p.marketId none none none
  | .marketHalted p => fact p.marketId none none none
  | .marketResumed p => fact p.marketId none none none
  | .openInterestCapChanged p => fact p.marketId none none none
  | .marginTableChanged p => fact p.marketId none none none
  | .oracleUpdated p => fact p.marketId none none none
  | .fundingRateUpdated p => fact p.marketId none none none
  | .outcomeCreated p => fact p.marketId none none p.outcomeId
  | .outcomeResolved p => fact p.marketId none none p.outcomeId
  | _ => throw invalidMarketEvent

def requireNoMarkets : Except ReducerError Unit :=
  if event.marketIds = [] then .ok ()
  else .error ⟨"market_state.invalid_market_identity", "event must not carry envelope markets"⟩

def requireMarket (marketId : MarketId) : Except ReducerError Unit :=
  if event.marketIds = [marketId] then .ok ()
  else .error ⟨"market_state.invalid_market_identity",
    "payload and envelope market must match exactly"⟩

def requireAccounts (expected : List Address) : Except ReducerError Unit :=
  if event.accountIds = expected then .ok ()
  else .error ⟨"market_state.invalid_account_identity",
    "payload and envelope accounts must match exactly"⟩

def requireRecord (key : StateKey) (error : ReducerError) : Except ReducerError Unit :=
  if state.contains key then .ok () else .error error

def requireFresh (key : StateKey) (error : ReducerError) : Except ReducerError Unit :=
  if state.contains key then .error error else .ok ()

def loadMarketRecord {T : Type} [Stored T] (key : StateKey) (missing : ReducerError) :
    Except ReducerError T :=
  match state[key]? with
  | none => .error missing
  | some bytes => (Stored.decodeAt J key bytes).mapError marketCodecError

def loadMarket (key : StateKey) : Except ReducerError MarketCurrentRecordV1 :=
  loadMarketRecord J state key
    ⟨"market_state.missing_market", "market prerequisite is missing"⟩

def loadMetadata (key : StateKey) : Except ReducerError MarketMetadataVersionRecordV1 :=
  loadMarketRecord J state key
    ⟨"market_state.missing_metadata", "market metadata prerequisite is missing"⟩

def requireExactMetadata (current : MarketCurrentRecordV1) : Except ReducerError Unit :=
  if current.metadataResolution = .unresolved then .error marketMetadataUnresolved else .ok ()

def reduceDexCreated (p : DexCreated) : Except ReducerError (List StateMutation) := do
  requireNoMarkets event
  requireAccounts event [p.operatorAccountId]
  let key ← (DexCurrentRecordV1.stateKey p.dexId).mapError marketCodecError
  requireFresh state key
    ⟨"market_state.dex_identity_collision", "DEX identity is already present"⟩
  let record : DexCurrentRecordV1 := ⟨p.dexId, p.name, p.operatorAccountId, event.blockHeight⟩
  return [← putMarket J key record]

def reduceAssetContextUpdated (p : AssetContextUpdated) :
    Except ReducerError (List StateMutation) := do
  requireNoMarkets event
  requireAccounts event []
  let key ← (AssetContextCurrentRecordV1.stateKey p.assetId).mapError marketCodecError
  requireFresh state key
    ⟨"market_state.asset_identity_collision", "asset identity is already present"⟩
  let record : AssetContextCurrentRecordV1 :=
    ⟨p.assetId, p.contextVersion, p.contextHash, event.blockHeight⟩
  return [← putMarket J key record]

def reduceMarketCreated (p : MarketCreated) : Except ReducerError (List StateMutation) := do
  requireMarket event p.marketId
  requireAccounts event []
  if p.baseAssetId = p.quoteAssetId then
    throw ⟨"market_state.invalid_assets", "market assets must be distinct"⟩
  requireRecord state (← (DexCurrentRecordV1.stateKey p.dexId).mapError marketCodecError)
    ⟨"market_state.missing_dex", "market DEX prerequisite is missing"⟩
  for assetId in [p.baseAssetId, p.quoteAssetId] do
    requireRecord state (← (AssetContextCurrentRecordV1.stateKey assetId).mapError marketCodecError)
      ⟨"market_state.missing_asset", "market asset prerequisite is missing"⟩
  if p.tickSize.raw ≤ 0 ∨ p.lotSize.raw ≤ 0 then
    throw (invalidMarketFixedPoint "market tick and lot values must be positive")
  let currentKey ← (MarketCurrentRecordV1.stateKey p.marketId).mapError marketCodecError
  requireFresh state currentKey
    ⟨"market_state.market_identity_collision", "market identity is already present"⟩
  let metadataKey ←
    (MarketMetadataVersionRecordV1.stateKey p.marketId creationMetadataVersion).mapError
      marketCodecError
  requireFresh state metadataKey metadataCollision
  let current : MarketCurrentRecordV1 :=
    { marketId := p.marketId
      dexId := p.dexId
      baseAssetId := p.baseAssetId
      quoteAssetId := p.quoteAssetId
      status := .active
      metadataResolution := .exact
      metadataVersion := creationMetadataVersion
      metadataHash := event.payloadHash
      tickSize := some p.tickSize
      lotSize := some p.lotSize
      priceScale := some (UInt8.ofNat p.tickSize.scale)
      quantityScale := some (UInt8.ofNat p.lotSize.scale)
      openInterestCap := none
      marginTableHash := none
      oraclePrice := none
      oracleSource := none
      oracleEffectiveAt := none
      fundingRate := none
      fundingEffectiveAt := none
      createdAtBlock := event.blockHeight
      updatedAtBlock := event.blockHeight }
  let metadata : MarketMetadataVersionRecordV1 :=
    { marketId := p.marketId
      metadataVersion := creationMetadataVersion
      metadataHash := event.payloadHash
      effectiveFromBlock := event.blockHeight
      effectiveUntilBlock := none
      resolution := .exact
      tickSize := some p.tickSize
      lotSize := some p.lotSize
      priceScale := some (UInt8.ofNat p.tickSize.scale)
      quantityScale := some (UInt8.ofNat p.lotSize.scale) }
  return [← putMarket J currentKey current, ← putMarket J metadataKey metadata]

def textLe (a b : String) : Bool := (compare (utf8 a) (utf8 b)).isLE

def reduceMarketMetadataChanged (p : MarketMetadataChanged) :
    Except ReducerError (List StateMutation) := do
  requireMarket event p.marketId
  requireAccounts event []
  let currentKey ← (MarketCurrentRecordV1.stateKey p.marketId).mapError marketCodecError
  let current ← loadMarket J state currentKey
  if textLe p.metadataVersion current.metadataVersion ||
      event.blockHeight ≤ current.updatedAtBlock then
    throw ⟨"market_state.non_monotonic_metadata",
      "market metadata versions and heights must increase"⟩
  let priorKey ←
    (MarketMetadataVersionRecordV1.stateKey p.marketId current.metadataVersion).mapError
      marketCodecError
  let prior ← loadMetadata J state priorKey
  if prior.effectiveUntilBlock.isSome || event.blockHeight ≤ prior.effectiveFromBlock then
    throw ⟨"market_state.non_monotonic_metadata", "market metadata interval cannot overlap"⟩
  let nextKey ←
    (MarketMetadataVersionRecordV1.stateKey p.marketId p.metadataVersion).mapError marketCodecError
  requireFresh state nextKey metadataCollision
  if event.blockHeight = 0 then
    throw ⟨"market_state.arithmetic_overflow", "metadata interval height underflowed"⟩
  let next : MarketMetadataVersionRecordV1 :=
    { marketId := p.marketId
      metadataVersion := p.metadataVersion
      metadataHash := p.metadataHash
      effectiveFromBlock := event.blockHeight
      effectiveUntilBlock := none
      resolution := .unresolved
      tickSize := none
      lotSize := none
      priceScale := none
      quantityScale := none }
  -- nothing that was known under the old metadata is carried over
  let current : MarketCurrentRecordV1 :=
    { current with
      metadataResolution := .unresolved
      metadataVersion := p.metadataVersion
      metadataHash := p.metadataHash
      tickSize := none
      lotSize := none
      priceScale := none
      quantityScale := none
      openInterestCap := none
      marginTableHash := none
      oraclePrice := none
      oracleSource := none
      oracleEffectiveAt := none
      fundingRate := none
      fundingEffectiveAt := none
      updatedAtBlock := event.blockHeight }
  return [← putMarket J priorKey { prior with effectiveUntilBlock := some (event.blockHeight - 1) },
    ← putMarket J nextKey next, ← putMarket J currentKey current]

def updateMarket (marketId : MarketId)
    (change : MarketCurrentRecordV1 → Except ReducerError MarketCurrentRecordV1) :
    Except ReducerError (List StateMutation) := do
  requireMarket event marketId
  requireAccounts event []
  let key ← (MarketCurrentRecordV1.stateKey marketId).mapError marketCodecError
  let current ← loadMarket J state key
  let next ← change current
  return [← putMarket J key { next with updatedAtBlock := event.blockHeight }]

def changeStatus (required next : MarketStatusV1) (current : MarketCurrentRecordV1) :
    Except ReducerError MarketCurrentRecordV1 :=
  if current.status ≠ required then
    .error ⟨"market_state.invalid_status_transition", "market status transition is not allowed"⟩
  else .ok { current with status := next }

def changeOpenInterestCap (p : OpenInterestCapChanged) (current : MarketCurrentRecordV1) :
    Except ReducerError MarketCurrentRecordV1 := do
  requireExactMetadata current
  if p.previousCap.raw < 0 ∨ p.newCap.raw < 0 ∨ p.previousCap = p.newCap then
    throw (invalidMarketFixedPoint
      "open-interest caps must be distinct nonnegative fixed-point values")
  if current.openInterestCap.any (· ≠ p.previousCap) then
    throw ⟨"market_state.previous_cap_mismatch",
      "previous open-interest cap does not match current state"⟩
  return { current with openInterestCap := some p.newCap }

def changeMarginTable (p : MarginTableChanged) (current : MarketCurrentRecordV1) :
    Except ReducerError MarketCurrentRecordV1 := do
  requireExactMetadata current
  if p.previousTableHash = p.newTableHash then
    throw ⟨"market_state.invalid_margin_table", "margin table hashes must differ"⟩
  if current.marginTableHash.any (· ≠ p.previousTableHash) then
    throw ⟨"market_state.previous_margin_table_mismatch",
      "previous margin table does not match current state"⟩
  return { current with marginTableHash := some p.newTableHash }

def changeOracle (p : OracleUpdated) (current : MarketCurrentRecordV1) :
    Except ReducerError MarketCurrentRecordV1 := do
  requireExactMetadata current
  if p.oraclePrice.raw ≤ 0 then
    throw (invalidMarketFixedPoint "oracle price must be positive")
  if current.oracleEffectiveAt.any (p.effectiveAt.unixMicros < ·.unixMicros) then
    throw ⟨"market_state.stale_oracle_time", "oracle effective time cannot regress"⟩
  return { current with
    oraclePrice := some p.oraclePrice
    oracleSource := some p.source
    oracleEffectiveAt := some p.effectiveAt }

def changeFundingRate (p : FundingRateUpdated) (current : MarketCurrentRecordV1) :
    Except ReducerError MarketCurrentRecordV1 := do
  requireExactMetadata current
  if current.fundingEffectiveAt.any (p.effectiveAt.unixMicros < ·.unixMicros) then
    throw ⟨"market_state.stale_funding_time", "funding effective time cannot regress"⟩
  return { current with
    fundingRate := some p.fundingRate
    fundingEffectiveAt := some p.effectiveAt }

def reduceOutcomeCreated (p : OutcomeCreated) : Except ReducerError (List StateMutation) := do
  requireMarket event p.marketId
  requireAccounts event []
  let marketKey ← (MarketCurrentRecordV1.stateKey p.marketId).mapError marketCodecError
  let _ ← loadMarket J state marketKey
  let key ← (OutcomeCurrentRecordV1.stateKey p.marketId p.outcomeId).mapError marketCodecError
  requireFresh state key
    ⟨"market_state.outcome_identity_collision", "outcome identity is already present"⟩
  let outcome : OutcomeCurrentRecordV1 :=
    ⟨p.marketId, p.outcomeId, p.description, none, none, event.blockHeight, event.blockHeight⟩
  return [← putMarket J key outcome]

def reduceOutcomeResolved (p : OutcomeResolved) : Except ReducerError (List StateMutation) := do
  requireMarket event p.marketId
  requireAccounts event []
  let marketKey ← (MarketCurrentRecordV1.stateKey p.marketId).mapError marketCodecError
  requireExactMetadata (← loadMarket J state marketKey)
  let key ← (OutcomeCurrentRecordV1.stateKey p.marketId p.outcomeId).mapError marketCodecError
  let outcome : OutcomeCurrentRecordV1 ← loadMarketRecord J state key
    ⟨"market_state.missing_outcome", "outcome prerequisite is missing"⟩
  if outcome.resolvedAt.isSome then
    throw ⟨"market_state.outcome_already_resolved", "outcome resolution is immutable"⟩
  if p.settlementValue.raw < 0 then
    throw (invalidMarketFixedPoint "outcome settlement value must be nonnegative")
  return [← putMarket J key { outcome with
    settlementValue := some p.settlementValue
    resolvedAt := some p.resolvedAt
    updatedAtBlock := event.blockHeight }]

def reduceMarketPayload : Except ReducerError (List StateMutation) :=
  match event.payload with
  | .dexCreated p => reduceDexCreated J state event p
  | .assetContextUpdated p => reduceAssetContextUpdated J state event p
  | .marketCreated p => reduceMarketCreated J state event p
  | .marketMetadataChanged p => reduceMarketMetadataChanged J state event p
  | .marketHalted p => updateMarket J state event p.marketId (changeStatus .active .halted)
  | .marketResumed p => updateMarket J state event p.marketId (changeStatus .halted .active)
  | .openInterestCapChanged p => updateMarket J state event p.marketId (changeOpenInterestCap p)
  | .marginTableChanged p => updateMarket J state event p.marketId (changeMarginTable p)
  | .oracleUpdated p => updateMarket J state event p.marketId (changeOracle p)
  | .fundingRateUpdated p => updateMarket J state event p.marketId (changeFundingRate p)
  | .outcomeCreated p => reduceOutcomeCreated J state event p
  | .outcomeResolved p => reduceOutcomeResolved J state event p
  | _ => .error invalidMarketEvent

def reduceMarket : Except ReducerError (List StateMutation) := do
  let factKey ← (MarketFactRecordV1.stateKey event.eventId).mapError marketCodecError
  requireFresh state factKey
    ⟨"market_state.event_identity_collision", "market event identity is already present"⟩
  let fact ← MarketFactRecordV1.fromEvent event
  let factPut ← putMarket J factKey fact
  return factPut :: (← reduceMarketPayload J state event)

def isMarketKind : EventKind → Bool
  | .dexCreated | .assetContextUpdated | .marketCreated | .marketMetadataChanged | .marketHalted
  | .marketResumed | .openInterestCapChanged | .marginTableChanged | .oracleUpdated
  | .fundingRateUpdated | .outcomeCreated | .outcomeResolved => true
  | _ => false

def canonicalMarketReducer : EventReducer where
  reducerSetVersion := marketReducerVersion
  supports event := event.schemaVersion = "1.0.0" && isMarketKind event.eventKind
  reduce state event _ := reduceMarket J state event
  validateBlockDelta _ _ _ := .ok ()

variable {J : SerdeJson} {ms : List StateMutation} {m : StateMutation} {key : StateKey} {T : Type}

def marketNamespaces : List String :=
  ["market-fact.v1", "dex-current.v1", "asset-context-current.v1", "market-current.v1",
    "market-metadata-version.v1", "market-outcome-current.v1"]

theorem putMarket_eq_ok [Stored T] {record : T} (h : putMarket J key record = .ok m) :
    ∃ bytes, Stored.encode J record = .ok bytes ∧ m = .put key bytes := by
  obtain ⟨bytes, hb, h⟩ := Except.of_bind h
  exact ⟨bytes, Except.mapError_eq_ok.mp hb, (Except.ok.inj h).symm⟩

theorem putsIn_putMarket [Stored T] {ns : String} {identities : List (List UInt8)}
    {f : RecordCodecError → ReducerError} {record : T} {nss : List String}
    (hk : (framedKey ns identities).mapError f = .ok key) (hns : ns ∈ nss)
    (h : putMarket J key record = .ok m) (hms : PutsIn nss ms) : PutsIn nss (m :: ms) := by
  obtain ⟨bytes, -, rfl⟩ := putMarket_eq_ok h
  exact .put ((ns_framedKey (Except.mapError_eq_ok.mp hk)).1 ▸ hns) hms

end AlphaDesk
