import AlphaDesk.Reducers.Order

/-! # The journal of an order

The trigger and the TWAP reducer file each event about an order in the same way:
a fact, the current record and a transition from the hash of the record before
to the hash of the record after. A trigger order is activated once.
-/

namespace AlphaDesk

open Bytes Wire

/-- The names under which a reducer files its events. -/
class JournalNames (K : Type) where
  factNs : String
  factSchema : String
  currentNs : String
  transitionNs : String
  transitionSchema : String
  hashContext : String
  version : String
  kinds : EventKind → Bool
  codecError : RecordCodecError → ReducerError
  collision : ReducerError

structure JournalFact (K : Type) where
  eventId : EventId
  eventKind : EventKind
  orderId : OrderId
  accountId : Address
  marketId : MarketId
  blockHeight : BlockHeight
  payloadHash : Hash32

structure JournalTransition (K : Type) where
  eventId : EventId
  eventKind : EventKind
  orderId : OrderId
  accountId : Address
  marketId : MarketId
  blockHeight : BlockHeight
  payloadHash : Hash32
  priorStateHash : Option Hash32
  resultStateHash : Hash32
  ruleVersion : String

def journalCurrentKey (K : Type) [JournalNames K] (marketId : MarketId) (orderId : OrderId) :
    Except RecordCodecError StateKey :=
  orderStateKey (JournalNames.currentNs K) ([marketId.asBytes, orderId.asBytes].flatMap frame)

def journalEventKey (ns : String) (marketId : MarketId) (orderId : OrderId) (eventId : EventId) :
    Except RecordCodecError StateKey :=
  orderStateKey ns ([marketId.asBytes, orderId.asBytes, eventId.asBytes].flatMap frame)

theorem ns_journalEventKey {ns : String} {m : MarketId} {o : OrderId} {e : EventId} {k : StateKey}
    (h : journalEventKey ns m o e = .ok k) : k.ns = ns :=
  (orderStateKey_eq_ok.mp h).1.symm

/-- The check of a rule version in a transition; that of a state image is stricter. -/
def validRuleVersion (value : String) : Bool :=
  !value.isEmpty && trim value == value && (utf8 value).length ≤ 128

variable {K : Type} [JournalNames K]

/-- A journal only files its own kinds, so only the reader can meet another one. -/
instance : Stored (JournalFact K) where
  ns := JournalNames.factNs K
  keyOf r := journalEventKey (JournalNames.factNs K) r.marketId r.orderId r.eventId
  ns_keyOf := ns_journalEventKey
  format :=
    { layout := .tag "schema" (JournalNames.factSchema K) <| .and "event_id" <|
        .and "event_kind" <| .and "order_id" <| .and "account_id" <| .and "market_id" <|
        .and "block_height" <| .last "payload_blake3"
      fields r := (r.eventId, r.eventKind, r.orderId, r.accountId, r.marketId, r.blockHeight,
        r.payloadHash)
      record := fun (a, b, c, d, e, f, g) => some ⟨a, b, c, d, e, f, g⟩
      valid r := JournalNames.kinds K r.eventKind
      nodup := by simp [Layout.tag, Layout.and, Layout.last] }

instance : Stored (JournalTransition K) where
  ns := JournalNames.transitionNs K
  keyOf r := journalEventKey (JournalNames.transitionNs K) r.marketId r.orderId r.eventId
  ns_keyOf := ns_journalEventKey
  format :=
    { layout := .tag "schema" (JournalNames.transitionSchema K) <| .and "event_id" <|
        .and "event_kind" <| .and "order_id" <| .and "account_id" <| .and "market_id" <|
        .and "block_height" <| .and "payload_blake3" <| .and "prior_state_blake3" <|
        .and "result_state_blake3" <| .last "rule_version"
      fields r := (r.eventId, r.eventKind, r.orderId, r.accountId, r.marketId, r.blockHeight,
        r.payloadHash, r.priorStateHash, r.resultStateHash, r.ruleVersion)
      record := fun (a, b, c, d, e, f, g, h, i, j) => some ⟨a, b, c, d, e, f, g, h, i, j⟩
      valid r := JournalNames.kinds K r.eventKind && validRuleVersion r.ruleVersion
      nodup := by simp [Layout.tag, Layout.and, Layout.last] }

section Filing

variable (B : Blake3) (J : SerdeJson) (K : Type) [JournalNames K] (state : Entries)
  (event : CanonicalEventEnvelope) {C : Type} [Stored C]

def journalHash (bytes : List UInt8) : Hash32 := B.deriveKey (JournalNames.hashContext K) bytes

/-- File an event with the record that it leaves. -/
def fileEvent (orderId : OrderId) (accountId : Address) (marketId : MarketId)
    (currentKey : StateKey) (priorStateHash : Option Hash32) (current : C) :
    Except ReducerError (List StateMutation) := do
  let currentBytes ← (Stored.encode J current).mapError (JournalNames.codecError K)
  let fact : JournalFact K := ⟨event.eventId, event.eventKind, orderId, accountId, marketId,
    event.blockHeight, event.payloadHash⟩
  let factKey ← (Stored.keyOf fact).mapError (JournalNames.codecError K)
  let transition : JournalTransition K := ⟨event.eventId, event.eventKind, orderId, accountId,
    marketId, event.blockHeight, event.payloadHash, priorStateHash,
    journalHash B K currentBytes, JournalNames.version K⟩
  let transitionKey ← (Stored.keyOf transition).mapError (JournalNames.codecError K)
  if state.contains factKey || state.contains transitionKey then throw (JournalNames.collision K)
  return [← putRecord J (JournalNames.codecError K) factKey fact, .put currentKey currentBytes,
    ← putRecord J (JournalNames.codecError K) transitionKey transition]

variable {B J K state event} {ms : List StateMutation}

variable {o : OrderId} {a : Address} {m : MarketId} {ck : StateKey} {prior : Option Hash32}
  {current : C} (h : fileEvent B J K state event o a m ck prior current = .ok ms)
include h

theorem fileEvent_eq_ok :
    ∃ (fact : JournalFact K) (tr : JournalTransition K) (fk tk : StateKey)
      (fb cb tb : List UInt8), Stored.encode J current = .ok cb ∧
      Stored.keyOf fact = .ok fk ∧ Stored.encode J fact = .ok fb ∧ state[fk]? = none ∧
      Stored.keyOf tr = .ok tk ∧ Stored.encode J tr = .ok tb ∧ state[tk]? = none ∧
      tr.eventId = event.eventId ∧ tr.orderId = o ∧ tr.marketId = m ∧
      tr.priorStateHash = prior ∧ tr.resultStateHash = journalHash B K cb ∧
      ms = [.put fk fb, .put ck cb, .put tk tb] := by
  simp only [fileEvent, Except.bind_eq_ok, Except.mapError_eq_ok] at h
  obtain ⟨cb, hcb, fk, hfk, tk, htk, h⟩ := h
  obtain ⟨hfresh, h⟩ := Except.of_check h
  simp only [Except.bind_eq_ok, putRecord_eq_ok] at h
  obtain ⟨_, ⟨fb, hfb, rfl⟩, _, ⟨tb, htb, rfl⟩, h⟩ := h
  simp only [Bool.or_eq_true, not_or, Std.ExtTreeMap.contains_eq_isSome_getElem?,
    Option.not_isSome_iff_eq_none] at hfresh
  exact ⟨_, _, fk, tk, fb, cb, tb, hcb, hfk, hfb, hfresh.1, htk, htb, hfresh.2, rfl, rfl, rfl, rfl,
    rfl, (Except.ok.inj h).symm⟩

theorem putsIn_fileEvent {nss : List String} {ns : String} (hck : ck.ns = ns)
    (hf : JournalNames.factNs K ∈ nss) (hc : ns ∈ nss) (ht : JournalNames.transitionNs K ∈ nss) :
    PutsIn nss ms := by
  obtain ⟨fact, tr, fk, tk, fb, cb, tb, -, hfk, -, -, htk, -, -, -, -, -, -, -, rfl⟩ :=
    fileEvent_eq_ok h
  exact .put (Stored.ns_keyOf hfk ▸ hf) (.put (hck ▸ hc) (.put (Stored.ns_keyOf htk ▸ ht)
    putsIn_nil))

end Filing

inductive Trigger

instance : JournalNames Trigger where
  factNs := "trigger-fact.v1"
  factSchema := "hyperliquid-alpha-desk/trigger-fact/v1"
  currentNs := "trigger-current.v1"
  transitionNs := "trigger-transition.v1"
  transitionSchema := "hyperliquid-alpha-desk/trigger-transition/v1"
  hashContext := "hyperliquid-alpha-desk/trigger-current-hash/v1"
  version := "hyperliquid-alpha-desk-canonical-trigger@1.0.0"
  kinds kind := kind = .triggerOrderActivated
  codecError := codecReducerError "trigger_state" "trigger" "encoding failed"
  collision := ⟨"trigger_state.event_id_collision",
    "trigger event identity is already present in canonical state"⟩

abbrev TriggerFactRecordV1 := JournalFact Trigger

abbrev TriggerTransitionRecordV1 := JournalTransition Trigger

structure TriggerCurrentRecordV1 where
  orderId : OrderId
  accountId : Address
  marketId : MarketId
  triggerPrice : Price
  oraclePrice : Price
  activatedEventId : EventId
  lastEventId : EventId
  lastBlockHeight : BlockHeight

instance : Stored TriggerCurrentRecordV1 where
  ns := "trigger-current.v1"
  keyOf r := journalCurrentKey Trigger r.marketId r.orderId
  ns_keyOf h := (orderStateKey_eq_ok.mp h).1.symm
  format :=
    { layout := .tag "schema" "hyperliquid-alpha-desk/trigger-current/v1" <| .and "order_id" <|
        .and "account_id" <| .and "market_id" <| .and "trigger_price" <| .and "oracle_price" <|
        .and "activated_event_id" <| .and "last_event_id" <| .last "last_block_height"
      fields r := (r.orderId, r.accountId, r.marketId, r.triggerPrice, r.oraclePrice,
        r.activatedEventId, r.lastEventId, r.lastBlockHeight)
      record := fun (a, b, c, d, e, f, g, h) => some ⟨a, b, c, d, e, f, g, h⟩
      valid r := 0 < r.triggerPrice.raw && 0 < r.oraclePrice.raw }

variable (B : Blake3) (J : SerdeJson) (state : Entries) (event : CanonicalEventEnvelope)

def triggerIdentityMismatch (message : String) : ReducerError :=
  ⟨"trigger_state.identity_mismatch", message⟩

def reduceTrigger : Except ReducerError (List StateMutation) :=
  match event.payload with
  | .triggerOrderActivated activated => do
    let [marketId] := event.marketIds
      | throw (triggerIdentityMismatch "trigger event requires exactly one envelope market")
    let [accountId] := event.accountIds
      | throw (triggerIdentityMismatch "trigger event requires exactly one envelope account")
    let currentKey ← (journalCurrentKey Trigger marketId activated.orderId).mapError
      (JournalNames.codecError Trigger)
    refuseKey state currentKey ⟨"trigger_state.order_id_collision",
      "trigger identity is already present in canonical state"⟩
    let current : TriggerCurrentRecordV1 := ⟨activated.orderId, accountId, marketId,
      activated.triggerPrice, activated.oraclePrice, event.eventId, event.eventId,
      event.blockHeight⟩
    fileEvent B J Trigger state event activated.orderId accountId marketId currentKey none current
  | _ => .error ⟨"trigger_state.invalid_event", "trigger reducer received a non-trigger payload"⟩

def canonicalTriggerReducer : EventReducer where
  reducerSetVersion := JournalNames.version Trigger
  supports event := event.schemaVersion = "1.0.0" && event.eventKind = .triggerOrderActivated
  reduce state event _ := reduceTrigger B J state event
  validateBlockDelta _ _ _ := .ok ()

variable {B : Blake3} {J : SerdeJson} {s : Entries} {event : CanonicalEventEnvelope}
  {ms : List StateMutation}

def triggerNamespaces : List String :=
  ["trigger-fact.v1", "trigger-current.v1", "trigger-transition.v1"]

theorem putsIn_reduceTrigger (h : reduceTrigger B J s event = .ok ms) :
    PutsIn triggerNamespaces ms := by
  unfold reduceTrigger at h
  split at h
  next =>
    split at h
    next =>
      split at h
      next =>
        simp only [Except.bind_eq_ok, Except.mapError_eq_ok] at h
        obtain ⟨ck, hck, _, -, h⟩ := h
        exact putsIn_fileEvent h (orderStateKey_eq_ok.mp hck).1.symm (by decide) (by decide)
          (by decide)
      next => cases h
    next => cases h
  next => cases h

end AlphaDesk
