import AlphaDesk.Records.Stored
import AlphaDesk.Reducers.Opaque

/-! # The order reducer

Every order event writes a fact and a transition record; all but a rejection also
write the current record of the order. A current record moves through its
lifecycle by checked arithmetic on its quantities and stays as it is once the
lifecycle is terminal.
-/

namespace AlphaDesk

open Bytes Wire

inductive OrderLifecycleV1
  | accepted
  | rested
  | modified
  | partiallyFilled
  | filled
  | cancelled
  deriving DecidableEq

def OrderLifecycleV1.isTerminal : OrderLifecycleV1 → Bool
  | .filled | .cancelled => true
  | .accepted | .rested | .modified | .partiallyFilled => false

instance : Named OrderLifecycleV1 where
  all := [.accepted, .rested, .modified, .partiallyFilled, .filled, .cancelled]
  name
    | .accepted => "accepted"
    | .rested => "rested"
    | .modified => "modified"
    | .partiallyFilled => "partially_filled"
    | .filled => "filled"
    | .cancelled => "cancelled"
  find_name a := by cases a <;> rfl

inductive OrderTransitionStatusV1
  | applied
  | recordedRejection

instance : Named OrderTransitionStatusV1 where
  all := [.applied, .recordedRejection]
  name
    | .applied => "applied"
    | .recordedRejection => "recorded_rejection"
  find_name a := by cases a <;> rfl

def isOrderKind : EventKind → Bool
  | .orderAccepted | .orderRested | .orderModified | .orderPartiallyFilled | .orderFilled
  | .orderCancelled | .nonUserOrderCancelled | .orderRejected => true
  | _ => false

structure OrderFactRecordV1 where
  eventId : EventId
  eventKind : EventKind
  orderId : Option OrderId
  clientOrderId : Option ClientOrderId
  accountId : Address
  marketId : Option MarketId
  blockHeight : BlockHeight
  payloadHash : Hash32

def OrderFactRecordV1.validIdentityShape (r : OrderFactRecordV1) : Bool :=
  if r.eventKind = .orderRejected then
    r.orderId.isNone && r.marketId.isNone && r.clientOrderId.isSome
  else isOrderKind r.eventKind && r.orderId.isSome && r.marketId.isSome && r.clientOrderId.isNone

def OrderFactRecordV1.format : Format OrderFactRecordV1 where
  layout := .tag "schema" "hyperliquid-alpha-desk/order-fact/v1" <| .and "event_id" <|
    .and "event_kind" <| .and "order_id" <| .and "client_order_id" <| .and "account_id" <|
    .and "market_id" <| .and "block_height" <| .last "payload_blake3"
  fields r := (r.eventId, r.eventKind, r.orderId, r.clientOrderId, r.accountId, r.marketId,
    r.blockHeight, r.payloadHash)
  record f := match f with
    | (eventId, eventKind, orderId, clientOrderId, accountId, marketId, blockHeight, payloadHash) =>
      some ⟨eventId, eventKind, orderId, clientOrderId, accountId, marketId, blockHeight,
        payloadHash⟩
  valid := validIdentityShape

structure OrderCurrentRecordV1 where
  orderId : OrderId
  accountId : Address
  marketId : MarketId
  side : OrderSide
  lifecycle : OrderLifecycleV1
  limitPrice : Price
  acceptedQuantity : Quantity
  filledQuantity : Quantity
  remainingQuantity : Quantity
  acceptedEventId : EventId
  lastEventId : EventId
  lastBlockHeight : BlockHeight

def OrderCurrentRecordV1.validate (r : OrderCurrentRecordV1) : Bool :=
  if r.limitPrice.raw ≤ 0 ∨ r.acceptedQuantity.raw ≤ 0 ∨ r.filledQuantity.raw < 0 ∨
      r.remainingQuantity.raw < 0 then false
  else match r.filledQuantity.checkedAdd r.remainingQuantity with
    | .error _ => false
    | .ok total =>
      total.numEq r.acceptedQuantity &&
        !(r.lifecycle = .filled && r.remainingQuantity.raw ≠ 0) &&
        !(!r.lifecycle.isTerminal && r.remainingQuantity.raw ≤ 0)

def OrderCurrentRecordV1.format : Format OrderCurrentRecordV1 where
  layout := .tag "schema" "hyperliquid-alpha-desk/order-current/v1" <| .and "order_id" <|
    .and "account_id" <| .and "market_id" <| .and "side" <| .and "lifecycle" <|
    .and "limit_price" <| .and "accepted_quantity" <| .and "filled_quantity" <|
    .and "remaining_quantity" <| .and "accepted_event_id" <| .and "last_event_id" <|
    .last "last_block_height"
  fields r := (r.orderId, r.accountId, r.marketId, r.side, r.lifecycle, r.limitPrice,
    r.acceptedQuantity, r.filledQuantity, r.remainingQuantity, r.acceptedEventId, r.lastEventId,
    r.lastBlockHeight)
  record f := match f with
    | (orderId, accountId, marketId, side, lifecycle, limitPrice, acceptedQuantity, filledQuantity,
        remainingQuantity, acceptedEventId, lastEventId, lastBlockHeight) =>
      some ⟨orderId, accountId, marketId, side, lifecycle, limitPrice, acceptedQuantity,
        filledQuantity, remainingQuantity, acceptedEventId, lastEventId, lastBlockHeight⟩
  valid := validate

def orderReducerVersion : String := "hyperliquid-alpha-desk-canonical-order@1.0.0"

structure OrderTransitionRecordV1 where
  eventId : EventId
  eventKind : EventKind
  orderId : Option OrderId
  clientOrderId : Option ClientOrderId
  accountId : Address
  marketId : Option MarketId
  blockHeight : BlockHeight
  payloadHash : Hash32
  priorStateHash : Option Hash32
  resultStateHash : Option Hash32
  ruleVersion : String
  status : OrderTransitionStatusV1

/-- The check of a transition; the kinds are those its reader accepts, and no others are written. -/
def OrderTransitionRecordV1.validate (r : OrderTransitionRecordV1) : Bool :=
  isOrderKind r.eventKind && r.ruleVersion == orderReducerVersion &&
    match r.status with
    | .applied =>
      r.eventKind ≠ .orderRejected && r.orderId.isSome && r.marketId.isSome &&
        r.clientOrderId.isNone && r.resultStateHash.isSome &&
        (r.eventKind == .orderAccepted) == r.priorStateHash.isNone
    | .recordedRejection =>
      r.eventKind = .orderRejected && r.orderId.isNone && r.marketId.isNone &&
        r.clientOrderId.isSome && r.priorStateHash.isNone && r.resultStateHash.isNone

def OrderTransitionRecordV1.format : Format OrderTransitionRecordV1 where
  layout := .tag "schema" "hyperliquid-alpha-desk/order-transition/v1" <| .and "event_id" <|
    .and "event_kind" <| .and "order_id" <| .and "client_order_id" <| .and "account_id" <|
    .and "market_id" <| .and "block_height" <| .and "payload_blake3" <|
    .and "prior_state_blake3" <| .and "result_state_blake3" <| .and "rule_version" <|
    .last "status"
  fields r := (r.eventId, r.eventKind, r.orderId, r.clientOrderId, r.accountId, r.marketId,
    r.blockHeight, r.payloadHash, r.priorStateHash, r.resultStateHash, r.ruleVersion, r.status)
  record f := match f with
    | (eventId, eventKind, orderId, clientOrderId, accountId, marketId, blockHeight, payloadHash,
        priorStateHash, resultStateHash, ruleVersion, status) =>
      some ⟨eventId, eventKind, orderId, clientOrderId, accountId, marketId, blockHeight,
        payloadHash, priorStateHash, resultStateHash, ruleVersion, status⟩
  valid := validate

def orderFactNamespace : String := "order-fact.v1"

def orderCurrentNamespace : String := "order-current.v1"

def orderTransitionNamespace : String := "order-transition.v1"

def currentIdentityKey (marketId : MarketId) (orderId : OrderId) : List UInt8 :=
  0 :: (frame marketId.asBytes ++ frame orderId.asBytes)

def orderIdentityKey (marketId : MarketId) (orderId : OrderId) (eventId : EventId) : List UInt8 :=
  currentIdentityKey marketId orderId ++ frame eventId.asBytes

def rejectionIdentityKey (accountId : Address) (clientOrderId : ClientOrderId)
    (eventId : EventId) : List UInt8 :=
  1 :: (frame accountId.toList ++ (frame clientOrderId.asBytes ++ frame eventId.asBytes))

def orderStateKey (ns : String) (key : List UInt8) : Except RecordCodecError StateKey :=
  (StateKey.tryNew ns key).mapError fun _ => .invalidKey

def OrderCurrentRecordV1.stateKey (marketId : MarketId) (orderId : OrderId) :
    Except RecordCodecError StateKey :=
  orderStateKey orderCurrentNamespace (currentIdentityKey marketId orderId)

/-- The key of a fact or a transition: by order, or by client order for a rejection. -/
def orderEventKey (ns : String) (marketId : Option MarketId) (orderId : Option OrderId)
    (clientOrderId : Option ClientOrderId) (accountId : Address) (eventId : EventId) :
    Except RecordCodecError StateKey :=
  match marketId, orderId, clientOrderId with
  | some marketId, some orderId, none =>
    orderStateKey ns (orderIdentityKey marketId orderId eventId)
  | none, none, some clientOrderId =>
    orderStateKey ns (rejectionIdentityKey accountId clientOrderId eventId)
  | _, _, _ => .error .invalidRecord

def OrderFactRecordV1.stateKey (r : OrderFactRecordV1) : Except RecordCodecError StateKey :=
  orderEventKey orderFactNamespace r.marketId r.orderId r.clientOrderId r.accountId r.eventId

def OrderTransitionRecordV1.stateKey (r : OrderTransitionRecordV1) :
    Except RecordCodecError StateKey :=
  orderEventKey orderTransitionNamespace r.marketId r.orderId r.clientOrderId r.accountId r.eventId

theorem orderStateKey_eq_ok {ns : String} {key : List UInt8} {k : StateKey} :
    orderStateKey ns key = .ok k ↔ ns = k.ns ∧ key = k.key := by
  rw [orderStateKey, Except.mapError_eq_ok, StateKey.tryNew_eq_ok_iff]

theorem orderStateKey_inj {ns ns' : String} (tag : List UInt8) {m m' : MarketId} {o o' : OrderId}
    {k : StateKey} (h : orderStateKey ns (tag ++ [m.asBytes, o.asBytes].flatMap frame) = .ok k)
    (h' : orderStateKey ns' (tag ++ [m'.asBytes, o'.asBytes].flatMap frame) = .ok k) :
    m = m' ∧ o = o' := by
  have hk := (orderStateKey_eq_ok.mp h).2
  have hlen := k.length_key_le
  rw [← hk, maxAbsoluteKeyBytes, List.length_append] at hlen
  have := flatMap_frame_inj (by omega)
    (List.append_cancel_left (hk.trans (orderStateKey_eq_ok.mp h').2.symm))
  simp only [List.cons.injEq, and_true] at this
  exact ⟨StringId.asBytes_injective this.1, StringId.asBytes_injective this.2⟩

theorem ns_of_orderEventKey {ns : String} {marketId : Option MarketId} {orderId : Option OrderId}
    {clientOrderId : Option ClientOrderId} {accountId : Address} {eventId : EventId} {k : StateKey}
    (h : orderEventKey ns marketId orderId clientOrderId accountId eventId = .ok k) :
    k.ns = ns := by
  unfold orderEventKey at h
  split at h
  · exact (orderStateKey_eq_ok.mp h).1.symm
  · exact (orderStateKey_eq_ok.mp h).1.symm
  · cases h

instance : Stored OrderFactRecordV1 where
  format := OrderFactRecordV1.format
  ns := orderFactNamespace
  keyOf := OrderFactRecordV1.stateKey
  ns_keyOf := ns_of_orderEventKey

instance : Stored OrderCurrentRecordV1 where
  format := OrderCurrentRecordV1.format
  ns := orderCurrentNamespace
  keyOf r := OrderCurrentRecordV1.stateKey r.marketId r.orderId
  ns_keyOf h := (orderStateKey_eq_ok.mp h).1.symm

instance : Stored OrderTransitionRecordV1 where
  format := OrderTransitionRecordV1.format
  ns := orderTransitionNamespace
  keyOf := OrderTransitionRecordV1.stateKey
  ns_keyOf := ns_of_orderEventKey

def OrderCurrentRecordV1.decodeAt (J : SerdeJson) (key : StateKey) (bytes : List UInt8) :
    Except RecordCodecError OrderCurrentRecordV1 :=
  Stored.decodeAt J key bytes

def orderArithmeticError : ReducerError :=
  ⟨"order_state.arithmetic_overflow", "order quantity arithmetic overflowed"⟩

def orderIdentityMismatch (message : String) : ReducerError :=
  ⟨"order_state.identity_mismatch", message⟩

def orderRemainingMismatch (message : String) : ReducerError :=
  ⟨"order_state.remaining_mismatch", message⟩

def orderInvalidEvent : ReducerError :=
  ⟨"order_state.invalid_event", "order reducer received a non-order payload"⟩

def orderCodecError : RecordCodecError → ReducerError :=
  codecReducerError "order_state" "order" "encoding failed"

def positivePrice (value : Price) : Except ReducerError Unit :=
  if value.raw ≤ 0 then .error ⟨"order_state.invalid_price", "order price must be positive"⟩
  else .ok ()

def positiveQuantity (value : Quantity) : Except ReducerError Unit :=
  if value.raw ≤ 0 then .error ⟨"order_state.invalid_quantity", "order quantity must be positive"⟩
  else .ok ()

def validateOrderSemantics : EventPayload → Except ReducerError Unit
  | .orderAccepted p => do
    positivePrice p.limitPrice
    positiveQuantity p.quantity
  | .orderRested p => do
    positivePrice p.limitPrice
    positiveQuantity p.remainingQuantity
  | .orderModified p => do
    positivePrice p.previousPrice
    positivePrice p.newPrice
    positiveQuantity p.previousQuantity
    positiveQuantity p.newQuantity
    if p.previousPrice.numEq p.newPrice && p.previousQuantity.numEq p.newQuantity then
      throw ⟨"order_state.invalid_modification", "order modification must change price or quantity"⟩
  | .orderPartiallyFilled p => do
    positivePrice p.fillPrice
    positiveQuantity p.fillQuantity
    positiveQuantity p.remainingQuantity
  | .orderFilled p => do
    positivePrice p.fillPrice
    positiveQuantity p.fillQuantity
  | .orderCancelled p =>
    if p.remainingQuantity.raw < 0 then
      .error ⟨"order_state.invalid_quantity", "order quantity must be nonnegative"⟩
    else .ok ()
  | .nonUserOrderCancelled p => do
    let _ ← decodeNonUserCancel p
  | .orderRejected p =>
    if invalidText p.reasonCode 128 || invalidText p.reason 1024 then
      .error ⟨"order_state.invalid_rejection", "order rejection reason contract is invalid"⟩
    else .ok ()
  | _ => .error orderInvalidEvent

def transitionAllowed (lifecycle : OrderLifecycleV1) : EventKind → Bool
  | .orderRested => lifecycle = .accepted || lifecycle = .modified
  | .orderModified =>
    lifecycle = .accepted || lifecycle = .rested || lifecycle = .modified ||
      lifecycle = .partiallyFilled
  | .orderPartiallyFilled | .orderFilled | .orderCancelled | .nonUserOrderCancelled =>
    !lifecycle.isTerminal
  | _ => false

/-- A cancellation, by the user or by the system: the remainder must be the current one. -/
def applyCancellation (current : OrderCurrentRecordV1) (orderId : OrderId)
    (remainingQuantity : Quantity) : Except ReducerError OrderCurrentRecordV1 := do
  if orderId ≠ current.orderId then
    throw (orderIdentityMismatch "cancelled order identity must match current state")
  if !remainingQuantity.numEq current.remainingQuantity then
    throw (orderRemainingMismatch "cancellation remainder must match current state")
  return { current with lifecycle := .cancelled }

/-- The payload's effect on the lifecycle, the price and the quantities. -/
def applyOrderPayload (current : OrderCurrentRecordV1) :
    EventPayload → Except ReducerError OrderCurrentRecordV1
  | .orderRested p => do
    if p.orderId ≠ current.orderId ∨ p.marketId ≠ current.marketId then
      throw (orderIdentityMismatch "rested order identity must match current state")
    if !p.limitPrice.numEq current.limitPrice ||
        !p.remainingQuantity.numEq current.remainingQuantity then
      throw (orderRemainingMismatch "rested payload must match the exact current order")
    return { current with lifecycle := .rested }
  | .orderModified p => do
    if p.orderId ≠ current.orderId then
      throw (orderIdentityMismatch "modified order identity must match current state")
    if !p.previousPrice.numEq current.limitPrice ||
        !p.previousQuantity.numEq current.remainingQuantity then
      throw ⟨"order_state.previous_state_mismatch",
        "modification previous values must match current state"⟩
    let accepted ← (current.filledQuantity.checkedAdd p.newQuantity).mapError
      fun _ => orderArithmeticError
    return { current with
      acceptedQuantity := accepted
      remainingQuantity := p.newQuantity
      limitPrice := p.newPrice
      lifecycle := .modified }
  | .orderPartiallyFilled p => do
    if p.orderId ≠ current.orderId then
      throw (orderIdentityMismatch "partial fill identity must match current state")
    let remaining ← (current.remainingQuantity.checkedSub p.fillQuantity).mapError
      fun _ => orderArithmeticError
    if remaining.raw < 0 then
      throw ⟨"order_state.overfill", "partial fill exceeds remaining quantity"⟩
    if !remaining.numEq p.remainingQuantity then
      throw (orderRemainingMismatch "partial fill remainder does not match checked arithmetic")
    if remaining.raw = 0 then
      throw (orderRemainingMismatch "partial fill must leave positive remaining quantity")
    let filled ← (current.filledQuantity.checkedAdd p.fillQuantity).mapError
      fun _ => orderArithmeticError
    return { current with
      filledQuantity := filled
      remainingQuantity := remaining
      lifecycle := .partiallyFilled }
  | .orderFilled p => do
    if p.orderId ≠ current.orderId then
      throw (orderIdentityMismatch "terminal fill identity must match current state")
    if compare p.fillQuantity current.remainingQuantity = .gt then
      throw ⟨"order_state.overfill", "terminal fill exceeds remaining quantity"⟩
    if !p.fillQuantity.numEq current.remainingQuantity then
      throw (orderRemainingMismatch "terminal fill must consume exact remaining quantity")
    let filled ← (current.filledQuantity.checkedAdd p.fillQuantity).mapError
      fun _ => orderArithmeticError
    let remaining ← (current.remainingQuantity.checkedSub current.remainingQuantity).mapError
      fun _ => orderArithmeticError
    return { current with
      filledQuantity := filled
      remainingQuantity := remaining
      lifecycle := .filled }
  | .orderCancelled p => applyCancellation current p.orderId p.remainingQuantity
  | .nonUserOrderCancelled p => do
    let decoded ← decodeNonUserCancel p
    applyCancellation current decoded.orderId decoded.remainingQuantity
  | .orderAccepted _ | .orderRejected _ =>
    .error ⟨"order_state.invalid_event", "invalid order transition payload"⟩
  | _ => .error orderInvalidEvent

def applyTransition (current : OrderCurrentRecordV1) (event : CanonicalEventEnvelope) :
    Except ReducerError OrderCurrentRecordV1 := do
  if !transitionAllowed current.lifecycle event.eventKind then
    throw ⟨"order_state.invalid_transition", "order lifecycle transition is not allowed"⟩
  let next ← applyOrderPayload current event.payload
  return { next with lastEventId := event.eventId, lastBlockHeight := event.blockHeight }

variable (B : Blake3) (J : SerdeJson)

def currentHashContext : String := "hyperliquid-alpha-desk/order-current-hash/v1"

def hashCurrent (bytes : List UInt8) : Hash32 := B.deriveKey currentHashContext bytes

def orderIdentity : EventPayload → Except ReducerError OrderId
  | .nonUserOrderCancelled p => do return (← decodeNonUserCancel p).orderId
  | .orderAccepted p => .ok p.orderId
  | .orderRested p => .ok p.orderId
  | .orderModified p => .ok p.orderId
  | .orderPartiallyFilled p => .ok p.orderId
  | .orderFilled p => .ok p.orderId
  | .orderCancelled p => .ok p.orderId
  | _ => .error orderInvalidEvent

def rejectOrderCollision (state : Entries) (factKey transitionKey : StateKey) :
    Except ReducerError Unit :=
  if state.contains factKey || state.contains transitionKey then
    .error ⟨"order_state.event_id_collision",
      "order event identity is already present in canonical state"⟩
  else .ok ()

def reduceRejection (state : Entries) (event : CanonicalEventEnvelope) (rejected : OrderRejected) :
    Except ReducerError (List StateMutation) := do
  if event.marketIds ≠ [] ∨ event.accountIds ≠ [rejected.accountId] then
    throw (orderIdentityMismatch "rejection payload and envelope identities must match exactly")
  let fact : OrderFactRecordV1 :=
    ⟨event.eventId, .orderRejected, none, some rejected.clientOrderId, rejected.accountId, none,
      event.blockHeight, event.payloadHash⟩
  let factKey ← fact.stateKey.mapError orderCodecError
  let transition : OrderTransitionRecordV1 :=
    ⟨event.eventId, .orderRejected, none, some rejected.clientOrderId, rejected.accountId, none,
      event.blockHeight, event.payloadHash, none, none, orderReducerVersion, .recordedRejection⟩
  let transitionKey ← transition.stateKey.mapError orderCodecError
  rejectOrderCollision state factKey transitionKey
  let factBytes ← (Stored.encode J fact).mapError orderCodecError
  let transitionBytes ← (Stored.encode J transition).mapError orderCodecError
  return [.put factKey factBytes, .put transitionKey transitionBytes]

def acceptOrder (accepted : OrderAccepted) (event : CanonicalEventEnvelope) :
    Except ReducerError OrderCurrentRecordV1 := do
  let filled ← (accepted.quantity.checkedSub accepted.quantity).mapError
    fun _ => orderArithmeticError
  return {
    orderId := accepted.orderId
    accountId := accepted.accountId
    marketId := accepted.marketId
    side := accepted.side
    lifecycle := .accepted
    limitPrice := accepted.limitPrice
    acceptedQuantity := accepted.quantity
    filledQuantity := filled
    remainingQuantity := accepted.quantity
    acceptedEventId := event.eventId
    lastEventId := event.eventId
    lastBlockHeight := event.blockHeight }

def nextOrder (existing : Option OrderCurrentRecordV1) (orderId : OrderId) (marketId : MarketId)
    (accountId : Address) (event : CanonicalEventEnvelope) :
    Except ReducerError (Option Hash32 × OrderCurrentRecordV1) :=
  match event.payload with
  | .orderAccepted accepted => do
    if existing.isSome then
      throw ⟨"order_state.order_id_collision",
        "order identity is already present in canonical state"⟩
    if accepted.orderId ≠ orderId ∨ accepted.marketId ≠ marketId ∨
        accepted.accountId ≠ accountId then
      throw (orderIdentityMismatch "accepted payload and envelope identities must match exactly")
    return (none, ← acceptOrder accepted event)
  | _ => do
    match existing with
    | none =>
      throw ⟨"order_state.order_not_found", "order transition requires an accepted order"⟩
    | some previous =>
      if previous.accountId ≠ accountId ∨ previous.marketId ≠ marketId then
        throw (orderIdentityMismatch
          "order payload and envelope identities must match current state")
      if previous.lifecycle.isTerminal then
        throw ⟨"order_state.terminal_order", "terminal order state cannot transition"⟩
      let priorBytes ← (Stored.encode J previous).mapError orderCodecError
      return (some (hashCurrent B priorBytes), ← applyTransition previous event)

def reduceOrderEvent (state : Entries) (event : CanonicalEventEnvelope) :
    Except ReducerError (List StateMutation) := do
  let orderId ← orderIdentity event.payload
  let [marketId] := event.marketIds
    | throw (orderIdentityMismatch "order event requires exactly one envelope market")
  let [accountId] := event.accountIds
    | throw (orderIdentityMismatch "order event requires exactly one envelope account")
  let currentKey ← (OrderCurrentRecordV1.stateKey marketId orderId).mapError orderCodecError
  let existing ← (state[currentKey]?).mapM fun bytes =>
    (OrderCurrentRecordV1.decodeAt J currentKey bytes).mapError orderCodecError
  let (priorStateHash, current) ← nextOrder B J existing orderId marketId accountId event
  let currentBytes ← (Stored.encode J current).mapError orderCodecError
  let fact : OrderFactRecordV1 :=
    ⟨event.eventId, event.eventKind, some orderId, none, accountId, some marketId,
      event.blockHeight, event.payloadHash⟩
  let factKey ← fact.stateKey.mapError orderCodecError
  let transition : OrderTransitionRecordV1 :=
    ⟨event.eventId, event.eventKind, some orderId, none, accountId, some marketId,
      event.blockHeight, event.payloadHash, priorStateHash, some (hashCurrent B currentBytes),
      orderReducerVersion, .applied⟩
  let transitionKey ← transition.stateKey.mapError orderCodecError
  rejectOrderCollision state factKey transitionKey
  let factBytes ← (Stored.encode J fact).mapError orderCodecError
  let transitionBytes ← (Stored.encode J transition).mapError orderCodecError
  return [.put factKey factBytes, .put currentKey currentBytes, .put transitionKey transitionBytes]

def reduceOrder (state : Entries) (event : CanonicalEventEnvelope) :
    Except ReducerError (List StateMutation) := do
  validateOrderSemantics event.payload
  match event.payload with
  | .orderRejected rejected => reduceRejection J state event rejected
  | _ => reduceOrderEvent B J state event

def canonicalOrderReducer : EventReducer where
  reducerSetVersion := orderReducerVersion
  supports event := event.schemaVersion = "1.0.0" && isOrderKind event.eventKind
  reduce state event _ := reduceOrder B J state event
  validateBlockDelta _ _ _ := .ok ()

end AlphaDesk
