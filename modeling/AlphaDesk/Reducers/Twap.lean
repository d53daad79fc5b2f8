import AlphaDesk.Records.Transitions
import AlphaDesk.Reducers.Journal

/-! # The TWAP reducer

A TWAP is started with a total quantity, filled slice by slice with increasing
indices and completed at the quantity filled so far. Over a run its record agrees
with its committed slices, and each event stores a transition from the hash of the
record before to that of the record after.
-/

namespace AlphaDesk

open Bytes Wire Except Stored

inductive TwapLifecycleV1
  | active
  | completed

def TwapLifecycleV1.isTerminal : TwapLifecycleV1 → Bool
  | .active => false
  | .completed => true

instance : Named TwapLifecycleV1 where
  all := [.active, .completed]
  name
    | .active => "active"
    | .completed => "completed"
  find_name a := by cases a <;> rfl

def isTwapKind : EventKind → Bool
  | .twapStarted | .twapSliceFilled | .twapCompleted => true
  | _ => false

inductive Twap

instance : JournalNames Twap where
  factNs := "twap-fact.v1"
  factSchema := "hyperliquid-alpha-desk/twap-fact/v1"
  currentNs := "twap-current.v1"
  transitionNs := "twap-transition.v1"
  transitionSchema := "hyperliquid-alpha-desk/twap-transition/v1"
  hashContext := "hyperliquid-alpha-desk/twap-current-hash/v1"
  version := "hyperliquid-alpha-desk-canonical-twap@1.0.0"
  kinds := isTwapKind
  codecError := codecReducerError "twap_state" "twap" "encoding failed"
  collision := ⟨"twap_state.event_id_collision",
    "twap event identity is already present in canonical state"⟩

abbrev TwapFactRecordV1 := JournalFact Twap

abbrev TwapTransitionRecordV1 := JournalTransition Twap

structure TwapCurrentRecordV1 where
  orderId : OrderId
  accountId : Address
  marketId : MarketId
  lifecycle : TwapLifecycleV1
  totalQuantity : Quantity
  filledQuantity : Quantity
  remainingQuantity : Quantity
  lastSliceIndex : Option UInt32
  endTime : ProtocolTime
  completedAveragePrice : Option Price
  startedEventId : EventId
  lastEventId : EventId
  lastBlockHeight : BlockHeight

namespace TwapCurrentRecordV1

/-- A TWAP that is completed without a fill has no price, any other one has. -/
def validAverage (filled : Quantity) (average : Price) : Bool :=
  !(filled.raw = 0 && average.raw ≠ 0) && !(0 < filled.raw && average.raw ≤ 0)

def validate (r : TwapCurrentRecordV1) : Bool :=
  if r.totalQuantity.raw ≤ 0 ∨ r.filledQuantity.raw < 0 ∨ r.remainingQuantity.raw < 0 then false
  else match r.filledQuantity.checkedAdd r.remainingQuantity with
    | .error _ => false
    | .ok total =>
      total.numEq r.totalQuantity &&
        match r.lifecycle with
        | .active => r.completedAveragePrice.isNone
        | .completed => r.completedAveragePrice.any (validAverage r.filledQuantity)

def stateKey (marketId : MarketId) (orderId : OrderId) : Except RecordCodecError StateKey :=
  journalCurrentKey Twap marketId orderId

instance : Stored TwapCurrentRecordV1 where
  ns := "twap-current.v1"
  keyOf r := stateKey r.marketId r.orderId
  ns_keyOf h := (orderStateKey_eq_ok.mp h).1.symm
  format :=
    { layout := .tag "schema" "hyperliquid-alpha-desk/twap-current/v1" <| .and "order_id" <|
        .and "account_id" <| .and "market_id" <| .and "lifecycle" <| .and "total_quantity" <|
        .and "filled_quantity" <| .and "remaining_quantity" <| .and "last_slice_index" <|
        .and "end_time_micros" <| .and "completed_average_price" <| .and "started_event_id" <|
        .and "last_event_id" <| .last "last_block_height"
      fields r := (r.orderId, r.accountId, r.marketId, r.lifecycle, r.totalQuantity,
        r.filledQuantity, r.remainingQuantity, r.lastSliceIndex, r.endTime,
        r.completedAveragePrice, r.startedEventId, r.lastEventId, r.lastBlockHeight)
      record := fun (a, b, c, d, e, f, g, h, i, j, k, l, m) =>
        some ⟨a, b, c, d, e, f, g, h, i, j, k, l, m⟩
      valid := validate }

end TwapCurrentRecordV1

variable (B : Blake3) (J : SerdeJson) (state : Entries) (event : CanonicalEventEnvelope)

def twapArithmeticError : ReducerError :=
  ⟨"twap_state.arithmetic_overflow", "twap quantity arithmetic overflowed"⟩

def twapIdentityMismatch (message : String) : ReducerError :=
  ⟨"twap_state.identity_mismatch", message⟩

def twapInvalidEvent : ReducerError :=
  ⟨"twap_state.invalid_event", "twap reducer received a non-twap payload"⟩

def twapOrderId : EventPayload → Option OrderId
  | .twapStarted p => some p.orderId
  | .twapSliceFilled p => some p.orderId
  | .twapCompleted p => some p.orderId
  | _ => none

def fillTwapSlice (current : TwapCurrentRecordV1) (filled : TwapSliceFilled) :
    Except ReducerError TwapCurrentRecordV1 := do
  if filled.orderId ≠ current.orderId then
    throw (twapIdentityMismatch "slice fill order identity must match current state")
  if current.lastSliceIndex.any (filled.sliceIndex ≤ ·) then
    throw ⟨"twap_state.slice_index_not_increasing", "twap slice index must strictly increase"⟩
  let nextFilled ← (current.filledQuantity.checkedAdd filled.fillQuantity).mapError
    fun _ => twapArithmeticError
  if compare nextFilled current.totalQuantity = .gt then
    throw ⟨"twap_state.overfill", "twap slice fill exceeds remaining quantity"⟩
  let remaining ← (current.totalQuantity.checkedSub nextFilled).mapError
    fun _ => twapArithmeticError
  return { current with
    filledQuantity := nextFilled
    remainingQuantity := remaining
    lastSliceIndex := some filled.sliceIndex }

def completeTwap (current : TwapCurrentRecordV1) (completed : TwapCompleted) :
    Except ReducerError TwapCurrentRecordV1 := do
  if completed.orderId ≠ current.orderId then
    throw (twapIdentityMismatch "completed order identity must match current state")
  if !completed.filledQuantity.numEq current.filledQuantity then
    throw ⟨"twap_state.filled_mismatch", "completed filled quantity must equal accumulated slices"⟩
  if completed.filledQuantity.raw = 0 ∧ completed.averagePrice.raw ≠ 0 then
    throw ⟨"twap_state.invalid_average_price",
      "zero-fill twap completion requires a zero average price"⟩
  if 0 < completed.filledQuantity.raw ∧ completed.averagePrice.raw ≤ 0 then
    throw ⟨"twap_state.invalid_average_price",
      "positive-fill twap completion requires a positive average price"⟩
  return { current with
    lifecycle := .completed
    completedAveragePrice := some completed.averagePrice }

def applyTwapPayload (current : TwapCurrentRecordV1) :
    EventPayload → Except ReducerError TwapCurrentRecordV1
  | .twapSliceFilled filled => fillTwapSlice current filled
  | .twapCompleted completed => completeTwap current completed
  | .twapStarted _ =>
    .error ⟨"twap_state.invalid_transition", "twap start cannot follow an existing current"⟩
  | _ => .error twapInvalidEvent

def applyTwapTransition (current : TwapCurrentRecordV1) :
    Except ReducerError TwapCurrentRecordV1 := do
  let next ← applyTwapPayload current event.payload
  return { next with lastEventId := event.eventId, lastBlockHeight := event.blockHeight }

def startTwap (started : TwapStarted) : Except ReducerError TwapCurrentRecordV1 := do
  let zero ← (started.totalQuantity.checkedSub started.totalQuantity).mapError
    fun _ => twapArithmeticError
  return {
    orderId := started.orderId
    accountId := started.accountId
    marketId := started.marketId
    lifecycle := .active
    totalQuantity := started.totalQuantity
    filledQuantity := zero
    remainingQuantity := started.totalQuantity
    lastSliceIndex := none
    endTime := started.endTime
    completedAveragePrice := none
    startedEventId := event.eventId
    lastEventId := event.eventId
    lastBlockHeight := event.blockHeight }

def nextTwap (existing : Option TwapCurrentRecordV1) (orderId : OrderId) (marketId : MarketId)
    (accountId : Address) : Except ReducerError (Option Hash32 × TwapCurrentRecordV1) :=
  match event.payload with
  | .twapStarted started => do
    if existing.isSome then
      throw ⟨"twap_state.order_id_collision",
        "twap identity is already present in canonical state"⟩
    if started.orderId ≠ orderId ∨ started.marketId ≠ marketId ∨
        started.accountId ≠ accountId then
      throw (twapIdentityMismatch "started payload and envelope identities must match exactly")
    return (none, ← startTwap event started)
  | _ => do
    match existing with
    | none =>
      throw ⟨"twap_state.twap_not_found", "twap transition requires an active started twap"⟩
    | some previous =>
      if previous.accountId ≠ accountId ∨ previous.marketId ≠ marketId then
        throw (twapIdentityMismatch
          "twap payload and envelope identities must match current state")
      if previous.lifecycle.isTerminal then
        throw ⟨"twap_state.terminal_twap", "terminal twap state cannot transition"⟩
      let priorBytes ← (Stored.encode J previous).mapError (JournalNames.codecError Twap)
      return (some (journalHash B Twap priorBytes), ← applyTwapTransition event previous)

def reduceTwap : Except ReducerError (List StateMutation) := do
  let some orderId := twapOrderId event.payload | throw twapInvalidEvent
  let [marketId] := event.marketIds
    | throw (twapIdentityMismatch "twap event requires exactly one envelope market")
  let [accountId] := event.accountIds
    | throw (twapIdentityMismatch "twap event requires exactly one envelope account")
  let currentKey ← (TwapCurrentRecordV1.stateKey marketId orderId).mapError
    (JournalNames.codecError Twap)
  let existing : Option TwapCurrentRecordV1 ←
    findRecord J (JournalNames.codecError Twap) state currentKey
  let (priorStateHash, current) ← nextTwap B J event existing orderId marketId accountId
  fileEvent B J Twap state event orderId accountId marketId currentKey priorStateHash current

def canonicalTwapReducer : EventReducer where
  reducerSetVersion := JournalNames.version Twap
  supports event := event.schemaVersion = "1.0.0" && isTwapKind event.eventKind
  reduce state event _ := reduceTwap B J state event
  validateBlockDelta _ _ _ := .ok ()

variable {B : Blake3} {J : SerdeJson} {s : Entries} {event : CanonicalEventEnvelope}
  {ms : List StateMutation}

def twapNamespaces : List String := ["twap-fact.v1", "twap-current.v1", "twap-transition.v1"]

theorem reduceTwap_eq_ok (h : reduceTwap B J s event = .ok ms) :
    ∃ (o : OrderId) (m : MarketId) (a : Address) (ck : StateKey) (prior : Option Hash32)
      (current : TwapCurrentRecordV1), twapOrderId event.payload = some o ∧
      event.marketIds = [m] ∧ TwapCurrentRecordV1.stateKey m o = .ok ck ∧
      nextTwap B J event (Stored.get? TwapCurrentRecordV1 J s ck) o m a = .ok (prior, current) ∧
      fileEvent B J Twap s event o a m ck prior current = .ok ms := by
  unfold reduceTwap at h
  split at h
  next o ho =>
    split at h
    next m hm =>
      split at h
      next a ha =>
        simp only [Except.bind_eq_ok, Except.mapError_eq_ok] at h
        obtain ⟨ck, hck, existing, he, ⟨prior, current⟩, hn, h⟩ := h
        rw [← get?_of_findRecord he] at hn
        exact ⟨o, m, a, ck, prior, current, ho, hm, hck, hn, h⟩
      next => cases h
    next => cases h
  next => cases h

theorem putsIn_reduceTwap (h : reduceTwap B J s event = .ok ms) : PutsIn twapNamespaces ms := by
  obtain ⟨o, m, a, ck, prior, current, -, -, hck, -, h⟩ := reduceTwap_eq_ok h
  exact putsIn_fileEvent h (orderStateKey_eq_ok.mp hck).1.symm (by decide) (by decide) (by decide)

def twapSubject (event : CanonicalEventEnvelope) : Option (MarketId × OrderId) :=
  match event.marketIds with
  | [m] => (twapOrderId event.payload).map (m, ·)
  | _ => none

theorem twapSubject_eq_some {event : CanonicalEventEnvelope} {m : MarketId} {o : OrderId} :
    twapSubject event = some (m, o) ↔
      event.marketIds = [m] ∧ twapOrderId event.payload = some o := by
  unfold twapSubject
  split
  next m' hm => simp [hm, and_comm]
  next hm =>
    simp only [reduceCtorEq, false_iff, not_and]
    exact fun h => absurd h (hm m)

theorem TwapCurrentRecordV1.stateKey_inj {m m' : MarketId} {o o' : OrderId} {k : StateKey}
    (h : stateKey m o = .ok k) (h' : stateKey m' o' = .ok k) : m = m' ∧ o = o' :=
  orderStateKey_inj [] h h'

/-- How the record of a TWAP comes to be: started, or continuing the stored one. -/
inductive NextTwap (event : CanonicalEventEnvelope) (m : MarketId) (o : OrderId) :
    Option TwapCurrentRecordV1 → TwapCurrentRecordV1 → Prop
  | started {p : TwapStarted} {current : TwapCurrentRecordV1}
    (payload : event.payload = .twapStarted p) (orderId : current.orderId = o)
    (marketId : current.marketId = m) (filled : current.filledQuantity.value = 0)
    (lastSliceIndex : current.lastSliceIndex = none) : NextTwap event m o none current
  | sliced {p : TwapSliceFilled} {previous current : TwapCurrentRecordV1}
    (payload : event.payload = .twapSliceFilled p)
    (running : previous.lifecycle.isTerminal = false)
    (orderId : current.orderId = previous.orderId)
    (marketId : current.marketId = previous.marketId)
    (filled : current.filledQuantity.value =
      previous.filledQuantity.value + p.fillQuantity.value)
    (increasing : ∀ i ∈ previous.lastSliceIndex, i < p.sliceIndex)
    (lastSliceIndex : current.lastSliceIndex = some p.sliceIndex) :
    NextTwap event m o (some previous) current
  | completed {p : TwapCompleted} {previous current : TwapCurrentRecordV1}
    (payload : event.payload = .twapCompleted p)
    (running : previous.lifecycle.isTerminal = false)
    (orderId : current.orderId = previous.orderId)
    (marketId : current.marketId = previous.marketId)
    (filled : current.filledQuantity = previous.filledQuantity)
    (lastSliceIndex : current.lastSliceIndex = previous.lastSliceIndex) :
    NextTwap event m o (some previous) current

def twapTracking (B : Blake3) :
    Tracking (MarketId × OrderId) TwapCurrentRecordV1 TwapTransitionRecordV1 where
  subject := twapSubject
  currentKey i := TwapCurrentRecordV1.stateKey i.1 i.2
  currentKey_inj h h' := Prod.ext_iff.mpr (TwapCurrentRecordV1.stateKey_inj h h')
  ns_currentKey h := (orderStateKey_eq_ok.mp h).1.symm
  next event i := NextTwap event i.1 i.2
  owner r := some (r.marketId, r.orderId)
  eventId r := r.eventId
  prior r := r.priorStateHash
  result r := some r.resultStateHash
  hash := journalHash B Twap

variable {t : Entries} {m : MarketId} {o : OrderId} {a : Address}
  {existing : Option TwapCurrentRecordV1} {prior : Option Hash32}
  {previous current : TwapCurrentRecordV1}

theorem nextTwap_of_applyTwapTransition (hl : previous.lifecycle.isTerminal = false)
    (h : applyTwapTransition event previous = .ok current) :
    NextTwap event m o (some previous) current := by
  obtain ⟨next, hn, h⟩ := of_bind h
  obtain rfl := ok.inj h
  unfold applyTwapPayload at hn
  split at hn
  next p hp =>
    obtain ⟨-, hn⟩ := of_check hn
    obtain ⟨hi, hn⟩ := of_check hn
    obtain ⟨filled, hf, hn⟩ := of_bind hn
    obtain ⟨-, hn⟩ := of_check hn
    obtain ⟨remaining, -, hn⟩ := of_bind hn
    obtain rfl := ok.inj hn
    refine .sliced hp hl rfl rfl (Decimal.value_checkedAdd (mapError_eq_ok.mp hf)) ?_ rfl
    intro i hm
    rw [Option.mem_def.mp hm] at hi
    simpa using hi
  next p hp =>
    obtain ⟨-, hn⟩ := of_check hn
    obtain ⟨-, hn⟩ := of_check hn
    obtain ⟨-, hn⟩ := of_check hn
    obtain ⟨-, hn⟩ := of_check hn
    obtain rfl := ok.inj hn
    exact .completed hp hl rfl rfl rfl rfl
  next => cases hn
  next => cases hn

theorem nextTwap_eq_ok (h : nextTwap B J event existing o m a = .ok (prior, current)) :
    NextTwap event m o existing current ∧
      Tracking.PriorHash J (journalHash B Twap) existing prior := by
  unfold nextTwap at h
  split at h
  next p hp =>
    obtain ⟨hnone, h⟩ := of_check h
    obtain ⟨hids, h⟩ := of_check h
    obtain ⟨r, hr, h⟩ := of_bind h
    obtain ⟨zero, hz, hr⟩ := of_bind hr
    obtain rfl := ok.inj hr
    obtain ⟨rfl, rfl⟩ := Prod.mk.inj (ok.inj h)
    simp only [not_or, not_not] at hids
    obtain rfl : existing = none := by simpa using hnone
    have hzero := Decimal.value_checkedSub (mapError_eq_ok.mp hz)
    exact ⟨.started hp hids.1 hids.2.1 (by simpa using hzero) rfl, .inl ⟨rfl, rfl⟩⟩
  next =>
    split at h
    next => cases h
    next previous =>
      obtain ⟨-, h⟩ := of_check h
      obtain ⟨ht, h⟩ := of_check h
      obtain ⟨bytes, hb, h⟩ := of_bind h
      obtain ⟨next, hn, h⟩ := of_bind h
      obtain ⟨rfl, rfl⟩ := Prod.mk.inj (ok.inj h)
      exact ⟨nextTwap_of_applyTwapTransition (by simpa using ht) hn,
        .inr ⟨previous, bytes, rfl, mapError_eq_ok.mp hb, rfl⟩⟩

theorem NextTwap.keyOf_current {k : StateKey} (hk : TwapCurrentRecordV1.stateKey m o = .ok k)
    (h : NextTwap event m o (get? TwapCurrentRecordV1 J s k) current) : keyOf current = .ok k := by
  generalize he : get? TwapCurrentRecordV1 J s k = existing at h
  cases h with
  | started _ ho hm _ _ =>
    rw [← hk, ← ho, ← hm]
    rfl
  | sliced _ _ ho hm _ _ _ | completed _ _ ho hm _ _ =>
    rw [← keyOf_of_get? he]
    exact congrArg₂ TwapCurrentRecordV1.stateKey hm ho

theorem moves_of_reduceTwap (h : reduceTwap B J s event = .ok ms)
    (hn : (ms.map StateMutation.key).Nodup)
    (ht : ∀ k : StateKey, k.ns ∈ twapNamespaces → t[k]? = (writeAll s ms)[k]?)
    (hs : Readable TwapCurrentRecordV1 J s) : (twapTracking B).Moves J s event t := by
  obtain ⟨o, m, a, ck, prior, current, ho, hm, hck, hnext, h⟩ := reduceTwap_eq_ok h
  obtain ⟨hno, hprior⟩ := nextTwap_eq_ok hnext
  obtain ⟨fact, tr, fk, tk, fb, cb, tb, hcb, hfk, -, -, htk, htb, hfresh, hid, hto, htm, hpr, hres,
    rfl⟩ := fileEvent_eq_ok h
  have hfiled : (twapTracking B).Filed J "twap-fact.v1" s event (m, o) ck prior current
      [.put fk fb, .put ck cb, .put tk tb] :=
    .mk (ns_keyOf hfk) hcb htk htb hfresh (by simp [twapTracking, htm, hto]) hid hpr
      (congrArg some hres)
  exact hfiled.moves (by decide) (by decide) (by decide) hn ht hs
    (twapSubject_eq_some.mpr ⟨hm, ho⟩) hck (hno.keyOf_current hck) hno hprior

def twapSlice (event : CanonicalEventEnvelope) : Option TwapSliceFilled :=
  match event.payload with
  | .twapSliceFilled p => some p
  | _ => none

/-- A record that agrees with the slices of its TWAP. -/
structure SlicesOf (slices : List TwapSliceFilled) (r : TwapCurrentRecordV1) : Prop where
  filled : r.filledQuantity.value = (slices.map (·.fillQuantity.value)).sum
  indices : (slices.map (·.sliceIndex)).IsChain (· < ·)
  last : (slices.map (·.sliceIndex)).getLast? = r.lastSliceIndex

/-- What may become of a record: its fill does not decrease, and a completed one stays. -/
def TwapAdvances (r r' : TwapCurrentRecordV1) : Prop :=
  r.filledQuantity.value ≤ r'.filledQuantity.value ∧ (r.lifecycle = .completed → r' = r)

variable {r : TwapCurrentRecordV1} {es : List CanonicalEventEnvelope}

theorem slicesOf_first (h : NextTwap event m o none current) :
    SlicesOf ([event].filterMap twapSlice) current := by
  cases h with
  | started hp _ _ hf hl =>
    have hnone : [event].filterMap twapSlice = [] := by simp [twapSlice, hp]
    rw [hnone]
    exact ⟨by simpa using hf, .nil, by simpa using hl.symm⟩

theorem SlicesOf.next (h : SlicesOf (es.filterMap twapSlice) r)
    (hn : NextTwap event m o (some r) current) :
    SlicesOf ((es ++ [event]).filterMap twapSlice) current := by
  rw [List.filterMap_append]
  cases hn with
  | @sliced p _ _ hp _ _ _ hf hi hl =>
    have hsome : [event].filterMap twapSlice = [p] := by simp [twapSlice, hp]
    rw [hsome]
    refine ⟨?_, ?_, ?_⟩
    · rw [hf, h.filled]
      simp
    · rw [List.map_append, List.isChain_append]
      refine ⟨h.indices, .singleton _, fun i hm j hj => ?_⟩
      rw [h.last] at hm
      obtain rfl : p.sliceIndex = j := by simpa using hj
      exact hi i hm
    · simp [hl]
  | @completed p _ _ hp _ _ _ hf hl =>
    have hnone : [event].filterMap twapSlice = [] := by simp [twapSlice, hp]
    rw [hnone, List.append_nil]
    exact ⟨hf ▸ h.filled, h.indices, hl ▸ h.last⟩

theorem twapAdvances_refl (r : TwapCurrentRecordV1) : TwapAdvances r r := ⟨le_rfl, fun _ => rfl⟩

theorem TwapAdvances.trans (r r' r'' : TwapCurrentRecordV1) (h : TwapAdvances r r')
    (h' : TwapAdvances r' r'') : TwapAdvances r r'' := by
  refine ⟨h.1.trans h'.1, fun hc => ?_⟩
  obtain rfl := h.2 hc
  exact h'.2 hc

/-- A slice is filled with a positive quantity, as every payload of its kind is checked. -/
theorem twapAdvances_of_nextTwap (h : NextTwap event m o (some r) current) :
    TwapAdvances r current := by
  have hrun : ∀ {r : TwapCurrentRecordV1}, r.lifecycle.isTerminal = false →
      r.lifecycle = .completed → current = r := by
    intro r hr hc
    rw [hc] at hr
    cases hr
  cases h with
  | @sliced p _ _ hp hl _ _ hf _ _ =>
    refine ⟨?_, hrun hl⟩
    have hvalid := event.payload_valid
    rw [hp] at hvalid
    obtain ⟨_, -, hq⟩ := of_bind hvalid
    have hpos := Decimal.value_pos_iff.mpr (requirePositive_eq_ok.mp hq)
    linarith
  | completed _ hl _ _ hf _ => exact ⟨hf ▸ le_rfl, hrun hl⟩

theorem TwapCurrentRecordV1.value_of_validate (h : r.validate = true) :
    r.filledQuantity.value + r.remainingQuantity.value = r.totalQuantity.value := by
  unfold validate at h
  split at h
  next => cases h
  next =>
    split at h
    next => cases h
    next total ht =>
      simp only [Bool.and_eq_true, Decimal.numEq_iff] at h
      exact (Decimal.value_checkedAdd ht).symm.trans h.1

end AlphaDesk
