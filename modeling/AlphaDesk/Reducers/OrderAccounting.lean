import AlphaDesk.Reducers.OrderSteps

/-! # The accounts of an order over a run

The current record of an order agrees with the events of the order that the run
has committed: its filled quantity is the sum of the fills, and its accepted
quantity is the first one or the one its last modification set. Later blocks
never lower the filled quantity and never touch a record that is terminal.
-/

namespace AlphaDesk

variable {r : OrderCurrentRecordV1}

def concernsOrder (m : MarketId) (o : OrderId) (event : CanonicalEventEnvelope) : Bool :=
  event.marketIds = [m] && (orderIdentity event.payload).toOption = some o

/-- The payloads about one order in a history, the latest first. -/
def orderPayloads (m : MarketId) (o : OrderId) (events : List CanonicalEventEnvelope) :
    List EventPayload :=
  ((events.filter (concernsOrder m o)).map (·.payload)).reverse

def fillTotal (payloads : List EventPayload) : ℚ := (payloads.map orderFillValue).sum

/-- The quantity accepted by payloads that come with the latest first: what the last
modification left filled plus its new quantity, or else what the acceptance brought. -/
def acceptedTotal : List EventPayload → ℚ
  | [] => 0
  | .orderModified p :: earlier => fillTotal earlier + p.newQuantity.value
  | .orderAccepted p :: _ => p.quantity.value
  | _ :: earlier => acceptedTotal earlier

variable {m m' : MarketId} {o o' : OrderId} {event : CanonicalEventEnvelope}
  {events : List CanonicalEventEnvelope}

section Accounts

open OrderCurrentRecordV1

variable {payloads : List EventPayload} {p : EventPayload}

/-- A record that agrees with the payloads about its order: they begin with its only
acceptance, and its quantities are theirs. -/
structure Accounted (payloads : List EventPayload) (r : OrderCurrentRecordV1) : Prop where
  opened : ∃ p later, payloads = later ++ [.orderAccepted p] ∧
    ∀ q ∈ later, q.kind ≠ .orderAccepted
  filled : r.filledQuantity.value = fillTotal payloads
  accepted : r.acceptedQuantity.value = acceptedTotal payloads

theorem Accounted.new {p : OrderAccepted} (hf : r.filledQuantity.value = 0)
    (ha : r.acceptedQuantity = p.quantity) : Accounted [.orderAccepted p] r where
  opened := ⟨p, [], rfl, by simp⟩
  filled := by simp [hf, fillTotal, orderFillValue, orderFill]
  accepted := by rw [ha, acceptedTotal]

theorem acceptedTotal_cons (h : Accounted payloads r) (hk : p.kind ≠ .orderAccepted) :
    acceptedTotal (p :: payloads) = acceptedAfter r p := by
  unfold acceptedAfter
  split
  next q => rw [acceptedTotal, h.filled]
  next hp =>
    rw [h.accepted]
    cases p <;> first | rfl | exact absurd rfl hk | exact absurd rfl (hp _)

theorem Accounted.continued {next : OrderCurrentRecordV1} (h : Accounted payloads r)
    (hc : Continues r p next) : Accounted (p :: payloads) next where
  opened := by
    obtain ⟨a, later, rfl, hl⟩ := h.opened
    refine ⟨a, p :: later, rfl, ?_⟩
    intro q hq
    rcases List.mem_cons.mp hq with rfl | hq
    · exact hc.kind
    · exact hl q hq
  filled := by
    rw [hc.filled, h.filled, fillTotal, fillTotal, List.map_cons, List.sum_cons, add_comm]
  accepted := by rw [hc.accepted, acceptedTotal_cons h hc.kind]

theorem accounted_first (h : NextOrder event m o none r) : Accounted [event.payload] r := by
  cases h with
  | accepted hp _ _ hf ha =>
    rw [hp]
    exact .new hf ha

theorem Accounted.next {next : OrderCurrentRecordV1} (h : Accounted payloads r)
    (hn : NextOrder event m o (some r) next) : Accounted (event.payload :: payloads) next := by
  cases hn with
  | continued _ hc => exact h.continued hc

/-- What may become of a record: its fill does not decrease, and a terminal one stays. -/
def OrderAdvances (r r' : OrderCurrentRecordV1) : Prop :=
  r.filledQuantity.value ≤ r'.filledQuantity.value ∧ (r.lifecycle.isTerminal = true → r' = r)

theorem OrderAdvances.trans (r r' r'' : OrderCurrentRecordV1) (h : OrderAdvances r r')
    (h' : OrderAdvances r' r'') : OrderAdvances r r'' := by
  refine ⟨h.1.trans h'.1, fun ht => ?_⟩
  obtain rfl := h.2 ht
  exact h'.2 ht

theorem orderAdvances_of_nextOrder {next : OrderCurrentRecordV1}
    (hfill : 0 ≤ orderFillValue event.payload) (h : NextOrder event m o (some r) next) :
    OrderAdvances r next := by
  cases h with
  | continued hopen hc =>
    refine ⟨?_, fun ht => ?_⟩
    · rw [hc.filled]
      linarith
    · rw [hopen] at ht
      cases ht

theorem orderPayloads_eq (B : Blake3) : orderPayloads m o events =
    (((orderTracking B).about (m, o) events).map (·.payload)).reverse := by
  have h : concernsOrder m o = fun e => decide (orderSubject e = some (m, o)) := by
    funext e
    rw [Bool.eq_iff_iff, decide_eq_true_eq, orderSubject_eq_some, concernsOrder]
    cases orderIdentity e.payload <;> simp [Except.toOption]
  rw [orderPayloads, h]
  rfl

end Accounts

section Runs

open CanonicalLedger Stored

variable {B : Blake3} {J : SerdeJson} {chainId : ChainId} {firstHeight : BlockHeight}
  {limits : LedgerLimits} {l : CanonicalLedger}

theorem OrderCurrentRecordV1.quantities_of_validate (h : r.validate = true) :
    r.filledQuantity.value + r.remainingQuantity.value = r.acceptedQuantity.value ∧
    (r.lifecycle.isTerminal = false → 0 < r.remainingQuantity.value) ∧
    (r.lifecycle = .filled → r.remainingQuantity.value = 0) := by
  unfold validate at h
  split at h
  next => cases h
  next =>
    split at h
    next => cases h
    next total ht =>
      simp only [Bool.and_eq_true, Decimal.numEq_iff, Bool.not_eq_true', Bool.and_eq_false_iff,
        decide_eq_false_iff_not] at h
      obtain ⟨⟨htotal, hfilled⟩, hopen⟩ := h
      refine ⟨(Decimal.value_checkedAdd ht).symm.trans htotal, fun hl => ?_, fun hl => ?_⟩
      · exact Decimal.value_pos_iff.mpr (by simpa [hl] using hopen)
      · exact Decimal.value_eq_zero_iff.mpr (by simpa [hl] using hfilled)

theorem orderStep_of_step {s t : Entries} {event : CanonicalEventEnvelope}
    (h : Step (canonicalOrderReducer B J) s event t) (hs : Readable OrderCurrentRecordV1 J s) :
    (orderTracking B).Step J s event t ∧ ∀ i r current,
      (orderTracking B).next event i (some r) current → OrderAdvances r current := by
  obtain ⟨context, -, mutations, hr, hn, rfl⟩ := h
  obtain ⟨_, hv, -⟩ := Except.of_bind hr
  exact ⟨(moves_of_reduceOrder hr hn (fun _ _ => rfl) hs).step,
    fun _ _ _ => orderAdvances_of_nextOrder (orderFillValue_nonneg hv)⟩

/-- The accounts of every order at every point of a run: the record under an order's key
reads back, its quantities add up and are those of the order's committed events, an open order
has something remaining and a filled one nothing, and whatever blocks come later the filled
quantity does not decrease and a terminal record keeps its bytes. -/
theorem order_accounting
    (hnew : tryNew B chainId firstHeight (canonicalOrderReducer B J) limits = .ok l)
    (blocks : List (BlockEnvelope B)) (k : StateKey) (bytes : List UInt8)
    (hns : k.ns = orderCurrentNamespace)
    (hk : (run (canonicalOrderReducer B J) l blocks).state.entries[k]? = some bytes) :
    ∃ r, OrderCurrentRecordV1.decodeAt J k bytes = .ok r ∧
      r.filledQuantity.value + r.remainingQuantity.value = r.acceptedQuantity.value ∧
      Accounted (orderPayloads r.marketId r.orderId (history (canonicalOrderReducer B J) l blocks))
        r ∧
      (r.lifecycle.isTerminal = false → 0 < r.remainingQuantity.value) ∧
      (r.lifecycle = .filled → r.remainingQuantity.value = 0) ∧
      ∀ later : List (BlockEnvelope B), ∃ bytes' r',
        (run (canonicalOrderReducer B J) l (blocks ++ later)).state.entries[k]? = some bytes' ∧
        OrderCurrentRecordV1.decodeAt J k bytes' = .ok r' ∧
        r.filledQuantity.value ≤ r'.filledQuantity.value ∧
        (r.lifecycle.isTerminal = true → bytes' = bytes) := by
  have hfollowed := run_history_invariant
    (P := (orderTracking B).Followed J fun es =>
      Accounted (es.map CanonicalEventEnvelope.payload).reverse) hnew Subjects.followed_empty
    (fun _ _ event _ h hs => h.step (orderStep_of_step hs h.readable).1
      (fun _ _ hn => accounted_first hn) fun _ es _ _ ha hn => by
        rw [List.map_append, List.reverse_append]
        exact ha.next hn) blocks
  obtain ⟨r, hr, hkey⟩ := hfollowed.readable k bytes hns hk
  obtain ⟨hsum, hopen, hfilled⟩ := OrderCurrentRecordV1.quantities_of_validate (valid_of_encode hr)
  refine ⟨r, decodeAt_encode hr hkey, hsum, ?_, hopen, hfilled, fun later => ?_⟩
  · rw [orderPayloads_eq B]
    exact hfollowed.present (r.marketId, r.orderId) k r hkey (get?_of_encode hk hr hkey)
  · obtain ⟨bytes', r', hb', hd', ⟨hle, hterm⟩, hsame⟩ := Subjects.exists_later
      (fun r => ⟨le_rfl, fun _ => rfl⟩) OrderAdvances.trans (fun _ _ _ => orderStep_of_step) blocks
      later hfollowed.readable hk hr hkey
    exact ⟨bytes', r', hb', hd', hle, fun ht => hsame (hterm ht)⟩

def sampleMarket : MarketId := ⟨"ETH", by decide⟩

def sampleOrder : OrderId := ⟨"order-1", by decide⟩

def sampleAccount : Address := .replicate 20 7

def units (n : UInt8) : Decimal :=
  ⟨n.toNat, 0, ⟨by omega, by have := n.toNat_lt; omega⟩, Nat.zero_le _⟩

/-- Block 7 accepts an order of five. -/
def acceptedBlock : BlockEnvelope sumBlake3 :=
  sampleEventBlock 7 [sampleMarket] [sampleAccount]
    (.orderAccepted
      { orderId := sampleOrder
        accountId := sampleAccount
        marketId := sampleMarket
        side := .buy
        limitPrice := units 10
        quantity := units 5 }) rfl rfl

/-- Block 8 fills two of the order. -/
def sampleBlocks : List (BlockEnvelope sumBlake3) :=
  [acceptedBlock,
   sampleEventBlock 8 [sampleMarket] [sampleAccount]
    (.orderPartiallyFilled
      { orderId := sampleOrder
        tradeId := ⟨"trade-1", by decide⟩
        fillPrice := units 10
        fillQuantity := units 2
        remainingQuantity := units 3 }) rfl rfl]

def sampleOrderLedger : CanonicalLedger :=
  let state := StateImage.empty sampleChain 7 orderReducerVersion (by decide)
  ⟨.production, state, state.stateHash sumBlake3⟩

def sampleOrderKey : StateKey where
  ns := orderCurrentNamespace
  key := currentIdentityKey sampleMarket sampleOrder
  namespace_valid := by decide
  key_valid := by decide

theorem order_accounting_sampleBlocks :
    ∃ bytes r, (run (canonicalOrderReducer sumBlake3 packedJson) sampleOrderLedger
        sampleBlocks).state.entries[sampleOrderKey]? = some bytes ∧
      OrderCurrentRecordV1.decodeAt packedJson sampleOrderKey bytes = .ok r ∧
      r.filledQuantity.value + r.remainingQuantity.value = r.acceptedQuantity.value ∧
      Accounted (orderPayloads r.marketId r.orderId
        (history (canonicalOrderReducer sumBlake3 packedJson) sampleOrderLedger
          sampleBlocks)) r := by
  have hsome : ((run (canonicalOrderReducer sumBlake3 packedJson) sampleOrderLedger
      sampleBlocks).state.entries[sampleOrderKey]?).isSome = true := by decide +kernel
  obtain ⟨bytes, hb⟩ := Option.isSome_iff_exists.mp hsome
  have hnew : tryNew sumBlake3 sampleChain 7 (canonicalOrderReducer sumBlake3 packedJson)
      .production = .ok sampleOrderLedger := dif_pos (by decide)
  obtain ⟨r, hr, hsum, hacc, -⟩ := order_accounting hnew sampleBlocks sampleOrderKey bytes rfl hb
  exact ⟨bytes, r, hb, hr, hsum, hacc⟩

end Runs

end AlphaDesk
