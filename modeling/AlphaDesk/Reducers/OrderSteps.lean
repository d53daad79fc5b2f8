import AlphaDesk.Records.Transitions
import AlphaDesk.Reducers.Order

/-! # What an order event does

An event of the order reducer leaves every current record alone but at most one,
the record of the order it names. That record is new and carries the accepted
quantity, or continues the stored one by the amounts in the payload. Every event but
a rejection stores a transition from the hash before to the hash after.
-/

namespace AlphaDesk

open Bytes Except Stored OrderCurrentRecordV1

variable {k : StateKey} {m m' : MarketId} {o o' : OrderId}

namespace OrderCurrentRecordV1

theorem ns_of_stateKey (h : stateKey m o = .ok k) : k.ns = orderCurrentNamespace :=
  (orderStateKey_eq_ok.mp h).1.symm

theorem stateKey_inj (h : stateKey m o = .ok k) (h' : stateKey m' o' = .ok k) :
    m = m' ∧ o = o' :=
  orderStateKey_inj [0] (by simpa [stateKey, currentIdentityKey] using h)
    (by simpa [stateKey, currentIdentityKey] using h')

end OrderCurrentRecordV1

variable {current next : OrderCurrentRecordV1} {p : EventPayload}

/-- The quantity that a fill moves from remaining to filled. -/
def orderFill : EventPayload → Option Quantity
  | .orderPartiallyFilled p => some p.fillQuantity
  | .orderFilled p => some p.fillQuantity
  | _ => none

def orderFillValue (p : EventPayload) : ℚ := ((orderFill p).map Decimal.value).getD 0

/-- The accepted quantity after a payload: a modification sets it anew. -/
def acceptedAfter (current : OrderCurrentRecordV1) : EventPayload → ℚ
  | .orderModified q => current.filledQuantity.value + q.newQuantity.value
  | _ => current.acceptedQuantity.value

/-- How a record continues another: the same order, with the payload's amounts. -/
structure Continues (current : OrderCurrentRecordV1) (p : EventPayload)
    (next : OrderCurrentRecordV1) : Prop where
  orderId : next.orderId = current.orderId
  marketId : next.marketId = current.marketId
  kind : p.kind ≠ .orderAccepted
  filled : next.filledQuantity.value = current.filledQuantity.value + orderFillValue p
  accepted : next.acceptedQuantity.value = acceptedAfter current p

theorem continues_of_applyCancellation {orderId : OrderId} {remaining : Quantity}
    (h : applyCancellation current orderId remaining = .ok next)
    (hp : p.kind = .orderCancelled ∨ p.kind = .nonUserOrderCancelled) :
    Continues current p next := by
  unfold applyCancellation at h
  obtain ⟨-, h⟩ := of_check h
  obtain ⟨-, h⟩ := of_check h
  obtain rfl := ok.inj h
  cases p <;> simp [EventPayload.kind] at hp
  all_goals exact ⟨rfl, rfl, by simp [EventPayload.kind], by simp [orderFillValue, orderFill], rfl⟩

theorem continues_of_applyOrderPayload (h : applyOrderPayload current p = .ok next) :
    Continues current p next := by
  unfold applyOrderPayload at h
  split at h
  case h_1 =>
    obtain ⟨-, h⟩ := of_check h
    obtain ⟨-, h⟩ := of_check h
    obtain rfl := ok.inj h
    exact ⟨rfl, rfl, by simp [EventPayload.kind], by simp [orderFillValue, orderFill], rfl⟩
  case h_2 =>
    obtain ⟨-, h⟩ := of_check h
    obtain ⟨-, h⟩ := of_check h
    obtain ⟨accepted, ha, h⟩ := of_bind h
    obtain rfl := ok.inj h
    exact ⟨rfl, rfl, by simp [EventPayload.kind], by simp [orderFillValue, orderFill],
      Decimal.value_checkedAdd (mapError_eq_ok.mp ha)⟩
  case h_3 =>
    obtain ⟨-, h⟩ := of_check h
    obtain ⟨remaining, -, h⟩ := of_bind h
    obtain ⟨-, h⟩ := of_check h
    obtain ⟨-, h⟩ := of_check h
    obtain ⟨-, h⟩ := of_check h
    obtain ⟨filled, hf, h⟩ := of_bind h
    obtain rfl := ok.inj h
    exact ⟨rfl, rfl, by simp [EventPayload.kind],
      Decimal.value_checkedAdd (mapError_eq_ok.mp hf), rfl⟩
  case h_4 =>
    obtain ⟨-, h⟩ := of_check h
    obtain ⟨-, h⟩ := of_check h
    obtain ⟨-, h⟩ := of_check h
    obtain ⟨filled, hf, h⟩ := of_bind h
    obtain ⟨remaining, -, h⟩ := of_bind h
    obtain rfl := ok.inj h
    exact ⟨rfl, rfl, by simp [EventPayload.kind],
      Decimal.value_checkedAdd (mapError_eq_ok.mp hf), rfl⟩
  case h_5 => exact continues_of_applyCancellation h (.inl rfl)
  case h_6 =>
    obtain ⟨decoded, -, h⟩ := of_bind h
    exact continues_of_applyCancellation h (.inr rfl)
  all_goals cases h

theorem continues_of_applyTransition {event : CanonicalEventEnvelope}
    (h : applyTransition current event = .ok next) : Continues current event.payload next := by
  unfold applyTransition at h
  obtain ⟨-, h⟩ := of_check h
  obtain ⟨moved, hm, h⟩ := of_bind h
  obtain rfl := ok.inj h
  have hc := continues_of_applyOrderPayload hm
  exact ⟨hc.orderId, hc.marketId, hc.kind, hc.filled, hc.accepted⟩

theorem orderFillValue_nonneg (h : validateOrderSemantics p = .ok ()) : 0 ≤ orderFillValue p := by
  unfold orderFillValue orderFill
  split
  next q =>
    obtain ⟨_, -, h⟩ := of_bind h
    obtain ⟨_, hq, -⟩ := of_bind h
    have hpos := (of_check hq).1
    exact Decimal.value_nonneg_iff.mpr (by omega)
  next q =>
    obtain ⟨_, -, hq⟩ := of_bind h
    have hpos := (of_check hq).1
    exact Decimal.value_nonneg_iff.mpr (by omega)
  next => simp

variable {B : Blake3} {J : SerdeJson} {s t : Entries} {event : CanonicalEventEnvelope}
  {mutations : List StateMutation}

/-- How the record of an order comes to be: accepted, or continuing the stored one. -/
inductive NextOrder (event : CanonicalEventEnvelope) (m : MarketId) (o : OrderId) :
    Option OrderCurrentRecordV1 → OrderCurrentRecordV1 → Prop
  | accepted {p : OrderAccepted} {current : OrderCurrentRecordV1}
    (payload : event.payload = .orderAccepted p) (orderId : current.orderId = o)
    (marketId : current.marketId = m) (filled : current.filledQuantity.value = 0)
    (acceptedQuantity : current.acceptedQuantity = p.quantity) : NextOrder event m o none current
  | continued {previous current : OrderCurrentRecordV1}
    (open_ : previous.lifecycle.isTerminal = false)
    (continues : Continues previous event.payload current) :
    NextOrder event m o (some previous) current

theorem nextOrder_of_ok {existing : Option OrderCurrentRecordV1} {o : OrderId} {m : MarketId}
    {a : Address} {prior : Option Hash32} {current : OrderCurrentRecordV1}
    (h : nextOrder B J existing o m a event = .ok (prior, current)) :
    NextOrder event m o existing current ∧
      Tracking.PriorHash J (hashCurrent B) existing prior := by
  unfold nextOrder at h
  split at h
  next p hp =>
    obtain ⟨hnone, h⟩ := of_check h
    obtain ⟨hids, h⟩ := of_check h
    obtain ⟨r, hr, h⟩ := of_bind h
    obtain ⟨filled, hf, hr⟩ := of_bind hr
    obtain rfl := ok.inj hr
    obtain ⟨rfl, rfl⟩ := Prod.mk.inj (ok.inj h)
    simp only [not_or, not_not] at hids
    obtain rfl : existing = none := by simpa using hnone
    refine ⟨.accepted hp hids.1 hids.2.1 ?_ rfl, .inl ⟨rfl, rfl⟩⟩
    have := Decimal.value_checkedSub (mapError_eq_ok.mp hf)
    simpa using this
  next =>
    split at h
    next => cases h
    next previous =>
      obtain ⟨-, h⟩ := of_check h
      obtain ⟨ht, h⟩ := of_check h
      obtain ⟨bytes, hb, h⟩ := of_bind h
      obtain ⟨next, hn, h⟩ := of_bind h
      obtain ⟨rfl, rfl⟩ := Prod.mk.inj (ok.inj h)
      exact ⟨.continued (by simpa using ht) (continues_of_applyTransition hn),
        .inr ⟨previous, bytes, rfl, mapError_eq_ok.mp hb, rfl⟩⟩

def orderSubject (event : CanonicalEventEnvelope) : Option (MarketId × OrderId) :=
  match event.marketIds with
  | [m] => (orderIdentity event.payload).toOption.map (m, ·)
  | _ => none

theorem orderSubject_eq_some {event : CanonicalEventEnvelope} {m : MarketId} {o : OrderId} :
    orderSubject event = some (m, o) ↔
      event.marketIds = [m] ∧ orderIdentity event.payload = .ok o := by
  unfold orderSubject
  split
  next m' hm => cases orderIdentity event.payload <;> simp [Except.toOption, hm]
  next hm =>
    simp only [reduceCtorEq, false_iff, not_and]
    exact fun h => absurd h (hm m)

def OrderTransitionRecordV1.owner (r : OrderTransitionRecordV1) : Option (MarketId × OrderId) :=
  match r.marketId, r.orderId with
  | some m, some o => some (m, o)
  | _, _ => none

def orderTracking (B : Blake3) :
    Tracking (MarketId × OrderId) OrderCurrentRecordV1 OrderTransitionRecordV1 where
  subject := orderSubject
  currentKey i := stateKey i.1 i.2
  currentKey_inj h h' := Prod.ext_iff.mpr (stateKey_inj h h')
  ns_currentKey := ns_of_stateKey
  next event i := NextOrder event i.1 i.2
  owner := OrderTransitionRecordV1.owner
  eventId r := r.eventId
  prior r := r.priorStateHash
  result r := r.resultStateHash
  hash := hashCurrent B

theorem rejectOrderCollision_eq_ok {fk tk : StateKey} {u : Unit} :
    rejectOrderCollision s fk tk = .ok u ↔ s[fk]? = none ∧ s[tk]? = none := by
  unfold rejectOrderCollision
  rw [Std.ExtTreeMap.contains_eq_isSome_getElem?, Std.ExtTreeMap.contains_eq_isSome_getElem?]
  cases s[fk]? <;> cases s[tk]? <;> simp

theorem reduceRejection_eq_ok {rejected : OrderRejected}
    (h : reduceRejection J s event rejected = .ok mutations) :
    ∃ (fk tk : StateKey) (fb tb : List UInt8) (tr : OrderTransitionRecordV1),
      fk.ns = orderFactNamespace ∧ keyOf tr = .ok tk ∧ encode J tr = .ok tb ∧ s[tk]? = none ∧
      tr.owner = none ∧ mutations = [.put fk fb, .put tk tb] := by
  unfold reduceRejection at h
  obtain ⟨-, h⟩ := of_check h
  obtain ⟨fk, hfk, h⟩ := of_bind h
  obtain ⟨tk, htk, h⟩ := of_bind h
  obtain ⟨_, hfresh, h⟩ := of_bind h
  obtain ⟨fb, -, h⟩ := of_bind h
  obtain ⟨tb, htb, h⟩ := of_bind h
  exact ⟨fk, tk, fb, tb, _, ns_of_orderEventKey (mapError_eq_ok.mp hfk), mapError_eq_ok.mp htk,
    mapError_eq_ok.mp htb, (rejectOrderCollision_eq_ok.mp hfresh).2, rfl, (ok.inj h).symm⟩

theorem reduceOrderEvent_eq_ok (h : reduceOrderEvent B J s event = .ok mutations) :
    ∃ (o : OrderId) (m : MarketId) (a : Address) (key : StateKey) (prior : Option Hash32)
      (current : OrderCurrentRecordV1), orderSubject event = some (m, o) ∧
      stateKey m o = .ok key ∧
      nextOrder B J (get? OrderCurrentRecordV1 J s key) o m a event = .ok (prior, current) ∧
      (orderTracking B).Filed J orderFactNamespace s event (m, o) key prior current mutations := by
  unfold reduceOrderEvent at h
  obtain ⟨o, ho, h⟩ := of_bind h
  split at h
  next m hm =>
    split at h
    next a ha =>
      obtain ⟨key, hk, h⟩ := of_bind h
      obtain ⟨existing, he, h⟩ := of_bind h
      obtain ⟨⟨prior, current⟩, hc, h⟩ := of_bind h
      obtain ⟨bytes, hb, h⟩ := of_bind h
      obtain ⟨fk, hfk, h⟩ := of_bind h
      obtain ⟨tk, htk, h⟩ := of_bind h
      obtain ⟨_, hfresh, h⟩ := of_bind h
      obtain ⟨fb, -, h⟩ := of_bind h
      obtain ⟨tb, htb, h⟩ := of_bind h
      rw [← get?_of_mapM he] at hc
      obtain rfl := ok.inj h
      exact ⟨o, m, a, key, prior, current, orderSubject_eq_some.mpr ⟨hm, ho⟩,
        mapError_eq_ok.mp hk, hc, .mk (ns_of_orderEventKey (mapError_eq_ok.mp hfk))
        (mapError_eq_ok.mp hb) (mapError_eq_ok.mp htk) (mapError_eq_ok.mp htb)
        (rejectOrderCollision_eq_ok.mp hfresh).2 rfl rfl rfl rfl⟩
    next => cases h
  next => cases h

def orderNamespaces : List String :=
  [orderFactNamespace, orderCurrentNamespace, orderTransitionNamespace]

theorem putsIn_reduceOrder (h : reduceOrder B J s event = .ok mutations) :
    PutsIn orderNamespaces mutations := by
  obtain ⟨_, -, h⟩ := of_bind h
  split at h
  next =>
    obtain ⟨fk, tk, fb, tb, tr, hf, htk, -, -, -, rfl⟩ := reduceRejection_eq_ok h
    exact .put (by simp [hf, orderNamespaces]) (.own htk (by decide) putsIn_nil)
  next =>
    obtain ⟨o, m, a, key, prior, current, -, hk, -, hfiled⟩ := reduceOrderEvent_eq_ok h
    exact hfiled.putsIn (by decide) (by decide) (ns_of_stateKey hk) (by decide)

theorem NextOrder.keyOf_current {m : MarketId} {o : OrderId} {k : StateKey}
    {current : OrderCurrentRecordV1} (hk : stateKey m o = .ok k)
    (h : NextOrder event m o (get? OrderCurrentRecordV1 J s k) current) :
    keyOf current = .ok k := by
  generalize he : get? OrderCurrentRecordV1 J s k = existing at h
  cases h with
  | accepted _ ho hm _ _ =>
    rw [← hk, ← ho, ← hm]
    rfl
  | @continued previous _ _ hc =>
    rw [← keyOf_of_get? he]
    exact congrArg₂ stateKey hc.marketId hc.orderId

theorem moves_of_reduceOrder (h : reduceOrder B J s event = .ok mutations)
    (hn : (mutations.map StateMutation.key).Nodup)
    (ht : ∀ k : StateKey, k.ns ∈ orderNamespaces → t[k]? = (writeAll s mutations)[k]?)
    (hs : Readable OrderCurrentRecordV1 J s) : (orderTracking B).Moves J s event t := by
  have hcurrent : ∀ k : StateKey, k.ns = ns OrderCurrentRecordV1 →
      t[k]? = (writeAll s mutations)[k]? := fun k hk => ht k (by rw [hk]; decide)
  have htransition : ∀ k : StateKey, k.ns = ns OrderTransitionRecordV1 →
      t[k]? = (writeAll s mutations)[k]? := fun k hk => ht k (by rw [hk]; decide)
  obtain ⟨_, -, h⟩ := of_bind h
  split at h
  next rejected hp =>
    obtain ⟨fk, tk, fb, tb, tr, hf, hk, he, hfresh, ho, rfl⟩ := reduceRejection_eq_ok h
    have hputs : Puts OrderTransitionRecordV1 J [.put fk fb, .put tk tb] [tr] :=
      .other (show fk.ns ≠ _ by rw [hf]; decide) (.own hk he .nil)
    have hnone : Puts OrderCurrentRecordV1 J [.put fk fb, .put tk tb] [] :=
      .other (show fk.ns ≠ _ by rw [hf]; decide) (.skip hk (by decide) .nil)
    refine .idle ?_ (hnone.updates hn hcurrent) (hputs.updates hn htransition)
      (by simp [orderTracking, ho]) ?_
    · exact Option.eq_none_iff_forall_ne_some.mpr fun ⟨m, o⟩ hi => by
        have := (orderSubject_eq_some.mp hi).2
        simp [hp, orderIdentity] at this
    · intro tr' htr' k hk'
      obtain rfl := List.mem_singleton.mp htr'
      obtain rfl := ok_unique hk' hk
      exact hfresh
  next =>
    obtain ⟨o, m, a, key, prior, current, hi, hk, hnext, hfiled⟩ := reduceOrderEvent_eq_ok h
    obtain ⟨hno, hprior⟩ := nextOrder_of_ok hnext
    exact hfiled.moves (by decide) (by decide) (by decide) hn ht hs hi hk (hno.keyOf_current hk) hno
      hprior

end AlphaDesk
