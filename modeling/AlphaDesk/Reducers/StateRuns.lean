import AlphaDesk.Reducers.Composite
import AlphaDesk.Reducers.OrderAccounting
import AlphaDesk.Reducers.StakingConservation

/-! # Runs of the production reducer

An event of a run either belongs to a component, which then reduces it as if it
were alone, or leaves the component's records as they are. What a component keeps
it therefore keeps over every run: the transitions of orders and TWAPs are chained,
and the stake of every account is accounted for.
-/

namespace AlphaDesk

open Stored CanonicalLedger

variable {B : Blake3} {J : SerdeJson} {trading : Component → EventReducer} {s t : Entries}
  {event : CanonicalEventEnvelope} {payload : EventPayload} {enriched : Bool}

/-- A component whose namespaces are its own moves its records as its reducer does. -/
theorem Tracking.moves_of_step {I C T : Type} [Stored C] [Stored T] {K : Tracking I C T}
    {c : Component} (htrading : Confined trading)
    (h : Step (canonicalStateReducer B J trading) s event t)
    (hown : ∀ d ∈ allComponents, d ≠ c → c.Apart d)
    (hns : ns C ∈ c.namespaces ∧ ns T ∈ c.namespaces)
    (hsubject : ∀ i, K.subject event = some i →
      c ∈ event.eventKind.owners event.payload.hasParticipants)
    (hmoves : ∀ context ms, (c.reducer B J trading).reduce s event context = .ok ms →
      (ms.map StateMutation.key).Nodup →
      (∀ k : StateKey, k.ns ∈ c.namespaces → t[k]? = (writeAll s ms)[k]?) → K.Moves J s event t) :
    K.Moves J s event t := by
  obtain ⟨context, h⟩ := h
  by_cases hc : c ∈ owners event
  · obtain ⟨part, -, hr, hn, ht⟩ := owner_step htrading h hc
    exact hmoves context part hr hn ht
  · have hframe : ∀ k : StateKey, k.ns ∈ c.namespaces → t[k]? = s[k]? :=
      fun k hk => frame_of_not_mem htrading h hc hown hk
    refine .idle ?_ (updates_nil_iff.mpr fun k hk => hframe k (hk ▸ hns.1))
      (updates_nil_iff.mpr fun k hk => hframe k (hk ▸ hns.2)) (by simp) (by simp)
    rw [owners_of_step h] at hc
    exact Option.eq_none_iff_forall_ne_some.mpr fun i hi => hc (hsubject i hi)

theorem moves_of_order_step (htrading : Confined trading)
    (h : Step (canonicalStateReducer B J trading) s event t)
    (hs : Readable OrderCurrentRecordV1 J s) : (orderTracking B).Moves J s event t := by
  refine Tracking.moves_of_step (c := .order) htrading h (by decide +kernel) (by decide)
    (fun ⟨m, o⟩ hi => ?_) fun _ _ hr hn ht => moves_of_reduceOrder hr hn ht hs
  have ho := (orderSubject_eq_some.mp hi).2
  unfold CanonicalEventEnvelope.eventKind
  cases hp : event.payload <;> simp [hp, orderIdentity] at ho <;>
    simp [EventPayload.kind, EventKind.owners]

theorem moves_of_twap_step (htrading : Confined trading)
    (h : Step (canonicalStateReducer B J trading) s event t)
    (hs : Readable TwapCurrentRecordV1 J s) : (twapTracking B).Moves J s event t := by
  refine Tracking.moves_of_step (c := .twap) htrading h (by decide +kernel) (by decide)
    (fun ⟨m, o⟩ hi => ?_) fun _ _ hr hn ht => moves_of_reduceTwap hr hn ht hs
  have ho := (twapSubject_eq_some.mp hi).2
  unfold CanonicalEventEnvelope.eventKind
  cases hp : event.payload <;> simp [hp, twapOrderId] at ho <;>
    simp [EventPayload.kind, EventKind.owners]

theorem staking_mem_owners {move : StakingMove} (h : stakingMove payload = some move) :
    Component.staking ∈ payload.kind.owners enriched := by
  cases payload <;> simp [stakingMove] at h <;> simp [EventPayload.kind, EventKind.owners]

theorem relationships_mem_owners {d : StakingDelegation} (h : delegationOf event = some d) :
    Component.relationships ∈ event.payload.kind.owners enriched := by
  revert h
  unfold delegationOf
  cases event.payload with
  | stakingDelegated | stakingUndelegated => simp [EventPayload.kind, EventKind.owners]
  | _ => simp [stakingMove, StakingMove.delegation, Option.bind_eq_some_iff]

theorem relationsGrow_of_step (htrading : Confined trading)
    (h : Step (canonicalStateReducer B J trading) s event t) :
    RelationsGrow s (delegationOf event) t := by
  obtain ⟨context, h⟩ := h
  by_cases hc : Component.relationships ∈ owners event
  · obtain ⟨part, -, hr, -, ht⟩ := owner_step htrading h hc
    exact relationsGrow_of_reduceRelationship hr fun k hk => ht k (by rw [hk]; decide)
  · have hnone : delegationOf event = none := by
      rw [owners_of_step h] at hc
      exact Option.eq_none_iff_forall_ne_some.mpr fun i hi => hc (relationships_mem_owners hi)
    rw [hnone]
    refine relationsGrow_none fun k hk => frame_of_owners htrading h fun d hd => ?_
    have hne : d ≠ .relationships := fun he => hc (he ▸ hd)
    rw [hk]
    cases d with
    | relationships => exact absurd rfl hne
    | _ => decide +kernel

theorem StakeConserved.step {events : List CanonicalEventEnvelope}
    (hs : StakeConserved J events s) (htrading : Confined trading)
    (h : Step (canonicalStateReducer B J trading) s event t) :
    StakeConserved J (events ++ [event]) t := by
  have hrelations := relationsGrow_of_step htrading h
  obtain ⟨context, h⟩ := h
  refine hs.posted ?_ hrelations
  by_cases hc : Component.staking ∈ owners event
  · obtain ⟨part, -, hr, hn, ht⟩ := owner_step htrading h hc
    exact posts_of_reduceStaking hr hn ht
  · have hnone : stakingMove event.payload = none := by
      rw [owners_of_step h] at hc
      exact Option.eq_none_iff_forall_ne_some.mpr fun i hi => hc (staking_mem_owners hi)
    have hframe : ∀ {O : Type} [DecidableEq O] [StakingOwner O],
        FlowOwner.ns O ∈ stakingNamespaces → Posted J s (none : Posting O) t := fun hns =>
      posted_of_updates .none (updates_nil_iff.mpr fun k hk =>
        frame_of_not_mem htrading h hc (by decide +kernel) (hk ▸ hns))
    rw [hnone]
    exact ⟨hframe (by decide), hframe (by decide), hframe (by decide)⟩

theorem mem_of_step {k : StateKey} (htrading : Confined trading)
    (h : Step (canonicalStateReducer B J trading) s event t) (hk : k ∈ s) : k ∈ t := by
  obtain ⟨context, -, ms, hr, hn, rfl⟩ := h
  rw [Std.ExtTreeMap.mem_iff_isSome_getElem?] at hk ⊢
  by_cases hm : ∃ m ∈ ms, m.key = k
  · obtain ⟨m, hm, rfl⟩ := hm
    obtain ⟨-, hmem⟩ := mergeSelectedChildren_eq_ok (reduceState_eq_ok hr).2
    obtain ⟨c, -, part, hpart, hpm⟩ := hmem m hm
    -- no component deletes
    obtain ⟨k, v, rfl, -⟩ := Component.putsIn_reduce htrading hpart m hpm
    rw [getElem?_writeAll_of_mem hn hm]
    rfl
  · rwa [getElem?_writeAll_of_forall_ne fun m hms hkey => hm ⟨m, hms, hkey⟩]

variable {chainId : ChainId} {firstHeight : BlockHeight} {limits : LedgerLimits}
  {l : CanonicalLedger}

section Chains

variable (htrading : Confined trading)
  (hnew : tryNew B chainId firstHeight (canonicalStateReducer B J trading) limits = .ok l)
  (blocks : List (BlockEnvelope B))

include htrading hnew

theorem tracked_orders : (orderTracking B).Tracked J
    (history (canonicalStateReducer B J trading) l blocks)
    (run (canonicalStateReducer B J trading) l blocks).state.entries :=
  run_history_invariant hnew Tracking.tracked_empty
    (fun _ _ _ _ h hs => h.step (moves_of_order_step htrading hs h.currents)) blocks

theorem tracked_twaps : (twapTracking B).Tracked J
    (history (canonicalStateReducer B J trading) l blocks)
    (run (canonicalStateReducer B J trading) l blocks).state.entries :=
  run_history_invariant hnew Tracking.tracked_empty
    (fun _ _ _ _ h hs => h.step (moves_of_twap_step htrading hs h.currents)) blocks

theorem followed_twaps : (twapTracking B).Followed J
    (fun events => SlicesOf (events.filterMap twapSlice))
    (history (canonicalStateReducer B J trading) l blocks)
    (run (canonicalStateReducer B J trading) l blocks).state.entries :=
  run_history_invariant hnew Subjects.followed_empty
    (fun _ _ _ _ h hs => h.step (moves_of_twap_step htrading hs h.readable).step
      (fun _ _ hn => slicesOf_first hn) fun _ _ _ _ hp hn => hp.next hn) blocks

end Chains

/-- The transitions of every order and every TWAP at every point of a run, in the order of their
events, are chained from no prior hash to the hash of the current record. The record of a TWAP
reads back, its quantities add up and are those of its committed slices, whose indices increase,
and whatever blocks come later its fill does not decrease and a completed record keeps its
bytes. -/
theorem transition_chains (htrading : Confined trading)
    (hnew : tryNew B chainId firstHeight (canonicalStateReducer B J trading) limits = .ok l)
    (blocks : List (BlockEnvelope B)) :
    (∀ m o k, OrderCurrentRecordV1.stateKey m o = .ok k → ∃ transitions,
      (orderTracking B).Chain J (history (canonicalStateReducer B J trading) l blocks)
        (run (canonicalStateReducer B J trading) l blocks).state.entries (m, o) k transitions) ∧
    (∀ m o k, TwapCurrentRecordV1.stateKey m o = .ok k → ∃ transitions,
      (twapTracking B).Chain J (history (canonicalStateReducer B J trading) l blocks)
        (run (canonicalStateReducer B J trading) l blocks).state.entries (m, o) k transitions) ∧
    ∀ m o k bytes, TwapCurrentRecordV1.stateKey m o = .ok k →
      (run (canonicalStateReducer B J trading) l blocks).state.entries[k]? = some bytes →
      ∃ r : TwapCurrentRecordV1, decodeAt J k bytes = .ok r ∧
        r.filledQuantity.value + r.remainingQuantity.value = r.totalQuantity.value ∧
        SlicesOf (((twapTracking B).about (m, o)
          (history (canonicalStateReducer B J trading) l blocks)).filterMap twapSlice) r ∧
        ∀ later : List (BlockEnvelope B), ∃ bytes', ∃ r' : TwapCurrentRecordV1,
          (run (canonicalStateReducer B J trading) l (blocks ++ later)).state.entries[k]? =
            some bytes' ∧
          decodeAt J k bytes' = .ok r' ∧
          r.filledQuantity.value ≤ r'.filledQuantity.value ∧
          (r.lifecycle = .completed → bytes' = bytes) := by
  refine ⟨fun m o k hk => (tracked_orders htrading hnew blocks).chain (m, o) k hk,
    fun m o k hk => (tracked_twaps htrading hnew blocks).chain (m, o) k hk,
    fun m o k bytes hk hb => ?_⟩
  have htwaps := followed_twaps htrading hnew blocks
  have hns := (twapTracking B).ns_currentKey (i := (m, o)) hk
  obtain ⟨r, hr, hkr⟩ := htwaps.readable k bytes hns hb
  refine ⟨r, decodeAt_encode hr hkr, TwapCurrentRecordV1.value_of_validate (valid_of_encode hr),
    htwaps.present (m, o) k r hk (get?_of_encode hb hr hkr), fun later => ?_⟩
  obtain ⟨bytes', r', hb', hd', ⟨hle, hdone⟩, hsame⟩ := Subjects.exists_later twapAdvances_refl
    TwapAdvances.trans (fun _ _ _ h hs => ⟨(moves_of_twap_step htrading h hs).step,
      fun _ _ _ => twapAdvances_of_nextTwap⟩) blocks later htwaps.readable hb hr hkr
  exact ⟨bytes', r', hb', hd', hle, fun hc => hsame (hdone hc)⟩

/-- The stake of every account is accounted for at every point of a run. -/
theorem stake_conserved (htrading : Confined trading)
    (hnew : tryNew B chainId firstHeight (canonicalStateReducer B J trading) limits = .ok l)
    (blocks : List (BlockEnvelope B)) :
    StakeConserved J (history (canonicalStateReducer B J trading) l blocks)
      (run (canonicalStateReducer B J trading) l blocks).state.entries :=
  run_history_invariant hnew stakeConserved_empty (fun _ _ _ _ h hs => h.step htrading hs) blocks

/-- No key is ever removed, and an entry changes only in a namespace of a component that owns one
of the committed events. -/
theorem entries_kept (htrading : Confined trading) (l : CanonicalLedger)
    (blocks : List (BlockEnvelope B)) (k : StateKey) :
    let R := canonicalStateReducer B J trading
    let final := (run R l blocks).state.entries
    (k ∈ l.state.entries → k ∈ final) ∧ (final[k]? = l.state.entries[k]? ∨
      ∃ event ∈ history R l blocks, ∃ c ∈ owners event, k.ns ∈ c.namespaces) := by
  refine (path_run l blocks).history_invariant (P := fun events t =>
    (k ∈ l.state.entries → k ∈ t) ∧ (t[k]? = l.state.entries[k]? ∨
      ∃ event ∈ events, ∃ c ∈ owners event, k.ns ∈ c.namespaces)) ⟨id, .inl rfl⟩ ?_
  intro events s event t ih h
  refine ⟨fun hk => mem_of_step htrading h (ih.1 hk), ?_⟩
  by_cases howned : ∃ c ∈ owners event, k.ns ∈ c.namespaces
  · exact .inr ⟨event, by simp, howned⟩
  · obtain ⟨context, h⟩ := h
    rw [frame_of_owners htrading h fun c hc hns => howned ⟨c, hc, hns⟩]
    exact ih.2.imp_right fun ⟨e, he, hc⟩ => ⟨e, List.mem_append_left _ he, hc⟩

/-- No trades and no positions. -/
def sampleTrading (_ : Component) : EventReducer := idleReducer

theorem confined_sampleTrading : Confined sampleTrading := by
  intro c s event context ms h
  obtain rfl := Except.ok.inj h
  exact putsIn_nil

def sampleStateLedger : CanonicalLedger :=
  let state := StateImage.empty sampleChain 7 "hyperliquid-alpha-desk-canonical-state@1.2.0"
    (by decide)
  ⟨.production, state, state.stateHash sumBlake3⟩

theorem tryNew_sampleStateLedger :
    tryNew sumBlake3 sampleChain 7 (canonicalStateReducer sumBlake3 packedJson sampleTrading)
      .production = .ok sampleStateLedger :=
  dif_pos (by decide)

/-- An order accepted in block 7, a TWAP of five started in block 8, two of it filled in block 9. -/
def sampleTwapBlocks : List (BlockEnvelope sumBlake3) :=
  [acceptedBlock,
   sampleEventBlock 8 [sampleMarket] [sampleAccount]
    (.twapStarted
      { orderId := sampleOrder
        accountId := sampleAccount
        marketId := sampleMarket
        totalQuantity := units 5
        endTime := 0 }) rfl rfl,
   sampleEventBlock 9 [sampleMarket] [sampleAccount]
    (.twapSliceFilled
      { orderId := sampleOrder
        sliceIndex := 0
        fillPrice := units 10
        fillQuantity := units 2 }) rfl rfl]

def sampleTwapKey : StateKey where
  ns := "twap-current.v1"
  key := [sampleMarket.asBytes, sampleOrder.asBytes].flatMap Bytes.frame
  namespace_valid := by decide
  key_valid := by decide

theorem transition_chains_sampleTwapBlocks :
    ∃ bytes, ∃ r : TwapCurrentRecordV1,
      (run (canonicalStateReducer sumBlake3 packedJson sampleTrading) sampleStateLedger
        sampleTwapBlocks).state.entries[sampleTwapKey]? = some bytes ∧
      decodeAt packedJson sampleTwapKey bytes = .ok r ∧
      r.filledQuantity.value + r.remainingQuantity.value = r.totalQuantity.value := by
  have hsome : ((run (canonicalStateReducer sumBlake3 packedJson sampleTrading) sampleStateLedger
      sampleTwapBlocks).state.entries[sampleTwapKey]?).isSome = true := by decide +kernel
  obtain ⟨bytes, hb⟩ := Option.isSome_iff_exists.mp hsome
  obtain ⟨-, -, h⟩ :=
    transition_chains confined_sampleTrading tryNew_sampleStateLedger sampleTwapBlocks
  obtain ⟨r, hr, hsum, -⟩ := h sampleMarket sampleOrder sampleTwapKey bytes (by decide +kernel) hb
  exact ⟨bytes, r, hb, hr, hsum⟩

theorem entries_kept_sampleTwapKey :
    ∃ event ∈ history (canonicalStateReducer sumBlake3 packedJson sampleTrading) sampleStateLedger
      sampleTwapBlocks, ∃ c ∈ owners event, sampleTwapKey.ns ∈ c.namespaces :=
  (entries_kept confined_sampleTrading sampleStateLedger sampleTwapBlocks
    sampleTwapKey).2.resolve_left (by decide +kernel)

/-- A deposit of five and a delegation of two from it. -/
def sampleStakeBlocks : List (BlockEnvelope sumBlake3) :=
  [sampleEventBlock 7 [] [sampleAccount]
    (.stakingDeposit
      { accountId := "0x0707070707070707070707070707070707070707", amount := "5" }) rfl rfl,
   sampleEventBlock 8 [] [sampleAccount]
    (.stakingDelegated
      { accountId := "0x0707070707070707070707070707070707070707"
        validator := "validator-1"
        amount := "2" }) rfl rfl]

theorem stake_conserved_sampleStakeBlocks :
    (history (canonicalStateReducer sumBlake3 packedJson sampleTrading) sampleStateLedger
      sampleStakeBlocks).length = 2 ∧
    StakeConserved packedJson (history (canonicalStateReducer sumBlake3 packedJson sampleTrading)
      sampleStateLedger sampleStakeBlocks)
      (run (canonicalStateReducer sumBlake3 packedJson sampleTrading) sampleStateLedger
        sampleStakeBlocks).state.entries :=
  ⟨by decide +kernel,
    stake_conserved confined_sampleTrading tryNew_sampleStateLedger sampleStakeBlocks⟩

end AlphaDesk
