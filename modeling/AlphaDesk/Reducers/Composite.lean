import AlphaDesk.Reducers.Account.Reducer
import AlphaDesk.Reducers.MarketHistory
import AlphaDesk.Reducers.OrderSteps
import AlphaDesk.Reducers.StakingBalance
import AlphaDesk.Reducers.Twap
import AlphaDesk.Reducers.Vault

/-! # The production reducer

The canonical state is kept by fourteen component reducers. Each event goes to the
components that own its kind, all of which read the state before the event. Owners
of one event write in different namespaces, so that the entries of a component
change as if it had reduced the event alone. The trade and position components are
arbitrary reducers that write in their own namespaces.
-/

namespace AlphaDesk

inductive Component
  | market
  | order
  | tradeV1
  | tradeV2
  | account
  | positionQuantity
  | positionEpisode
  | positionLiquidation
  | trigger
  | twap
  | vault
  | staking
  | validator
  | relationships
  deriving DecidableEq

variable (B : Blake3) (J : SerdeJson) (trading : Component → EventReducer)

/-- The reducer of a component, where those of trades and positions are given. -/
def Component.reducer : Component → EventReducer
  | market => canonicalMarketReducer J
  | order => canonicalOrderReducer B J
  | account => canonicalAccountReducer J
  | trigger => canonicalTriggerReducer B J
  | twap => canonicalTwapReducer B J
  | vault => canonicalVaultReducer J
  | staking => canonicalStakingReducer J
  | validator => canonicalValidatorReducer J
  | relationships => canonicalRelationshipReducer J
  | component => trading component

def allComponents : List Component :=
  [.market, .order, .tradeV1, .tradeV2, .account, .positionQuantity, .positionEpisode,
    .positionLiquidation, .trigger, .twap, .vault, .staking, .validator, .relationships]

def EventPayload.hasParticipants : EventPayload → Bool
  | .tradeMatched trade => trade.participants.isSome
  | _ => false

/-- The owners of a kind of event; a trade with participants has more. -/
def EventKind.owners (enriched : Bool) : EventKind → List Component
  | .dexCreated | .assetContextUpdated | .marketCreated | .marketMetadataChanged | .marketHalted
  | .marketResumed | .openInterestCapChanged | .marginTableChanged | .oracleUpdated
  | .fundingRateUpdated | .outcomeCreated | .outcomeResolved => [.market]
  | .orderAccepted | .orderRested | .orderModified | .orderPartiallyFilled | .orderFilled
  | .orderCancelled | .orderRejected | .nonUserOrderCancelled => [.order]
  | .tradeMatched =>
    if enriched then [.tradeV1, .tradeV2, .positionQuantity, .positionEpisode] else [.tradeV1]
  | .fundingPaid | .fundingReceived => [.account, .positionEpisode]
  | .depositCredited | .withdrawalDebited | .spotTransfer | .perpTransfer | .subaccountTransfer
  | .vaultDeposit | .vaultWithdrawal | .feeCharged | .builderFeeCharged | .referralReward
  | .accountModeChanged | .marginModeChanged | .leverageChanged | .internalTransfer
  | .accountClassTransfer | .rewardClaimed | .spotGenesisApplied => [.account]
  | .liquidationStarted | .liquidationFill | .backstopLiquidation | .positionSettled =>
    [.positionLiquidation]
  | .triggerOrderActivated => [.trigger]
  | .twapStarted | .twapSliceFilled | .twapCompleted => [.twap]
  | .vaultCreated | .vaultDistribution => [.vault, .relationships]
  | .vaultLeaderCommissionPaid => []
  | .stakingDeposit | .stakingWithdrawalQueued | .stakingWithdrawalCompleted => [.staking]
  | .stakingDelegated | .stakingUndelegated => [.staking, .relationships]
  | .validatorRewardPaid => [.validator]

def owners (event : CanonicalEventEnvelope) : List Component :=
  if event.schemaVersion ≠ "1.0.0" then []
  else event.eventKind.owners event.payload.hasParticipants

/-- The mutations so far with those of one more component, and no key twice. -/
def mergeChild (invoke : Component → Except ReducerError (List StateMutation))
    (mutations : List StateMutation) (component : Component) :
    Except ReducerError (List StateMutation) := do
  let childMutations ← invoke component
  if ¬ ((mutations ++ childMutations).map StateMutation.key).Nodup then
    throw ⟨"canonical_state.duplicate_mutation_key",
      "canonical state children emitted the same mutation key"⟩
  return mutations ++ childMutations

def mergeSelectedChildren (selected : List Component)
    (invoke : Component → Except ReducerError (List StateMutation)) :
    Except ReducerError (List StateMutation) :=
  selected.foldlM (mergeChild invoke) []

def reduceState (state : Entries) (event : CanonicalEventEnvelope) (context : ApplyContext) :
    Except ReducerError (List StateMutation) := do
  if (owners event).isEmpty then
    throw ⟨"canonical_state.unsupported_event",
      "canonical state reducer received an unsupported event"⟩
  if (owners event).any fun component => !(component.reducer B J trading).supports event then
    throw ⟨"canonical_state.component_support_mismatch",
      "frozen canonical state owner does not support the selected event"⟩
  mergeSelectedChildren (owners event) fun component =>
    (component.reducer B J trading).reduce state event context

def canonicalStateReducer : EventReducer where
  reducerSetVersion := "hyperliquid-alpha-desk-canonical-state@1.2.0"
  supports event := !(owners event).isEmpty
  reduce := reduceState B J trading
  validateBlockDelta finalState delta context :=
    allComponents.forM fun component =>
      (component.reducer B J trading).validateBlockDelta finalState delta context

def Component.namespaces : Component → List String
  | market => marketNamespaces
  | order => orderNamespaces
  | tradeV1 => ["trade.v1", "trade-participant.v1", "reconciliation.v1"]
  | tradeV2 => ["trade.v2", "trade-participant.v2", "trade-reconciliation.v2"]
  | account => accountNamespaces
  | positionQuantity => ["position-effect-fact.v1", "position-quantity-current.v1"]
  | positionEpisode =>
    ["position-episode-effect-fact.v1", "position-episode.v1", "position-episode-current.v1"]
  | positionLiquidation =>
    ["liquidation-start-fact.v1", "liquidation-fill-fact.v1", "backstop-liquidation-fact.v1",
      "position-settlement-fact.v1", "position-unresolved-cause-fact.v1",
      "liquidation-market-flow-current.v1", "liquidation-current.v1",
      "position-quantity-current.v1", "position-episode-effect-fact.v1", "position-episode.v1",
      "position-episode-current.v1"]
  | trigger => triggerNamespaces
  | twap => twapNamespaces
  | vault => vaultNamespaces
  | staking => stakingNamespaces
  | validator => validatorNamespaces
  | relationships => relationshipNamespaces

/-- The given reducers write in the namespaces of their components only. -/
def Confined (trading : Component → EventReducer) : Prop :=
  ∀ c s event context ms, (trading c).reduce s event context = .ok ms → PutsIn c.namespaces ms

/-- Two components that write in no common namespace. -/
def Component.Apart (c d : Component) : Prop := ∀ ns ∈ c.namespaces, ns ∉ d.namespaces

instance (c d : Component) : Decidable (c.Apart d) :=
  inferInstanceAs (Decidable (∀ ns ∈ c.namespaces, ns ∉ d.namespaces))

variable {B : Blake3} {J : SerdeJson} {trading : Component → EventReducer}
  {context : ApplyContext} {s t : Entries} {event : CanonicalEventEnvelope}
  {ms : List StateMutation} {c : Component}

theorem Component.putsIn_reduce (htrading : Confined trading)
    (h : (c.reducer B J trading).reduce s event context = .ok ms) :
    PutsIn c.namespaces ms := by
  cases c with
  | market => exact putsIn_reduceMarket h
  | order => exact putsIn_reduceOrder h
  | account => exact putsIn_reduceAccount h
  | trigger => exact putsIn_reduceTrigger h
  | twap => exact putsIn_reduceTwap h
  | vault => exact putsIn_reduceVault h
  | staking => exact putsIn_reduceStaking h
  | validator => exact putsIn_reduceValidator h
  | relationships => exact putsIn_reduceRelationship h
  | tradeV1 | tradeV2 | positionQuantity | positionEpisode | positionLiquidation =>
    exact htrading _ _ _ _ _ h

theorem pairwise_apart_owners (enriched : Bool) (kind : EventKind) :
    (kind.owners enriched).Pairwise Component.Apart := by
  cases enriched <;> cases kind <;> decide +kernel

instance : Std.Symm Component.Apart where
  symm _ _ h ns hd hc := h ns hc hd

theorem apart_of_mem_owners {d : Component} (hc : c ∈ owners event) (hd : d ∈ owners event)
    (hne : c ≠ d) : c.Apart d := by
  unfold owners at hc hd
  split at hc
  next => cases hc
  next h =>
    rw [if_neg h] at hd
    exact (pairwise_apart_owners _ _).forall hc hd hne

section Steps

variable {ms' : List StateMutation} {k : StateKey} {selected : List Component}
  {invoke : Component → Except ReducerError (List StateMutation)}

theorem mergeSelectedChildren_eq_ok (h : mergeSelectedChildren selected invoke = .ok ms) :
    (∀ c ∈ selected, ∃ part, invoke c = .ok part ∧ part.Sublist ms) ∧
      ∀ m ∈ ms, ∃ c ∈ selected, ∃ part, invoke c = .ok part ∧ m ∈ part := by
  suffices hgen : ∀ (selected : List Component) (acc : List StateMutation),
      selected.foldlM (mergeChild invoke) acc = .ok ms →
      acc.Sublist ms ∧ (∀ c ∈ selected, ∃ part, invoke c = .ok part ∧ part.Sublist ms) ∧
        ∀ m ∈ ms, m ∈ acc ∨ ∃ c ∈ selected, ∃ part, invoke c = .ok part ∧ m ∈ part by
    obtain ⟨-, hparts, hmem⟩ := hgen selected [] h
    exact ⟨hparts, fun m hm => (hmem m hm).resolve_left List.not_mem_nil⟩
  intro selected
  induction selected with
  | nil =>
    intro acc h
    obtain rfl := Except.ok.inj h
    exact ⟨.refl _, by simp, fun m hm => .inl hm⟩
  | cons c rest ih =>
    intro acc h
    obtain ⟨acc', hc, h⟩ := Except.of_bind h
    obtain ⟨part, hpart, hc⟩ := Except.of_bind hc
    obtain ⟨-, hc⟩ := Except.of_check hc
    obtain rfl := Except.ok.inj hc
    obtain ⟨hacc, hparts, hmem⟩ := ih _ h
    refine ⟨(List.sublist_append_left _ _).trans hacc, ?_, fun m hm => ?_⟩
    · rw [List.forall_mem_cons]
      exact ⟨⟨part, hpart, (List.sublist_append_right _ _).trans hacc⟩, hparts⟩
    · rcases hmem m hm with hm | ⟨d, hd, hm⟩
      · rcases List.mem_append.mp hm with hm | hm
        · exact .inl hm
        · exact .inr ⟨c, List.mem_cons_self, part, hpart, hm⟩
      · exact .inr ⟨d, List.mem_cons_of_mem _ hd, hm⟩

theorem reduceState_eq_ok (h : reduceState B J trading s event context = .ok ms) :
    (∀ c ∈ owners event, (c.reducer B J trading).supports event = true) ∧
      mergeSelectedChildren (owners event)
        (fun c => (c.reducer B J trading).reduce s event context) = .ok ms := by
  obtain ⟨-, h⟩ := Except.of_check h
  obtain ⟨hs, h⟩ := Except.of_check h
  exact ⟨by simpa using hs, h⟩

theorem getElem?_writeAll_congr (hn : (ms.map StateMutation.key).Nodup)
    (hn' : (ms'.map StateMutation.key).Nodup) (h : ∀ m, m.key = k → (m ∈ ms ↔ m ∈ ms')) :
    (writeAll s ms)[k]? = (writeAll s ms')[k]? := by
  by_cases hm : ∃ m ∈ ms, m.key = k
  · obtain ⟨m, hm, rfl⟩ := hm
    rw [getElem?_writeAll_of_mem hn hm, getElem?_writeAll_of_mem hn' ((h m rfl).mp hm)]
  · have hne : ∀ m ∈ ms, m.key ≠ k := fun m hms hk => hm ⟨m, hms, hk⟩
    have hne' : ∀ m ∈ ms', m.key ≠ k := fun m hms hk => hm ⟨m, (h m hk).mpr hms, hk⟩
    rw [getElem?_writeAll_of_forall_ne hne, getElem?_writeAll_of_forall_ne hne']

variable (htrading : Confined trading)
  (h : EventStep (canonicalStateReducer B J trading) context s event t)
include htrading h

theorem owner_step
    (hc : c ∈ owners event) :
    ∃ part, (c.reducer B J trading).supports event = true ∧
      (c.reducer B J trading).reduce s event context = .ok part ∧
      (part.map StateMutation.key).Nodup ∧
      ∀ k : StateKey, k.ns ∈ c.namespaces → t[k]? = (writeAll s part)[k]? := by
  obtain ⟨-, ms, hr, hn, rfl⟩ := h
  obtain ⟨hsup, hmerge⟩ := reduceState_eq_ok hr
  obtain ⟨hparts, hmem⟩ := mergeSelectedChildren_eq_ok hmerge
  obtain ⟨part, hpart, hsub⟩ := hparts c hc
  have hn' := hn.sublist (hsub.map _)
  refine ⟨part, hsup c hc, hpart, hn', fun k hk => getElem?_writeAll_congr hn hn' fun m hmk => ?_⟩
  refine ⟨fun hm => ?_, fun hm => hsub.subset hm⟩
  obtain ⟨d, hd, part', hpart', hm⟩ := hmem m hm
  have hdn : k.ns ∈ d.namespaces := hmk ▸ (Component.putsIn_reduce htrading hpart').ns_mem hm
  obtain rfl : c = d := by
    by_contra hne
    exact apart_of_mem_owners hc hd hne k.ns hk hdn
  obtain rfl := Except.ok_unique hpart hpart'
  exact hm

theorem frame_of_owners
    (hk : ∀ c ∈ owners event, k.ns ∉ c.namespaces) : t[k]? = s[k]? := by
  obtain ⟨-, ms, hr, -, rfl⟩ := h
  obtain ⟨-, hmem⟩ := mergeSelectedChildren_eq_ok (reduceState_eq_ok hr).2
  apply getElem?_writeAll_of_forall_ne
  rintro m hm rfl
  obtain ⟨c, hc, part, hpart, hm⟩ := hmem m hm
  exact hk c hc ((Component.putsIn_reduce htrading hpart).ns_mem hm)

/-- A component whose namespaces are its own is not touched by the events of others. -/
theorem frame_of_not_mem
    (hc : c ∉ owners event) (hown : ∀ d ∈ allComponents, d ≠ c → c.Apart d)
    (hk : k.ns ∈ c.namespaces) : t[k]? = s[k]? := by
  refine frame_of_owners htrading h fun d hd => hown d ?_ (fun he => hc (he ▸ hd)) k.ns hk
  cases d <;> decide

omit htrading in
theorem owners_of_step :
    owners event = event.eventKind.owners event.payload.hasParticipants := by
  obtain ⟨hs, -⟩ := h
  unfold owners
  split
  next hv => simp [canonicalStateReducer, owners, hv] at hs
  next => rfl

end Steps

end AlphaDesk
