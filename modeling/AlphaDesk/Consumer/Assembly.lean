import AlphaDesk.Consumer.Assembler

/-! # Assembly does not depend on the order of deliveries

A publication is a block with the deliveries made for it. What the assembler has is
described by the deliveries it holds, and one push either refuses a delivery, holds
it, or completes its block. So the deliveries of up to 64 blocks may come in any
order.
-/

namespace AlphaDesk

open Bytes Except Std.ExtTreeMap List CommittedBlockMarker BlockAssembler

variable {B : Blake3} {K : EnvelopeCodec}

def deliveryFor (K : EnvelopeCodec) (block : BlockEnvelope B) (receipt : ArchiveReceipt)
    (subject : CanonicalSubject) (messageId schema : String) (payload : List UInt8) :
    CanonicalDelivery :=
  ⟨subject, messageId, schema, block.chainId.value, block.blockHeight, block.canonicalBlockHash,
    receipt.receiptId, receipt.manifestSha256, K.sha256 payload, payload⟩

variable {block : BlockEnvelope B} {receipt : ArchiveReceipt} {d : CanonicalDelivery}
  {payload : List UInt8} {event : CanonicalEventEnvelope}

theorem tryNew_eq_deliveryFor {subject : CanonicalSubject} {messageId schema : String}
    (h : CanonicalDelivery.tryNew K subject messageId schema block.chainId.value
      block.blockHeight block.canonicalBlockHash receipt.receiptId receipt.manifestSha256
      payload = .ok d) : d = deliveryFor K block receipt subject messageId schema payload := by
  obtain ⟨_, -, h⟩ := of_bind h
  obtain ⟨_, -, h⟩ := of_bind h
  obtain ⟨_, -, h⟩ := of_bind h
  obtain ⟨_, -, h⟩ := of_bind h
  obtain ⟨-, h⟩ := of_check h
  obtain ⟨-, h⟩ := of_check h
  exact (ok.inj h).symm

theorem encodeEventPayload_eq_ok (h : encodeEventPayload K event = .ok payload) :
    K.encodeToVec event = .ok payload ∧ payload = K.bytes event := by
  obtain ⟨payload', hpayload, h⟩ := of_bind h
  obtain ⟨_, -, h⟩ := of_bind h
  obtain rfl := ok.inj h
  have hencoded := mapError_eq_ok.mp hpayload
  exact ⟨hencoded, (bytes_of_encodeToVec hencoded).symm⟩

theorem committedEventDelivery_eq_ok (h : committedEventDelivery K event block receipt = .ok d) :
    encodeEventPayload K event = .ok (K.bytes event) ∧
      d = deliveryFor K block receipt (.forEventKind event.eventKind) event.eventId.value
        event.schemaVersion (K.bytes event) := by
  obtain ⟨payload, hpayload, h⟩ := of_bind h
  have hencoded := mapError_eq_ok.mp hpayload
  obtain ⟨-, rfl⟩ := encodeEventPayload_eq_ok hencoded
  exact ⟨hencoded, tryNew_eq_deliveryFor h⟩

/-- A committed block with the deliveries that are made for it. -/
structure Publication (B : Blake3) (K : EnvelopeCodec) where
  block : BlockEnvelope B
  receipt : ArchiveReceipt
  marker : CanonicalDelivery
  events : List CanonicalDelivery
  marker_made : committedBlockDelivery K block receipt = .ok marker
  events_made : block.events.mapM (committedEventDelivery K · block receipt) = .ok events
  admissible : AdmissibleIds block receipt
  roundTrip : ∀ event ∈ block.events, ∀ bytes, K.encodeToVec event = .ok bytes →
    K.decode bytes = .ok event

namespace Publication

def deliveries (P : Publication B K) : List CanonicalDelivery := P.marker :: P.events

def hash (P : Publication B K) : Hash32 := P.block.canonicalBlockHash

def eventDelivery (P : Publication B K) (event : CanonicalEventEnvelope) : CanonicalDelivery :=
  deliveryFor K P.block P.receipt (.forEventKind event.eventKind) event.eventId.value
    event.schemaVersion (K.bytes event)

variable {P : Publication B K} {event' : CanonicalEventEnvelope}

theorem events_eq (P : Publication B K) : P.events = P.block.events.map P.eventDelivery := by
  have h := mapM_eq_ok.mp P.events_made
  refine (forall₂_eq_eq_eq ▸ forall₂_map_left_iff.mpr (h.imp ?_)).symm
  intro event d hd
  exact (committedEventDelivery_eq_ok hd).2.symm

theorem encodeEventPayload_eq (hevent : event ∈ P.block.events) :
    encodeEventPayload K event = .ok (K.bytes event) := by
  obtain ⟨d, -, hd⟩ := exists_of_mapM_eq_ok P.events_made hevent
  exact (committedEventDelivery_eq_ok hd).1

theorem decode_bytes (hevent : event ∈ P.block.events) : K.decode (K.bytes event) = .ok event :=
  P.roundTrip event hevent _ (encodeEventPayload_eq_ok (encodeEventPayload_eq hevent)).1

theorem belongsTo (hevent : event ∈ P.block.events) :
    event.BelongsTo B P.block.chainId P.block.blockHeight P.block.blockTime
      P.block.confirmationClass :=
  (belongsTo_of_validateEventsFrom P.block.events_valid).1 event hevent

theorem nodup_eventIds (P : Publication B K) : (P.block.events.map (·.eventId.value)).Nodup := by
  have h := (belongsTo_of_validateEventsFrom P.block.events_valid).2.2
  have hmap := h.map StringId.value_injective
  rwa [List.map_map] at hmap

theorem eq_of_eventId_eq (hevent : event ∈ P.block.events) (hevent' : event' ∈ P.block.events)
    (h : event.eventId.value = event'.eventId.value) : event = event' :=
  inj_on_of_nodup_map P.nodup_eventIds hevent hevent' h

theorem eventDelivery_injOn (hevent : event ∈ P.block.events) (hevent' : event' ∈ P.block.events)
    (h : P.eventDelivery event = P.eventDelivery event') : event = event' :=
  eq_of_eventId_eq hevent hevent' (congrArg CanonicalDelivery.messageId h)

theorem exists_marker (P : Publication B K) : ∃ payload,
    decodeCommittedBlockMarker payload = .ok (.of K P.block P.receipt) ∧
    P.block.confirmationClass.markerTag ≠ none ∧
    P.marker = deliveryFor K P.block P.receipt .blockCommitted
      (CommittedPublicationBatch.markerId P.block) blockMarkerSchemaV1 payload := by
  obtain ⟨payload, hpayload, hmarker⟩ := of_bind P.marker_made
  rw [mapError_eq_ok] at hpayload
  obtain ⟨tag, htag, -, -⟩ := encodeCommittedBlockMarker_eq_ok hpayload
  exact ⟨payload, decode_encodeCommittedBlockMarker P.admissible hpayload, by simp [htag],
    tryNew_eq_deliveryFor hmarker⟩

theorem marker_ne_eventDelivery (P : Publication B K) (event : CanonicalEventEnvelope) :
    P.marker ≠ P.eventDelivery event := by
  obtain ⟨payload, -, -, h⟩ := P.exists_marker
  intro heq
  have hsubject := congrArg CanonicalDelivery.subject (h.symm.trans heq)
  exact CanonicalSubject.forEventKind_ne event.eventKind hsubject.symm

theorem mem_deliveries : d ∈ P.deliveries ↔
    d = P.marker ∨ ∃ event ∈ P.block.events, d = P.eventDelivery event := by
  rw [deliveries, mem_cons, events_eq, mem_map]
  simp only [eq_comm]

theorem nodup_deliveries (P : Publication B K) : P.deliveries.Nodup := by
  rw [deliveries, nodup_cons, events_eq]
  refine ⟨?_, List.Nodup.map_on (fun _ h _ h' => eventDelivery_injOn h h') ?_⟩
  · intro h
    obtain ⟨event, -, heq⟩ := mem_map.mp h
    exact P.marker_ne_eventDelivery event heq.symm
  · exact List.Nodup.of_map _ P.nodup_eventIds

/-- Every delivery of a block bears its place and the digest of its payload. -/
structure Bears (P : Publication B K) (d : CanonicalDelivery) : Prop where
  blockHash : d.blockHash = P.hash
  blockHeight : d.blockHeight = P.block.blockHeight
  chainId : d.chainId = P.block.chainId.value
  publicationSha256 : K.sha256 d.payload = d.publicationSha256

theorem bears (h : d ∈ P.deliveries) : P.Bears d := by
  rcases mem_deliveries.mp h with rfl | ⟨event, -, rfl⟩
  · obtain ⟨payload, -, -, hm⟩ := P.exists_marker
    rw [hm]
    exact ⟨rfl, rfl, rfl, rfl⟩
  · exact ⟨rfl, rfl, rfl, rfl⟩

end Publication

open Publication

section Pending

variable {P : Publication B K} {own : List CanonicalDelivery} {p : PendingBlock}

/-- The pending block has what these deliveries of the publication carry. -/
structure PendingBlock.Has (P : Publication B K) (own : List CanonicalDelivery)
    (p : PendingBlock) : Prop where
  height : p.height = P.block.blockHeight
  chainId : p.chainId = P.block.chainId.value
  messageIds : p.messageIds = own.map (·.messageId)
  marker : p.marker = if P.marker ∈ own then some (.of K P.block P.receipt) else none
  events : ∀ event ∈ P.block.events,
    p.events[event.eventId.value]? = if P.eventDelivery event ∈ own then some event else none
  listed : ∀ id ∈ p.events, ∃ event ∈ P.block.events, event.eventId.value = id

theorem PendingBlock.acceptMarker_marker (hp : p.marker = none) :
    p.acceptMarker P.marker = .ok { p with marker := some (.of K P.block P.receipt) } := by
  obtain ⟨payload, hdecode, hclass, hm⟩ := P.exists_marker
  have hcommitted : ¬((of K P.block P.receipt).confirmationClass ≠
      .committedPrimary ∧ (of K P.block P.receipt).confirmationClass ≠
      .committedIndependent) := by
    rintro ⟨h₁, h₂⟩
    change P.block.confirmationClass ≠ _ at h₁ h₂
    cases h : P.block.confirmationClass <;> simp_all [ConfirmationClass.markerTag]
  rw [hm]
  refine ite_error_eq_ok.mpr ⟨by simp [hp], ite_error_eq_ok.mpr
    ⟨by simp [deliveryFor], bind_eq_ok.mpr ⟨_, mapError_eq_ok.mpr hdecode, ?_⟩⟩⟩
  exact ite_error_eq_ok.mpr ⟨by simp [deliveryFor, of],
    ite_error_eq_ok.mpr ⟨hcommitted, rfl⟩⟩

theorem PendingBlock.deliveredEvent_eventDelivery (hevent : event ∈ P.block.events) :
    deliveredEvent K (P.eventDelivery event) = .ok event := by
  have hb := belongsTo hevent
  have hdecode := decode_bytes hevent
  refine bind_eq_ok.mpr ⟨event, mapError_eq_ok.mpr hdecode, ?_⟩
  refine ite_error_eq_ok.mpr ⟨?_, rfl⟩
  simp [eventDelivery, deliveryFor, hb.blockHeight, hb.chainId]

theorem PendingBlock.accept_eventDelivery (hevent : event ∈ P.block.events) :
    p.accept K (P.eventDelivery event) =
      (if event.eventId.value ∈ p.events then .error (.decode .malformed) else .ok (),
        { p with events := p.events.insert event.eventId.value event }) := by
  have hsubject : (P.eventDelivery event).subject = .forEventKind event.eventKind := rfl
  have hne := CanonicalSubject.forEventKind_ne event.eventKind
  unfold accept
  rw [hsubject]
  cases h : CanonicalSubject.forEventKind event.eventKind with
  | blockCommitted => exact absurd h hne
  | eventFill | eventOrder | eventLedger | eventMarketMeta | eventOracle =>
    simp only [deliveredEvent_eventDelivery hevent]

theorem PendingBlock.accept_marker : p.accept K P.marker =
    match p.acceptMarker P.marker with
    | .error e => (.error e, p)
    | .ok p' => (.ok (), p') := by
  obtain ⟨payload, -, -, hm⟩ := P.exists_marker
  rw [accept, hm]
  rfl

variable (hp : p.Has P own)

include hp

theorem PendingBlock.Has.mem_events_iff (hevent : event ∈ P.block.events) :
    event.eventId.value ∈ p.events ↔ P.eventDelivery event ∈ own := by
  rw [← not_iff_not, ← getElem?_eq_none_iff_notMem, hp.events event hevent]
  simp

theorem PendingBlock.Has.accept_held (hd : d ∈ P.deliveries) (hheld : d ∈ own)
    (ids : List String) :
    (PendingBlock.accept K { p with messageIds := ids } d).1 = .error (.decode .malformed) := by
  rcases mem_deliveries.mp hd with rfl | ⟨event, hevent, rfl⟩
  · have hm : p.marker.isSome = true := by rw [hp.marker, if_pos hheld]; rfl
    have hrefused : PendingBlock.acceptMarker { p with messageIds := ids } P.marker =
        .error (.decode .malformed) := if_pos hm
    rw [accept_marker, hrefused]
  · rw [accept_eventDelivery hevent]
    exact if_pos ((hp.mem_events_iff hevent).mpr hheld)

theorem PendingBlock.Has.accept_new (hd : d ∈ P.deliveries) (hnew : d ∉ own) :
    ∃ p', PendingBlock.accept K { p with messageIds := p.messageIds ++ [d.messageId] } d =
      (.ok (), p') ∧ p'.Has P (own ++ [d]) := by
  have hids : p.messageIds ++ [d.messageId] = (own ++ [d]).map (·.messageId) := by
    rw [hp.messageIds, map_append]
    rfl
  rcases mem_deliveries.mp hd with rfl | ⟨event, hevent, rfl⟩
  · have hmarker : ({ p with messageIds := p.messageIds ++ [P.marker.messageId] } :
        PendingBlock).marker = none := by
      rw [hp.marker, if_neg hnew]
    rw [accept_marker, acceptMarker_marker hmarker]
    refine ⟨_, rfl, hp.height, hp.chainId, hids, by simp, ?_, hp.listed⟩
    intro event hevent
    have hne := P.marker_ne_eventDelivery event
    simpa [hne.symm] using hp.events event hevent
  · have hfresh : event.eventId.value ∉ p.events := by rwa [hp.mem_events_iff hevent]
    have hne := P.marker_ne_eventDelivery event
    rw [accept_eventDelivery hevent, if_neg hfresh]
    refine ⟨_, rfl, hp.height, hp.chainId, hids, by simpa [hne] using hp.marker, ?_, ?_⟩
    · intro event' hevent'
      rw [getElem?_insert_eq_ite]
      by_cases heq : event' = event
      · simp [heq]
      · have hid : event'.eventId.value ≠ event.eventId.value :=
          fun h => heq (eq_of_eventId_eq hevent' hevent h)
        have hdelivery : P.eventDelivery event' ≠ P.eventDelivery event :=
          fun h => heq (eventDelivery_injOn hevent' hevent h)
        simpa [hid, hdelivery] using hp.events event' hevent'
    · intro id hid
      rcases mem_insert.mp hid with h | h
      · exact ⟨event, hevent, Std.LawfulEqCmp.eq_of_compare h⟩
      · exact hp.listed id h

theorem PendingBlock.Has.size_events :
    p.events.size = (P.block.events.filter (P.eventDelivery · ∈ own)).length := by
  rw [← length_map (·.eventId.value)]
  refine size_eq_length (P.nodup_eventIds.sublist (filter_sublist.map _)) fun id => ?_
  rw [mem_map]
  constructor
  · intro hid
    obtain ⟨event, hevent, rfl⟩ := hp.listed id hid
    exact ⟨event, by simpa [hevent] using (hp.mem_events_iff hevent).mp hid, rfl⟩
  · rintro ⟨event, hevent, rfl⟩
    obtain ⟨hevent, hown⟩ := mem_filter.mp hevent
    exact (hp.mem_events_iff hevent).mpr (by simpa using hown)

theorem PendingBlock.Has.build
    (hall : ∀ event ∈ P.block.events, P.eventDelivery event ∈ own) :
    p.build B K (.of K P.block P.receipt) = .ok P.block := by
  have hevents : (of K P.block P.receipt).events.mapM (p.verifiedEvent K) =
      .ok P.block.events := by
    rw [mapM_eq_ok]
    refine forall₂_map_left_iff.mpr (forall₂_same.mpr ?_)
    intro event hevent
    refine bind_eq_ok.mpr ⟨event, ?_, bind_eq_ok.mpr ⟨K.bytes event, ?_, ?_⟩⟩
    · rw [ofOption_eq_ok]
      exact (hp.events event hevent).trans (if_pos (hall event hevent))
    · rw [mapError_eq_ok]
      exact encodeEventPayload_eq hevent
    · exact ite_error_eq_ok.mpr ⟨by simp [MarkerEvent.of], rfl⟩
  refine bind_eq_ok.mpr ⟨_, hevents, bind_eq_ok.mpr ⟨P.block, ?_, ?_⟩⟩
  · refine mapError_eq_ok.mpr ((dif_pos P.block.sourced).trans ?_)
    split
    next => rfl
    next e he => cases P.block.events_valid.symm.trans he
  · exact ite_error_eq_ok.mpr ⟨by simp [of], rfl⟩

theorem PendingBlock.Has.assemble :
    p.assemble B K = .ok (if ∀ d ∈ P.deliveries, d ∈ own then some P.block else none) := by
  have hcomplete : (∀ d ∈ P.deliveries, d ∈ own) ↔
      P.marker ∈ own ∧ ∀ event ∈ P.block.events, P.eventDelivery event ∈ own := by
    simp [deliveries, events_eq]
  unfold PendingBlock.assemble
  by_cases hm : P.marker ∈ own
  · have hsize := hp.size_events
    have hle := length_filter_le (P.eventDelivery · ∈ own) P.block.events
    have hlength : (of K P.block P.receipt).events.length =
        P.block.events.length := length_map _
    have hlisted : ¬(p.events.keys.any fun id =>
        (of K P.block P.receipt).events.all (·.eventId ≠ id)) = true := by
      simp only [any_eq_true, all_eq_true, not_exists, not_and, Std.ExtTreeMap.mem_keys]
      intro id hid hne
      obtain ⟨event, hevent, rfl⟩ := hp.listed id hid
      simpa [MarkerEvent.of] using hne _ (mem_map_of_mem hevent)
    simp only [hp.marker, if_pos hm]
    rw [if_neg (by omega), if_neg hlisted]
    by_cases hall : ∀ event ∈ P.block.events, P.eventDelivery event ∈ own
    · have heq : P.block.events.filter (P.eventDelivery · ∈ own) = P.block.events :=
        filter_eq_self.mpr (by simpa using hall)
      rw [if_neg (by rw [hsize, heq, hlength]; exact not_not.mpr rfl), hp.build hall,
        if_pos (hcomplete.mpr ⟨hm, hall⟩)]
      rfl
    · have hne : (P.block.events.filter (P.eventDelivery · ∈ own)).length ≠
          P.block.events.length := by
        intro h
        exact hall (by simpa using filter_eq_self.mp (filter_sublist.eq_of_length h))
      rw [if_pos (by omega), if_neg (fun h => hall (hcomplete.mp h).2)]
  · rw [hp.marker, if_neg hm, if_neg (fun h => hm (hcomplete.mp h).1)]

end Pending

section Held

/-- Of the deliveries held, those of the publication's block. -/
def Publication.own (P : Publication B K) (held : List CanonicalDelivery) :
    List CanonicalDelivery :=
  held.filter (·.blockHash = P.hash)

def Publication.CompleteIn (P : Publication B K) (held : List CanonicalDelivery) : Prop :=
  ∀ d ∈ P.deliveries, d ∈ held

instance (P : Publication B K) (held : List CanonicalDelivery) : Decidable (P.CompleteIn held) :=
  inferInstanceAs (Decidable (∀ d ∈ P.deliveries, d ∈ held))

def pendingCount (Ps : List (Publication B K)) (held : List CanonicalDelivery) : ℕ :=
  Ps.countP fun P => P.own held ≠ []

/-- The assembler has what these deliveries of the publications carry. -/
structure BlockAssembler.Holds (Ps : List (Publication B K)) (held : List CanonicalDelivery)
    (s : BlockAssembler) : Prop where
  absent : ∀ P ∈ Ps, P.own held = [] → s.pending[P.hash]? = none
  present : ∀ P ∈ Ps, P.own held ≠ [] →
    ∃ p, s.pending[P.hash]? = some p ∧ p.Has P (P.own held)
  known : ∀ h ∈ s.pending, ∃ P ∈ Ps, P.hash = h

variable {Ps : List (Publication B K)} {P Q : Publication B K} {held held' : List CanonicalDelivery}
  {s : BlockAssembler}

theorem Publication.mem_own (hd : d ∈ P.deliveries) : d ∈ P.own held ↔ d ∈ held := by
  simp [own, (bears hd).blockHash]

theorem Publication.own_concat (hd : d ∈ P.deliveries) :
    P.own (held ++ [d]) = P.own held ++ [d] := by
  simp [own, (bears hd).blockHash]

theorem Publication.own_concat_of_ne (hd : d ∈ P.deliveries) (hne : Q.hash ≠ P.hash) :
    Q.own (held ++ [d]) = Q.own held := by
  have := (bears hd).blockHash
  simp [own, this, hne.symm]

theorem Publication.own_filter_ne (hne : Q.hash ≠ P.hash) :
    Q.own (held.filter (·.blockHash ≠ P.hash)) = Q.own held := by
  rw [own, own, filter_filter]
  refine filter_congr fun d _ => ?_
  by_cases h : d.blockHash = Q.hash
  · simp [h, hne]
  · simp [h]

theorem BlockAssembler.holds_new (Ps : List (Publication B K)) :
    new.Holds Ps [] where
  absent := by simp [new]
  present := by simp [own]
  known := by simp [new]

/-- What is held behind a delivery of the block: nothing of it once it is complete. -/
def Publication.settle (P : Publication B K) (held : List CanonicalDelivery) :
    List CanonicalDelivery :=
  if P.CompleteIn held then held.filter (·.blockHash ≠ P.hash) else held

theorem Publication.completeIn_own : (∀ d ∈ P.deliveries, d ∈ P.own held) ↔ P.CompleteIn held :=
  forall₂_congr fun _ hd => mem_own hd

variable (hs : s.Holds Ps held) (hPs : (Ps.map Publication.hash).Nodup) (hP : P ∈ Ps)

include hs hPs

theorem BlockAssembler.Holds.size : s.pending.size = pendingCount Ps held := by
  rw [pendingCount, countP_eq_length_filter, ← length_map Publication.hash]
  refine size_eq_length (hPs.sublist (filter_sublist.map _)) fun h => ?_
  rw [mem_map]
  constructor
  · intro hmem
    obtain ⟨P, hP, rfl⟩ := hs.known h hmem
    refine ⟨P, mem_filter.mpr ⟨hP, ?_⟩, rfl⟩
    rw [decide_eq_true_iff]
    intro hown
    exact getElem?_eq_none_iff_notMem.mp (hs.absent P hP hown) hmem
  · rintro ⟨P, hP, rfl⟩
    obtain ⟨hP, hown⟩ := mem_filter.mp hP
    obtain ⟨p, hp, -⟩ := hs.present P hP (by simpa using hown)
    exact mem_iff_getElem?.mpr ⟨p, hp⟩

include hP

theorem BlockAssembler.Holds.insert {p : PendingBlock} (hp : p.Has P (P.own held'))
    (hne : P.own held' ≠ []) (hothers : ∀ Q ∈ Ps, Q.hash ≠ P.hash → Q.own held' = Q.own held) :
    BlockAssembler.Holds Ps held' ⟨s.pending.insert P.hash p⟩ where
  absent Q hQ hown := by
    have hQP : Q.hash ≠ P.hash := by
      intro h
      rw [inj_on_of_nodup_map hPs hQ hP h] at hown
      exact hne hown
    rw [getElem?_insert_eq_ite, if_neg hQP]
    exact hs.absent Q hQ (by rw [← hothers Q hQ hQP, hown])
  present Q hQ hown := by
    rw [getElem?_insert_eq_ite]
    by_cases hQP : Q.hash = P.hash
    · obtain rfl := inj_on_of_nodup_map hPs hQ hP hQP
      exact ⟨p, if_pos rfl, hp⟩
    · rw [if_neg hQP]
      rw [hothers Q hQ hQP] at hown ⊢
      exact hs.present Q hQ hown
  known h hmem := by
    rcases mem_insert.mp hmem with heq | hmem
    · exact ⟨P, hP, Std.LawfulEqCmp.eq_of_compare heq⟩
    · exact hs.known h hmem

theorem BlockAssembler.Holds.erase (hnil : P.own held' = [])
    (hothers : ∀ Q ∈ Ps, Q.hash ≠ P.hash → Q.own held' = Q.own held) :
    BlockAssembler.Holds Ps held' ⟨s.pending.erase P.hash⟩ where
  absent Q hQ hown := by
    rw [getElem?_erase]
    split
    · rfl
    next hQP =>
      have hne : Q.hash ≠ P.hash := fun h => hQP (by rw [h]; exact Std.ReflCmp.compare_self)
      exact hs.absent Q hQ (by rw [← hothers Q hQ hne, hown])
  present Q hQ hown := by
    have hQP : Q.hash ≠ P.hash := by
      intro h
      rw [inj_on_of_nodup_map hPs hQ hP h] at hown
      exact hown hnil
    rw [getElem?_erase,
      if_neg fun h => hQP (Std.LawfulEqCmp.eq_of_compare h).symm]
    rw [hothers Q hQ hQP] at hown ⊢
    exact hs.present Q hQ hown
  known h hmem := hs.known h (mem_erase.mp hmem).2

variable (hd : d ∈ P.deliveries)

include hd

theorem BlockAssembler.Holds.push_full (hown : P.own held = [])
    (hfull : maxPendingBlocks ≤ pendingCount Ps held) :
    s.push B K d = (.error .pendingLimit, s) := by
  have hb := bears hd
  have hnew : d.blockHash ∉ s.pending := by
    rw [hb.blockHash]
    exact getElem?_eq_none_iff_notMem.mp (hs.absent P hP hown)
  rw [push, if_neg (not_not.mpr hb.publicationSha256),
    if_pos ⟨hnew, by rwa [hs.size hPs]⟩]

theorem BlockAssembler.Holds.push_eq
    (hroom : P.own held ≠ [] ∨ pendingCount Ps held < maxPendingBlocks) :
    ∃ p : PendingBlock, p.Has P (P.own held) ∧ s.push B K d = s.conclude B K P.hash
      (PendingBlock.accept K { p with messageIds := p.messageIds ++ [d.messageId] } d) := by
  have hb := bears hd
  have hsize := hs.size hPs
  have hentry : (s.pending[P.hash]?.getD (.new d)).Has P (P.own held) := by
    by_cases hown : P.own held = []
    · rw [hs.absent P hP hown, hown]
      exact ⟨hb.blockHeight, hb.chainId, rfl, by simp [PendingBlock.new],
        by simp [PendingBlock.new], by simp [PendingBlock.new]⟩
    · obtain ⟨p, hp, hhas⟩ := hs.present P hP hown
      rw [hp]
      exact hhas
  have hlimit : ¬(d.blockHash ∉ s.pending ∧ maxPendingBlocks ≤ s.pending.size) := by
    rintro ⟨hnew, hfull⟩
    rcases hroom with hown | hlt
    · obtain ⟨p, hp, -⟩ := hs.present P hP hown
      rw [hb.blockHash, ← getElem?_eq_none_iff_notMem, hp] at hnew
      cases hnew
    · omega
  refine ⟨_, hentry, ?_⟩
  rw [push, if_neg (not_not.mpr hb.publicationSha256), if_neg hlimit]
  rw [hb.blockHash, if_neg (by
    rw [hentry.height, hentry.chainId, hb.blockHeight, hb.chainId]
    simp)]

theorem BlockAssembler.Holds.push_held (hheld : d ∈ held) :
    (s.push B K d).1 = .error (.decode .malformed) := by
  have hown : d ∈ P.own held := (mem_own hd).mpr hheld
  obtain ⟨p, hp, hpush⟩ := hs.push_eq hPs hP hd (.inl (ne_nil_of_mem hown))
  have hrefused := hp.accept_held hd hown (p.messageIds ++ [d.messageId])
  rw [hpush]
  generalize PendingBlock.accept K { p with messageIds := p.messageIds ++ [d.messageId] } d = reply
    at hrefused
  obtain ⟨_, p'⟩ := reply
  obtain rfl := hrefused
  rfl

theorem BlockAssembler.Holds.push_new (hnew : d ∉ held)
    (hroom : P.own held ≠ [] ∨ pendingCount Ps held < maxPendingBlocks) :
    (s.push B K d).1 = .ok (if P.CompleteIn (held ++ [d]) then
      some ⟨P.block, (P.own (held ++ [d])).map (·.messageId)⟩ else none) ∧
    (s.push B K d).2.Holds Ps (P.settle (held ++ [d])) := by
  obtain ⟨p, hp, hpush⟩ := hs.push_eq hPs hP hd hroom
  obtain ⟨p', haccept, hp'⟩ := hp.accept_new hd (by rwa [mem_own hd])
  rw [← own_concat hd] at hp'
  have hothers : ∀ Q ∈ Ps, Q.hash ≠ P.hash → Q.own (held ++ [d]) = Q.own held :=
    fun Q _ hne => own_concat_of_ne hd hne
  have hassemble := hp'.assemble
  rw [hpush, haccept]
  simp only [conclude, hassemble, completeIn_own]
  by_cases hc : P.CompleteIn (held ++ [d])
  · simp only [if_pos hc, settle, hp'.messageIds, true_and]
    refine hs.erase hPs hP ?_ ?_
    · simp [own, filter_filter]
    · intro Q hQ hne
      rw [← hothers Q hQ hne]
      exact own_filter_ne hne
  · simp only [if_neg hc, settle, true_and]
    refine hs.insert hPs hP hp' ?_ hothers
    rw [own_concat hd]
    simp

end Held

end AlphaDesk
