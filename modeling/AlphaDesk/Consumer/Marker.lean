import AlphaDesk.Bus.Message

/-! # Markers of committed blocks

The consumer reads the marker of a committed block back field by field, each text
under the identity rule. A marker that was written for a block with admissible
identities is read back as what the block holds.
-/

namespace AlphaDesk

open Bytes Except List

/-- The subjects that the consumer of committed blocks reads. -/
inductive CanonicalSubject
  | blockCommitted
  | eventFill
  | eventOrder
  | eventLedger
  | eventMarketMeta
  | eventOracle
  deriving DecidableEq

inductive BlockMarkerError
  | malformed
  | unsupportedSchema
  | notCommitted
  | unexpectedSubject
  | provisional
  | payloadSize
  | invalidIdentity

namespace CanonicalSubject

def parse : String → Except BlockMarkerError CanonicalSubject
  | "hl.v1.block.committed" => .ok blockCommitted
  | "hl.v1.event.fill" => .ok eventFill
  | "hl.v1.event.order" => .ok eventOrder
  | "hl.v1.event.ledger" => .ok eventLedger
  | "hl.v1.event.market_meta" => .ok eventMarketMeta
  | "hl.v1.event.oracle" => .ok eventOracle
  | "hl.v1.block.provisional" | "hl.v1.snapshot.account" | "hl.v1.snapshot.market"
  | "hl.v1.snapshot.ecosystem" => .error .provisional
  | _ => .error .unexpectedSubject

/-- The subject of a kind of event, as the consumer expects it. -/
def forEventKind : EventKind → CanonicalSubject
  | .orderPartiallyFilled | .orderFilled | .twapSliceFilled | .tradeMatched | .liquidationFill
  | .backstopLiquidation => eventFill
  | .orderAccepted | .orderRested | .orderModified | .orderCancelled | .nonUserOrderCancelled
  | .orderRejected | .triggerOrderActivated | .twapStarted | .twapCompleted => eventOrder
  | .oracleUpdated | .fundingRateUpdated => eventOracle
  | .marketHalted | .marketResumed | .openInterestCapChanged | .marginTableChanged
  | .marketCreated | .marketMetadataChanged | .assetContextUpdated | .dexCreated
  | .outcomeCreated | .outcomeResolved => eventMarketMeta
  | .depositCredited | .withdrawalDebited | .spotTransfer | .perpTransfer | .subaccountTransfer
  | .vaultDeposit | .vaultWithdrawal | .feeCharged | .builderFeeCharged | .fundingPaid
  | .fundingReceived | .referralReward | .accountModeChanged | .marginModeChanged
  | .leverageChanged | .liquidationStarted | .positionSettled | .internalTransfer
  | .accountClassTransfer | .vaultCreated | .vaultDistribution | .vaultLeaderCommissionPaid
  | .rewardClaimed | .spotGenesisApplied | .stakingDeposit | .stakingDelegated
  | .stakingUndelegated | .stakingWithdrawalQueued | .stakingWithdrawalCompleted
  | .validatorRewardPaid => eventLedger

theorem forEventKind_ne (k : EventKind) : forEventKind k ≠ blockCommitted := by
  cases k <;> decide

end CanonicalSubject

structure MarkerEvent where
  eventId : String
  eventKind : EventKind
  payloadHash : Hash32
  envelopeSha256 : Hash32

structure CommittedBlockMarker where
  chainId : ChainId
  blockHeight : BlockHeight
  blockTime : ProtocolTime
  confirmationClass : ConfirmationClass
  canonicalBlockHash : Hash32
  archiveReceiptId : String
  archiveManifestId : String
  archiveManifestSha256 : Hash32
  schemaFingerprint : Hash32
  sourceBlockHashes : Std.ExtTreeMap SourceId Hash32
  events : List MarkerEvent

variable {B : Blake3}

def validatePayloadSize (actual : ℕ) : Except BlockMarkerError Unit :=
  if actual = 0 ∨ maxPublicationPayloadBytes < actual then .error .payloadSize else .ok ()

def encodeCommittedBlockMarker (K : EnvelopeCodec) (block : BlockEnvelope B)
    (receipt : ArchiveReceipt) : Except BlockMarkerError (List UInt8) := do
  if receipt.blockHeight ≠ block.blockHeight ∨
      receipt.canonicalBlockHash ≠ block.canonicalBlockHash then
    throw .malformed
  let output ← encodeMarker K .notCommitted .malformed block receipt
  validatePayloadSize output.length
  return output

def encodeEventPayload (K : EnvelopeCodec) (event : CanonicalEventEnvelope) :
    Except BlockMarkerError (List UInt8) := do
  let payload ← (K.encodeToVec event).mapError fun _ => .malformed
  validatePayloadSize payload.length
  return payload

section Decode

open ByteReader

abbrev MarkerReader (α : Type) := ByteReader BlockMarkerError α

def readCounted : MarkerReader (List UInt8) := do
  let length ← bigEndian .malformed 8
  take .malformed length

def readUtf8 : MarkerReader String := do
  let bytes ← readCounted
  let value ← liftM (Except.ofOption BlockMarkerError.malformed (fromUtf8 bytes))
  if validIdentity value = false then throw .invalidIdentity else return value

def readMarkerSchema : MarkerReader Unit := do
  let schema ← readUtf8
  if schema ≠ blockMarkerSchemaV1 then throw .unsupportedSchema else return ()

def readStringId : MarkerReader StringId := do
  let text ← readUtf8
  liftM ((StringId.new text).mapError fun _ => BlockMarkerError.malformed)

def readBlockHeight : MarkerReader BlockHeight := do
  let height ← bigEndian .malformed 8
  return UInt64.ofNat height

def readBlockTime : MarkerReader ProtocolTime := do
  let micros ← bigEndian .malformed 8
  liftM ((ProtocolTime.fromUnixMicros (twosComplement 64 micros)).mapError
    fun _ => BlockMarkerError.malformed)

def readConfirmationClass : MarkerReader ConfirmationClass := do
  let tag ← byte .malformed
  if tag = 2 then return .committedPrimary
  else if tag = 3 then return .committedIndependent
  else throw .notCommitted

/-- The loop over the sources, which must be distinct. -/
def readSources : ℕ → Std.ExtTreeMap SourceId Hash32 →
    MarkerReader (Std.ExtTreeMap SourceId Hash32)
  | 0, hashes => return hashes
  | n + 1, hashes => do
    let source ← readStringId
    let hash ← hash32 .malformed
    if source ∈ hashes then throw .malformed else readSources n (hashes.insert source hash)

def readMarkerEvent : MarkerReader MarkerEvent := do
  let eventId ← readUtf8
  let kindName ← readUtf8
  let eventKind ← liftM (Except.ofOption BlockMarkerError.malformed (EventKind.ofWireName kindName))
  let payloadHash ← hash32 .malformed
  let envelopeSha256 ← hash32 .malformed
  return ⟨eventId, eventKind, payloadHash, envelopeSha256⟩

def readMarker : MarkerReader CommittedBlockMarker := do
  readMarkerSchema
  let chainId ← readStringId
  let blockHeight ← readBlockHeight
  let blockTime ← readBlockTime
  let confirmationClass ← readConfirmationClass
  let canonicalBlockHash ← hash32 .malformed
  let archiveReceiptId ← readUtf8
  let archiveManifestId ← readUtf8
  let archiveManifestSha256 ← hash32 .malformed
  let schemaFingerprint ← hash32 .malformed
  let sourceCount ← bigEndian .malformed 8
  let sourceBlockHashes ← readSources sourceCount ∅
  let eventCount ← bigEndian .malformed 8
  let events ← repeated readMarkerEvent eventCount
  return ⟨chainId, blockHeight, blockTime, confirmationClass, canonicalBlockHash,
    archiveReceiptId, archiveManifestId, archiveManifestSha256, schemaFingerprint,
    sourceBlockHashes, events⟩

def decodeCommittedBlockMarker (bytes : List UInt8) :
    Except BlockMarkerError CommittedBlockMarker :=
  complete .malformed readMarker bytes

end Decode

section RoundTrip

open ByteReader

variable {K : EnvelopeCodec} {block : BlockEnvelope B} {receipt : ArchiveReceipt}

theorem length_of_validIdentity {s : String} (h : validIdentity s = true) :
    (utf8 s).length ≤ 512 := by
  simp only [validIdentity, Bool.and_eq_true, decide_eq_true_eq] at h
  exact h.1.2

theorem yields_readCounted {bytes : List UInt8} (h : bytes.length < 2 ^ 64) :
    Yields readCounted (frame bytes) bytes :=
  (Yields.bigEndian _ h).bind (Yields.take _ bytes)

theorem yields_readUtf8 {s : String} (h : validIdentity s = true) :
    Yields readUtf8 (frame (utf8 s)) s := by
  have hlen := length_of_validIdentity h
  have htext : Except.ofOption BlockMarkerError.malformed (fromUtf8 (utf8 s)) = .ok s := by
    rw [fromUtf8_utf8, ofOption_some]
  exact (yields_readCounted (by omega)).bind_return
    ((Yields.lift htext).bind_nil (.check (by simp [h]) (.pure s)))

theorem yields_readStringId {i : StringId} (h : validIdentity i.value = true) :
    Yields readStringId (frame i.asBytes) i := by
  refine (yields_readUtf8 h).bind_return (.lift ?_)
  rw [StringId.new_value]
  rfl

theorem yields_readMarkerSchema :
    Yields readMarkerSchema (frame (utf8 blockMarkerSchemaV1)) () :=
  (yields_readUtf8 (by decide +kernel)).bind_return (.check (by simp) (.pure ()))

theorem yields_readBlockHeight (h : BlockHeight) :
    Yields readBlockHeight (beBytes 8 h.toNat) h := by
  refine (Yields.bigEndian _ h.toNat_lt).bind_return ?_
  rw [UInt64.ofNat_toNat]
  exact .pure h

theorem yields_readBlockTime (t : ProtocolTime) :
    Yields readBlockTime (beBytes 8 t.unixMicros) t := by
  have ht := t.lt
  refine (Yields.bigEndian _ (by omega)).bind_return (.lift ?_)
  rw [twosComplement_of_lt ht, ProtocolTime.fromUnixMicros, dif_pos (by omega)]
  rfl

theorem yields_readConfirmationClass {c : ConfirmationClass} {tag : UInt8}
    (h : c.markerTag = some tag) : Yields readConfirmationClass [tag] c := by
  refine (Yields.byte _ tag).bind_return ?_
  cases c <;> cases h <;> exact .pure _

theorem yields_readSources {sources : List (SourceId × Hash32)}
    {hashes hashes' : Std.ExtTreeMap SourceId Hash32}
    (hvalid : ∀ s ∈ sources, validIdentity s.1.value = true)
    (hlist : hashes'.toList = hashes.toList ++ sources) :
    Yields (readSources sources.length hashes) (sources.flatMap encodeMarkerSource) hashes' := by
  induction sources generalizing hashes with
  | nil =>
    obtain rfl : hashes' = hashes := Std.ExtTreeMap.toList_inj.mp (by simpa using hlist)
    exact .pure _
  | cons s sources ih =>
    -- the sources come in order, so each is new to those that were read
    obtain ⟨hfresh, hnext⟩ := Std.ExtTreeMap.insert_of_toList_eq hlist
    have hs := hvalid s mem_cons_self
    rw [flatMap_cons, encodeMarkerSource, append_assoc]
    refine (yields_readStringId hs).bind ((Yields.hash32 _ s.2).bind (.check hfresh ?_))
    exact ih (fun s' hs' => hvalid s' (mem_cons_of_mem s hs')) hnext

theorem validIdentity_asWireName (k : EventKind) : validIdentity k.asWireName = true := by
  cases k <;> decide +kernel

def MarkerEvent.encode (m : MarkerEvent) : List UInt8 :=
  frame (utf8 m.eventId) ++ (frame (utf8 m.eventKind.asWireName) ++
    (m.payloadHash.toList ++ m.envelopeSha256.toList))

theorem yields_readMarkerEvent {m : MarkerEvent} (h : validIdentity m.eventId = true) :
    Yields readMarkerEvent m.encode m := by
  have hkind : Except.ofOption BlockMarkerError.malformed
      (EventKind.ofWireName m.eventKind.asWireName) = .ok m.eventKind := by
    rw [EventKind.ofWireName_asWireName, ofOption_some]
  exact (yields_readUtf8 h).bind ((yields_readUtf8 (validIdentity_asWireName _)).bind
    ((Yields.lift hkind).bind_nil ((Yields.hash32 _ _).bind
      ((Yields.hash32 _ _).bind_return (.pure m)))))

/-- The bytes of an event's envelope, for an event that has some. -/
def EnvelopeCodec.bytes (K : EnvelopeCodec) (event : CanonicalEventEnvelope) : List UInt8 :=
  (K.encodeToVec event).toOption.getD []

def MarkerEvent.of (K : EnvelopeCodec) (event : CanonicalEventEnvelope) : MarkerEvent :=
  ⟨event.eventId.value, event.eventKind, event.payloadHash, K.sha256 (K.bytes event)⟩

def CommittedBlockMarker.of (K : EnvelopeCodec) (block : BlockEnvelope B)
    (receipt : ArchiveReceipt) : CommittedBlockMarker where
  chainId := block.chainId
  blockHeight := block.blockHeight
  blockTime := block.blockTime
  confirmationClass := block.confirmationClass
  canonicalBlockHash := block.canonicalBlockHash
  archiveReceiptId := receipt.receiptId
  archiveManifestId := receipt.manifestId.value
  archiveManifestSha256 := receipt.manifestSha256
  schemaFingerprint := receipt.schemaFingerprint
  sourceBlockHashes := block.sourceBlockHashes
  events := block.events.map (MarkerEvent.of K)

/-- The identities that a marker holds obey the consumer's rule. -/
structure AdmissibleIds (block : BlockEnvelope B) (receipt : ArchiveReceipt) : Prop where
  chainId : validIdentity block.chainId.value = true
  receiptId : validIdentity receipt.receiptId = true
  manifestId : validIdentity receipt.manifestId.value = true
  sources : ∀ source ∈ block.sourceBlockHashes.toList, validIdentity source.1.value = true
  events : ∀ event ∈ block.events, validIdentity event.eventId.value = true

theorem bytes_of_encodeToVec {event : CanonicalEventEnvelope} {bytes : List UInt8}
    (h : K.encodeToVec event = .ok bytes) : K.bytes event = bytes := by
  rw [EnvelopeCodec.bytes, h]
  rfl

theorem mapM_encodeMarkerEvent {ε : Type} {codecError : ε} {events : List CanonicalEventEnvelope}
    {encoded : List (List UInt8)}
    (h : events.mapM (encodeMarkerEvent K codecError) = .ok encoded) :
    encoded.flatten = (events.map (MarkerEvent.of K)).flatMap MarkerEvent.encode := by
  have hall := mapM_eq_ok.mp h
  induction hall with
  | nil => rfl
  | cons hevent _ ih =>
    obtain ⟨bytes, hbytes, hevent⟩ := of_bind hevent
    rw [flatten_cons, map_cons, flatMap_cons, ih (mapM_eq_ok.mpr ‹_›),
      ← ok.inj hevent, MarkerEvent.of, bytes_of_encodeToVec (mapError_eq_ok.mp hbytes)]
    rfl

theorem encodeMarker_eq_ok {ε : Type} {notCommitted codecError : ε} {bytes : List UInt8}
    (h : encodeMarker K notCommitted codecError block receipt = .ok bytes) :
    ∃ tag, block.confirmationClass.markerTag = some tag ∧
      bytes = encodeMarkerHead block receipt tag ++
        (block.events.map (MarkerEvent.of K)).flatMap MarkerEvent.encode := by
  unfold encodeMarker at h
  split at h
  next => cases h
  next tag htag =>
    obtain ⟨encoded, hencoded, h⟩ := of_bind h
    exact ⟨tag, htag, by rw [← ok.inj h, mapM_encodeMarkerEvent hencoded]⟩

theorem encodeCommittedBlockMarker_eq_ok {bytes : List UInt8}
    (h : encodeCommittedBlockMarker K block receipt = .ok bytes) :
    ∃ tag, block.confirmationClass.markerTag = some tag ∧
      bytes = encodeMarkerHead block receipt tag ++
        (block.events.map (MarkerEvent.of K)).flatMap MarkerEvent.encode ∧
      bytes.length ≤ maxPublicationPayloadBytes := by
  obtain ⟨-, h⟩ := of_check h
  obtain ⟨output, houtput, h⟩ := of_bind h
  obtain ⟨_, hsize, h⟩ := of_bind h
  obtain rfl := ok.inj h
  obtain ⟨hsize, -⟩ := of_check hsize
  obtain ⟨tag, htag, hbytes⟩ := encodeMarker_eq_ok houtput
  exact ⟨tag, htag, hbytes, by omega⟩

theorem encodeMarkerSource_ne_nil (source : SourceId × Hash32) :
    encodeMarkerSource source ≠ [] := by
  intro h
  have := congrArg length h
  simp [encodeMarkerSource] at this

theorem MarkerEvent.encode_ne_nil (m : MarkerEvent) : m.encode ≠ [] := by
  intro h
  have := congrArg length h
  simp [MarkerEvent.encode] at this

theorem decode_encodeCommittedBlockMarker {bytes : List UInt8}
    (hids : AdmissibleIds block receipt)
    (h : encodeCommittedBlockMarker K block receipt = .ok bytes) :
    decodeCommittedBlockMarker bytes = .ok (.of K block receipt) := by
  obtain ⟨tag, htag, rfl, hsize⟩ := encodeCommittedBlockMarker_eq_ok h
  have hmax : maxPublicationPayloadBytes < 256 ^ 8 := by decide
  have hsources := length_le_length_flatMap encodeMarkerSource_ne_nil
    block.sourceBlockHashes.toList
  have hevents := length_le_length_flatMap MarkerEvent.encode_ne_nil
    (block.events.map (MarkerEvent.of K))
  simp only [encodeMarkerHead, length_append, length_cons, length_map,
    Std.ExtTreeMap.length_toList] at hsize hsources hevents
  have hread : Yields (repeated readMarkerEvent (block.events.map (MarkerEvent.of K)).length)
      ((block.events.map (MarkerEvent.of K)).flatMap MarkerEvent.encode)
      (block.events.map (MarkerEvent.of K)) := by
    apply Yields.repeated
    intro m hm
    obtain ⟨event, hevent, rfl⟩ := mem_map.mp hm
    exact yields_readMarkerEvent (hids.events event hevent)
  have hhashes : Yields (readSources block.sourceBlockHashes.toList.length ∅)
      (block.sourceBlockHashes.toList.flatMap encodeMarkerSource) block.sourceBlockHashes :=
    yields_readSources hids.sources (by simp)
  rw [length_map] at hread
  rw [Std.ExtTreeMap.length_toList] at hhashes
  apply Yields.complete
  simp only [encodeMarkerHead, append_assoc, cons_append]
  refine yields_readMarkerSchema.bind ((yields_readStringId hids.chainId).bind
    ((yields_readBlockHeight _).bind ((yields_readBlockTime _).bind
      ((yields_readConfirmationClass htag).bind ((Yields.hash32 _ _).bind
        ((yields_readUtf8 hids.receiptId).bind ((yields_readUtf8 hids.manifestId).bind
          ((Yields.hash32 _ _).bind ((Yields.hash32 _ _).bind ((Yields.bigEndian _ ?_).bind
            (hhashes.bind ((Yields.bigEndian _ ?_).bind (hread.bind_return (.pure _))))))))))))))
  · omega
  · omega

end RoundTrip

end AlphaDesk
