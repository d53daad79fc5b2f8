import AlphaDesk.Archive.Port
import AlphaDesk.Events.Identity
import AlphaDesk.State.Image

/-! # The messages of a committed block

A committed block is published as a marker, which lists what the block holds, and
one message for each event, all bound to the archive's receipt of the block. Each
message has a subject, which belongs to one stream. SHA-256 and the codec of event
envelopes are parameters.
-/

namespace AlphaDesk

open Bytes

def maxIdentityBytes : ℕ := 512

/-- The rule for identities that the bus, the journal and the consumer share. -/
def validIdentity (value : String) : Bool :=
  !value.isEmpty && trim value == value && decide ((utf8 value).length ≤ maxIdentityBytes) &&
    !value.toList.any isControl

/-- The journal's grammar of subjects: nonempty parts of lowercase letters and digits. -/
def validSubject (value : String) : Bool :=
  validIdentity value && !(value.toList.splitOn '.').any List.isEmpty &&
    (utf8 value).all fun byte => isAsciiLowercase byte || isAsciiDigit byte || byte == 46

def validStream (value : String) : Bool :=
  validIdentity value &&
    (utf8 value).all fun byte => isAsciiUppercase byte || isAsciiDigit byte || byte == 95

def toAsciiLowercase (value : String) : String := String.ofList (value.toList.map Char.toLower)

inductive Subject
  | blockCommitted
  | blockProvisional
  | eventFill
  | eventOrder
  | eventLedger
  | eventMarketMeta
  | eventOracle
  | snapshotAccount
  | snapshotMarket
  | snapshotEcosystem
  | stateAccountDelta
  | stateBookDelta
  | featureWallet
  | featureEntity
  | featureMarket
  | signalCandidate
  | signalLive
  | signalResolved
  | healthData
  | healthSource
  | healthModel
  deriving DecidableEq

namespace Subject

def asStr : Subject → String
  | blockCommitted => "hl.v1.block.committed"
  | blockProvisional => "hl.v1.block.provisional"
  | eventFill => "hl.v1.event.fill"
  | eventOrder => "hl.v1.event.order"
  | eventLedger => "hl.v1.event.ledger"
  | eventMarketMeta => "hl.v1.event.market_meta"
  | eventOracle => "hl.v1.event.oracle"
  | snapshotAccount => "hl.v1.snapshot.account"
  | snapshotMarket => "hl.v1.snapshot.market"
  | snapshotEcosystem => "hl.v1.snapshot.ecosystem"
  | stateAccountDelta => "hl.v1.state.account_delta"
  | stateBookDelta => "hl.v1.state.book_delta"
  | featureWallet => "hl.v1.feature.wallet"
  | featureEntity => "hl.v1.feature.entity"
  | featureMarket => "hl.v1.feature.market"
  | signalCandidate => "hl.v1.signal.candidate"
  | signalLive => "hl.v1.signal.live"
  | signalResolved => "hl.v1.signal.resolved"
  | healthData => "hl.v1.health.data"
  | healthSource => "hl.v1.health.source"
  | healthModel => "hl.v1.health.model"

def stream : Subject → String
  | blockCommitted | blockProvisional | eventFill | eventOrder | eventLedger | eventMarketMeta
  | eventOracle | snapshotAccount | snapshotMarket | snapshotEcosystem => "HL_CANONICAL"
  | stateAccountDelta | stateBookDelta => "HL_STATE"
  | featureWallet | featureEntity | featureMarket => "HL_FEATURE"
  | signalCandidate | signalLive | signalResolved => "HL_SIGNAL"
  | healthData | healthSource | healthModel => "HL_HEALTH"

theorem asStr_injective : Function.Injective asStr := by
  intro s t h
  cases s <;> cases t <;> simp_all [asStr]

/-- The journal refuses the subjects that hold an underscore, and no other. -/
theorem validSubject_asStr (s : Subject) : validSubject s.asStr = true ↔
    s ≠ eventMarketMeta ∧ s ≠ stateAccountDelta ∧ s ≠ stateBookDelta := by
  cases s <;> decide +kernel

theorem validStream_stream (s : Subject) : validStream s.stream = true := by
  cases s <;> decide +kernel

end Subject

def subjectForEventKind : EventKind → Subject
  | .orderPartiallyFilled | .orderFilled | .twapSliceFilled | .tradeMatched | .liquidationFill
  | .backstopLiquidation => .eventFill
  | .orderAccepted | .orderRested | .orderModified | .orderCancelled | .nonUserOrderCancelled
  | .orderRejected | .triggerOrderActivated | .twapStarted | .twapCompleted => .eventOrder
  | .oracleUpdated | .fundingRateUpdated => .eventOracle
  | .marketHalted | .marketResumed | .openInterestCapChanged | .marginTableChanged
  | .marketCreated | .marketMetadataChanged | .assetContextUpdated | .dexCreated
  | .outcomeCreated | .outcomeResolved => .eventMarketMeta
  | .depositCredited | .withdrawalDebited | .spotTransfer | .perpTransfer | .subaccountTransfer
  | .vaultDeposit | .vaultWithdrawal | .feeCharged | .builderFeeCharged | .fundingPaid
  | .fundingReceived | .referralReward | .accountModeChanged | .marginModeChanged
  | .leverageChanged | .liquidationStarted | .positionSettled | .internalTransfer
  | .accountClassTransfer | .vaultCreated | .vaultDistribution | .vaultLeaderCommissionPaid
  | .rewardClaimed | .spotGenesisApplied | .stakingDeposit | .stakingDelegated
  | .stakingUndelegated | .stakingWithdrawalQueued | .stakingWithdrawalCompleted
  | .validatorRewardPaid => .eventLedger

theorem validSubject_subjectForEventKind (k : EventKind) :
    validSubject (subjectForEventKind k).asStr = true ↔
      subjectForEventKind k ≠ .eventMarketMeta := by
  cases k <;> decide

/-- SHA-256 and the codec of event envelopes. -/
structure EnvelopeCodec where
  sha256 : List UInt8 → Hash32
  encodeToVec : CanonicalEventEnvelope → Except ContractError (List UInt8)
  decode : List UInt8 → Except ContractError CanonicalEventEnvelope

def blockMarkerSchemaV1 : String := "hyperliquid-alpha-desk/block-publication/v1"

variable {B : Blake3} {ε : Type}

/-- The tag of a committed class; no other class has one. -/
def ConfirmationClass.markerTag : ConfirmationClass → Option UInt8
  | committedPrimary => some 2
  | committedIndependent => some 3
  | provisionalSource | reconciledSnapshot | corrected | expired => none

def encodeMarkerSource (source : SourceId × Hash32) : List UInt8 :=
  frame source.1.asBytes ++ source.2.toList

def encodeMarkerEvent (K : EnvelopeCodec) (codecError : ε) (event : CanonicalEventEnvelope) :
    Except ε (List UInt8) := do
  let encoded ← (K.encodeToVec event).mapError fun _ => codecError
  return frame event.eventId.asBytes ++ (frame (utf8 event.eventKind.asWireName) ++
    (event.payloadHash.toList ++ (K.sha256 encoded).toList))

/-- The marker up to its events. -/
def encodeMarkerHead (block : BlockEnvelope B) (receipt : ArchiveReceipt) (tag : UInt8) :
    List UInt8 :=
  frame (utf8 blockMarkerSchemaV1) ++ (frame block.chainId.asBytes ++
    (beBytes 8 block.blockHeight.toNat ++ (beBytes 8 block.blockTime.unixMicros ++ (tag ::
      (block.canonicalBlockHash.toList ++ (frame (utf8 receipt.receiptId) ++
        (frame receipt.manifestId.asBytes ++ (receipt.manifestSha256.toList ++
          (receipt.schemaFingerprint.toList ++ (beBytes 8 block.sourceBlockHashes.size ++
            (block.sourceBlockHashes.toList.flatMap encodeMarkerSource ++
              beBytes 8 block.events.length)))))))))))

/-- The layout of a block's marker, with the errors of the service that writes it. -/
def encodeMarker (K : EnvelopeCodec) (notCommitted codecError : ε) (block : BlockEnvelope B)
    (receipt : ArchiveReceipt) : Except ε (List UInt8) :=
  match block.confirmationClass.markerTag with
  | none => .error notCommitted
  | some tag => do
    let events ← block.events.mapM (encodeMarkerEvent K codecError)
    return encodeMarkerHead block receipt tag ++ events.flatten

inductive PublicationError
  | archiveReceiptMismatch
  | notCommitted
  | canonicalCodec
  | invalidIdentity
  | nonCanonicalMessageId
  | payloadSize (actual limit : ℕ)
  | invalidLedgerCapacity
  | ledgerCapacityExceeded (limit : ℕ)
  | divergentMessageId (messageId : String)
  | countOverflow
  | transportConnect
  | transportPublish
  | transportAck
  | unexpectedAckStream
  | invalidAck

def maxPublicationPayloadBytes : ℕ := 7500000

/-- A message ready for the bus. Its identity is canonical and its payload neither empty nor
too long. -/
structure PublicationMessage where
  subject : Subject
  messageId : String
  schemaVersion : String
  chainId : ChainId
  blockHeight : BlockHeight
  canonicalBlockHash : Hash32
  archiveReceiptId : String
  archiveManifestSha256 : Hash32
  publicationSha256 : Hash32
  payload : List UInt8
  messageId_valid : validIdentity messageId = true
  schemaVersion_valid : validIdentity schemaVersion = true
  messageId_canonical : messageId = toAsciiLowercase messageId
  payload_size : payload ≠ [] ∧ payload.length ≤ maxPublicationPayloadBytes

namespace PublicationMessage

def stream (m : PublicationMessage) : String := m.subject.stream

def tryNew (K : EnvelopeCodec) (subject : Subject) (messageId schemaVersion : String)
    (block : BlockEnvelope B) (receipt : ArchiveReceipt) (payload : List UInt8) :
    Except PublicationError PublicationMessage :=
  if hid : validIdentity messageId = true then
    if hschema : validIdentity schemaVersion = true then
      if hlower : messageId = toAsciiLowercase messageId then
        if hsize : payload ≠ [] ∧ payload.length ≤ maxPublicationPayloadBytes then
          .ok ⟨subject, messageId, schemaVersion, block.chainId, block.blockHeight,
            block.canonicalBlockHash, receipt.receiptId, receipt.manifestSha256,
            K.sha256 payload, payload, hid, hschema, hlower, hsize⟩
        else .error (.payloadSize payload.length maxPublicationPayloadBytes)
      else .error .nonCanonicalMessageId
    else .error .invalidIdentity
  else .error .invalidIdentity

/-- The message bears the identity it was built under and the block and receipt it was built
for. -/
structure IsFor (K : EnvelopeCodec) (subject : Subject) (messageId : String)
    (block : BlockEnvelope B) (receipt : ArchiveReceipt) (m : PublicationMessage) : Prop where
  subject : m.subject = subject
  messageId : m.messageId = messageId
  chainId : m.chainId = block.chainId
  blockHeight : m.blockHeight = block.blockHeight
  canonicalBlockHash : m.canonicalBlockHash = block.canonicalBlockHash
  archiveReceiptId : m.archiveReceiptId = receipt.receiptId
  archiveManifestSha256 : m.archiveManifestSha256 = receipt.manifestSha256
  publicationSha256 : m.publicationSha256 = K.sha256 m.payload

theorem isFor_of_tryNew {K : EnvelopeCodec} {subject : Subject} {messageId schemaVersion : String}
    {block : BlockEnvelope B} {receipt : ArchiveReceipt} {payload : List UInt8}
    {m : PublicationMessage}
    (h : tryNew K subject messageId schemaVersion block receipt payload = .ok m) :
    m.IsFor K subject messageId block receipt := by
  revert h
  fun_cases tryNew K subject messageId schemaVersion block receipt payload with
  | case1 =>
    rintro ⟨⟩
    exact ⟨rfl, rfl, rfl, rfl, rfl, rfl, rfl, rfl⟩
  | _ => rintro ⟨⟩

end PublicationMessage

structure PublicationAck where
  messageId : String
  stream : String
  streamSequence : UInt64
  duplicate : Bool
  publicationSha256 : Hash32
  streamSequence_ne : streamSequence ≠ 0

namespace PublicationAck

def tryNew (message : PublicationMessage) (stream : String) (streamSequence : UInt64)
    (duplicate : Bool) : Except PublicationError PublicationAck :=
  if stream ≠ message.stream then .error .unexpectedAckStream
  else if h : streamSequence = 0 then .error .invalidAck
  else .ok ⟨message.messageId, stream, streamSequence, duplicate, message.publicationSha256, h⟩

end PublicationAck

structure CommittedPublicationBatch where
  block : PublicationMessage
  events : List PublicationMessage

namespace CommittedPublicationBatch

/-- The messages in the order of their ordinals: the marker, then the events. -/
def messages (batch : CommittedPublicationBatch) : List PublicationMessage :=
  batch.block :: batch.events

def admitCommittedPublication : ConfirmationClass → Except PublicationError Unit
  | .committedPrimary | .committedIndependent => .ok ()
  | .provisionalSource | .reconciledSnapshot | .corrected | .expired => .error .notCommitted

def encodeBlockMarker (K : EnvelopeCodec) (block : BlockEnvelope B) (receipt : ArchiveReceipt) :
    Except PublicationError (List UInt8) :=
  encodeMarker K .notCommitted .canonicalCodec block receipt

def markerId (block : BlockEnvelope B) : String :=
  String.ofList ('b' :: 'l' :: 'k' :: '_' :: Address.hexEncode block.canonicalBlockHash.toList)

def eventMessage (K : EnvelopeCodec) (block : BlockEnvelope B) (receipt : ArchiveReceipt)
    (event : CanonicalEventEnvelope) : Except PublicationError PublicationMessage := do
  let payload ← (K.encodeToVec event).mapError fun _ => .canonicalCodec
  PublicationMessage.tryNew K (subjectForEventKind event.eventKind) event.eventId.value
    event.schemaVersion block receipt payload

def tryNew (K : EnvelopeCodec) (block : BlockEnvelope B) (receipt : ArchiveReceipt) :
    Except PublicationError CommittedPublicationBatch := do
  if receipt.blockHeight ≠ block.blockHeight ∨
      receipt.canonicalBlockHash ≠ block.canonicalBlockHash then
    throw .archiveReceiptMismatch
  admitCommittedPublication block.confirmationClass
  let payload ← encodeBlockMarker K block receipt
  let marker ← PublicationMessage.tryNew K .blockCommitted (markerId block) blockMarkerSchemaV1
    block receipt payload
  let events ← block.events.mapM (eventMessage K block receipt)
  return ⟨marker, events⟩

/-- What a batch holds: the marker and, in block order, a message for each event, all of them
for the block that the receipt is for. -/
structure Holds (K : EnvelopeCodec) (block : BlockEnvelope B) (receipt : ArchiveReceipt)
    (batch : CommittedPublicationBatch) : Prop where
  blockHeight : receipt.blockHeight = block.blockHeight
  canonicalBlockHash : receipt.canonicalBlockHash = block.canonicalBlockHash
  marker : batch.block.IsFor K .blockCommitted (markerId block) block receipt
  events : List.Forall₂ (fun event message => message.IsFor K
    (subjectForEventKind event.eventKind) event.eventId.value block receipt)
    block.events batch.events

variable {K : EnvelopeCodec} {block : BlockEnvelope B} {receipt : ArchiveReceipt}
  {batch : CommittedPublicationBatch}

theorem holds_of_tryNew (h : tryNew K block receipt = .ok batch) :
    batch.Holds K block receipt := by
  obtain ⟨hbinds, h⟩ := Except.of_check h
  obtain ⟨hheight, hhash⟩ := not_or.mp hbinds
  obtain ⟨_, -, h⟩ := Except.of_bind h
  obtain ⟨payload, -, h⟩ := Except.of_bind h
  obtain ⟨marker, hmarker, h⟩ := Except.of_bind h
  obtain ⟨events, hevents, h⟩ := Except.of_bind h
  obtain rfl := Except.ok.inj h
  refine ⟨not_not.mp hheight, not_not.mp hhash, PublicationMessage.isFor_of_tryNew hmarker, ?_⟩
  refine (Except.mapM_eq_ok.mp hevents).imp ?_
  intro event message he
  obtain ⟨payload, -, he⟩ := Except.of_bind he
  exact PublicationMessage.isFor_of_tryNew he

namespace Holds

variable (h : batch.Holds K block receipt)
include h

theorem messageIds : batch.messages.map (·.messageId) =
    markerId block :: block.events.map (·.eventId.value) := by
  have hev : block.events.map (·.eventId.value) = batch.events.map (·.messageId) := by
    refine List.forall₂_eq_eq_eq ▸ List.forall₂_map_left_iff.mpr (List.forall₂_map_right_iff.mpr ?_)
    exact h.events.imp fun _ _ hm => hm.messageId.symm
  rw [messages, List.map_cons, h.marker.messageId, hev]

theorem isFor {m : PublicationMessage} (hm : m ∈ batch.messages) :
    ∃ subject messageId, m.IsFor K subject messageId block receipt ∧
      (subject = .blockCommitted ∨
        ∃ event ∈ block.events, subject = subjectForEventKind event.eventKind) := by
  rcases List.mem_cons.mp hm with rfl | hm
  · exact ⟨_, _, h.marker, .inl rfl⟩
  · obtain ⟨i, hi, rfl⟩ := List.mem_iff_getElem.mp hm
    have hlen := h.events.length_eq
    have he := h.events.get (hlen ▸ hi) hi
    exact ⟨_, _, he, .inr ⟨_, List.getElem_mem (hlen ▸ hi), rfl⟩⟩

end Holds

end CommittedPublicationBatch

end AlphaDesk
