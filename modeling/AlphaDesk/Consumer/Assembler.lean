import AlphaDesk.Consumer.Marker
import AlphaDesk.Core.Visibility

/-! # Assembling blocks from deliveries

The consumer collects the deliveries of a block, its marker and its events, until
the marker's list is complete, and then builds the block again from them. At most
64 blocks are pending at a time.
-/

namespace AlphaDesk

open Bytes

/-- The errors of a replay from the bus. Of the errors of the local replay it passes on those of
durable application and the misaligned watermarks. -/
inductive JetStreamReplayError
  | decode (error : BlockMarkerError)
  | hashMismatch
  | incompleteBlock
  | pendingLimit
  | transport
  | durable (error : DurableApplyError)
  | watermarkMisaligned
  | overflow

structure CanonicalDelivery where
  subject : CanonicalSubject
  messageId : String
  schema : String
  chainId : String
  blockHeight : UInt64
  blockHash : Hash32
  archiveReceiptId : String
  archiveManifestSha256 : Hash32
  publicationSha256 : Hash32
  payload : List UInt8
  deriving DecidableEq

variable {B : Blake3}

def CanonicalDelivery.validateIdentity (value : String) : Except JetStreamReplayError Unit :=
  if validIdentity value = false then .error (.decode .invalidIdentity) else .ok ()

def CanonicalDelivery.tryNew (K : EnvelopeCodec) (subject : CanonicalSubject)
    (messageId schema chainId : String) (blockHeight : UInt64) (blockHash : Hash32)
    (archiveReceiptId : String) (archiveManifestSha256 : Hash32) (payload : List UInt8) :
    Except JetStreamReplayError CanonicalDelivery := do
  validateIdentity messageId
  validateIdentity schema
  validateIdentity chainId
  validateIdentity archiveReceiptId
  if messageId ≠ toAsciiLowercase messageId then throw (.decode .invalidIdentity)
  if payload = [] then throw (.decode .payloadSize)
  return ⟨subject, messageId, schema, chainId, blockHeight, blockHash, archiveReceiptId,
    archiveManifestSha256, K.sha256 payload, payload⟩

def committedBlockDelivery (K : EnvelopeCodec) (block : BlockEnvelope B)
    (receipt : ArchiveReceipt) : Except JetStreamReplayError CanonicalDelivery := do
  let payload ← (encodeCommittedBlockMarker K block receipt).mapError .decode
  CanonicalDelivery.tryNew K .blockCommitted (CommittedPublicationBatch.markerId block)
    blockMarkerSchemaV1 block.chainId.value block.blockHeight block.canonicalBlockHash
    receipt.receiptId receipt.manifestSha256 payload

def committedEventDelivery (K : EnvelopeCodec) (event : CanonicalEventEnvelope)
    (block : BlockEnvelope B) (receipt : ArchiveReceipt) :
    Except JetStreamReplayError CanonicalDelivery := do
  let payload ← (encodeEventPayload K event).mapError .decode
  CanonicalDelivery.tryNew K (.forEventKind event.eventKind) event.eventId.value
    event.schemaVersion block.chainId.value block.blockHeight block.canonicalBlockHash
    receipt.receiptId receipt.manifestSha256 payload

/-- A block of which not every delivery has come. -/
structure PendingBlock where
  height : UInt64
  chainId : String
  marker : Option CommittedBlockMarker
  events : Std.ExtTreeMap String CanonicalEventEnvelope
  messageIds : List String

structure AssembledBlock (B : Blake3) where
  block : BlockEnvelope B
  messageIds : List String

namespace PendingBlock

def new (d : CanonicalDelivery) : PendingBlock := ⟨d.blockHeight, d.chainId, none, ∅, []⟩

def acceptMarker (p : PendingBlock) (d : CanonicalDelivery) :
    Except JetStreamReplayError PendingBlock := do
  if p.marker.isSome then throw (.decode .malformed)
  if d.schema ≠ blockMarkerSchemaV1 then throw (.decode .unsupportedSchema)
  let marker ← (decodeCommittedBlockMarker d.payload).mapError .decode
  if marker.canonicalBlockHash ≠ d.blockHash ∨ marker.blockHeight ≠ d.blockHeight ∨
      marker.chainId.value ≠ d.chainId ∨ marker.archiveReceiptId ≠ d.archiveReceiptId ∨
      marker.archiveManifestSha256 ≠ d.archiveManifestSha256 then
    throw .hashMismatch
  if marker.confirmationClass ≠ .committedPrimary ∧
      marker.confirmationClass ≠ .committedIndependent then
    throw (.decode .notCommitted)
  return { p with marker := some marker }

def deliveredEvent (K : EnvelopeCodec) (d : CanonicalDelivery) :
    Except JetStreamReplayError CanonicalEventEnvelope := do
  let event ← (K.decode d.payload).mapError fun _ => .decode .malformed
  if event.eventId.value ≠ d.messageId ∨ event.blockHeight ≠ d.blockHeight ∨
      event.chainId.value ≠ d.chainId ∨ .forEventKind event.eventKind ≠ d.subject ∨
      K.sha256 d.payload ≠ d.publicationSha256 then
    throw .hashMismatch
  return event

/-- Take in what a delivery carries. An event that came before is put in the place of the one
that is there, and refused. -/
def accept (K : EnvelopeCodec) (p : PendingBlock) (d : CanonicalDelivery) :
    Except JetStreamReplayError Unit × PendingBlock :=
  match d.subject with
  | .blockCommitted =>
    match p.acceptMarker d with
    | .error e => (.error e, p)
    | .ok p' => (.ok (), p')
  | .eventFill | .eventOrder | .eventLedger | .eventMarketMeta | .eventOracle =>
    match deliveredEvent K d with
    | .error e => (.error e, p)
    | .ok event =>
      (if event.eventId.value ∈ p.events then .error (.decode .malformed) else .ok (),
        { p with events := p.events.insert event.eventId.value event })

/-- The event that the marker lists, checked against what it says of it. -/
def verifiedEvent (K : EnvelopeCodec) (p : PendingBlock) (listed : MarkerEvent) :
    Except JetStreamReplayError CanonicalEventEnvelope := do
  let event ← Except.ofOption .incompleteBlock p.events[listed.eventId]?
  let encoded ← (encodeEventPayload K event).mapError .decode
  if event.eventKind ≠ listed.eventKind ∨ event.payloadHash ≠ listed.payloadHash ∨
      K.sha256 encoded ≠ listed.envelopeSha256 then
    throw .hashMismatch
  return event

def build (B : Blake3) (K : EnvelopeCodec) (p : PendingBlock) (marker : CommittedBlockMarker) :
    Except JetStreamReplayError (BlockEnvelope B) := do
  let events ← marker.events.mapM (p.verifiedEvent K)
  let block ← (BlockEnvelope.tryNew B marker.chainId marker.blockHeight marker.blockTime
    marker.confirmationClass events marker.sourceBlockHashes).mapError fun _ => .decode .malformed
  if block.canonicalBlockHash ≠ marker.canonicalBlockHash then throw .hashMismatch
  return block

/-- The block, when every event of the marker's list has come. -/
def assemble (B : Blake3) (K : EnvelopeCodec) (p : PendingBlock) :
    Except JetStreamReplayError (Option (BlockEnvelope B)) :=
  match p.marker with
  | none => .ok none
  | some marker =>
    if marker.events.length < p.events.size then .error (.decode .malformed)
    else if p.events.keys.any fun id => marker.events.all (·.eventId ≠ id) then
      .error (.decode .malformed)
    else if p.events.size ≠ marker.events.length then .ok none
    else (p.build B K marker).map some

end PendingBlock

def maxPendingBlocks : ℕ := 64

structure BlockAssembler where
  pending : Std.ExtTreeMap Hash32 PendingBlock

namespace BlockAssembler

def new : BlockAssembler := ⟨∅⟩

def hasPending (s : BlockAssembler) : Bool := !s.pending.isEmpty

/-- Reply with the block if it is complete, and keep it pending otherwise. -/
def conclude (B : Blake3) (K : EnvelopeCodec) (s : BlockAssembler) (blockHash : Hash32) :
    Except JetStreamReplayError Unit × PendingBlock →
      Except JetStreamReplayError (Option (AssembledBlock B)) × BlockAssembler
  | (.error e, p) => (.error e, ⟨s.pending.insert blockHash p⟩)
  | (.ok (), p) =>
    match p.assemble B K with
    | .error e => (.error e, ⟨s.pending.insert blockHash p⟩)
    | .ok none => (.ok none, ⟨s.pending.insert blockHash p⟩)
    | .ok (some block) => (.ok (some ⟨block, p.messageIds⟩), ⟨s.pending.erase blockHash⟩)

/-- The reply to a delivery, with the assembler that the call leaves. -/
def push (B : Blake3) (K : EnvelopeCodec) (d : CanonicalDelivery) (s : BlockAssembler) :
    Except JetStreamReplayError (Option (AssembledBlock B)) × BlockAssembler :=
  if K.sha256 d.payload ≠ d.publicationSha256 then (.error .hashMismatch, s)
  else if d.blockHash ∉ s.pending ∧ maxPendingBlocks ≤ s.pending.size then
    (.error .pendingLimit, s)
  else
    let p := s.pending[d.blockHash]?.getD (.new d)
    if p.height ≠ d.blockHeight ∨ p.chainId ≠ d.chainId then
      (.error .hashMismatch, ⟨s.pending.insert d.blockHash p⟩)
    else
      s.conclude B K d.blockHash
        (PendingBlock.accept K { p with messageIds := p.messageIds ++ [d.messageId] } d)

end BlockAssembler

end AlphaDesk
