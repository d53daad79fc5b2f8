import AlphaDesk.Events.Identity
import AlphaDesk.Foundation.Run
import AlphaDesk.Spool.Observation

/-! # The canonical sequencer

Candidates of committed sources are held until the heights below them have been
committed; candidates of provisional sources are published as they come. A second
candidate for a height that is still known is merged, and the first divergence
latches the sequencer red.
-/

namespace AlphaDesk

open Bytes SortedList

inductive SourceTrust
  | locallyVerifiedCommitted
  | independentCommitted
  | reconciledSnapshot
  | recoveryOnly
  | thirdPartyProvisional
  | mempoolProvisional
  deriving DecidableEq

inductive PublicationLane
  | committedCandidate
  | reconciliation
  | recovery
  | provisional
  | mempool
  deriving DecidableEq

inductive SourceTrustError
  | incompatibleObservationClass

/-- The lane that a source of this trust may publish the observation on. -/
def selectLane : SourceTrust → ObservationClass → Except SourceTrustError PublicationLane
  | .locallyVerifiedCommitted, .committedBlock | .independentCommitted, .committedBlock =>
    .ok .committedCandidate
  | .locallyVerifiedCommitted, .auxiliaryOrderStatus
  | .locallyVerifiedCommitted, .auxiliaryBookDiff | .locallyVerifiedCommitted, .auxiliaryLedger
  | .independentCommitted, .auxiliaryOrderStatus | .independentCommitted, .auxiliaryBookDiff
  | .independentCommitted, .auxiliaryLedger => .ok .reconciliation
  | .reconciledSnapshot, .snapshot => .ok .reconciliation
  | .recoveryOnly, .historicalBlock => .ok .recovery
  | .thirdPartyProvisional, .publicMarketData | .thirdPartyProvisional, .provisionalFeed =>
    .ok .provisional
  | .mempoolProvisional, .provisionalMempool => .ok .mempool
  | _, _ => .error .incompatibleObservationClass

/-- A trust and an observation class that go together, with their lane. -/
structure SourceAdmission where
  trust : SourceTrust
  observationClass : ObservationClass
  publicationLane : PublicationLane
  selected : selectLane trust observationClass = .ok publicationLane

inductive CandidateError
  | missingSourceBlockHash
  | confirmationMismatch
  | unexpectedEventSourceEvidence
  | unsupportedPublicationLane

/-- The class that a block of an admitted source must carry. -/
def expectedConfirmation (admission : SourceAdmission) : Except CandidateError ConfirmationClass :=
  match admission.publicationLane, admission.trust with
  | .committedCandidate, .locallyVerifiedCommitted => .ok .committedPrimary
  | .committedCandidate, .independentCommitted => .ok .committedIndependent
  | .provisional, .thirdPartyProvisional => .ok .provisionalSource
  | _, _ => .error .unsupportedPublicationLane

def validateConfirmation (admission : SourceAdmission) (confirmation : ConfirmationClass) :
    Except CandidateError Unit := do
  let expected ← expectedConfirmation admission
  if confirmation = expected then return else throw .confirmationMismatch

/-- A block offered by one source, which names no other source. -/
structure BlockCandidate (B : Blake3) where
  sourceId : SourceId
  admission : SourceAdmission
  block : BlockEnvelope B
  sourced : block.sourceBlockHashes.size = 1 ∧ sourceId ∈ block.sourceBlockHashes
  evidence : ∀ e ∈ block.events, ∀ x ∈ e.sourceEvidence, x.sourceId = sourceId
  confirmed : validateConfirmation admission block.confirmationClass = .ok ()

variable {B : Blake3}

def BlockCandidate.tryNew (sourceId : SourceId) (admission : SourceAdmission)
    (block : BlockEnvelope B) : Except CandidateError (BlockCandidate B) :=
  if hs : block.sourceBlockHashes.size = 1 ∧ sourceId ∈ block.sourceBlockHashes then
    if he : ∀ e ∈ block.events, ∀ x ∈ e.sourceEvidence, x.sourceId = sourceId then
      match hc : validateConfirmation admission block.confirmationClass with
      | .ok () => .ok ⟨sourceId, admission, block, hs, he, hc⟩
      | .error e => .error e
    else .error .unexpectedEventSourceEvidence
  else .error .missingSourceBlockHash

/-- Candidates of the committed lane; the others are provisional. -/
def BlockCandidate.isCommitted (c : BlockCandidate B) : Bool :=
  c.admission.publicationLane = .committedCandidate

def BlockCandidate.sourceHash (c : BlockCandidate B) : Hash32 :=
  c.block.sourceBlockHashes.get c.sourceId c.sourced.2

inductive QuarantineReason
  | conflictingCanonicalBlock (existingHash conflictingHash : Hash32)
  | conflictingSourceBlockHash (sourceId : SourceId) (existingHash conflictingHash : Hash32)
  | conflictingEventSourceEvidence (eventId : EventId) (sourceId : SourceId)
      (existingHash conflictingHash : Hash32)

namespace QuarantineReason

def reasonCode : QuarantineReason → String
  | conflictingCanonicalBlock _ _ => "sequencer.conflicting_canonical_block"
  | conflictingSourceBlockHash _ _ _ => "sequencer.conflicting_source_block_hash"
  | conflictingEventSourceEvidence _ _ _ _ => "sequencer.conflicting_event_source_evidence"

def hashes : QuarantineReason → Hash32 × Hash32
  | conflictingCanonicalBlock a b | conflictingSourceBlockHash _ a b
  | conflictingEventSourceEvidence _ _ a b => (a, b)

/-- The event that a conflict is about, when it is about one. -/
def detailIdentity : QuarantineReason → List UInt8
  | conflictingEventSourceEvidence eventId _ _ _ => eventId.asBytes
  | _ => []

end QuarantineReason

structure QuarantineRecord where
  incidentId : String
  chainId : ChainId
  blockHeight : BlockHeight
  existingSourceIds : List SourceId
  conflictingSourceId : SourceId
  reason : QuarantineReason

variable (B : Blake3)

def incidentContext : String := "hyperliquid-alpha-desk/source-divergence/v1"

def incidentText (digest : Hash32) : String :=
  String.ofList ('i' :: 'n' :: 'c' :: '_' :: Address.hexEncode digest.toList)

/-- The identity of a divergence does not depend on which of the two was there first. -/
def incidentId (chainId : ChainId) (blockHeight : BlockHeight) (existingSources : List SourceId)
    (conflictingSource : SourceId) (reason : QuarantineReason) : String :=
  let (existingHash, conflictingHash) := reason.hashes
  let (firstHash, secondHash) :=
    if (compare existingHash.toList conflictingHash.toList).isLE then
      (existingHash, conflictingHash)
    else (conflictingHash, existingHash)
  incidentText <| B.deriveKey incidentContext
    (frame chainId.asBytes ++ beBytes 8 blockHeight.toNat ++ frame (utf8 reason.reasonCode) ++
      frame reason.detailIdentity ++
      (sortDedup (existingSources ++ [conflictingSource])).flatMap (fun s => frame s.asBytes) ++
      firstHash.toList ++ secondHash.toList)

def divergence (chainId : ChainId) (blockHeight : BlockHeight) (existingSources : List SourceId)
    (conflictingSource : SourceId) (reason : QuarantineReason) : QuarantineRecord where
  incidentId := incidentId B chainId blockHeight existingSources conflictingSource reason
  chainId := chainId
  blockHeight := blockHeight
  existingSourceIds := existingSources
  conflictingSourceId := conflictingSource
  reason := reason

def canonicalBlockDivergence (chainId : ChainId) (blockHeight : BlockHeight)
    (existingSources : List SourceId) (conflictingSource : SourceId)
    (existingHash conflictingHash : Hash32) : QuarantineRecord :=
  divergence B chainId blockHeight (sortDedup existingSources) conflictingSource
    (.conflictingCanonicalBlock existingHash conflictingHash)

def sourceBlockHashDivergence (chainId : ChainId) (blockHeight : BlockHeight) (sourceId : SourceId)
    (existingHash conflictingHash : Hash32) : QuarantineRecord :=
  divergence B chainId blockHeight [sourceId] sourceId
    (.conflictingSourceBlockHash sourceId existingHash conflictingHash)

def eventSourceEvidenceDivergence (chainId : ChainId) (blockHeight : BlockHeight)
    (eventId : EventId) (sourceId : SourceId) (existingHash conflictingHash : Hash32) :
    QuarantineRecord :=
  divergence B chainId blockHeight [sourceId] sourceId
    (.conflictingEventSourceEvidence eventId sourceId existingHash conflictingHash)

inductive MergeError
  | divergence (record : QuarantineRecord)
  | invalidBlock (error : BlockError)
  | invalidEvidence (eventId : Option EventId) (reason : String)

variable {B : Blake3}

def sourceHashConflict (existing : BlockEnvelope B) (candidate : BlockCandidate B) :
    Option QuarantineRecord :=
  (existing.sourceBlockHashes[candidate.sourceId]?.filter (· ≠ candidate.sourceHash)).map
    fun existingHash => sourceBlockHashDivergence B existing.chainId existing.blockHeight
      candidate.sourceId existingHash candidate.sourceHash

def eventCountReason : String := "matching canonical block hashes contain different event counts"

def eventContentReason : String := "matching canonical block hash contains different event content"

/-- The body of the loop over two blocks' events. -/
def mergeEvent (existing : BlockEnvelope B)
    (pair : CanonicalEventEnvelope × CanonicalEventEnvelope) :
    Except MergeError CanonicalEventEnvelope :=
  (pair.1.mergeMatchingSourceEvidence pair.2).mapError fun
    | .sourceEvidenceConflict sourceId existingHash conflictingHash =>
      .divergence (eventSourceEvidenceDivergence B existing.chainId existing.blockHeight
        pair.1.eventId sourceId existingHash conflictingHash)
    | .canonicalContentMismatch => .invalidEvidence (some pair.1.eventId) eventContentReason

/-- The existing block with the candidate's evidence, if the two do not diverge. -/
def compareAndMerge (existing : BlockEnvelope B) (candidate : BlockCandidate B) :
    Except MergeError (BlockEnvelope B) :=
  if existing.canonicalBlockHash ≠ candidate.block.canonicalBlockHash then
    .error (.divergence (canonicalBlockDivergence B existing.chainId existing.blockHeight
      existing.sourceBlockHashes.keys candidate.sourceId existing.canonicalBlockHash
      candidate.block.canonicalBlockHash))
  else match sourceHashConflict existing candidate with
    | some record => .error (.divergence record)
    | none =>
      if existing.events.length ≠ candidate.block.events.length then
        .error (.invalidEvidence none eventCountReason)
      else do
        let mergedEvents ← (existing.events.zip candidate.block.events).mapM (mergeEvent existing)
        (BlockEnvelope.tryNew B existing.chainId existing.blockHeight existing.blockTime
          existing.confirmationClass mergedEvents
          (existing.sourceBlockHashes.insertMany
            candidate.block.sourceBlockHashes.toList)).mapError .invalidBlock

/-- The highest block of a lane and the last blocks below it. -/
structure Watermark (B : Blake3) where
  current : Option BlockHeight
  retained : Std.ExtTreeMap BlockHeight (BlockEnvelope B)
  retainedLimit : ℕ

namespace Watermark

def new (retainedLimit : ℕ) : Watermark B := ⟨none, ∅, retainedLimit⟩

/-- Drop the oldest entries while there are more than the limit; the fuel is their number. -/
def evict (retainedLimit : ℕ) : ℕ → Std.ExtTreeMap BlockHeight (BlockEnvelope B) →
    Std.ExtTreeMap BlockHeight (BlockEnvelope B)
  | 0, retained => retained
  | fuel + 1, retained =>
    if retainedLimit < retained.size then
      match retained.keys.head? with
      | none => retained
      | some oldest => evict retainedLimit fuel (retained.erase oldest)
    else retained

def advance (w : Watermark B) (block : BlockEnvelope B) : Watermark B :=
  let retained := w.retained.insert block.blockHeight block
  { w with
    current := some block.blockHeight
    retained := evict w.retainedLimit retained.size retained }

end Watermark

/-- The heights that the lowest pending block waits for. -/
structure GapRange where
  start : BlockHeight
  endInclusive : BlockHeight
  deriving DecidableEq

def gapIncidentContext : String := "hyperliquid-alpha-desk/committed-gap/v1"

def gapIncidentId (B : Blake3) (chainId : ChainId) (gap : GapRange) : String :=
  incidentText <| B.deriveKey gapIncidentContext
    (frame chainId.asBytes ++ beBytes 8 gap.start.toNat ++ beBytes 8 gap.endInclusive.toNat)

inductive SequencerError
  | invalidCapacity (field : String)
  | chainMismatch (expected actual : ChainId)
  | pendingCapacityExceeded (limit : ℕ)
  | invalidMergedBlock (error : BlockError)
  | invalidMergedEvidence (eventId : Option EventId) (reason : String)
  | candidate (error : CandidateError)

structure SequencerConfig where
  chainId : ChainId
  firstHeight : BlockHeight
  maxPendingBlocks : ℕ
  retainedCommittedBlocks : ℕ
  pending_pos : 0 < maxPendingBlocks
  retained_pos : 0 < retainedCommittedBlocks

def SequencerConfig.tryNew (chainId : ChainId) (firstHeight : BlockHeight)
    (maxPendingBlocks retainedCommittedBlocks : ℕ) : Except SequencerError SequencerConfig :=
  if hp : 0 < maxPendingBlocks then
    if hr : 0 < retainedCommittedBlocks then
      .ok ⟨chainId, firstHeight, maxPendingBlocks, retainedCommittedBlocks, hp, hr⟩
    else .error (.invalidCapacity "retained_committed_blocks")
  else .error (.invalidCapacity "max_pending_blocks")

inductive SequencerDecision (B : Blake3)
  | commit (block : BlockEnvelope B)
  | recordDuplicate (blockHeight : BlockHeight) (sourceId : SourceId)
  | requestGap (incidentId : String) (start endInclusive : BlockHeight)
  | quarantine (record : QuarantineRecord)
  | publishProvisional (block : BlockEnvelope B)
  | verifyHistoricalBlock (blockHeight : BlockHeight) (sourceId : SourceId)
      (canonicalBlockHash : Hash32)
  | awaitOperatorResolution (incidentId : String)
  | awaitMoreEvidence

structure CanonicalSequencer (B : Blake3) where
  config : SequencerConfig
  committed : Watermark B
  provisional : Watermark B
  pending : Std.ExtTreeMap BlockHeight (BlockEnvelope B)
  outstandingGap : Option GapRange
  redIncidentId : Option String
  quarantines : List QuarantineRecord

namespace CanonicalSequencer

abbrev Outcome (B : Blake3) :=
  Except SequencerError (List (SequencerDecision B)) × CanonicalSequencer B

def new (config : SequencerConfig) : CanonicalSequencer B where
  config := config
  committed := .new config.retainedCommittedBlocks
  provisional := .new config.retainedCommittedBlocks
  pending := ∅
  outstandingGap := none
  redIncidentId := none
  quarantines := []

def nextCommittedHeight (s : CanonicalSequencer B) : Option BlockHeight :=
  match s.committed.current with
  | some height => if height.toNat + 1 < UInt64.size then some (height + 1) else none
  | none => some s.config.firstHeight

def latchDivergence (s : CanonicalSequencer B) (record : QuarantineRecord) :
    CanonicalSequencer B :=
  match s.redIncidentId with
  | some _ => s
  | none => { s with
      redIncidentId := some record.incidentId
      quarantines := s.quarantines ++ [record] }

/-- The end of an observation of a height for which there is a block: `store` puts the merged
block in its place. -/
def resolveMerge (s : CanonicalSequencer B) (candidate : BlockCandidate B)
    (store : BlockEnvelope B → CanonicalSequencer B) :
    Except MergeError (BlockEnvelope B) → Outcome B
  | .ok merged =>
    (.ok [.recordDuplicate candidate.block.blockHeight candidate.sourceId], store merged)
  | .error (.divergence record) => (.ok [.quarantine record], s.latchDivergence record)
  | .error (.invalidBlock error) => (.error (.invalidMergedBlock error), s)
  | .error (.invalidEvidence eventId reason) =>
    (.error (.invalidMergedEvidence eventId reason), s)

def watermark (s : CanonicalSequencer B) (committed : Bool) : Watermark B :=
  if committed then s.committed else s.provisional

def setWatermark (s : CanonicalSequencer B) (committed : Bool) (w : Watermark B) :
    CanonicalSequencer B :=
  if committed then { s with committed := w } else { s with provisional := w }

def observeRetained (s : CanonicalSequencer B) (candidate : BlockCandidate B)
    (committed : Bool) : Outcome B :=
  let height := candidate.block.blockHeight
  let w := s.watermark committed
  match w.retained[height]? with
  | none => (.ok [.verifyHistoricalBlock height candidate.sourceId
      candidate.block.canonicalBlockHash], s)
  | some existing =>
    s.resolveMerge candidate
      (fun merged => s.setWatermark committed { w with
        retained := w.retained.insert height merged })
      (compareAndMerge existing candidate)

/-- Commit pending blocks while the next height is among them; the fuel is their number. -/
def drainContiguous : ℕ → CanonicalSequencer B → List (SequencerDecision B) × CanonicalSequencer B
  | 0, s => ([], s)
  | fuel + 1, s =>
    match s.nextCommittedHeight with
    | none => ([], s)
    | some next =>
      match s.pending[next]? with
      | none => ([], s)
      | some block =>
        let rest := drainContiguous fuel { s with
          pending := s.pending.erase next
          committed := s.committed.advance block }
        (.commit block :: rest.1, rest.2)

/-- The gap that the pending blocks leave above the next height. -/
def gapOfPending (s : CanonicalSequencer B) : Option GapRange :=
  match s.nextCommittedHeight with
  | none => none
  | some next => (s.pending.keys.head?.filter (next < ·)).map fun height =>
    ⟨next, .ofNat (height.toNat - 1)⟩

def refreshGap (s : CanonicalSequencer B) (decisions : List (SequencerDecision B)) :
    List (SequencerDecision B) × CanonicalSequencer B :=
  match s.nextCommittedHeight with
  | none => (decisions, { s with outstandingGap := none })
  | some _ =>
    if s.gapOfPending ≠ s.outstandingGap then
      let s' := { s with outstandingGap := s.gapOfPending }
      match s.gapOfPending with
      | some gap => (decisions ++ [.requestGap (gapIncidentId B s.config.chainId gap) gap.start
          gap.endInclusive], s')
      | none => (decisions, s')
    else (decisions, s)

def addPending (s : CanonicalSequencer B) (block : BlockEnvelope B) : CanonicalSequencer B :=
  { s with pending := s.pending.insert block.blockHeight block }

/-- The end of an observation of a new height. -/
def insertPending (s : CanonicalSequencer B) (block : BlockEnvelope B) : Outcome B :=
  let drained := (s.addPending block).drainContiguous (s.addPending block).pending.size
  let refreshed := drained.2.refreshGap drained.1
  (.ok (if refreshed.1.isEmpty then [.awaitMoreEvidence] else refreshed.1), refreshed.2)

def observeCommitted (s : CanonicalSequencer B) (candidate : BlockCandidate B) : Outcome B :=
  match s.redIncidentId with
  | some incidentId => (.ok [.awaitOperatorResolution incidentId], s)
  | none =>
    let height := candidate.block.blockHeight
    if height < s.config.firstHeight ∨ s.committed.current.any (height ≤ ·) then
      s.observeRetained candidate true
    else match s.pending[height]? with
      | some existing =>
        s.resolveMerge candidate
          (fun merged => { s with pending := s.pending.insert height merged })
          (compareAndMerge existing candidate)
      | none =>
        if s.config.maxPendingBlocks ≤ s.pending.size ∧ some height ≠ s.nextCommittedHeight then
          (.error (.pendingCapacityExceeded s.config.maxPendingBlocks), s)
        else s.insertPending candidate.block

def observeProvisional (s : CanonicalSequencer B) (candidate : BlockCandidate B) : Outcome B :=
  if s.provisional.current.any (candidate.block.blockHeight ≤ ·) then
    s.observeRetained candidate false
  else
    (.ok [.publishProvisional candidate.block],
      { s with provisional := s.provisional.advance candidate.block })

def observe (s : CanonicalSequencer B) (candidate : BlockCandidate B) : Outcome B :=
  if candidate.block.chainId ≠ s.config.chainId then
    (.error (.chainMismatch s.config.chainId candidate.block.chainId), s)
  else match candidate.admission.publicationLane with
    | .committedCandidate => s.observeCommitted candidate
    | .provisional => s.observeProvisional candidate
    | .reconciliation | .recovery | .mempool =>
      (.error (.candidate .unsupportedPublicationLane), s)

variable (config : SequencerConfig) (candidates : List (BlockCandidate B))

def after : CanonicalSequencer B :=
  Run.final (fun s c => (s.observe c).2) (new config) candidates

def returned : List (Except SequencerError (List (SequencerDecision B))) :=
  Run.outputs observe (new config) candidates

def committedBlocks (decisions : List (SequencerDecision B)) : List (BlockEnvelope B) :=
  decisions.filterMap fun
    | .commit block => some block
    | _ => none

def committedIn : Except SequencerError (List (SequencerDecision B)) → List (BlockEnvelope B)
  | .ok decisions => committedBlocks decisions
  | .error _ => []

def commits : List (BlockEnvelope B) := (returned config candidates).flatMap committedIn

end CanonicalSequencer

end AlphaDesk
