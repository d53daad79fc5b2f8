import AlphaDesk.Archive.Port
import AlphaDesk.Foundation.Effect
import AlphaDesk.Ledger.History

/-! # Serial replay

The engine checks where the ledger stands and which manifests cover the range, and then
applies the archived blocks one after the other. It stops at the first block that is not
the next one, at the first refusal, and when it is cancelled; the ledger keeps what was
applied until then, and the reply says how far that is.
-/

namespace AlphaDesk

open Bytes Effect

structure BlockRange where
  startInclusive : BlockHeight
  endInclusive : BlockHeight

/-- The number of heights of a range, where it is one. -/
def BlockRange.blockCount (range : BlockRange) : Option UInt64 :=
  if range.endInclusive < range.startInclusive then none
  else if range.endInclusive.toNat - range.startInclusive.toNat + 1 < UInt64.size then
    some (range.endInclusive - range.startInclusive + 1)
  else none

/-- The number of heights of a range, without bound. -/
def BlockRange.size (range : BlockRange) : ℕ :=
  range.endInclusive.toNat + 1 - range.startInclusive.toNat

structure VerifiedManifest where
  manifestId : ManifestId
  chainId : ChainId
  blockRange : BlockRange
  manifestSha256 : Hash32
  schemaFingerprints : Std.ExtTreeMap String Hash32

/-- The archive as a replay reads it: manifests are verified, and then their blocks read. -/
structure CanonicalArchive (B : Blake3) where
  verifyManifest : ManifestId → Except ArchiveError VerifiedManifest
  readManifestBlocks : ManifestId →
    Except ArchiveError (List (Except ArchiveError (BlockEnvelope B)))

/-- What the archive has under the manifests, in order. -/
def CanonicalArchive.items {B : Blake3} (archive : CanonicalArchive B)
    (manifests : List ManifestId) : List (Except ArchiveError (BlockEnvelope B)) :=
  manifests.flatMap fun id => (archive.readManifestBlocks id).toOption.getD []

structure ReplayLimits where
  maxBlocks : UInt64
  maxManifests : ℕ
  nonzero : maxBlocks ≠ 0 ∧ maxManifests ≠ 0

def validDataset (value : String) : Bool :=
  let bytes := utf8 value
  !bytes.isEmpty && bytes.length ≤ 64 && bytes.head?.any isAsciiLowercase &&
    bytes.getLast?.any isAsciiAlphanumeric &&
    bytes.all fun b => isAsciiLowercase b || isAsciiDigit b || b == 95

structure ReplayRequest where
  chainId : ChainId
  range : BlockRange
  manifests : List ManifestId
  expectedStartStateHash : Hash32
  schemaDataset : String
  expectedSchemaFingerprint : Hash32
  manifests_ne_nil : manifests ≠ []
  startStateHash_ne_zero : expectedStartStateHash ≠ .replicate 32 0
  fingerprint_ne_zero : expectedSchemaFingerprint ≠ .replicate 32 0
  schemaDataset_valid : validDataset schemaDataset = true
  manifests_nodup : manifests.Nodup

structure ReplayProgress where
  appliedBlockCount : UInt64
  lastAppliedHeight : Option BlockHeight
  currentStateHash : Hash32

/-- The count, the last height and the hash are those of a ledger behind the blocks. -/
structure ReplayProgress.Describes {B : Blake3} (p : ReplayProgress)
    (blocks : List (BlockEnvelope B)) (l : CanonicalLedger) : Prop where
  count : p.appliedBlockCount.toNat = blocks.length
  last : p.lastAppliedHeight = blocks.getLast?.map (·.blockHeight)
  hash : p.currentStateHash = l.stateHash

inductive ReplayError
  | limitExceeded (progress : ReplayProgress)
  | startStateMismatch (progress : ReplayProgress)
  | startHeightMismatch (progress : ReplayProgress)
  | manifestPlan (sourceReasonCode : String) (progress : ReplayProgress)
  | archive (sourceReasonCode : String) (progress : ReplayProgress)
  | archiveContent (progress : ReplayProgress)
  | blockQuarantined (height : BlockHeight) (sourceReasonCode : String)
      (reducerReasonCode : Option String) (progress : ReplayProgress)

def ReplayError.progress : ReplayError → ReplayProgress
  | limitExceeded progress | startStateMismatch progress | startHeightMismatch progress
  | manifestPlan _ progress | archive _ progress | archiveContent progress
  | blockQuarantined _ _ _ progress => progress

/-- The errors of the start checks and of the preflight. -/
def ReplayError.atStart : ReplayError → Bool
  | limitExceeded _ | startStateMismatch _ | startHeightMismatch _ | manifestPlan .. => true
  | archive .. | archiveContent _ | blockQuarantined .. => false

inductive ReplayStatus
  | completed
  | cancelled

structure ReplayManifestIdentity where
  manifestId : ManifestId
  manifestSha256 : Hash32
  blockRange : BlockRange

structure ReplayReceipt where
  status : ReplayStatus
  chainId : ChainId
  plannedRange : BlockRange
  startStateHash : Hash32
  finalStateHash : Hash32
  reducerSetVersion : String
  appliedBlockCount : UInt64
  lastAppliedHeight : Option BlockHeight
  lastCanonicalBlockHash : Option Hash32
  manifests : List ReplayManifestIdentity

def ReplayReceipt.progress (receipt : ReplayReceipt) : ReplayProgress :=
  ⟨receipt.appliedBlockCount, receipt.lastAppliedHeight, receipt.finalStateHash⟩

inductive ReplayOutcome
  | completed (receipt : ReplayReceipt)
  | cancelled (receipt : ReplayReceipt)

def LedgerError.reasonCode : LedgerError → String
  | invalidLimits => "ledger.invalid_limits"
  | invalidReducerVersion => "ledger.invalid_reducer_version"
  | reducerVersionDrift => "ledger.reducer_version_drift"
  | invalidReducerError => "ledger.invalid_reducer_error"
  | chainMismatch => "ledger.chain_mismatch"
  | nonCommittedBlock => "ledger.non_committed_block"
  | correctionUnimplemented => "ledger.correction_unimplemented"
  | heightDiscontinuity .. => "ledger.height_discontinuity"
  | canonicalDivergence => "ledger.canonical_divergence"
  | heightExhausted => "ledger.height_exhausted"
  | unsupportedEvent .. => "ledger.unsupported_event"
  | reducerFailed _ => "ledger.reducer_failed"
  | mutationLimitExceeded => "ledger.mutation_limit_exceeded"
  | invalidMutation _ => "ledger.invalid_mutation"
  | preparedStateDrift => "ledger.prepared_state_drift"

def LedgerError.reducerReasonCode : LedgerError → Option String
  | reducerFailed source => some source.reasonCode
  | _ => none

variable {B : Blake3}

namespace SerialReplayEngine

def emptyProgress (l : CanonicalLedger) : ReplayProgress := ⟨0, none, l.stateHash⟩

def validateManifest (request : ReplayRequest) (manifestId : ManifestId)
    (verified : VerifiedManifest) (expectedStart : BlockHeight) : Except String Unit :=
  if verified.chainId ≠ request.chainId then .error "replay.manifest_chain_mismatch"
  else if verified.manifestId ≠ manifestId ∨ verified.blockRange.startInclusive ≠ expectedStart ∨
      request.range.endInclusive < verified.blockRange.endInclusive then
    .error "replay.manifest_range_mismatch"
  else if verified.schemaFingerprints[request.schemaDataset]? ≠
      some request.expectedSchemaFingerprint then
    .error "replay.manifest_schema_mismatch"
  else .ok ()

def nextHeight (height : BlockHeight) : Option BlockHeight :=
  if height.toNat + 1 < UInt64.size then some (height + 1) else none

def addCount (planned count : UInt64) : Option UInt64 :=
  if planned.toNat + count.toNat < UInt64.size then some (planned + count) else none

/-- The loop of the preflight, with the next start, the blocks planned and the identities. -/
def preflightFrom (archive : CanonicalArchive B) (request : ReplayRequest)
    (fail : String → ReplayError) (expectedStart : BlockHeight) (planned : UInt64)
    (identities : List ReplayManifestIdentity) :
    List ManifestId → Except ReplayError (UInt64 × List ReplayManifestIdentity)
  | [] => .ok (planned, identities)
  | manifestId :: rest => do
    let verified ← (archive.verifyManifest manifestId).mapError fun e => fail e.reasonCode
    (validateManifest request manifestId verified expectedStart).mapError fail
    let count ← Except.ofOption (fail "replay.manifest_range_incomplete")
      verified.blockRange.blockCount
    let planned ← Except.ofOption (fail "replay.manifest_range_incomplete")
      (addCount planned count)
    let expectedStart ← Except.ofOption (fail "replay.manifest_height_exhausted")
      -- the last manifest may end at the greatest height
      (if rest = [] then some expectedStart else nextHeight verified.blockRange.endInclusive)
    preflightFrom archive request fail expectedStart planned
      (identities ++ [⟨verified.manifestId, verified.manifestSha256, verified.blockRange⟩]) rest

def preflight (archive : CanonicalArchive B) (request : ReplayRequest) (l : CanonicalLedger) :
    Except ReplayError (List ReplayManifestIdentity) := do
  let fail := fun reason => .manifestPlan reason (emptyProgress l)
  let (planned, identities) ←
    preflightFrom archive request fail request.range.startInclusive 0 [] request.manifests
  if identities.getLast?.all (fun identity =>
        identity.blockRange.endInclusive ≠ request.range.endInclusive) ∨
      request.range.blockCount ≠ some planned then
    throw (fail "replay.manifest_range_incomplete")
  return identities

/-- The ledger and the counters of a run, with the number of times the cancellation was read. -/
structure ReplayRun where
  ledger : CanonicalLedger
  applied : UInt64
  lastHeight : Option BlockHeight
  polls : ℕ

def ReplayRun.progress (s : ReplayRun) : ReplayProgress :=
  ⟨s.applied, s.lastHeight, s.ledger.stateHash⟩

inductive ReplayStop
  | cancelled
  | failed (error : ReplayError)

variable (R : EventReducer) (archive : CanonicalArchive B) (request : ReplayRequest)
  (cancellation : ℕ → Bool)

def failWith {α : Type} (error : ReplayProgress → ReplayError) : Effect ReplayRun ReplayStop α :=
  .mk fun s => (.error (.failed (error s.progress)), s)

/-- The cancellation is read once more, and ends the run when it is set. -/
def pollCancellation : Effect ReplayRun ReplayStop Unit :=
  .mk fun s => (if cancellation s.polls then .error .cancelled else .ok (),
    { s with polls := s.polls + 1 })

def applyBlock (block : BlockEnvelope B) :
    Effect ReplayRun ReplayStop (Except LedgerError ApplyOutcome) :=
  .mk fun s => (.ok (s.ledger.applyBlock R block).1,
    { s with ledger := (s.ledger.applyBlock R block).2 })

def countApplied : Effect ReplayRun ReplayStop Unit :=
  .mk fun s =>
    if s.applied.toNat + 1 < UInt64.size then (.ok (), { s with applied := s.applied + 1 })
    else (.error (.failed (.limitExceeded s.progress)), s)

def setLastHeight (height : BlockHeight) : Effect ReplayRun ReplayStop Unit :=
  .mk fun s => (.ok (), { s with lastHeight := some height })

def blockOf (item : Except ArchiveError (BlockEnvelope B)) :
    Effect ReplayRun ReplayStop (BlockEnvelope B) :=
  match item with
  | .ok block => pure block
  | .error e => failWith (.archive e.reasonCode)

/-- Apply a block that is to be new to the ledger, and count it. -/
def applyNext (block : BlockEnvelope B) : Effect ReplayRun ReplayStop Unit := do
  match ← applyBlock R block with
  | .ok (.applied _) =>
    countApplied
    setLastHeight block.blockHeight
  | .ok (.alreadyApplied _) => failWith .archiveContent
  | .error e => failWith (.blockQuarantined block.blockHeight e.reasonCode e.reducerReasonCode)

def checkContent (manifest : ReplayManifestIdentity) (expected : BlockHeight)
    (block : BlockEnvelope B) : Effect ReplayRun ReplayStop Unit :=
  if block.chainId ≠ request.chainId ∨ block.blockHeight ≠ expected ∨
      manifest.blockRange.endInclusive < block.blockHeight then
    failWith .archiveContent
  else pure ()

/-- The height expected next, which stays at the end of the manifest. -/
def expectedAfter (manifest : ReplayManifestIdentity) (height : BlockHeight) :
    Effect ReplayRun ReplayStop BlockHeight :=
  if height = manifest.blockRange.endInclusive then pure height
  else
    match nextHeight height with
    | some height => pure height
    | none => failWith .archiveContent

/-- The body of the loop over a manifest's blocks: the height that is expected next. -/
def replayBlock (manifest : ReplayManifestIdentity) (expected : BlockHeight)
    (item : Except ArchiveError (BlockEnvelope B)) :
    Effect ReplayRun ReplayStop BlockHeight := do
  pollCancellation cancellation
  let block ← blockOf item
  checkContent request manifest expected block
  applyNext R block
  expectedAfter manifest block.blockHeight

def readBlocks (manifestId : ManifestId) :
    Effect ReplayRun ReplayStop (List (Except ArchiveError (BlockEnvelope B))) :=
  match archive.readManifestBlocks manifestId with
  | .ok blocks => pure blocks
  | .error e => failWith (.archive e.reasonCode)

def checkEnd (manifest : ReplayManifestIdentity) (expected : BlockHeight) :
    Effect ReplayRun ReplayStop Unit :=
  .mk fun s =>
    if s.lastHeight ≠ some manifest.blockRange.endInclusive ∨
        expected ≠ manifest.blockRange.endInclusive then
      (.error (.failed (.archiveContent s.progress)), s)
    else (.ok (), s)

def replayManifest (manifest : ReplayManifestIdentity) : Effect ReplayRun ReplayStop Unit := do
  let blocks ← readBlocks archive manifest.manifestId
  let expected ← blocks.foldlM (replayBlock R request cancellation manifest)
    manifest.blockRange.startInclusive
  checkEnd manifest expected

def replayManifests (manifests : List ReplayManifestIdentity) : Effect ReplayRun ReplayStop Unit :=
  manifests.foldlM (fun _ => replayManifest R archive request cancellation) ()

def receipt (status : ReplayStatus) (startStateHash : Hash32)
    (manifests : List ReplayManifestIdentity) (s : ReplayRun) : ReplayReceipt where
  status := status
  chainId := request.chainId
  plannedRange := request.range
  startStateHash := startStateHash
  finalStateHash := s.ledger.stateHash
  reducerSetVersion := s.ledger.state.reducerSetVersion
  appliedBlockCount := s.applied
  lastAppliedHeight := s.lastHeight
  lastCanonicalBlockHash :=
    if s.applied = 0 then none else s.ledger.checkpoint.map (·.canonicalBlockHash)
  manifests := manifests

/-- The reply of a run, with the ledger it leaves. -/
def run (limits : ReplayLimits) (l : CanonicalLedger) :
    Except ReplayError ReplayOutcome × CanonicalLedger :=
  if request.range.blockCount.all (limits.maxBlocks < ·) ∨
      limits.maxManifests < request.manifests.length then
    (.error (.limitExceeded (emptyProgress l)), l)
  else if l.stateHash ≠ request.expectedStartStateHash then
    (.error (.startStateMismatch (emptyProgress l)), l)
  else if l.nextHeight.toOption ≠ some request.range.startInclusive then
    (.error (.startHeightMismatch (emptyProgress l)), l)
  else
    match preflight archive request l with
    | .error e => (.error e, l)
    | .ok manifests =>
      let final := (replayManifests R archive request cancellation manifests).exec ⟨l, 0, none, 0⟩
      match final.1 with
      | .ok () =>
        (.ok (.completed (receipt request .completed l.stateHash manifests final.2)),
          final.2.ledger)
      | .error .cancelled =>
        (.ok (.cancelled (receipt request .cancelled l.stateHash manifests final.2)),
          final.2.ledger)
      | .error (.failed e) => (.error e, final.2.ledger)

end SerialReplayEngine

end AlphaDesk
