import AlphaDesk.Capture.Plan
import AlphaDesk.Foundation.Effect

/-! # The capture coordinator

The coordinator archives a block, journals its plan, publishes the messages of the
plan that are not yet acknowledged and moves the cursor. The archive, the publisher,
the clock and the injected faults are ports on a world of their own. A fault ends a
call where it occurs; the journal and what was published stay as they are.
-/

namespace AlphaDesk

open Std.ExtTreeMap

/-- What the coordinator calls: the archive, the publisher and the clock. Each call may change
the world `ω` it is made in. -/
structure CapturePorts (B : Blake3) (ω : Type) where
  appendBlock : BlockEnvelope B → ω → Except ArchiveError ArchiveReceipt × ω
  loadBlock : ChainId → BlockHeight → ω → Except ArchiveError (BlockEnvelope B) × ω
  publish : PublicationMessage → ω → Except PublicationError PublicationAck × ω
  acknowledgedAt : BlockHeight → UInt32 → ω → Except CoordinatorError KnownTime × ω

abbrev FaultInjector (ω : Type) := CoordinatorFaultPoint → ω → Except CoordinatorError Unit × ω

def noCoordinatorFaults {ω : Type} : FaultInjector ω := fun _ w => (.ok (), w)

/-- What the coordinator has done that a restart does not undo. -/
inductive CaptureCall
  | published (chainId : ChainId) (blockHeight : BlockHeight) (ordinal : UInt32)
    (message : PublicationMessage) (reply : Except PublicationError PublicationAck)
  | acknowledged (chainId : ChainId) (blockHeight : BlockHeight)
    (acknowledgement : PublicationAcknowledgement)
  | advanced (cursor : CaptureCursor)

structure CaptureState (ω : Type) where
  world : ω
  progress : InMemoryProgressStore
  calls : List CaptureCall

variable {B : Blake3} {ω : Type}

abbrev Coordinator (ω : Type) := Effect (CaptureState ω) CoordinatorError

namespace Coordinator

def port {ε α : Type} (call : ω → Except ε α × ω) (error : ε → CoordinatorError) :
    Coordinator ω α :=
  Effect.mk fun s => ((call s.world).1.mapError error, { s with world := (call s.world).2 })

def read {α : Type} (load : InMemoryProgressStore → Except ProgressError α) : Coordinator ω α :=
  Effect.mk fun s => ((load s.progress).mapError fun _ => .progress, s)

/-- A change of the journal, with the call to remember when it succeeds. -/
def write {α : Type}
    (change : InMemoryProgressStore → Except ProgressError (α × InMemoryProgressStore))
    (calls : α → InMemoryProgressStore → List CaptureCall) : Coordinator ω α :=
  Effect.mk fun s =>
    match change s.progress with
    | .error _ => (.error .progress, s)
    | .ok (a, progress) =>
      (.ok a, { s with progress := progress, calls := s.calls ++ calls a s.progress })

variable (ports : CapturePorts B ω) (faults : FaultInjector ω)

def check (point : CoordinatorFaultPoint) : Coordinator ω Unit := port (faults point) id

def appendBlock (block : BlockEnvelope B) : Coordinator ω ArchiveReceipt :=
  port (ports.appendBlock block) fun _ => .archive

def loadBlock (chainId : ChainId) (blockHeight : BlockHeight) : Coordinator ω (BlockEnvelope B) :=
  port (ports.loadBlock chainId blockHeight) fun _ => .archive

/-- The archived block of a height, or nothing behind the end of the archive. -/
def findBlock (chainId : ChainId) (blockHeight : BlockHeight) :
    Coordinator ω (Option (BlockEnvelope B)) :=
  Effect.mk fun s =>
    let reply := ports.loadBlock chainId blockHeight s.world
    (match reply.1 with
      | .ok block => .ok (some block)
      | .error .rangeUnavailable => .ok none
      | .error _ => .error .archive, { s with world := reply.2 })

def publish (plan : ArchivedBlockPlan) (ordinal : UInt32) (message : PublicationMessage) :
    Coordinator ω PublicationAck :=
  Effect.mk fun s =>
    let reply := ports.publish message s.world
    (reply.1.mapError fun _ => .publication,
      { s with
        world := reply.2
        calls := s.calls ++
          [.published plan.chainId plan.blockHeight ordinal message reply.1] })

def recordArchived (plan : ArchivedBlockPlan) : Coordinator ω ProgressRecordDisposition :=
  write (·.recordArchived plan) fun _ _ => []

def recordAcknowledgement (plan : ArchivedBlockPlan) (ack : PublicationAcknowledgement) :
    Coordinator ω ProgressRecordDisposition :=
  write (·.recordAcknowledgement plan.chainId plan.blockHeight ack) fun _ _ =>
    [.acknowledged plan.chainId plan.blockHeight ack]

/-- A cursor is remembered as set when it is another than before. -/
def moved (chainId : ChainId) (cursor : CaptureCursor) (before : InMemoryProgressStore) :
    List CaptureCall :=
  if before.loadCursor chainId = .ok (some cursor) then [] else [.advanced cursor]

def advanceCursor (plan : ArchivedBlockPlan) : Coordinator ω CaptureCursor :=
  write (·.advanceCursor plan.chainId plan.blockHeight) (moved plan.chainId)

variable (K : EnvelopeCodec) (ports : CapturePorts B ω) (faults : FaultInjector ω)

/-- The acknowledgements by their ordinals, which must differ. -/
def acknowledgedByOrdinal (acks : List PublicationAcknowledgement) :
    Except CoordinatorError (Std.ExtTreeMap UInt32 PublicationAcknowledgement) :=
  acks.foldlM (fun found ack =>
    if ack.ordinal ∈ found then .error .recoveryMismatch else .ok (found.insert ack.ordinal ack)) ∅

theorem acknowledgedByOrdinal_values {block : BlockState}
    (h : ∀ (ordinal : UInt32) (ack : PublicationAcknowledgement),
      block.acknowledgements[ordinal]? = some ack → ack.ordinal = ordinal) :
    acknowledgedByOrdinal block.values = .ok block.acknowledgements := by
  have hfold : ∀ entries (found : Std.ExtTreeMap UInt32 PublicationAcknowledgement),
      block.acknowledgements.toList = found.toList ++ entries →
      (entries.map (·.2)).foldlM (fun found ack =>
        if ack.ordinal ∈ found then Except.error CoordinatorError.recoveryMismatch
        else .ok (found.insert ack.ordinal ack)) found = .ok block.acknowledgements := by
    intro entries
    induction entries with
    | nil =>
      intro found hlist
      rw [toList_inj.mp (hlist.trans (List.append_nil _))]
      rfl
    | cons entry entries ih =>
      intro found hlist
      have hown : entry.2.ordinal = entry.1 :=
        h _ _ (mem_toList_iff_getElem?_eq_some.mp (hlist ▸ by simp : entry ∈ _))
      obtain ⟨hnew, hnext⟩ := insert_of_toList_eq hlist
      rw [List.map_cons, List.foldlM_cons, hown, if_neg hnew]
      exact ih _ hnext
  exact hfold _ ∅ (by simp)

def publishMessage (plan : ArchivedBlockPlan) (ordinal : UInt32) (message : PublicationMessage) :
    Coordinator ω Unit := do
  let reply ← publish ports plan ordinal message
  check faults (.afterPublish ordinal)
  let acknowledgedAt ← port (ports.acknowledgedAt plan.blockHeight ordinal) id
  let ack ← Effect.ofExcept ((PublicationAcknowledgement.tryNew ordinal reply.messageId
    message.subject.asStr reply.publicationSha256 reply.stream reply.streamSequence
    reply.duplicate acknowledgedAt).mapError fun _ => .progress)
  let _ ← recordAcknowledgement plan ack
  check faults (.afterAcknowledgement ordinal)

/-- A message acknowledged before is only checked. -/
def settleMessage (plan : ArchivedBlockPlan)
    (acknowledged : Std.ExtTreeMap UInt32 PublicationAcknowledgement) (ordinal : UInt32)
    (message : PublicationMessage) : Coordinator ω Unit :=
  match acknowledged[ordinal]? with
  | some ack => Effect.ofExcept (verifyAcknowledgement message ordinal ack)
  | none => publishMessage ports faults plan ordinal message

def publishFrom (plan : ArchivedBlockPlan)
    (acknowledged : Std.ExtTreeMap UInt32 PublicationAcknowledgement) :
    ℕ → List PublicationMessage → Coordinator ω Unit
  | _, [] => return
  | index, message :: rest => do
    let ordinal ← Effect.ofExcept (ordinalOf index)
    settleMessage ports faults plan acknowledged ordinal message
    publishFrom plan acknowledged (index + 1) rest

def completeBatch (plan : ArchivedBlockPlan) (batch : CommittedPublicationBatch) :
    Coordinator ω CaptureCursor := do
  Effect.ofExcept (verifyPlanMatchesBatch plan batch)
  let acks ← read (·.loadAcknowledgements plan.chainId plan.blockHeight)
  let acknowledged ← Effect.ofExcept (acknowledgedByOrdinal acks)
  publishFrom ports faults plan acknowledged 0 batch.messages
  let cursor ← advanceCursor plan
  check faults .afterCursor
  return cursor

def processBlock (block : BlockEnvelope B) : Coordinator ω CaptureCursor := do
  let receipt ← appendBlock ports block
  check faults .afterArchive
  let batch ← Effect.ofExcept
    ((CommittedPublicationBatch.tryNew K block receipt).mapError fun _ => .publication)
  let plan ← Effect.ofExcept (buildPlan block receipt batch)
  let _ ← recordArchived plan
  check faults .afterJournal
  completeBatch ports faults plan batch

/-- Take up a journalled plan again, with the block that the archive holds. -/
def resumePlan (chainId : ChainId) (blockHeight : BlockHeight) (plan : ArchivedBlockPlan) :
    Coordinator ω CaptureCursor := do
  let block ← loadBlock ports chainId blockHeight
  let receipt ← Effect.ofExcept (receiptFromPlan plan)
  let batch ← Effect.ofExcept
    ((CommittedPublicationBatch.tryNew K block receipt).mapError fun _ => .publication)
  Effect.ofExcept (verifyPlanMatchesBatch plan batch)
  completeBatch ports faults plan batch

def resumePlans (chainId : ChainId) : List ArchivedBlockPlan → Coordinator ω (List BlockHeight)
  | [] => return []
  | plan :: rest => do
    let _ ← resumePlan K ports faults chainId plan.blockHeight plan
    let heights ← resumePlans chainId rest
    return plan.blockHeight :: heights

def recoverPending (chainId : ChainId) (limit : ℕ) : Coordinator ω (List BlockHeight) := do
  let plans ← read (·.pendingBlocks chainId limit)
  resumePlans K ports faults chainId plans

def recovered (expected : BlockHeight) (cursor : CaptureCursor) :
    Coordinator ω (Option BlockHeight) :=
  if cursor.committedBlockHeight ≠ expected then throw .recoveryMismatch
  else return some expected

/-- One round of recovery: the next expected height, from its plan or from the archive. -/
def recoverNext (chainId : ChainId) : Coordinator ω (Option BlockHeight) := do
  let expected ← read (·.nextExpectedHeight chainId)
  match ← read (·.loadArchivedBlock chainId expected) with
  | some plan =>
    let cursor ← resumePlan K ports faults chainId expected plan
    recovered expected cursor
  | none =>
    match ← findBlock ports chainId expected with
    | some block =>
      let cursor ← processBlock K ports faults block
      recovered expected cursor
    | none => return none

def recoverRounds (chainId : ChainId) : ℕ → Coordinator ω (List BlockHeight)
  | 0 => return []
  | limit + 1 => do
    match ← recoverNext K ports faults chainId with
    | none => return []
    | some height =>
      let heights ← recoverRounds chainId limit
      return height :: heights

def recoverStartup (chainId : ChainId) (limit : ℕ) : Coordinator ω (List BlockHeight) :=
  if limit = 0 then throw .invalidRecoveryLimit
  else recoverRounds K ports faults chainId limit

end Coordinator

inductive CaptureRequest (B : Blake3)
  | processBlock (block : BlockEnvelope B)
  | recoverPending (chainId : ChainId) (limit : ℕ)
  | recoverStartup (chainId : ChainId) (limit : ℕ)

/-- The state a call leaves, whether it succeeds or not. -/
def CaptureRequest.serve (K : EnvelopeCodec) (ports : CapturePorts B ω) (faults : FaultInjector ω)
    (s : CaptureState ω) : CaptureRequest B → CaptureState ω
  | processBlock block => ((Coordinator.processBlock K ports faults block).exec s).2
  | recoverPending chainId limit =>
    ((Coordinator.recoverPending K ports faults chainId limit).exec s).2
  | recoverStartup chainId limit =>
    ((Coordinator.recoverStartup K ports faults chainId limit).exec s).2

end AlphaDesk
