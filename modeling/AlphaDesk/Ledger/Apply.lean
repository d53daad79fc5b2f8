import AlphaDesk.Events.Block
import AlphaDesk.State.Image

/-! # Applying a block

A reducer turns an event into state mutations, within the limits of the ledger. The
ledger stages every mutation of a block on a copy of its entries and replaces its
state only when the whole block has been accepted. A call returns its outcome
together with the ledger it leaves.
-/

namespace AlphaDesk

structure ApplyContext where
  chainId : ChainId
  blockHeight : BlockHeight
  blockTime : ProtocolTime
  confirmationClass : ConfirmationClass

/-- One touched key of a block, with its value before and after. -/
structure BlockDeltaEntry where
  key : StateKey
  blockStartValue : Option (List UInt8)
  blockFinalValue : Option (List UInt8)
  writeCount : ℕ

structure ReducerError where
  reasonCode : String
  message : String

/-- A deterministic reducer: its answers depend on its arguments alone. -/
structure EventReducer where
  reducerSetVersion : String
  supports : CanonicalEventEnvelope → Bool
  reduce : Entries → CanonicalEventEnvelope → ApplyContext →
    Except ReducerError (List StateMutation)
  validateBlockDelta : Entries → List BlockDeltaEntry → ApplyContext → Except ReducerError Unit

inductive LedgerError
  | invalidLimits
  | invalidReducerVersion
  | reducerVersionDrift
  | invalidReducerError
  | chainMismatch
  | nonCommittedBlock
  | correctionUnimplemented
  | heightDiscontinuity (expected actual : BlockHeight)
  | canonicalDivergence
  | heightExhausted
  | unsupportedEvent (kind : EventKind) (schemaVersion : String)
  | reducerFailed (source : ReducerError)
  | mutationLimitExceeded
  | invalidMutation (reason : String)
  | preparedStateDrift

inductive ConfirmationAdmission
  | committed
  | nonCommitted
  | correctionUnimplemented

def admitConfirmation : ConfirmationClass → ConfirmationAdmission
  | .committedPrimary => .committed
  | .committedIndependent => .committed
  | .corrected => .correctionUnimplemented
  | .provisionalSource => .nonCommitted
  | .reconciledSnapshot => .nonCommitted
  | .expired => .nonCommitted

def requireCommittedConfirmation (c : ConfirmationClass) : Except LedgerError Unit :=
  match admitConfirmation c with
  | .committed => .ok ()
  | .nonCommitted => .error .nonCommittedBlock
  | .correctionUnimplemented => .error .correctionUnimplemented

def usizeAdd (a b : ℕ) : Option ℕ := if a + b < UInt64.size then some (a + b) else none

def maxBlockDeltaEntries : ℕ := 1000000

def maxBlockDeltaReferencedBytes : ℕ := 256 * 1024 * 1024

/-- The constraints that tie the seven ledger limits together. -/
def consistentLimits (events mutations key value bytes entries referenced : ℕ) : Bool :=
  [events, mutations, key, value, bytes, entries, referenced].all (· != 0) &&
    key ≤ bytes && value ≤ bytes && events < 2 ^ 32 &&
    (events * mutations < UInt64.size && entries ≤ events * mutations) && referenced ≤ bytes

structure LedgerLimits where
  maxEventsPerBlock : ℕ
  maxMutationsPerEvent : ℕ
  maxKeyBytes : ℕ
  maxValueBytes : ℕ
  maxBlockDeltaBytes : ℕ
  maxBlockDeltaEntries : ℕ
  maxBlockDeltaReferencedBytes : ℕ
  consistent : consistentLimits maxEventsPerBlock maxMutationsPerEvent maxKeyBytes maxValueBytes
    maxBlockDeltaBytes maxBlockDeltaEntries maxBlockDeltaReferencedBytes = true

namespace LedgerLimits

def production : LedgerLimits where
  maxEventsPerBlock := 100000
  maxMutationsPerEvent := 4096
  maxKeyBytes := 4 * 1024
  maxValueBytes := 16 * 1024 * 1024
  maxBlockDeltaBytes := 256 * 1024 * 1024
  maxBlockDeltaEntries := AlphaDesk.maxBlockDeltaEntries
  maxBlockDeltaReferencedBytes := AlphaDesk.maxBlockDeltaReferencedBytes
  consistent := by decide

end LedgerLimits

structure TrackedBlockDelta where
  writeCount : ℕ
  finalValueBytes : ℕ

/-- The keys a block has written so far and the bytes their values refer to. -/
structure BlockDeltaTracker where
  blockStart : Entries
  entries : Std.ExtTreeMap StateKey TrackedBlockDelta
  referencedBytes : ℕ

namespace BlockDeltaTracker

def new (blockStart : Entries) : BlockDeltaTracker := ⟨blockStart, ∅, 0⟩

def valueBytes (value : Option (List UInt8)) : ℕ := (value.map List.length).getD 0

def recordWrite (limits : LedgerLimits) (t : BlockDeltaTracker) (key : StateKey)
    (finalValue : Option (List UInt8)) : Except LedgerError BlockDeltaTracker :=
  let finalValueBytes := valueBytes finalValue
  match t.entries[key]? with
  | some tracked =>
    if tracked.writeCount + 1 < 2 ^ 32 then
      if t.referencedBytes < tracked.finalValueBytes then .error .mutationLimitExceeded
      else match usizeAdd (t.referencedBytes - tracked.finalValueBytes) finalValueBytes with
        | none => .error .mutationLimitExceeded
        | some referencedBytes =>
          if limits.maxBlockDeltaReferencedBytes < referencedBytes then
            .error .mutationLimitExceeded
          else .ok { t with
            entries := t.entries.insert key ⟨tracked.writeCount + 1, finalValueBytes⟩
            referencedBytes := referencedBytes }
    else .error .mutationLimitExceeded
  | none =>
    if limits.maxBlockDeltaEntries ≤ t.entries.size then .error .mutationLimitExceeded
    else match (do
        let keyBytes ← key.encodedLen
        let bytes ← usizeAdd t.referencedBytes keyBytes
        let bytes ← usizeAdd bytes (valueBytes t.blockStart[key]?)
        usizeAdd bytes finalValueBytes) with
      | none => .error .mutationLimitExceeded
      | some referencedBytes =>
        if limits.maxBlockDeltaReferencedBytes < referencedBytes then .error .mutationLimitExceeded
        else .ok { t with
          entries := t.entries.insert key ⟨1, finalValueBytes⟩
          referencedBytes := referencedBytes }

/-- The view of the touched keys that block validation reads. -/
def deltaEntries (t : BlockDeltaTracker) (blockFinal : Entries) : List BlockDeltaEntry :=
  t.entries.toList.map fun e => ⟨e.1, t.blockStart[e.1]?, blockFinal[e.1]?, e.2.writeCount⟩

end BlockDeltaTracker

/-- What one block has staged: the candidate entries, the mutations applied to
them, the raw bytes counted and the touched keys. -/
structure StagedBlock where
  candidate : Entries
  applied : List AppliedMutation
  rawBytes : ℕ
  tracker : BlockDeltaTracker

def StagedBlock.start (entries : Entries) : StagedBlock := ⟨entries, [], 0, .new entries⟩

def repeatedKeyReason : String := "one event produced multiple mutations for the same state key"

def missingDeleteReason : String := "cannot delete a missing state key"

/-- The loop of the mutation checks, with the keys seen and the bytes counted. -/
def validateMutationsFrom (limits : LedgerLimits) (seen : List StateKey) (bytes : ℕ) :
    List StateMutation → Except LedgerError ℕ
  | [] => .ok bytes
  | m :: rest =>
    if m.key ∈ seen then .error (.invalidMutation repeatedKeyReason)
    else match m.key.encodedLen with
      | none => .error .mutationLimitExceeded
      | some keyBytes =>
        let valueBytes := BlockDeltaTracker.valueBytes m.value
        if limits.maxKeyBytes < keyBytes then .error .mutationLimitExceeded
        else if limits.maxValueBytes < valueBytes then .error .mutationLimitExceeded
        else match (usizeAdd bytes keyBytes).bind (usizeAdd · valueBytes) with
          | none => .error .mutationLimitExceeded
          | some total =>
            if limits.maxBlockDeltaBytes < total then .error .mutationLimitExceeded
            else validateMutationsFrom limits (m.key :: seen) total rest

def validateMutations (limits : LedgerLimits) (mutations : List StateMutation) (bytes : ℕ) :
    Except LedgerError ℕ :=
  if limits.maxMutationsPerEvent < mutations.length then .error .mutationLimitExceeded
  else validateMutationsFrom limits [] bytes mutations

def applyMutation (limits : LedgerLimits) (s : StagedBlock) :
    StateMutation → Except LedgerError StagedBlock
  | .put key value => do
    let tracker ← s.tracker.recordWrite limits key (some value)
    return { s with
      candidate := s.candidate.insert key value
      applied := s.applied ++ [⟨key, s.candidate[key]?, some value⟩]
      tracker := tracker }
  | .delete key =>
    match s.candidate[key]? with
    | none => .error (.invalidMutation missingDeleteReason)
    | some previous => do
      let tracker ← s.tracker.recordWrite limits key none
      return { s with
        candidate := s.candidate.erase key
        applied := s.applied ++ [⟨key, some previous, none⟩]
        tracker := tracker }

def applyMutations (limits : LedgerLimits) (s : StagedBlock) (mutations : List StateMutation) :
    Except LedgerError StagedBlock :=
  mutations.foldlM (applyMutation limits) s

/-- The body of the event loop. -/
def stageEvent (R : EventReducer) (limits : LedgerLimits) (context : ApplyContext)
    (s : StagedBlock) (event : CanonicalEventEnvelope) : Except LedgerError StagedBlock := do
  if R.supports event = false then throw (.unsupportedEvent event.eventKind event.schemaVersion)
  let mutations ← (R.reduce s.candidate event context).mapError .reducerFailed
  let bytes ← validateMutations limits mutations s.rawBytes
  applyMutations limits { s with rawBytes := bytes } mutations

def stageEvents (R : EventReducer) (limits : LedgerLimits) (context : ApplyContext)
    (entries : Entries) (events : List CanonicalEventEnvelope) : Except LedgerError StagedBlock :=
  events.foldlM (stageEvent R limits context) (.start entries)

structure StateCheckpoint where
  chainId : ChainId
  blockHeight : BlockHeight
  canonicalBlockHash : Hash32
  stateHash : Hash32
  reducerSetVersion : String

structure StateDelta where
  checkpoint : StateCheckpoint
  beforeStateHash : Hash32
  mutations : List AppliedMutation
  eventCount : ℕ

def StateDelta.afterStateHash (d : StateDelta) : Hash32 := d.checkpoint.stateHash

inductive ApplyOutcome
  | applied (delta : StateDelta)
  | alreadyApplied (checkpoint : StateCheckpoint)

structure PreparedBlock where
  nextState : StateImage
  delta : StateDelta

inductive PrepareOutcome
  | ready (prepared : PreparedBlock)
  | alreadyApplied (checkpoint : StateCheckpoint)

/-- The ledger: its state and the cached hash of that state. -/
structure CanonicalLedger where
  limits : LedgerLimits
  state : StateImage
  stateHash : Hash32

namespace CanonicalLedger

variable {B : Blake3} (R : EventReducer)

def tryNew (B : Blake3) (chainId : ChainId) (firstHeight : BlockHeight) (R : EventReducer)
    (limits : LedgerLimits) : Except LedgerError CanonicalLedger :=
  if hv : validReducerVersion R.reducerSetVersion = true then
    let state := StateImage.empty chainId firstHeight R.reducerSetVersion hv
    .ok ⟨limits, state, state.stateHash B⟩
  else .error .invalidReducerVersion

def tryFromStateImage (B : Blake3) (state : StateImage) (R : EventReducer)
    (limits : LedgerLimits) : Except LedgerError CanonicalLedger :=
  if validReducerVersion R.reducerSetVersion = false then .error .invalidReducerVersion
  else if R.reducerSetVersion ≠ state.reducerSetVersion then .error .reducerVersionDrift
  else .ok ⟨limits, state, state.stateHash B⟩

def checkpointFrom (l : CanonicalLedger) (w : StateWatermark) (stateHash : Hash32) :
    StateCheckpoint :=
  ⟨l.state.chainId, w.blockHeight, w.canonicalBlockHash, stateHash, l.state.reducerSetVersion⟩

/-- The last commit: what the watermark and the cached hash say together. -/
def checkpoint (l : CanonicalLedger) : Option StateCheckpoint :=
  l.state.watermark.map fun w => l.checkpointFrom w l.stateHash

def nextHeight (l : CanonicalLedger) : Except LedgerError BlockHeight :=
  match l.state.watermark with
  | some w =>
    if w.blockHeight.toNat + 1 < UInt64.size then .ok (w.blockHeight + 1)
    else .error .heightExhausted
  | none => .ok l.state.firstHeight

theorem firstHeight_le_nextHeight {l : CanonicalLedger} {h : BlockHeight}
    (hn : l.nextHeight = .ok h) : l.state.firstHeight ≤ h := by
  revert hn
  fun_cases nextHeight l with
  | case1 w hw hlt =>
    rintro ⟨⟩
    have hle := l.state.firstHeight_le w hw
    have hs : (w.blockHeight + 1).toNat = w.blockHeight.toNat + 1 := by
      exact Nat.mod_eq_of_lt hlt
    rw [UInt64.le_iff_toNat_le] at hle ⊢
    omega
  | case2 => rintro ⟨⟩
  | case3 =>
    rintro ⟨⟩
    exact UInt64.le_refl _

def validateBoundary (l : CanonicalLedger) (block : BlockEnvelope B) : Except LedgerError Unit :=
  if block.chainId ≠ l.state.chainId then .error .chainMismatch
  else requireCommittedConfirmation block.confirmationClass

def duplicateCheckpoint (l : CanonicalLedger) (block : BlockEnvelope B) :
    Except LedgerError (Option StateCheckpoint) :=
  match l.state.watermark with
  | none => .ok none
  | some w =>
    if block.blockHeight ≠ w.blockHeight then .ok none
    else if block.canonicalBlockHash ≠ w.canonicalBlockHash then .error .canonicalDivergence
    else .ok (some (l.checkpointFrom w l.stateHash))

/-- The height check, which also shows that the block is not below the first height. -/
def validateNextHeight (l : CanonicalLedger) (actual : BlockHeight) :
    Except LedgerError (PLift (l.state.firstHeight ≤ actual)) :=
  match hn : l.nextHeight with
  | .error e => .error e
  | .ok expected =>
    if ha : actual = expected then .ok ⟨ha ▸ firstHeight_le_nextHeight hn⟩
    else .error (.heightDiscontinuity expected actual)

def applyContext (block : BlockEnvelope B) : ApplyContext :=
  ⟨block.chainId, block.blockHeight, block.blockTime, block.confirmationClass⟩

/-- The block that staged entries make, behind its own watermark. -/
def prepared (l : CanonicalLedger) (block : BlockEnvelope B) (staged : StagedBlock)
    (hh : l.state.firstHeight ≤ block.blockHeight) : PreparedBlock :=
  let watermark : StateWatermark := ⟨block.blockHeight, block.canonicalBlockHash⟩
  let nextState := l.state.commit watermark staged.candidate hh
  { nextState := nextState
    delta :=
      { checkpoint := l.checkpointFrom watermark (nextState.stateHash B)
        beforeStateHash := l.stateHash
        mutations := staged.applied
        eventCount := block.events.length } }

/-- Reduce the events of a block and check the block as a whole. -/
def reduceBlock (l : CanonicalLedger) (block : BlockEnvelope B) :
    Except LedgerError StagedBlock := do
  if l.limits.maxEventsPerBlock < block.events.length then throw .mutationLimitExceeded
  let staged ← stageEvents R l.limits (applyContext block) l.state.entries block.events
  (R.validateBlockDelta staged.candidate (staged.tracker.deltaEntries staged.candidate)
    (applyContext block)).mapError .reducerFailed
  return staged

def prepareBlock (l : CanonicalLedger) (block : BlockEnvelope B) :
    Except LedgerError PrepareOutcome := do
  if R.reducerSetVersion ≠ l.state.reducerSetVersion then throw .reducerVersionDrift
  l.validateBoundary block
  match ← l.duplicateCheckpoint block with
  | some checkpoint => return .alreadyApplied checkpoint
  | none =>
    let height ← l.validateNextHeight block.blockHeight
    let staged ← l.reduceBlock R block
    return .ready (l.prepared block staged height.down)

abbrev Call (α : Type) := Except LedgerError α × CanonicalLedger

def commitPrepared (l : CanonicalLedger) (p : PreparedBlock) : Call StateDelta :=
  if l.stateHash ≠ p.delta.beforeStateHash then (.error .preparedStateDrift, l)
  else (.ok p.delta, { l with state := p.nextState, stateHash := p.delta.afterStateHash })

def applyBlock (l : CanonicalLedger) (block : BlockEnvelope B) : Call ApplyOutcome :=
  match l.prepareBlock R block with
  | .error e => (.error e, l)
  | .ok (.alreadyApplied checkpoint) => (.ok (.alreadyApplied checkpoint), l)
  | .ok (.ready p) =>
    let (result, l') := l.commitPrepared p
    (result.map .applied, l')

end CanonicalLedger

end AlphaDesk
