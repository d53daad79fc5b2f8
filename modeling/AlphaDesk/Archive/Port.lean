import AlphaDesk.Events.Block

/-! # The archive's port

What the canonical archive answers: receipts of durably written blocks, and errors
with their reason codes.
-/

namespace AlphaDesk

open Bytes

abbrev ManifestId := StringId

inductive RawArchiveCapacityRejection
  | invalidPolicy
  | arithmeticOverflow
  | purgeWorkflowMissing
  | rawDataBudget
  | metadataBudget
  | totalStorageBudget
  | inodeBudget
  | runtimeLimitExceeded
  deriving DecidableEq

def RawArchiveCapacityRejection.reasonCode : RawArchiveCapacityRejection → String
  | invalidPolicy => "raw_archive.capacity.invalid_policy"
  | arithmeticOverflow => "raw_archive.capacity.arithmetic_overflow"
  | purgeWorkflowMissing => "raw_archive.capacity.purge_workflow_missing"
  | rawDataBudget => "raw_archive.capacity.raw_data_budget"
  | metadataBudget => "raw_archive.capacity.metadata_budget"
  | totalStorageBudget => "raw_archive.capacity.total_storage_budget"
  | inodeBudget => "raw_archive.capacity.inode_budget"
  | runtimeLimitExceeded => "raw_archive.capacity.runtime_limit_exceeded"

inductive ArchiveError
  | io (context : String)
  | manifestVerification (reason : String)
  | rangeUnavailable
  | schemaMismatch
  | corruptObject (reason : String)
  | conflictingBlock (height : BlockHeight)
  | conflictingRawRange (sourceId : SourceId) (epoch : String) (start stop : UInt64)
  | invalidInput (label : String)
  | unsafePath
  | writerBusy
  | codec (reason : String)
  | capacity (rejection : RawArchiveCapacityRejection)
  | receiptIndexRebuildRequired
  | importJournalRotationBeforeCurrent (reason : String)
  deriving DecidableEq

def ArchiveError.reasonCode : ArchiveError → String
  | io _ => "archive.io"
  | manifestVerification _ => "archive.manifest_verification"
  | rangeUnavailable => "archive.range_unavailable"
  | schemaMismatch => "archive.schema_mismatch"
  | corruptObject _ => "archive.corrupt_object"
  | conflictingBlock _ => "archive.conflicting_block"
  | conflictingRawRange .. => "archive.conflicting_raw_range"
  | invalidInput _ => "archive.invalid_input"
  | unsafePath => "archive.unsafe_path"
  | writerBusy => "archive.writer_busy"
  | codec _ => "archive.codec"
  | capacity rejection => rejection.reasonCode
  | receiptIndexRebuildRequired => "archive.receipt_index_rebuild_required"
  | importJournalRotationBeforeCurrent _ => "archive.import_journal_rotation_before_current"

/-- The archive's rule for receipt identities, narrower in length than the journal's and
blind to the control characters outside ASCII. -/
def validReceiptId (value : String) : Bool :=
  !value.isEmpty && trim value == value && decide ((utf8 value).length ≤ 256) &&
    !(utf8 value).any isAsciiControl

/-- What the archive returns for a durably written block. -/
@[ext]
structure ArchiveReceipt where
  receiptId : String
  manifestId : ManifestId
  blockHeight : BlockHeight
  canonicalBlockHash : Hash32
  objectSha256 : Hash32
  manifestSha256 : Hash32
  schemaFingerprint : Hash32
  durableAt : KnownTime
  receiptId_valid : validReceiptId receiptId = true
  deriving DecidableEq

def ArchiveReceipt.tryNew (receiptId : String) (manifestId : ManifestId)
    (blockHeight : BlockHeight)
    (canonicalBlockHash objectSha256 manifestSha256 schemaFingerprint : Hash32)
    (durableAt : KnownTime) : Except ArchiveError ArchiveReceipt :=
  if h : validReceiptId receiptId = true then
    .ok ⟨receiptId, manifestId, blockHeight, canonicalBlockHash, objectSha256, manifestSha256,
      schemaFingerprint, durableAt, h⟩
  else .error (.invalidInput "receipt ID")

theorem ArchiveReceipt.tryNew_fields (r : ArchiveReceipt) :
    tryNew r.receiptId r.manifestId r.blockHeight r.canonicalBlockHash r.objectSha256
      r.manifestSha256 r.schemaFingerprint r.durableAt = .ok r :=
  dif_pos r.receiptId_valid

end AlphaDesk
