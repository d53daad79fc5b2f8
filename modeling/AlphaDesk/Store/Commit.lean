import AlphaDesk.Foundation.Interruptible
import AlphaDesk.Ledger.Run
import AlphaDesk.State.Bijection

/-! # Committing to the atomic state store

The root of a store holds a `HEAD` file and directories, staged ones and published
generations. A commit stages its image as a generation of its own, publishes the
generation under the image's hash and then moves `HEAD` to it. An attempt may be cut
short after any file operation, by a crash or by a failure of the next operation.
-/

namespace AlphaDesk

open Bytes Interruptible Address

def stateStoreSchema : String := "hyperliquid-alpha-desk/file-atomic-state-store/v1"

def generationName (stateHash : Hash32) : String :=
  String.ofList ('g' :: 'e' :: 'n' :: '-' :: hexEncode stateHash.toList)

def stagingName (random : Vector UInt8 16) : String :=
  String.ofList
    ('.' :: 's' :: 't' :: 'a' :: 'g' :: 'e' :: 'd' :: '-' :: hexEncode random.toList)

def isHexByte (b : UInt8) : Bool :=
  (48 ≤ b.toNat && b.toNat ≤ 57) || (97 ≤ b.toNat && b.toNat ≤ 102)

/-- The bytes `gen-` and sixty-four lowercase hexadecimal digits. -/
def validGenerationName (name : String) : Bool :=
  match utf8 name with
  | 103 :: 101 :: 110 :: 45 :: hash => hash.length == 64 && hash.all isHexByte
  | _ => false

theorem utf8EncodeChar_hexDigit :
    ∀ n < 16, String.utf8EncodeChar (hexDigit n) =
      [UInt8.ofNat (hexDigit n).toNat] ∧
        isHexByte (UInt8.ofNat (hexDigit n).toNat) = true := by
  decide

theorem utf8_hexEncode (bs : List UInt8) :
    ((hexEncode bs).flatMap String.utf8EncodeChar).length = 2 * bs.length ∧
      ((hexEncode bs).flatMap String.utf8EncodeChar).all isHexByte = true := by
  induction bs with
  | nil => exact ⟨rfl, rfl⟩
  | cons b bs ih =>
    obtain ⟨hlen, hall⟩ := ih
    have hb : b.toNat < 256 := b.toNat_lt
    obtain ⟨hhi, hhex⟩ := utf8EncodeChar_hexDigit (b.toNat / 16) (by omega)
    obtain ⟨hlo, lhex⟩ := utf8EncodeChar_hexDigit (b.toNat % 16) (by omega)
    have hcons : (hexEncode (b :: bs)).flatMap String.utf8EncodeChar =
        UInt8.ofNat (hexDigit (b.toNat / 16)).toNat ::
          UInt8.ofNat (hexDigit (b.toNat % 16)).toNat ::
          (hexEncode bs).flatMap String.utf8EncodeChar := by
      simp [hexEncode, hhi, hlo]
    rw [hcons]
    refine ⟨?_, ?_⟩
    · simp only [List.length_cons, hlen]
      omega
    · simp only [List.all_cons, hhex, lhex, hall, Bool.and_self]

theorem utf8_generationName (stateHash : Hash32) :
    utf8 (generationName stateHash) = 103 :: 101 :: 110 :: 45 ::
      (hexEncode stateHash.toList).flatMap String.utf8EncodeChar := by
  rw [generationName, utf8_ofList]
  rfl

theorem length_utf8_generationName (stateHash : Hash32) :
    (utf8 (generationName stateHash)).length = 68 := by
  rw [utf8_generationName]
  simp [(utf8_hexEncode stateHash.toList).1]

/-- The check that `write_head` makes of its generation always passes. -/
theorem validGenerationName_generationName (stateHash : Hash32) :
    validGenerationName (generationName stateHash) = true := by
  obtain ⟨hlen, hall⟩ := utf8_hexEncode stateHash.toList
  simp [validGenerationName, utf8_generationName, hlen, hall]

theorem ne_stagingName {name : String} (h : validGenerationName name = true)
    (random : Vector UInt8 16) : name ≠ stagingName random := by
  rintro rfl
  have hbytes : utf8 (stagingName random) = 46 :: (stagingName random |> utf8).tail := by
    rw [stagingName, utf8_ofList]
    rfl
  rw [validGenerationName, hbytes] at h
  simp at h

/-- The files of a generation: `state.bin` and `SCHEMA`. -/
inductive StagedFile
  | state
  | schema
  deriving DecidableEq

structure Directory where
  state : Option (List UInt8)
  schema : Option (List UInt8)
  deriving DecidableEq

namespace Directory

def empty : Directory := ⟨none, none⟩

def get (d : Directory) : StagedFile → Option (List UInt8)
  | .state => d.state
  | .schema => d.schema

def set (d : Directory) (bytes : List UInt8) : StagedFile → Directory
  | .state => { d with state := some bytes }
  | .schema => { d with schema := some bytes }

/-- The directory of a generation all of whose files are written. -/
def complete (bytes : List UInt8) : Directory := ⟨some bytes, some (utf8 stateStoreSchema)⟩

end Directory

structure Root where
  head : Option (List UInt8)
  stagedHead : Option (List UInt8)
  directories : String → Option Directory

namespace Root

def empty : Root := ⟨none, none, fun _ => none⟩

def setDirectory (r : Root) (name : String) (d : Option Directory) : Root :=
  { r with directories := Function.update r.directories name d }

@[simp] theorem setDirectory_self (r : Root) (name : String) (d : Option Directory) :
    (r.setDirectory name d).directories name = d := Function.update_self ..

theorem setDirectory_of_ne (r : Root) {name other : String} (h : other ≠ name)
    (d : Option Directory) : (r.setDirectory name d).directories other = r.directories other :=
  Function.update_of_ne h ..

end Root

inductive FileOp
  | makeDirectory (name : String)
  | openDirectory
  | setDirectoryMode
  | createFile (name : String) (file : StagedFile)
  | setFileMode
  | writeFile (name : String) (file : StagedFile) (bytes : List UInt8)
  | syncFile
  | syncDirectory
  | publish (name generation : String)
  | createHead
  | setHeadMode
  | writeHead (bytes : List UInt8)
  | syncHead
  | publishHead
  | syncRoot
  deriving DecidableEq

namespace FileOp

/-- The effect of an operation, or `none` when the file system refuses it. -/
def apply : FileOp → Root → Option Root
  | makeDirectory name, r =>
    if (r.directories name).isSome then none else some (r.setDirectory name (some .empty))
  | createFile name file, r => do
    let d ← r.directories name
    -- the file must not exist: `CREATE | EXCL`
    if (d.get file).isSome then none else some (r.setDirectory name (some (d.set [] file)))
  | writeFile name file bytes, r => do
    let d ← r.directories name
    return r.setDirectory name (some (d.set bytes file))
  | publish name generation, r =>
    -- the rename does not replace what is there: `NOREPLACE`
    if (r.directories generation).isSome then none
    else do
      let d ← r.directories name
      return (r.setDirectory name none).setDirectory generation (some d)
  | createHead, r => some { r with stagedHead := some [] }
  | writeHead bytes, r => some { r with stagedHead := some bytes }
  | publishHead, r => do
    let bytes ← r.stagedHead
    return { r with head := some bytes, stagedHead := none }
  | openDirectory, r | setDirectoryMode, r | setFileMode, r | syncFile, r | syncDirectory, r
  | setHeadMode, r | syncHead, r | syncRoot, r => some r

/-- What the store reports when the operation fails. -/
def failure : FileOp → String
  | makeDirectory _ => "creating staged atomic generation"
  | openDirectory => "opening staged atomic generation"
  | setDirectoryMode => "setting staged generation permissions"
  | createFile _ _ => "creating staged atomic file"
  | setFileMode => "setting staged atomic file permissions"
  | writeFile _ _ _ => "writing staged atomic file"
  | syncFile => "syncing staged atomic file"
  | syncDirectory => "syncing staged atomic directory"
  | publish _ _ => "publishing atomic state generation"
  | createHead => "creating staged HEAD"
  | setHeadMode => "setting staged HEAD permissions"
  | writeHead _ => "writing staged HEAD"
  | syncHead => "syncing staged HEAD"
  | publishHead => "publishing atomic HEAD"
  | syncRoot => "syncing atomic state root"

/-- Whether the commit owns an unpublished staged directory at this operation, which is then
dropped when the operation fails. -/
def ownsStaged : FileOp → Bool
  | createFile _ _ | setFileMode | writeFile _ _ _ | syncFile | syncDirectory | publish _ _ => true
  | makeDirectory _ | openDirectory | setDirectoryMode => false
  | createHead | setHeadMode | writeHead _ | syncHead | publishHead | syncRoot => false

end FileOp

section Sequence

variable (name generation : String) (bytes : List UInt8)

def createOps : List FileOp := [.makeDirectory name, .openDirectory, .setDirectoryMode]

def writeFileOps (file : StagedFile) : List FileOp :=
  [.createFile name file, .setFileMode, .writeFile name file bytes, .syncFile]

/-- Everything up to the rename that publishes the generation. -/
def stagingOps : List FileOp :=
  createOps name ++ writeFileOps name bytes .state ++
    writeFileOps name (utf8 stateStoreSchema) .schema ++ [.syncDirectory]

def stageHeadOps : List FileOp :=
  [.createHead, .setHeadMode, .writeHead (utf8 generation), .syncHead]

def commitOps : List FileOp :=
  stagingOps name bytes ++
    (.publish name generation :: (stageHeadOps generation ++ [.publishHead, .syncRoot]))

end Sequence

/-- Which of the best-effort removals of a dropped staged directory succeed. -/
structure Cleanup where
  unlinkState : Bool
  unlinkSchema : Bool
  removeDirectory : Bool

def Cleanup.unlink (k : Cleanup) (d : Directory) : Directory where
  state := if k.unlinkState then none else d.state
  schema := if k.unlinkSchema then none else d.schema

def Root.dropStaged (k : Cleanup) (name : String) (r : Root) : Root :=
  match r.directories name with
  | none => r
  | some d =>
    let d' := k.unlink d
    r.setDirectory name (if k.removeDirectory = true ∧ d' = Directory.empty then none else some d')

variable {B : Blake3}

inductive StateStoreError
  | invalidCommit
  | locked
  | corrupt
  | conflict
  | resourceLimit
  | rebuildRequired
  | io (context : String)
  deriving DecidableEq

/-- A delta with the image it leads to, which agree in every field they share. -/
structure AtomicStateCommit (B : Blake3) where
  delta : StateDelta
  stateImage : StateImage
  stateHash_eq : stateImage.stateHash B = delta.afterStateHash
  chainId_eq : stateImage.chainId = delta.checkpoint.chainId
  blockHeight_eq : stateImage.blockHeight = some delta.checkpoint.blockHeight
  canonicalBlockHash_eq :
    stateImage.canonicalBlockHash = some delta.checkpoint.canonicalBlockHash
  reducerSetVersion_eq : stateImage.reducerSetVersion = delta.checkpoint.reducerSetVersion

namespace AtomicStateCommit

def tryNew (B : Blake3) (delta : StateDelta) (stateImage : StateImage) :
    Except StateStoreError (AtomicStateCommit B) :=
  if h : stateImage.stateHash B = delta.afterStateHash ∧
      stateImage.chainId = delta.checkpoint.chainId ∧
      stateImage.blockHeight = some delta.checkpoint.blockHeight ∧
      stateImage.canonicalBlockHash = some delta.checkpoint.canonicalBlockHash ∧
      stateImage.reducerSetVersion = delta.checkpoint.reducerSetVersion then
    .ok ⟨delta, stateImage, h.1, h.2.1, h.2.2.1, h.2.2.2.1, h.2.2.2.2⟩
  else .error .invalidCommit

/-- The commit of a block that a ledger has prepared. -/
def ofPrepared (l : CanonicalLedger) (block : BlockEnvelope B) (staged : StagedBlock)
    (hh : l.state.firstHeight ≤ block.blockHeight) : AtomicStateCommit B :=
  ⟨(l.prepared block staged hh).delta, (l.prepared block staged hh).nextState, rfl, rfl, rfl, rfl,
    rfl⟩

theorem tryNew_prepared (l : CanonicalLedger) (block : BlockEnvelope B) (staged : StagedBlock)
    (hh : l.state.firstHeight ≤ block.blockHeight) :
    tryNew B (l.prepared block staged hh).delta (l.prepared block staged hh).nextState =
      .ok (ofPrepared l block staged hh) :=
  dif_pos ⟨rfl, rfl, rfl, rfl, rfl⟩

variable (c : AtomicStateCommit B)

def beforeStateHash : Hash32 := c.delta.beforeStateHash

def afterStateHash : Hash32 := c.delta.afterStateHash

def blockHeight : BlockHeight := c.delta.checkpoint.blockHeight

def canonicalBlockHash : Hash32 := c.delta.checkpoint.canonicalBlockHash

def generation : String := generationName c.afterStateHash

def bytes : List UInt8 := c.stateImage.canonicalBytes

theorem stateHash_stateImage : c.stateImage.stateHash B = c.afterStateHash := c.stateHash_eq

theorem watermark_stateImage :
    c.stateImage.watermark = some ⟨c.blockHeight, c.canonicalBlockHash⟩ := by
  have hh := c.blockHeight_eq
  have hb := c.canonicalBlockHash_eq
  unfold StateImage.blockHeight at hh
  unfold StateImage.canonicalBlockHash at hb
  cases hw : c.stateImage.watermark with
  | none => simp [hw] at hh
  | some w =>
    obtain rfl : w = ⟨c.delta.checkpoint.blockHeight, c.delta.checkpoint.canonicalBlockHash⟩ := by
      cases w
      simp_all
    rfl

end AtomicStateCommit

structure StateCommitReceipt where
  blockHeight : BlockHeight
  canonicalBlockHash : Hash32
  stateHash : Hash32
  deriving DecidableEq

inductive StateCommitDisposition
  | committed (receipt : StateCommitReceipt)
  | alreadyCommitted (receipt : StateCommitReceipt)
  deriving DecidableEq

def AtomicStateCommit.receipt (c : AtomicStateCommit B) : StateCommitReceipt :=
  ⟨c.blockHeight, c.canonicalBlockHash, c.afterStateHash⟩

def readHead (root : Root) : Except StateStoreError (Option String) :=
  match root.head with
  | none => .ok none
  | some bytes =>
    match fromUtf8 (bytes.take 80) with
    | none => .error .corrupt
    | some name => if validGenerationName name then .ok (some name) else .error .corrupt

def openGeneration (root : Root) (generation : String) : Except StateStoreError Directory :=
  if validGenerationName generation then
    match root.directories generation with
    | none => .error .corrupt
    | some directory => .ok directory
  else .error .corrupt

def requireSchema (directory : Directory) : Except StateStoreError Unit :=
  match directory.schema with
  | none => .error .rebuildRequired
  | some bytes =>
    if bytes.take 256 = utf8 stateStoreSchema then .ok () else .error .rebuildRequired

def readRegular (file : Option (List UInt8)) (maxBytes : ℕ) :
    Except StateStoreError (List UInt8) :=
  match file with
  | none => .error .corrupt
  | some bytes => if maxBytes < bytes.length then .error .resourceLimit else .ok bytes

def decodeImage (bytes : List UInt8) (limits : StateImageLimits) :
    Except StateStoreError StateImage :=
  match StateImage.decodeCanonical bytes limits with
  | .ok image => if image.canonicalBytes = bytes then .ok image else .error .corrupt
  | .error .limitExceeded => .error .resourceLimit
  | .error _ => .error .corrupt

/-- The image that `HEAD` leads to, under the given limits. -/
def loadHead (limits : StateImageLimits) (root : Root) :
    Except StateStoreError (Option StateImage) := do
  match ← readHead root with
  | none => return none
  | some generation =>
    let directory ← openGeneration root generation
    requireSchema directory
    let bytes ← readRegular directory.state limits.maxStateBytes.toNat
    return some (← decodeImage bytes limits)

def loadCurrent (stateLimits : StateImageLimits) (root : Root) :
    Except StateStoreError (Option StateImage) :=
  loadHead stateLimits root

def loadLatest (stateLimits : StateImageLimits) (root : Root) (limits : StateImageLimits) :
    Except StateStoreError (Option StateImage) :=
  if stateLimits.maxStateBytes < limits.maxStateBytes then .error .resourceLimit
  else loadHead limits root

inductive Admission
  | publish
  | alreadyCommitted
  deriving DecidableEq

/-- How a commit stands to the image the store has. -/
def checkExisting (existing : StateImage) (c : AtomicStateCommit B) :
    Except StateStoreError Admission :=
  match existing.watermark with
  | none => .error .corrupt
  | some w =>
    if existing.chainId ≠ c.stateImage.chainId then .error .conflict
    else if w.blockHeight = c.blockHeight then
      if existing.stateHash B = c.afterStateHash ∧ w.canonicalBlockHash = c.canonicalBlockHash then
        .ok .alreadyCommitted
      else .error .conflict
    -- the height is added to as an unsigned 64-bit number
    else if existing.stateHash B ≠ c.beforeStateHash ∨ w.blockHeight + 1 ≠ c.blockHeight then
      .error .conflict
    else .ok .publish

def checkCommit (stateLimits : StateImageLimits) (root : Root) (c : AtomicStateCommit B) :
    Except StateStoreError Admission := do
  if stateLimits.maxStateBytes.toNat < c.bytes.length then throw .resourceLimit
  match ← loadCurrent stateLimits root with
  | none => return .publish
  | some existing => checkExisting existing c

/-- Draw staging identities until one is free; a draw itself may fail. -/
def allocate (root : Root) : List (Option (Vector UInt8 16)) → Except StateStoreError String
  | [] => .error (.io "allocating unique atomic staging identity")
  | none :: _ => .error (.io "generating staging identity")
  | some random :: rest =>
    if (root.directories (stagingName random)).isSome then allocate root rest
    else .ok (stagingName random)

def stagingAttempts : ℕ := 16

inductive Fault
  | crash
  | ioError

structure Interruption where
  done : ℕ
  fault : Fault

/-- What one attempt meets: its random draws, the removals that succeed when its staged directory
is dropped, and possibly an interruption. -/
structure Environment where
  draws : Vector (Option (Vector UInt8 16)) stagingAttempts
  cleanup : Cleanup
  interruption : Option Interruption

/-- What an attempt leaves; there is no result after a crash. -/
structure Attempt where
  result : Option (Except StateStoreError StateCommitDisposition)
  performed : List FileOp
  root : Root

def Attempt.refuse (e : StateStoreError) (root : Root) : Attempt := ⟨some (.error e), [], root⟩

def refusal : FileOp → StateStoreError
  | .publish _ _ => .conflict
  | op => .io op.failure

/-- Drop the staged directory when the failed operation leaves it to the commit. -/
def abandon (cleanup : Cleanup) (name : String) (op : FileOp) (root : Root) : Root :=
  if op.ownsStaged then root.dropStaged cleanup name else root

def conclude (env : Environment) (name : String) (receipt : StateCommitReceipt)
    (trace : Trace Root FileOp) : Attempt :=
  match trace.ending with
  | .finished => ⟨some (.ok (.committed receipt)), trace.performed, trace.state⟩
  | .refused op =>
    ⟨some (.error (refusal op)), trace.performed, abandon env.cleanup name op trace.state⟩
  | .interrupted op =>
    match env.interruption.map Interruption.fault with
    | some .ioError =>
      ⟨some (.error (.io op.failure)), trace.performed, abandon env.cleanup name op trace.state⟩
    | _ => ⟨none, trace.performed, trace.state⟩

def commit (stateLimits : StateImageLimits) (env : Environment) (root : Root)
    (c : AtomicStateCommit B) : Attempt :=
  match checkCommit stateLimits root c with
  | .error e => .refuse e root
  | .ok .alreadyCommitted => ⟨some (.ok (.alreadyCommitted c.receipt)), [], root⟩
  | .ok .publish =>
    match allocate root env.draws.toList with
    | .error e => .refuse e root
    | .ok name =>
      conclude env name c.receipt
        (exec FileOp.apply (env.interruption.map Interruption.done)
          (commitOps name c.generation c.bytes) root)

end AlphaDesk
