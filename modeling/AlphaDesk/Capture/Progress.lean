import AlphaDesk.Bus.Message
import Mathlib.Data.List.MinMax

/-! # The progress of capture

The journal holds, for each chain, the publication plans of archived blocks, the
acknowledgements of their messages and the cursor, which is the last block whose
messages have all been acknowledged.
-/

namespace AlphaDesk

open Except List

inductive ProgressError
  | invalidInput (reason : String)
  | chainNotInitialized
  | conflictingInitialization
  | belowFirstHeight
  | conflictingBlock
  | unknownBlock
  | acknowledgementMismatch
  | conflictingAcknowledgement
  | publicationIncomplete
  | nonContiguousAdvance (expected actual : BlockHeight)
  | cursorOverflow
  | invalidLimit
  | capacityExceeded (limit : UInt64)
  deriving DecidableEq

variable {value : String} {i : ℕ}

def validateIdentity (value : String) : Except ProgressError Unit :=
  if validIdentity value = true then .ok () else .error (.invalidInput "invalid identity")

def validateSubject (value : String) : Except ProgressError Unit := do
  validateIdentity value
  if validSubject value = false then throw (.invalidInput "invalid subject")

def validateStream (value : String) : Except ProgressError Unit := do
  validateIdentity value
  if validStream value = false then throw (.invalidInput "invalid stream")

theorem validateIdentity_eq_ok : validateIdentity value = .ok () ↔ validIdentity value = true :=
  ite_else_error_eq_ok.trans (and_iff_left rfl)

/-- A check that comes behind the one of identities and implies it. -/
theorem validate_eq_ok {valid : String → Bool} {e : ProgressError}
    (hid : valid value = true → validIdentity value = true) :
    (do validateIdentity value; if valid value = false then throw e) = .ok () ↔
      valid value = true := by
  constructor
  · intro h
    obtain ⟨_, -, h⟩ := of_bind h
    obtain ⟨hs, -⟩ := of_check h
    exact Bool.not_eq_false _ ▸ hs
  · intro h
    rw [validateIdentity_eq_ok.mpr (hid h), ok_bind, if_neg (by simp [h])]
    rfl

theorem validateSubject_eq_ok : validateSubject value = .ok () ↔ validSubject value = true :=
  validate_eq_ok (by simp +contextual [validSubject])

theorem validateStream_eq_ok : validateStream value = .ok () ↔ validStream value = true :=
  validate_eq_ok (by simp +contextual [validStream])

structure PlannedPublication where
  ordinal : UInt32
  messageId : String
  subject : String
  publicationSha256 : Hash32
  deriving DecidableEq

def PlannedPublication.tryNew (ordinal : UInt32) (messageId subject : String)
    (publicationSha256 : Hash32) : Except ProgressError PlannedPublication := do
  validateIdentity messageId
  validateSubject subject
  return ⟨ordinal, messageId, subject, publicationSha256⟩

theorem PlannedPublication.tryNew_eq_ok {ordinal : UInt32} {messageId subject : String}
    {publicationSha256 : Hash32} {p : PlannedPublication} :
    tryNew ordinal messageId subject publicationSha256 = .ok p ↔
      (validIdentity messageId = true ∧ validSubject subject = true) ∧
        p = ⟨ordinal, messageId, subject, publicationSha256⟩ := by
  unfold tryNew
  constructor
  · intro h
    obtain ⟨_, hid, h⟩ := of_bind h
    obtain ⟨_, hs, h⟩ := of_bind h
    exact ⟨⟨validateIdentity_eq_ok.mp hid, validateSubject_eq_ok.mp hs⟩, (ok.inj h).symm⟩
  · rintro ⟨⟨hid, hs⟩, rfl⟩
    rw [validateIdentity_eq_ok.mpr hid, validateSubject_eq_ok.mpr hs]
    rfl

/-- The durable record that a planned message was acknowledged. -/
structure PublicationAcknowledgement where
  ordinal : UInt32
  messageId : String
  subject : String
  publicationSha256 : Hash32
  stream : String
  streamSequence : UInt64
  duplicate : Bool
  acknowledgedAt : KnownTime
  deriving DecidableEq

def PublicationAcknowledgement.tryNew (ordinal : UInt32) (messageId subject : String)
    (publicationSha256 : Hash32) (stream : String) (streamSequence : UInt64) (duplicate : Bool)
    (acknowledgedAt : KnownTime) : Except ProgressError PublicationAcknowledgement := do
  validateIdentity messageId
  validateSubject subject
  validateStream stream
  if streamSequence = 0 then throw (.invalidInput "zero stream sequence")
  return ⟨ordinal, messageId, subject, publicationSha256, stream, streamSequence, duplicate,
    acknowledgedAt⟩

/-- The publications are numbered from zero and no two share a message; `seen` are those
before. -/
def checkPublications (seen : List PlannedPublication) :
    List PlannedPublication → Except ProgressError Unit
  | [] => .ok ()
  | publication :: rest => do
    if ¬seen.length < 2 ^ 32 then throw (.invalidInput "too many publications")
    if publication.ordinal.toNat ≠ seen.length then
      throw (.invalidInput "non-contiguous publication ordinals")
    if seen.any (·.messageId = publication.messageId) then
      throw (.invalidInput "duplicate publication message ID")
    checkPublications (seen ++ [publication]) rest

@[ext]
structure ArchivedBlockPlan where
  chainId : ChainId
  blockHeight : BlockHeight
  canonicalBlockHash : Hash32
  archiveReceiptId : String
  archiveManifestId : ManifestId
  archiveObjectSha256 : Hash32
  archiveManifestSha256 : Hash32
  archiveSchemaFingerprint : Hash32
  publications : List PlannedPublication
  archivedAt : KnownTime
  archiveReceiptId_valid : validIdentity archiveReceiptId = true
  publications_ne : publications ≠ []
  publications_checked : checkPublications [] publications = .ok ()

instance : DecidableEq ArchivedBlockPlan := fun _ _ =>
  decidable_of_iff _ ArchivedBlockPlan.ext_iff.symm

def ArchivedBlockPlan.tryNew (chainId : ChainId) (blockHeight : BlockHeight)
    (canonicalBlockHash : Hash32) (archiveReceiptId : String) (archiveManifestId : ManifestId)
    (archiveObjectSha256 archiveManifestSha256 archiveSchemaFingerprint : Hash32)
    (publications : List PlannedPublication) (archivedAt : KnownTime) :
    Except ProgressError ArchivedBlockPlan :=
  if hid : validIdentity archiveReceiptId = true then
    if hne : publications = [] then .error (.invalidInput "empty publication plan")
    else
      match hc : checkPublications [] publications with
      | .error e => .error e
      | .ok () => .ok ⟨chainId, blockHeight, canonicalBlockHash, archiveReceiptId,
          archiveManifestId, archiveObjectSha256, archiveManifestSha256,
          archiveSchemaFingerprint, publications, archivedAt, hid, hne, hc⟩
  else .error (.invalidInput "invalid identity")

theorem checkPublications_eq_ok {seen rest : List PlannedPublication} :
    checkPublications seen rest = .ok () ↔
      ∀ i (h : i < rest.length), seen.length + i < 2 ^ 32 ∧
        rest[i].ordinal.toNat = seen.length + i ∧
        ∀ p ∈ seen ++ rest.take i, p.messageId ≠ rest[i].messageId := by
  induction rest generalizing seen with
  | nil => simp [checkPublications]
  | cons publication rest ih =>
    rw [checkPublications]
    constructor
    · intro h
      obtain ⟨hlen, h⟩ := of_check h
      obtain ⟨hord, h⟩ := of_check h
      obtain ⟨hany, h⟩ := of_check h
      intro i hi
      cases i with
      | zero =>
        refine ⟨not_not.mp hlen, not_not.mp hord, ?_⟩
        intro p hp he
        rw [take_zero, append_nil] at hp
        exact hany (any_eq_true.mpr ⟨p, hp, decide_eq_true he⟩)
      | succ i =>
        obtain ⟨h1, h2, h3⟩ := ih.mp h i (Nat.lt_of_succ_lt_succ hi)
        rw [length_append, length_singleton] at h1 h2
        refine ⟨by omega, by rw [getElem_cons_succ, h2]; omega, ?_⟩
        simpa using h3
    · intro h
      obtain ⟨hlen, hord, hfresh⟩ := h 0 (by simp)
      rw [if_neg (not_not.mpr (by simpa using hlen)), if_neg (not_not.mpr (by simpa using hord)),
        if_neg ?_]
      · refine ih.mpr fun i hi => ?_
        obtain ⟨h1, h2, h3⟩ := h (i + 1) (by simpa using hi)
        rw [length_append, length_singleton]
        refine ⟨by omega, by rw [getElem_cons_succ] at h2; omega, ?_⟩
        simpa using h3
      · rw [any_eq_true]
        rintro ⟨p, hp, he⟩
        exact hfresh p (by simpa using hp) (of_decide_eq_true he)

theorem ArchivedBlockPlan.ordinal_getElem (plan : ArchivedBlockPlan)
    (h : i < plan.publications.length) : plan.publications[i].ordinal.toNat = i := by
  obtain ⟨-, hord, -⟩ := checkPublications_eq_ok.mp plan.publications_checked i h
  simpa using hord

theorem ArchivedBlockPlan.exists_ordinal (plan : ArchivedBlockPlan)
    {publication : PlannedPublication} (h : plan.publications[i]? = some publication) :
    ∃ ordinal : UInt32, ordinal.toNat = i ∧ ordinal.toNat < plan.publications.length := by
  obtain ⟨hi, rfl⟩ := List.getElem?_eq_some_iff.mp h
  have hord := plan.ordinal_getElem hi
  exact ⟨_, hord, hord.trans_lt hi⟩

/-- The last block of a chain whose messages have all been acknowledged. -/
structure CaptureCursor where
  chainId : ChainId
  committedBlockHeight : BlockHeight
  canonicalBlockHash : Hash32
  archiveReceiptId : String
  archiveManifestSha256 : Hash32
  cursorVersion : UInt64
  updatedAt : KnownTime
  deriving DecidableEq

def CaptureCursor.tryNew (chainId : ChainId) (committedBlockHeight : BlockHeight)
    (canonicalBlockHash : Hash32) (archiveReceiptId : String) (archiveManifestSha256 : Hash32)
    (cursorVersion : UInt64) (updatedAt : KnownTime) : Except ProgressError CaptureCursor := do
  validateIdentity archiveReceiptId
  if cursorVersion = 0 then throw (.invalidInput "zero cursor version")
  return ⟨chainId, committedBlockHeight, canonicalBlockHash, archiveReceiptId,
    archiveManifestSha256, cursorVersion, updatedAt⟩

inductive ProgressRecordDisposition
  | new
  | identicalDuplicate

structure BlockState where
  plan : ArchivedBlockPlan
  acknowledgements : Std.ExtTreeMap UInt32 PublicationAcknowledgement

/-- The acknowledgements in the order of their ordinals. -/
def BlockState.values (b : BlockState) : List PublicationAcknowledgement :=
  b.acknowledgements.toList.map (·.2)

def BlockState.IsComplete (b : BlockState) : Prop :=
  b.acknowledgements.size = b.plan.publications.length

instance (b : BlockState) : Decidable b.IsComplete := inferInstanceAs (Decidable (_ = _))

structure ChainState where
  firstBlockHeight : BlockHeight
  cursor : Option CaptureCursor
  blocks : Std.ExtTreeMap BlockHeight BlockState

namespace ChainState

/-- The height after the cursor's, or the configured first height. -/
def nextHeight (chain : ChainState) : Except ProgressError BlockHeight :=
  match chain.cursor with
  | some cursor =>
    if cursor.committedBlockHeight.toNat + 1 < 2 ^ 64 then .ok (cursor.committedBlockHeight + 1)
    else .error .cursorOverflow
  | none => .ok chain.firstBlockHeight

def nextVersion (chain : ChainState) : Except ProgressError UInt64 :=
  match chain.cursor with
  | some cursor =>
    if cursor.cursorVersion.toNat + 1 < 2 ^ 64 then .ok (cursor.cursorVersion + 1)
    else .error .cursorOverflow
  | none => .ok 1

section Next

variable {chain : ChainState} {blockHeight : BlockHeight} {cursor : CaptureCursor}
  (hnext : chain.nextHeight = .ok blockHeight) (hcursor : chain.cursor = some cursor)
include hnext hcursor

theorem lt_of_nextHeight : cursor.committedBlockHeight.toNat < blockHeight.toNat := by
  simp only [nextHeight, hcursor] at hnext
  obtain ⟨hlt, hnext⟩ := ite_else_error_eq_ok.mp hnext
  rw [← ok.inj hnext, UInt64.toNat_add, show (1 : UInt64).toNat = 1 from rfl,
    Nat.mod_eq_of_lt hlt]
  exact Nat.lt_succ_self _

theorem ne_of_nextHeight : cursor.committedBlockHeight ≠ blockHeight := by
  rintro rfl
  exact (lt_of_nextHeight hnext hcursor).false

end Next

def addPlan (chain : ChainState) (plan : ArchivedBlockPlan) : ChainState :=
  { chain with blocks := chain.blocks.insert plan.blockHeight ⟨plan, ∅⟩ }

def addAcknowledgement (chain : ChainState) (blockHeight : BlockHeight) (block : BlockState)
    (ack : PublicationAcknowledgement) : ChainState :=
  { chain with
    blocks := chain.blocks.insert blockHeight
      ⟨block.plan, block.acknowledgements.insert ack.ordinal ack⟩ }

end ChainState

def ackMatchesPublication (ack : PublicationAcknowledgement) (publication : PlannedPublication) :
    Prop :=
  ack.ordinal = publication.ordinal ∧ ack.messageId = publication.messageId ∧
    ack.subject = publication.subject ∧ ack.publicationSha256 = publication.publicationSha256

instance (ack : PublicationAcknowledgement) (publication : PlannedPublication) :
    Decidable (ackMatchesPublication ack publication) :=
  inferInstanceAs (Decidable (_ ∧ _ ∧ _ ∧ _))

def latestAcknowledgement (acks : List PublicationAcknowledgement) : Option KnownTime :=
  (acks.map (·.acknowledgedAt)).argmax (·.unixMicros)

structure InMemoryProgressStore where
  capacity : UInt64
  chains : Std.ExtTreeMap ChainId ChainState
  blockCount : ℕ

namespace InMemoryProgressStore

def new (capacity : UInt64) : Except ProgressError InMemoryProgressStore :=
  if capacity = 0 then .error (.invalidInput "zero progress capacity")
  else .ok ⟨capacity, ∅, 0⟩

variable (store : InMemoryProgressStore) {plan : ArchivedBlockPlan}

def chain (chainId : ChainId) : Except ProgressError ChainState :=
  Except.ofOption .chainNotInitialized store.chains[chainId]?

def putChain (chainId : ChainId) (chain : ChainState) : InMemoryProgressStore :=
  { store with chains := store.chains.insert chainId chain }

def initializeChain (chainId : ChainId) (firstBlockHeight : BlockHeight) :
    Except ProgressError (ProgressRecordDisposition × InMemoryProgressStore) :=
  match store.chains[chainId]? with
  | none => .ok (.new, store.putChain chainId ⟨firstBlockHeight, none, ∅⟩)
  | some chain =>
    if chain.firstBlockHeight = firstBlockHeight then .ok (.identicalDuplicate, store)
    else .error .conflictingInitialization

def recordArchived (plan : ArchivedBlockPlan) :
    Except ProgressError (ProgressRecordDisposition × InMemoryProgressStore) := do
  let chain ← store.chain plan.chainId
  if plan.blockHeight < chain.firstBlockHeight then throw .belowFirstHeight
  match chain.blocks[plan.blockHeight]? with
  | some block =>
    if block.plan = plan then return (.identicalDuplicate, store) else throw .conflictingBlock
  | none =>
    -- the count stays at or below the capacity, so adding one to it cannot overflow
    if store.capacity.toNat ≤ store.blockCount then throw (.capacityExceeded store.capacity)
    return (.new, { store.putChain plan.chainId (chain.addPlan plan) with
      blockCount := store.blockCount + 1 })

def recordAcknowledgement (chainId : ChainId) (blockHeight : BlockHeight)
    (ack : PublicationAcknowledgement) :
    Except ProgressError (ProgressRecordDisposition × InMemoryProgressStore) := do
  let chain ← store.chain chainId
  let block ← Except.ofOption .unknownBlock chain.blocks[blockHeight]?
  let publication ← Except.ofOption .acknowledgementMismatch
    block.plan.publications[ack.ordinal.toNat]?
  if ¬ackMatchesPublication ack publication then throw .acknowledgementMismatch
  match block.acknowledgements[ack.ordinal]? with
  | none => return (.new, store.putChain chainId (chain.addAcknowledgement blockHeight block ack))
  | some existing =>
    if existing = ack then return (.identicalDuplicate, store)
    else throw .conflictingAcknowledgement

def advanceCursor (chainId : ChainId) (blockHeight : BlockHeight) :
    Except ProgressError (CaptureCursor × InMemoryProgressStore) := do
  let chain ← store.chain chainId
  match chain.cursor.filter (·.committedBlockHeight = blockHeight) with
  | some cursor => return (cursor, store)
  | none =>
    let expected ← chain.nextHeight
    if blockHeight ≠ expected then throw (.nonContiguousAdvance expected blockHeight)
    let block ← Except.ofOption .unknownBlock chain.blocks[blockHeight]?
    if ¬block.IsComplete then throw .publicationIncomplete
    let cursorVersion ← chain.nextVersion
    let updatedAt ← Except.ofOption .publicationIncomplete
      (latestAcknowledgement block.values)
    let cursor ← CaptureCursor.tryNew chainId blockHeight block.plan.canonicalBlockHash
      block.plan.archiveReceiptId block.plan.archiveManifestSha256 cursorVersion updatedAt
    return (cursor, store.putChain chainId { chain with cursor := some cursor })

def loadCursor (chainId : ChainId) : Except ProgressError (Option CaptureCursor) := do
  return (← store.chain chainId).cursor

def nextExpectedHeight (chainId : ChainId) : Except ProgressError BlockHeight := do
  (← store.chain chainId).nextHeight

def loadArchivedBlock (chainId : ChainId) (blockHeight : BlockHeight) :
    Except ProgressError (Option ArchivedBlockPlan) := do
  return (← store.chain chainId).blocks[blockHeight]?.map (·.plan)

def loadAcknowledgements (chainId : ChainId) (blockHeight : BlockHeight) :
    Except ProgressError (List PublicationAcknowledgement) := do
  let chain ← store.chain chainId
  let block ← Except.ofOption .unknownBlock chain.blocks[blockHeight]?
  return block.values

def pendingBlocks (chainId : ChainId) (limit : ℕ) :
    Except ProgressError (List ArchivedBlockPlan) := do
  if limit = 0 then throw .invalidLimit
  let chain ← store.chain chainId
  let pending := chain.blocks.toList.filter fun entry =>
    (chain.cursor.map (·.committedBlockHeight)).all (· < entry.1)
  return (pending.take limit).map (·.2.plan)

section Lookup

variable {store}

theorem chain_eq_ok {chainId : ChainId} {chain : ChainState} :
    store.chain chainId = .ok chain ↔ store.chains[chainId]? = some chain :=
  ofOption_eq_ok

theorem chains_putChain (chainId other : ChainId) (chain : ChainState) :
    (store.putChain chainId chain).chains[other]? =
      if other = chainId then some chain else store.chains[other]? :=
  Std.ExtTreeMap.getElem?_insert_eq_ite ..

end Lookup

section Steps

variable {store} {store' : InMemoryProgressStore} {chainId : ChainId} {blockHeight : BlockHeight}
  {d : ProgressRecordDisposition}

theorem recordArchived_eq_ok (h : store.recordArchived plan = .ok (d, store')) :
    ∃ chain, store.chains[plan.chainId]? = some chain ∧
      ((store' = store ∧ ∃ block, chain.blocks[plan.blockHeight]? = some block ∧
          block.plan = plan) ∨
        (chain.blocks[plan.blockHeight]? = none ∧ store.blockCount < store.capacity.toNat ∧
          store' = { store.putChain plan.chainId (chain.addPlan plan) with
            blockCount := store.blockCount + 1 })) := by
  obtain ⟨chain, hchain, h⟩ := of_bind h
  obtain ⟨-, h⟩ := of_check h
  refine ⟨chain, chain_eq_ok.mp hchain, ?_⟩
  split at h
  next block hblock =>
    split at h
    next heq =>
      obtain ⟨-, rfl⟩ := Prod.mk.inj (ok.inj h)
      exact .inl ⟨rfl, block, hblock, heq⟩
    next => cases h
  next hblock =>
    obtain ⟨hroom, h⟩ := of_check h
    obtain ⟨-, rfl⟩ := Prod.mk.inj (ok.inj h)
    exact .inr ⟨hblock, not_le.mp hroom, rfl⟩

theorem recordAcknowledgement_eq_ok {ack : PublicationAcknowledgement}
    (h : store.recordAcknowledgement chainId blockHeight ack = .ok (d, store')) :
    ∃ chain block publication, store.chains[chainId]? = some chain ∧
      chain.blocks[blockHeight]? = some block ∧
      block.plan.publications[ack.ordinal.toNat]? = some publication ∧
      ackMatchesPublication ack publication ∧
      ((store' = store ∧ block.acknowledgements[ack.ordinal]? = some ack) ∨
        (block.acknowledgements[ack.ordinal]? = none ∧
          store' = store.putChain chainId (chain.addAcknowledgement blockHeight block ack))) := by
  obtain ⟨chain, hchain, h⟩ := of_bind h
  obtain ⟨block, hblock, h⟩ := of_bind h
  obtain ⟨publication, hpub, h⟩ := of_bind h
  obtain ⟨hmatch, h⟩ := of_check h
  refine ⟨chain, block, publication, chain_eq_ok.mp hchain, ofOption_eq_ok.mp hblock,
    ofOption_eq_ok.mp hpub, not_not.mp hmatch, ?_⟩
  split at h
  next hnone =>
    obtain ⟨-, rfl⟩ := Prod.mk.inj (ok.inj h)
    exact .inr ⟨hnone, rfl⟩
  next existing hsome =>
    split at h
    next heq =>
      obtain ⟨-, rfl⟩ := Prod.mk.inj (ok.inj h)
      exact .inl ⟨rfl, heq ▸ hsome⟩
    next => cases h

theorem advanceCursor_eq_ok {cursor : CaptureCursor}
    (h : store.advanceCursor chainId blockHeight = .ok (cursor, store')) :
    ∃ chain, store.chains[chainId]? = some chain ∧ cursor.committedBlockHeight = blockHeight ∧
      ((store' = store ∧ chain.cursor = some cursor) ∨
        (chain.nextHeight = .ok blockHeight ∧ chain.nextVersion = .ok cursor.cursorVersion ∧
          ∃ block, chain.blocks[blockHeight]? = some block ∧ block.IsComplete ∧
            cursor.chainId = chainId ∧
            cursor.canonicalBlockHash = block.plan.canonicalBlockHash ∧
            cursor.archiveReceiptId = block.plan.archiveReceiptId ∧
            cursor.archiveManifestSha256 = block.plan.archiveManifestSha256 ∧
            store' = store.putChain chainId { chain with cursor := some cursor })) := by
  obtain ⟨chain, hchain, h⟩ := of_bind h
  refine ⟨chain, chain_eq_ok.mp hchain, ?_⟩
  split at h
  next found hfound =>
    obtain ⟨rfl, rfl⟩ := Prod.mk.inj (ok.inj h)
    obtain ⟨hcursor, hheight⟩ := Option.filter_eq_some_iff.mp hfound
    exact ⟨of_decide_eq_true hheight, .inl ⟨rfl, hcursor⟩⟩
  next =>
    obtain ⟨expected, hexpected, h⟩ := of_bind h
    obtain ⟨heq, h⟩ := of_check h
    obtain ⟨block, hblock, h⟩ := of_bind h
    obtain ⟨hcomplete, h⟩ := of_check h
    obtain ⟨version, hversion, h⟩ := of_bind h
    obtain ⟨updatedAt, -, h⟩ := of_bind h
    obtain ⟨made, hmade, h⟩ := of_bind h
    obtain ⟨rfl, rfl⟩ := Prod.mk.inj (ok.inj h)
    obtain ⟨_, -, hmade⟩ := of_bind hmade
    obtain ⟨-, hmade⟩ := of_check hmade
    obtain rfl := ok.inj hmade
    obtain rfl := not_not.mp heq
    exact ⟨rfl, .inr ⟨hexpected, hversion, block, ofOption_eq_ok.mp hblock,
      not_not.mp hcomplete, rfl, rfl, rfl, rfl, rfl⟩⟩

end Steps

variable {store} {chainId : ChainId} {blockHeight : BlockHeight} {chain : ChainState}

theorem loadAcknowledgements_eq {block : BlockState} (hchain : store.chains[chainId]? = some chain)
    (hblock : chain.blocks[blockHeight]? = some block) :
    store.loadAcknowledgements chainId blockHeight = .ok block.values := by
  rw [loadAcknowledgements, chain_eq_ok.mpr hchain, ok_bind, hblock]
  rfl

theorem recordArchived_of_none (hchain : store.chains[plan.chainId]? = some chain)
    (hfirst : chain.firstBlockHeight ≤ plan.blockHeight)
    (hnone : chain.blocks[plan.blockHeight]? = none) :
    store.recordArchived plan =
      if store.capacity.toNat ≤ store.blockCount then .error (.capacityExceeded store.capacity)
      else .ok (.new, { store.putChain plan.chainId (chain.addPlan plan) with
        blockCount := store.blockCount + 1 }) := by
  unfold recordArchived
  rw [chain_eq_ok.mpr hchain, ok_bind, if_neg (UInt64.not_lt.mpr hfirst)]
  simp only [hnone]
  rfl

theorem advanceCursor_next {block : BlockState} {version : UInt64}
    (hchain : store.chains[chainId]? = some chain) (hnext : chain.nextHeight = .ok blockHeight)
    (hversion : chain.nextVersion = .ok version) (hpos : version ≠ 0)
    (hblock : chain.blocks[blockHeight]? = some block) (hcomplete : block.IsComplete) :
    ∃ cursor store', store.advanceCursor chainId blockHeight = .ok (cursor, store') := by
  have hcursor : chain.cursor.filter (·.committedBlockHeight = blockHeight) = none := by
    rw [Option.filter_eq_none_iff]
    intro cursor hcursor
    rw [decide_eq_true_eq]
    exact ChainState.ne_of_nextHeight hnext hcursor
  obtain ⟨time, htime⟩ : ∃ time, latestAcknowledgement block.values = some time := by
    refine Option.ne_none_iff_exists'.mp fun hnone => ?_
    rw [latestAcknowledgement, argmax_eq_none, map_eq_nil_iff] at hnone
    have hlen := congrArg length hnone
    rw [BlockState.values, length_map, Std.ExtTreeMap.length_toList, hcomplete] at hlen
    exact block.plan.publications_ne (length_eq_zero_iff.mp hlen)
  unfold advanceCursor
  rw [chain_eq_ok.mpr hchain, ok_bind]
  simp only [hcursor]
  rw [hnext, ok_bind, if_neg (not_not.mpr rfl), hblock, ofOption_some,
    ok_bind, if_neg (not_not.mpr hcomplete), hversion, ok_bind, htime,
    ofOption_some, ok_bind, CaptureCursor.tryNew,
    validateIdentity_eq_ok.mpr block.plan.archiveReceiptId_valid, ok_bind, if_neg hpos]
  exact ⟨_, _, rfl⟩

end InMemoryProgressStore

end AlphaDesk
