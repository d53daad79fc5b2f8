import AlphaDesk.Capture.Progress
import AlphaDesk.Ledger.History

/-! # Publication plans

The plan of a block lists the messages of its batch in order. The plan is journalled
before anything is published, and a batch that is built again later is checked
against it. The journal refuses one of the subjects that the bus assigns, so the
blocks with events under that subject have no plan.
-/

namespace AlphaDesk

open Except List CommittedPublicationBatch

inductive CoordinatorFaultPoint
  | afterArchive
  | afterJournal
  | afterPublish (ordinal : UInt32)
  | afterAcknowledgement (ordinal : UInt32)
  | afterCursor
  deriving DecidableEq

inductive CoordinatorError
  | archive
  | publication
  | progress
  | clock
  | publicationPlanOverflow
  | recoveryMismatch
  | invalidRecoveryLimit
  | injectedFault (point : CoordinatorFaultPoint)
  deriving DecidableEq

variable {B : Blake3} {index : ℕ} {message : PublicationMessage}

def ordinalOf (index : ℕ) : Except CoordinatorError UInt32 :=
  if index < 2 ^ 32 then .ok (.ofNat index) else .error .publicationPlanOverflow

theorem ordinalOf_eq_ok {ordinal : UInt32} :
    ordinalOf index = .ok ordinal ↔ ordinal.toNat = index := by
  unfold ordinalOf
  split
  next h =>
    rw [ok.injEq, ← UInt32.toNat_inj, UInt32.toNat_ofNat_of_lt' h]
    exact eq_comm
  next h =>
    refine ⟨nofun, ?_⟩
    rintro rfl
    exact absurd ordinal.toNat_lt h

def planPublication (message : PublicationMessage) (index : ℕ) :
    Except CoordinatorError PlannedPublication := do
  let ordinal ← ordinalOf index
  (PlannedPublication.tryNew ordinal message.messageId message.subject.asStr
    message.publicationSha256).mapError fun _ => .progress

def buildPlan (block : BlockEnvelope B) (receipt : ArchiveReceipt)
    (batch : CommittedPublicationBatch) : Except CoordinatorError ArchivedBlockPlan := do
  let publications ← batch.messages.zipIdx.mapM fun entry => planPublication entry.1 entry.2
  (ArchivedBlockPlan.tryNew block.chainId block.blockHeight block.canonicalBlockHash
    receipt.receiptId receipt.manifestId receipt.objectSha256 receipt.manifestSha256
    receipt.schemaFingerprint publications receipt.durableAt).mapError fun _ => .progress

def receiptFromPlan (plan : ArchivedBlockPlan) : Except CoordinatorError ArchiveReceipt :=
  (ArchiveReceipt.tryNew plan.archiveReceiptId plan.archiveManifestId plan.blockHeight
    plan.canonicalBlockHash plan.archiveObjectSha256 plan.archiveManifestSha256
    plan.archiveSchemaFingerprint plan.archivedAt).mapError fun _ => .recoveryMismatch

/-- The message is the one that was planned, and for the block of the plan. -/
structure Matches (plan : ArchivedBlockPlan) (ordinal : UInt32) (planned : PlannedPublication)
    (message : PublicationMessage) : Prop where
  ordinal : planned.ordinal = ordinal
  messageId : planned.messageId = message.messageId
  subject : planned.subject = message.subject.asStr
  publicationSha256 : planned.publicationSha256 = message.publicationSha256
  chainId : message.chainId = plan.chainId
  blockHeight : message.blockHeight = plan.blockHeight
  canonicalBlockHash : message.canonicalBlockHash = plan.canonicalBlockHash
  archiveReceiptId : message.archiveReceiptId = plan.archiveReceiptId
  archiveManifestSha256 : message.archiveManifestSha256 = plan.archiveManifestSha256

def verifyPublications (plan : ArchivedBlockPlan) :
    ℕ → List (PlannedPublication × PublicationMessage) → Except CoordinatorError Unit
  | _, [] => .ok ()
  | index, (planned, message) :: rest => do
    let ordinal ← ordinalOf index
    if planned.ordinal ≠ ordinal ∨ planned.messageId ≠ message.messageId ∨
        planned.subject ≠ message.subject.asStr ∨
        planned.publicationSha256 ≠ message.publicationSha256 ∨
        message.chainId ≠ plan.chainId ∨ message.blockHeight ≠ plan.blockHeight ∨
        message.canonicalBlockHash ≠ plan.canonicalBlockHash ∨
        message.archiveReceiptId ≠ plan.archiveReceiptId ∨
        message.archiveManifestSha256 ≠ plan.archiveManifestSha256 then
      throw .recoveryMismatch
    verifyPublications plan (index + 1) rest

def verifyPlanMatchesBatch (plan : ArchivedBlockPlan) (batch : CommittedPublicationBatch) :
    Except CoordinatorError Unit := do
  if plan.publications.length ≠ batch.messages.length then throw .recoveryMismatch
  verifyPublications plan 0 (plan.publications.zip batch.messages)

def verifyAcknowledgement (message : PublicationMessage) (ordinal : UInt32)
    (ack : PublicationAcknowledgement) : Except CoordinatorError Unit :=
  if ack.ordinal ≠ ordinal ∨ ack.messageId ≠ message.messageId ∨
      ack.subject ≠ message.subject.asStr ∨
      ack.publicationSha256 ≠ message.publicationSha256 ∨ ack.stream ≠ message.stream then
    .error .recoveryMismatch
  else .ok ()

variable {plan : ArchivedBlockPlan} {batch : CommittedPublicationBatch}

theorem verifyPublications_eq_ok {pairs : List (PlannedPublication × PublicationMessage)} :
    verifyPublications plan index pairs = .ok () ↔
      ∀ i (h : i < pairs.length), ∃ ordinal : UInt32, ordinal.toNat = index + i ∧
        Matches plan ordinal pairs[i].1 pairs[i].2 := by
  induction pairs generalizing index with
  | nil => simp [verifyPublications]
  | cons pair rest ih =>
    rw [verifyPublications]
    constructor
    · intro h
      obtain ⟨ordinal, hord, h⟩ := of_bind h
      obtain ⟨hm, h⟩ := of_check h
      simp only [not_or, not_not] at hm
      obtain ⟨h1, h2, h3, h4, h5, h6, h7, h8, h9⟩ := hm
      intro i hi
      cases i with
      | zero => exact ⟨ordinal, ordinalOf_eq_ok.mp hord, h1, h2, h3, h4, h5, h6, h7, h8, h9⟩
      | succ i =>
        obtain ⟨o, ho, hm⟩ := ih.mp h i (Nat.lt_of_succ_lt_succ hi)
        exact ⟨o, by omega, hm⟩
    · intro h
      obtain ⟨ordinal, hord, hm⟩ := h 0 (by simp)
      rw [ordinalOf_eq_ok.mpr (by simpa using hord), ok_bind, if_neg ?_]
      · refine ih.mpr fun i hi => ?_
        obtain ⟨o, ho, hm⟩ := h (i + 1) (by simpa using hi)
        exact ⟨o, by omega, hm⟩
      · simp only [not_or, not_not]
        exact ⟨hm.ordinal, hm.messageId, hm.subject, hm.publicationSha256, hm.chainId,
          hm.blockHeight, hm.canonicalBlockHash, hm.archiveReceiptId, hm.archiveManifestSha256⟩

theorem verifyPlanMatchesBatch_eq_ok :
    verifyPlanMatchesBatch plan batch = .ok () ↔
      plan.publications.length = batch.messages.length ∧
        ∀ i (hp : i < plan.publications.length) (hm : i < batch.messages.length),
          ∃ ordinal : UInt32, ordinal.toNat = i ∧
            Matches plan ordinal plan.publications[i] batch.messages[i] := by
  unfold verifyPlanMatchesBatch
  constructor
  · intro h
    obtain ⟨hlen, h⟩ := of_check h
    refine ⟨not_not.mp hlen, fun i hp hm => ?_⟩
    obtain ⟨o, ho, hmatch⟩ := verifyPublications_eq_ok.mp h i
      (by rw [length_zip]; exact lt_min hp hm)
    rw [getElem_zip] at hmatch
    exact ⟨o, by omega, hmatch⟩
  · rintro ⟨hlen, h⟩
    rw [if_neg (not_not.mpr hlen)]
    refine verifyPublications_eq_ok.mpr fun i hi => ?_
    rw [length_zip] at hi
    obtain ⟨o, ho, hmatch⟩ := h i (hi.trans_le (min_le_left _ _)) (hi.trans_le (min_le_right _ _))
    rw [getElem_zip]
    exact ⟨o, by omega, hmatch⟩

def PlannedFrom (plan : ArchivedBlockPlan) (index : ℕ) (messages : List PublicationMessage) :
    Prop :=
  ∀ i (h : i < messages.length), ∃ planned, plan.publications[index + i]? = some planned ∧
    planned.messageId = messages[i].messageId ∧
    planned.publicationSha256 = messages[i].publicationSha256

theorem PlannedFrom.tail {rest : List PublicationMessage}
    (h : PlannedFrom plan index (message :: rest)) : PlannedFrom plan (index + 1) rest := by
  intro i hi
  obtain ⟨planned, hplanned, hids⟩ := h (i + 1) (by simpa using hi)
  exact ⟨planned, by rw [Nat.add_assoc, Nat.add_comm 1]; exact hplanned, hids⟩

theorem plannedFrom_zero (h : verifyPlanMatchesBatch plan batch = .ok ()) :
    PlannedFrom plan 0 batch.messages := by
  obtain ⟨hlen, hmatch⟩ := verifyPlanMatchesBatch_eq_ok.mp h
  intro i hi
  obtain ⟨_, -, hm⟩ := hmatch i (hlen ▸ hi) hi
  exact ⟨_, by rw [Nat.zero_add, getElem?_eq_getElem], hm.messageId, hm.publicationSha256⟩

variable {K : EnvelopeCodec} {block : BlockEnvelope B} {receipt : ArchiveReceipt}

theorem planPublication_eq_ok {planned : PlannedPublication} :
    planPublication message index = .ok planned ↔
      validSubject message.subject.asStr = true ∧ planned.ordinal.toNat = index ∧
        planned.messageId = message.messageId ∧ planned.subject = message.subject.asStr ∧
        planned.publicationSha256 = message.publicationSha256 := by
  unfold planPublication
  rw [bind_eq_ok]
  constructor
  · rintro ⟨ordinal, hord, h⟩
    obtain ⟨⟨-, hs⟩, rfl⟩ := PlannedPublication.tryNew_eq_ok.mp (mapError_eq_ok.mp h)
    exact ⟨hs, ordinalOf_eq_ok.mp hord, rfl, rfl, rfl⟩
  · rintro ⟨hs, hord, hid, hsub, hsha⟩
    refine ⟨planned.ordinal, ordinalOf_eq_ok.mpr hord, mapError_eq_ok.mpr ?_⟩
    refine PlannedPublication.tryNew_eq_ok.mpr ⟨⟨message.messageId_valid, hs⟩, ?_⟩
    rw [← hid, ← hsub, ← hsha]

/-- What a built plan records: the block, the receipt, and the messages in their order. -/
structure Plans (block : BlockEnvelope B) (receipt : ArchiveReceipt)
    (batch : CommittedPublicationBatch) (plan : ArchivedBlockPlan) : Prop where
  chainId : plan.chainId = block.chainId
  blockHeight : plan.blockHeight = block.blockHeight
  canonicalBlockHash : plan.canonicalBlockHash = block.canonicalBlockHash
  archiveReceiptId : plan.archiveReceiptId = receipt.receiptId
  archiveManifestId : plan.archiveManifestId = receipt.manifestId
  archiveObjectSha256 : plan.archiveObjectSha256 = receipt.objectSha256
  archiveManifestSha256 : plan.archiveManifestSha256 = receipt.manifestSha256
  archiveSchemaFingerprint : plan.archiveSchemaFingerprint = receipt.schemaFingerprint
  archivedAt : plan.archivedAt = receipt.durableAt
  publications : List.Forall₂ (fun planned message =>
    planned.messageId = message.messageId ∧ planned.subject = message.subject.asStr ∧
      planned.publicationSha256 = message.publicationSha256) plan.publications batch.messages
  subjects : ∀ message ∈ batch.messages, validSubject message.subject.asStr = true

theorem plans_of_buildPlan (h : buildPlan block receipt batch = .ok plan) :
    Plans block receipt batch plan := by
  obtain ⟨publications, hp, h⟩ := of_bind h
  obtain ⟨hid, h⟩ := dite_else_error_eq_ok.mp (mapError_eq_ok.mp h)
  split at h
  · cases h
  split at h
  · cases h
  obtain rfl := ok.inj h
  have hall := mapM_eq_ok.mp hp
  have hlen : batch.messages.length = publications.length := by simpa using hall.length_eq
  have hget : ∀ i (hm : i < batch.messages.length) (hi : i < publications.length),
      planPublication batch.messages[i] i = .ok publications[i] := by
    intro i hm hi
    simpa using hall.get (by simpa using hm) hi
  refine ⟨rfl, rfl, rfl, rfl, rfl, rfl, rfl, rfl, rfl, ?_, ?_⟩
  · refine forall₂_iff_get.mpr ⟨hlen.symm, fun i hi hm => ?_⟩
    obtain ⟨-, -, h1, h2, h3⟩ := planPublication_eq_ok.mp (hget i hm hi)
    exact ⟨h1, h2, h3⟩
  · intro message hmem
    obtain ⟨i, hm, rfl⟩ := mem_iff_getElem.mp hmem
    exact (planPublication_eq_ok.mp (hget i hm (hlen ▸ hm))).1

theorem CommittedPublicationBatch.Holds.nodup (h : batch.Holds K block receipt) :
    (batch.messages.map (·.messageId)).Nodup := by
  obtain ⟨hall, -, hnodup⟩ := belongsTo_of_validateEventsFrom block.events_valid
  rw [h.messageIds, nodup_cons]
  constructor
  · intro hmem
    obtain ⟨event, he, hid⟩ := mem_map.mp hmem
    -- an event's identity starts with another letter than the marker's
    rw [(hall event he).eventId] at hid
    have hcs := congrArg String.toList hid
    simp only [CanonicalEventEnvelope.expectedEventId, computeEventId, markerId,
      String.toList_ofList] at hcs
    exact absurd (cons.inj hcs).1 (by decide)
  · have hmap : block.events.map (·.eventId.value) = (block.events.map (·.eventId)).map (·.value) :=
      (map_map ..).symm
    rw [hmap]
    exact hnodup.map StringId.value_injective

theorem exists_buildPlan (h : batch.Holds K block receipt)
    (hcount : batch.messages.length ≤ 2 ^ 32) (hid : validIdentity receipt.receiptId = true)
    (hs : ∀ message ∈ batch.messages, validSubject message.subject.asStr = true) :
    ∃ plan, buildPlan block receipt batch = .ok plan := by
  set publications := batch.messages.zipIdx.map fun entry => PlannedPublication.mk
    (.ofNat entry.2) entry.1.messageId entry.1.subject.asStr entry.1.publicationSha256 with hp
  have hlen : publications.length = batch.messages.length := by simp [hp]
  have hord : ∀ i (hi : i < publications.length), publications[i].ordinal.toNat = i := by
    intro i hi
    have hlt : i < 2 ^ 32 := by omega
    simp only [hp, getElem_map, getElem_zipIdx, Nat.zero_add]
    exact UInt32.toNat_ofNat_of_lt' hlt
  have hids : publications.map (·.messageId) = batch.messages.map (·.messageId) := by
    refine ext_getElem (by simp [hp]) fun i h₁ h₂ => ?_
    simp [hp]
  have hmap : (batch.messages.zipIdx.mapM fun entry => planPublication entry.1 entry.2) =
      .ok publications := by
    refine mapM_eq_ok.mpr (forall₂_iff_get.mpr ⟨by simp [hp], fun i h₁ h₂ => ?_⟩)
    refine planPublication_eq_ok.mpr ⟨?_, ?_, ?_⟩
    · exact hs _ (by simp)
    · simpa using hord i h₂
    · simp [hp]
  have hne : publications ≠ [] := by
    intro hnil
    rw [hnil, length_nil, messages, length_cons] at hlen
    omega
  have hnodup := pairwise_map.mp (hids ▸ h.nodup)
  have hc : checkPublications [] publications = .ok () := by
    refine checkPublications_eq_ok.mpr fun i hi => ⟨?_, ?_, ?_⟩
    · rw [length_nil]
      omega
    · rw [length_nil, hord i hi, Nat.zero_add]
    · intro p hp he
      obtain ⟨j, hj, rfl⟩ := mem_take_iff_getElem.mp hp
      have hlt : j < i := hj.trans_le (min_le_left _ _)
      exact pairwise_iff_getElem.mp hnodup j i _ hi hlt he
  rw [buildPlan, hmap, ok_bind, ArchivedBlockPlan.tryNew, dif_pos hid, dif_neg hne]
  split
  next e h => cases hc.symm.trans h
  next => exact ⟨_, rfl⟩

theorem Plans.verified (h : Plans block receipt batch plan) (hb : batch.Holds K block receipt) :
    verifyPlanMatchesBatch plan batch = .ok () := by
  refine verifyPlanMatchesBatch_eq_ok.mpr ⟨h.publications.length_eq, fun i hp hm => ?_⟩
  obtain ⟨hid, hsub, hsha⟩ := h.publications.get hp hm
  obtain ⟨_, _, hfor, -⟩ := hb.isFor (getElem_mem hm)
  exact ⟨plan.publications[i].ordinal, plan.ordinal_getElem hp, rfl, hid, hsub, hsha,
    hfor.chainId.trans h.chainId.symm, hfor.blockHeight.trans h.blockHeight.symm,
    hfor.canonicalBlockHash.trans h.canonicalBlockHash.symm,
    hfor.archiveReceiptId.trans h.archiveReceiptId.symm,
    hfor.archiveManifestSha256.trans h.archiveManifestSha256.symm⟩

/-- A block that was batched is journalled exactly when none of its events is published under
the subject of the market metadata. -/
theorem journalled_iff (hbatch : CommittedPublicationBatch.tryNew K block receipt = .ok batch)
    (hcount : batch.messages.length < 2 ^ 32) (hid : validIdentity receipt.receiptId = true) :
    (∃ plan, buildPlan block receipt batch = .ok plan ∧
      plan.publications.map (·.messageId) =
        CommittedPublicationBatch.markerId block :: block.events.map (·.eventId.value) ∧
      List.Forall₂ (fun planned message => planned.messageId = message.messageId ∧
        planned.subject = message.subject.asStr ∧
        planned.publicationSha256 = message.publicationSha256) plan.publications batch.messages ∧
      verifyPlanMatchesBatch plan batch = .ok ()) ↔
    ∀ event ∈ block.events, subjectForEventKind event.eventKind ≠ .eventMarketMeta := by
  have hholds := holds_of_tryNew hbatch
  constructor
  · rintro ⟨plan, hplan, -⟩ event he
    obtain ⟨i, hi, rfl⟩ := mem_iff_getElem.mp he
    have hlen := hholds.events.length_eq
    have hsubject := (hholds.events.get hi (hlen ▸ hi)).subject
    have hmem : batch.events[i] ∈ batch.messages := mem_cons_of_mem _ (getElem_mem _)
    have hvalid := (plans_of_buildPlan hplan).subjects _ hmem
    rw [get_eq_getElem, get_eq_getElem] at hsubject
    rw [hsubject] at hvalid
    exact (validSubject_subjectForEventKind _).mp hvalid
  · intro h
    have hs : ∀ message ∈ batch.messages, validSubject message.subject.asStr = true := by
      intro message hmem
      obtain ⟨subject, messageId, hfor, hsubject⟩ := hholds.isFor hmem
      rw [hfor.subject]
      rcases hsubject with rfl | ⟨event, he, rfl⟩
      · exact (Subject.validSubject_asStr _).mpr (by decide)
      · exact (validSubject_subjectForEventKind _).mpr (h event he)
    obtain ⟨plan, hplan⟩ := exists_buildPlan hholds hcount.le hid hs
    have hplans := plans_of_buildPlan hplan
    refine ⟨plan, hplan, ?_, hplans.publications, hplans.verified hholds⟩
    rw [← hholds.messageIds]
    refine forall₂_eq_eq_eq ▸ forall₂_map_left_iff.mpr (forall₂_map_right_iff.mpr ?_)
    exact hplans.publications.imp fun _ _ hp => hp.1

section Sample

open CanonicalLedger

def byteCodec : EnvelopeCodec where
  sha256 bytes := .replicate 32 (bytes.foldl (· + ·) 0)
  encodeToVec _ := .ok [1]
  decode _ := .error (.missing "envelope")

def sampleReceipt (block : BlockEnvelope sumBlake3) : ArchiveReceipt where
  receiptId := "receipt"
  manifestId := sampleChain
  blockHeight := block.blockHeight
  canonicalBlockHash := block.canonicalBlockHash
  objectSha256 := .replicate 32 2
  manifestSha256 := .replicate 32 3
  schemaFingerprint := .replicate 32 4
  durableAt := 0
  receiptId_valid := by decide

def haltedMarket : BlockEnvelope sumBlake3 :=
  sampleEventBlock 7 [] [] (.marketHalted ⟨sampleChain, "upgrade"⟩) (by decide) (by decide)

def changedMode : BlockEnvelope sumBlake3 :=
  sampleEventBlock 7 [] [.replicate 20 1]
    (.accountModeChanged ⟨.replicate 20 1, .standard, .unified⟩) (by decide) (by decide)

/-- The batch of a block that halts a market is built, but no plan for it. -/
theorem haltedMarket_not_journalled :
    ∃ batch, CommittedPublicationBatch.tryNew byteCodec haltedMarket
        (sampleReceipt haltedMarket) = .ok batch ∧ batch.messages.length = 2 ∧
      validIdentity (sampleReceipt haltedMarket).receiptId = true ∧
      buildPlan haltedMarket (sampleReceipt haltedMarket) batch = .error .progress ∧
      validSubject (subjectForEventKind .marketHalted).asStr = false := by
  have heval : ∃ batch ∈ (tryNew byteCodec haltedMarket
      (sampleReceipt haltedMarket)).toOption, batch.messages.length = 2 ∧
        buildPlan haltedMarket (sampleReceipt haltedMarket) batch = .error .progress := by
    decide +kernel
  obtain ⟨batch, hbatch, hlen, hplan⟩ := heval
  exact ⟨batch, mem_toOption.mp hbatch, hlen, by decide, hplan, by decide⟩

theorem journalled_iff_changedMode :
    ∃ batch, CommittedPublicationBatch.tryNew byteCodec changedMode
        (sampleReceipt changedMode) = .ok batch ∧
      ∃ plan, buildPlan changedMode (sampleReceipt changedMode) batch = .ok plan := by
  have heval : ∃ batch ∈ (tryNew byteCodec changedMode
      (sampleReceipt changedMode)).toOption, batch.messages.length < 2 ^ 32 := by decide +kernel
  obtain ⟨batch, hbatch, hcount⟩ := heval
  have hok := mem_toOption.mp hbatch
  have hkinds : ∀ event ∈ changedMode.events,
      subjectForEventKind event.eventKind ≠ .eventMarketMeta := by decide
  obtain ⟨plan, hplan, -⟩ := (journalled_iff hok hcount (by decide)).mpr hkinds
  exact ⟨batch, hok, plan, hplan⟩

end Sample

end AlphaDesk
