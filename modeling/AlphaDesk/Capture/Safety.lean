import AlphaDesk.Capture.Journal

/-! # Archive, publish, cursor: safety

Every call of the coordinator keeps the invariant of the journal, whatever the ports
answer and wherever a fault ends the call. The triples follow the text of the calls,
and the runs are folds of the calls.
-/

namespace AlphaDesk

open Except InMemoryProgressStore

namespace Coordinator

open Effect

variable {B : Blake3} {ω : Type}

/-- A property of the journal and the calls, whatever the world. -/
def OnJournal (P : InMemoryProgressStore → List CaptureCall → Prop) (s : CaptureState ω) : Prop :=
  P s.progress s.calls

variable {P E : InMemoryProgressStore → List CaptureCall → Prop} {α ε : Type}

theorem port_triple {call : ω → Except ε α × ω} {error : ε → CoordinatorError}
    (hE : ∀ progress calls, P progress calls → E progress calls) :
    Triple (OnJournal P) (port call error) (fun _ => OnJournal P) (fun _ => OnJournal E) :=
  fun _ hs => ⟨fun _ _ => hs, fun _ _ => hE _ _ hs⟩

theorem read_triple {load : InMemoryProgressStore → Except ProgressError α}
    (hE : ∀ progress calls, P progress calls → E progress calls) :
    Triple (OnJournal (ω := ω) P) (read load)
      (fun a => OnJournal fun progress calls => P progress calls ∧ load progress = .ok a)
      (fun _ => OnJournal E) :=
  fun _ hs => ⟨fun _ ha => ⟨hs, mapError_eq_ok.mp ha⟩, fun _ _ => hE _ _ hs⟩

theorem write_triple {Q : α → InMemoryProgressStore → List CaptureCall → Prop}
    {change : InMemoryProgressStore → Except ProgressError (α × InMemoryProgressStore)}
    {more : α → InMemoryProgressStore → List CaptureCall}
    (hQ : ∀ progress calls a progress', P progress calls → change progress = .ok (a, progress') →
      Q a progress' (calls ++ more a progress))
    (hE : ∀ progress calls, P progress calls → E progress calls) :
    Triple (OnJournal (ω := ω) P) (write change more) (fun a => OnJournal (Q a))
      (fun _ => OnJournal E) := by
  intro s hs
  rw [write, exec_mk]
  split
  next => exact ⟨nofun, fun _ _ => hE _ _ hs⟩
  next a progress hchange =>
    refine ⟨fun b hb => ?_, nofun⟩
    obtain rfl := ok.inj hb
    exact hQ _ _ _ _ hs hchange

section Publishing

variable {firsts : ChainId → BlockHeight} {ports : CapturePorts B ω} {faults : FaultInjector ω}
  {plans : List ArchivedBlockPlan} {plan : ArchivedBlockPlan}
  {acknowledged : Std.ExtTreeMap UInt32 PublicationAcknowledgement} {ordinal : UInt32}

/-- From a place on, no ordinal of the plan is acknowledged but those that are given. -/
def Open (plan : ArchivedBlockPlan)
    (acknowledged : Std.ExtTreeMap UInt32 PublicationAcknowledgement) (index : ℕ)
    (progress : InMemoryProgressStore) : Prop :=
  ∀ ordinal : UInt32, index ≤ ordinal.toNat →
    Acked progress plan.chainId plan.blockHeight ordinal → ordinal ∈ acknowledged

theorem PublicationAcknowledgement.fields_of_tryNew {messageId subject : String}
    {publicationSha256 : Hash32} {stream : String} {streamSequence : UInt64} {duplicate : Bool}
    {acknowledgedAt : KnownTime} {ack : PublicationAcknowledgement}
    (h : PublicationAcknowledgement.tryNew ordinal messageId subject publicationSha256 stream
      streamSequence duplicate acknowledgedAt = .ok ack) :
    ack = ⟨ordinal, messageId, subject, publicationSha256, stream, streamSequence, duplicate,
      acknowledgedAt⟩ := by
  obtain ⟨_, -, h⟩ := of_bind h
  obtain ⟨_, -, h⟩ := of_bind h
  obtain ⟨_, -, h⟩ := of_bind h
  obtain ⟨-, h⟩ := of_check h
  exact (ok.inj h).symm

theorem publishMessage_triple {message : PublicationMessage} {planned : PlannedPublication}
    (hplan : plan ∈ plans) (hfree : ordinal ∉ acknowledged)
    (hplanned : plan.publications[ordinal.toNat]? = some planned)
    (hid : planned.messageId = message.messageId)
    (hsha : planned.publicationSha256 = message.publicationSha256) :
    Triple (OnJournal fun progress calls => Sound firsts plans progress calls ∧
        Open plan acknowledged ordinal.toNat progress)
      (publishMessage ports faults plan ordinal message)
      (fun _ => OnJournal fun progress calls => Sound firsts plans progress calls ∧
        Open plan acknowledged (ordinal.toNat + 1) progress)
      (fun _ => OnJournal (Sound firsts plans)) := by
  refine Triple.bind (Q := fun reply => OnJournal fun progress calls =>
    Sound firsts plans progress calls ∧ Open plan acknowledged ordinal.toNat progress ∧
    .published plan.chainId plan.blockHeight ordinal message (.ok reply) ∈ calls) ?_ fun reply => ?_
  · rintro s ⟨hs, hopen⟩
    have hpublish := hs.publish (fun hacked => hfree (hopen ordinal le_rfl hacked)) message
      (ports.publish message s.world).1
    refine ⟨fun reply hreply => ⟨hpublish, hopen, ?_⟩, fun _ _ => hpublish⟩
    rw [← mapError_eq_ok.mp hreply]
    exact List.mem_append_right _ (List.mem_singleton_self _)
  refine (port_triple fun _ _ h => h.1).bind fun _ => ?_
  refine (port_triple fun _ _ h => h.1).bind fun acknowledgedAt => ?_
  refine Triple.ofExcept_bind (fun ack hack => ?_) fun _ _ _ h => h.1
  obtain rfl := PublicationAcknowledgement.fields_of_tryNew (mapError_eq_ok.mp hack)
  refine (write_triple (Q := fun _ progress calls => Sound firsts plans progress calls ∧
    Open plan acknowledged (ordinal.toNat + 1) progress) ?_ fun _ _ h => h.1).bind
    fun _ => port_triple fun _ _ h => h.1
  rintro progress calls d progress' ⟨hsound, hopen, hmem⟩ hstep
  constructor
  · refine hsound.recordAcknowledgement hstep ⟨message, reply, hmem, ?_⟩
    obtain ⟨chain, block, hchain, hblock, rfl⟩ := hsound.recorded plan hplan
    obtain ⟨_, _, publication, hc, hb, hp, hmatch, -⟩ := recordAcknowledgement_eq_ok hstep
    obtain rfl := Option.mem_unique hchain hc
    obtain rfl := Option.mem_unique hblock hb
    obtain rfl := Option.mem_unique hplanned hp
    exact ⟨(hmatch.2.1.trans hid).symm, rfl, (hmatch.2.2.2.trans hsha).symm⟩
  · intro other hlt hacked
    rcases (acked_recordAcknowledgement hstep).mp hacked with hacked | rfl
    · exact hopen other (Nat.le_of_succ_le hlt) hacked
    · exact absurd hlt (Nat.not_succ_le_self _)

/-- The loop over the messages: the induction is on the messages left, whose places in the plan
follow the index. -/
theorem publishFrom_triple {messages : List PublicationMessage} {index : ℕ} (hplan : plan ∈ plans)
    (hmatch : PlannedFrom plan index messages) :
    Triple (OnJournal fun progress calls => Sound firsts plans progress calls ∧
        Open plan acknowledged index progress)
      (publishFrom ports faults plan acknowledged index messages)
      (fun _ => OnJournal (Sound firsts plans)) (fun _ => OnJournal (Sound firsts plans)) := by
  induction messages generalizing index with
  | nil => exact Triple.pure fun _ h => h.1
  | cons message rest ih =>
    refine Triple.ofExcept_bind (fun ordinal hordinal => ?_) fun _ _ _ h => h.1
    obtain rfl := ordinalOf_eq_ok.mp hordinal
    refine Triple.bind (Q := fun _ => OnJournal fun progress calls =>
      Sound firsts plans progress calls ∧ Open plan acknowledged (ordinal.toNat + 1) progress) ?_
      fun _ => ih hmatch.tail
    unfold settleMessage
    split
    next =>
      refine Triple.ofExcept (fun _ _ s h => ⟨h.1, ?_⟩) fun _ _ _ h => h.1
      exact fun other hlt => h.2 other (Nat.le_of_succ_le hlt)
    next hnone =>
      obtain ⟨planned, hplanned, hid, hsha⟩ := hmatch 0 (by simp)
      have hfree := Std.ExtTreeMap.getElem?_eq_none_iff_notMem.mp hnone
      exact publishMessage_triple hplan hfree hplanned hid hsha

variable {progress : InMemoryProgressStore} {calls : List CaptureCall}
  {acks : List PublicationAcknowledgement} (h : Sound firsts plans progress calls)
  (hload : progress.loadAcknowledgements plan.chainId plan.blockHeight = .ok acks)
include h hload

theorem Sound.loaded :
    ∃ chain block, progress.chains[plan.chainId]? = some chain ∧
      chain.blocks[plan.blockHeight]? = some block ∧
      acknowledgedByOrdinal acks = .ok block.acknowledgements := by
  obtain ⟨chain, hchain, hload⟩ := of_bind hload
  obtain ⟨block, hblock, hload⟩ := of_bind hload
  obtain rfl := ok.inj hload
  have hchain := chain_eq_ok.mp hchain
  have hblock := ofOption_eq_ok.mp hblock
  have htracked := (h.tracked.chain _ _ hchain).blocks _ _ hblock
  exact ⟨chain, block, hchain, hblock,
    acknowledgedByOrdinal_values fun _ _ hack => htracked.ordinal_eq hack⟩

theorem Sound.open (hacks : acknowledgedByOrdinal acks = .ok acknowledged) (index : ℕ) :
    Open plan acknowledged index progress := by
  obtain ⟨chain, block, hchain, hblock, hloaded⟩ := h.loaded hload
  obtain rfl := ok_unique hacks hloaded
  rintro ordinal - ⟨chain', block', hchain', hblock', hmem⟩
  obtain rfl := Option.mem_unique hchain hchain'
  obtain rfl := Option.mem_unique hblock hblock'
  exact hmem

end Publishing

variable {firsts : ChainId → BlockHeight} {K : EnvelopeCodec} {ports : CapturePorts B ω}
  {faults : FaultInjector ω} {plans : List ArchivedBlockPlan} {plan : ArchivedBlockPlan}
  {progress : InMemoryProgressStore} {calls : List CaptureCall} {chainId : ChainId}

theorem completeBatch_keeps {batch : CommittedPublicationBatch} (hplan : plan ∈ plans) :
    Keeps (OnJournal (Sound firsts plans)) (completeBatch ports faults plan batch) := by
  refine Triple.ofExcept_bind (fun _ hverify => ?_) fun _ _ _ h => h
  refine (read_triple fun _ _ h => h).bind fun acks => ?_
  refine Triple.ofExcept_bind (fun acknowledged hacks => ?_) fun _ _ _ h => h.1
  refine ((publishFrom_triple hplan (plannedFrom_zero hverify)).pre fun s h =>
    ⟨h.1, h.1.open h.2 hacks 0⟩).bind fun _ => ?_
  refine (write_triple (Q := fun _ => Sound firsts plans) ?_ fun _ _ h => h).bind fun _ => ?_
  · intro progress calls cursor progress' hsound hstep
    exact hsound.advanceCursor hstep
  · exact (port_triple fun _ _ h => h).bind fun _ => Triple.keeps_pure

theorem processBlock_keeps (block : BlockEnvelope B) :
    Keeps (OnJournal (Sound firsts plans)) (processBlock K ports faults block) := by
  refine (port_triple fun _ _ h => h).bind fun receipt => ?_
  refine (port_triple fun _ _ h => h).bind fun _ => ?_
  refine Triple.keeps_ofExcept.bind fun batch => ?_
  refine Triple.keeps_ofExcept.bind fun plan => ?_
  have hdrop : ∀ progress calls, Sound firsts (plan :: plans) progress calls →
      Sound firsts plans progress calls := fun _ _ h =>
    ⟨h.tracked, h.unrepeated, fun p hp => h.recorded p (List.mem_cons_of_mem _ hp)⟩
  refine (write_triple (Q := fun _ => Sound firsts (plan :: plans)) ?_ fun _ _ h => h).bind
    fun _ => ?_
  · intro progress calls d progress' hsound hstep
    rw [List.append_nil]
    exact hsound.recordArchived hstep
  · refine (port_triple hdrop).bind fun _ => ?_
    exact (completeBatch_keeps List.mem_cons_self).conseq (fun _ h => h)
      (fun _ _ h => hdrop _ _ h) fun _ _ h => hdrop _ _ h

theorem resumePlan_keeps {blockHeight : BlockHeight} (hplan : plan ∈ plans) :
    Keeps (OnJournal (Sound firsts plans))
      (resumePlan K ports faults chainId blockHeight plan) := by
  refine (port_triple fun _ _ h => h).bind fun block => ?_
  refine Triple.keeps_ofExcept.bind fun receipt => ?_
  refine Triple.keeps_ofExcept.bind fun batch => ?_
  exact Triple.keeps_ofExcept.bind fun _ => completeBatch_keeps hplan

theorem resumePlans_keeps {pending : List ArchivedBlockPlan} (hpending : pending ⊆ plans) :
    Keeps (OnJournal (Sound firsts plans)) (resumePlans K ports faults chainId pending) := by
  induction pending with
  | nil => exact Triple.keeps_pure
  | cons plan rest ih =>
    refine (resumePlan_keeps (hpending List.mem_cons_self)).bind fun _ => ?_
    refine (ih fun p hp => hpending (List.mem_cons_of_mem _ hp)).bind fun _ => ?_
    exact Triple.keeps_pure

theorem Sound.with (h : Sound firsts [] progress calls)
    (hplans : ∀ plan ∈ plans, Recorded progress plan) : Sound firsts plans progress calls :=
  ⟨h.tracked, h.unrepeated, hplans⟩

theorem Sound.drop (h : Sound firsts plans progress calls) : Sound firsts [] progress calls :=
  ⟨h.tracked, h.unrepeated, fun _ hp => absurd hp List.not_mem_nil⟩

theorem recoverPending_keeps (chainId : ChainId) (limit : ℕ) :
    Keeps (OnJournal (Sound firsts [])) (recoverPending K ports faults chainId limit) := by
  refine (read_triple fun _ _ h => h).bind fun pending => ?_
  rintro s ⟨hsound, hpending⟩
  exact ((resumePlans_keeps (List.Subset.refl pending)).conseq (fun _ h => h)
    (fun _ _ h => h.drop) fun _ _ h => h.drop) s
      (hsound.with (hsound.tracked.pendingBlocks hpending))

theorem recovered_keeps (expected : BlockHeight) (cursor : CaptureCursor) :
    Keeps (OnJournal (ω := ω) (Sound firsts [])) (recovered expected cursor) := by
  unfold recovered
  split
  next => exact Triple.keeps_throw
  next => exact Triple.keeps_pure

theorem recoverNext_keeps (chainId : ChainId) :
    Keeps (OnJournal (Sound firsts [])) (recoverNext K ports faults chainId) := by
  refine (read_triple fun _ _ h => h).bind fun expected => ?_
  refine (read_triple fun _ _ h => h.1).bind fun planned => ?_
  split
  next plan =>
    refine Triple.bind (Q := fun _ => OnJournal (Sound firsts [])) ?_ fun _ => recovered_keeps _ _
    rintro s ⟨⟨hsound, -⟩, hload⟩
    obtain ⟨chain, hchain, hload⟩ := of_bind hload
    obtain ⟨block, hblock, rfl⟩ := Option.map_eq_some_iff.mp (ok.inj hload)
    have hrecorded :=
      hsound.tracked.recorded (chain_eq_ok.mp hchain) hblock
    exact ((resumePlan_keeps List.mem_cons_self).conseq (fun _ h => h) (fun _ _ h => h.drop)
      fun _ _ h => h.drop) s (hsound.with (List.forall_mem_singleton.mpr hrecorded))
  next =>
    refine Triple.bind (Q := fun _ => OnJournal (Sound firsts [])) ?_ fun found => ?_
    · intro s hs
      exact ⟨fun _ _ => hs.1.1, fun _ _ => hs.1.1⟩
    · split
      next block => exact (processBlock_keeps block).bind fun _ => recovered_keeps _ _
      next => exact Triple.keeps_pure

theorem recoverRounds_keeps (chainId : ChainId) (limit : ℕ) :
    Keeps (OnJournal (Sound firsts [])) (recoverRounds K ports faults chainId limit) := by
  induction limit with
  | zero => exact Triple.keeps_pure
  | succ limit ih =>
    refine (recoverNext_keeps chainId).bind fun height => ?_
    split
    next => exact Triple.keeps_pure
    next => exact ih.bind fun _ => Triple.keeps_pure

theorem recoverStartup_keeps (chainId : ChainId) (limit : ℕ) :
    Keeps (OnJournal (Sound firsts [])) (recoverStartup K ports faults chainId limit) :=
  Triple.keeps_throw.ite (recoverRounds_keeps chainId limit)

theorem sound_serve {s : CaptureState ω} (h : OnJournal (Sound firsts []) s)
    (request : CaptureRequest B) :
    OnJournal (Sound firsts []) (request.serve K ports faults s) := by
  cases request with
  | processBlock block => exact (processBlock_keeps block).always h
  | recoverPending chainId limit => exact (recoverPending_keeps chainId limit).always h
  | recoverStartup chainId limit => exact (recoverStartup_keeps chainId limit).always h

variable {capacity : UInt64} {fresh store : InMemoryProgressStore} {first : BlockHeight}
  {d : ProgressRecordDisposition}

theorem sound_initial (hfresh : new capacity = .ok fresh)
    (hinit : fresh.initializeChain chainId first = .ok (d, store)) :
    Sound (fun _ => first) [] store [] := by
  obtain ⟨-, hfresh⟩ := of_check hfresh
  obtain rfl := ok.inj hfresh
  have hempty : Tracked (fun _ => first) ⟨capacity, ∅, 0⟩ [] := by
    constructor
    · intro chainId chain hchain
      simp at hchain
    · exact fun _ _ => rfl
  obtain ⟨-, rfl⟩ := Prod.mk.inj (ok.inj hinit)
  refine ⟨?_, ⟨nofun, List.Pairwise.nil⟩, nofun⟩
  refine hempty.putChain (List.Subset.refl _) (fun _ _ => rfl) ⟨rfl, ?_, rfl, rfl, rfl, ?_⟩
  · intro blockHeight block hblock
    simp at hblock
  · intro cursor hcursor
    cases hcursor

theorem sound_run (hfresh : new capacity = .ok fresh)
    (hinit : fresh.initializeChain chainId first = .ok (d, store)) (world : ω)
    (requests : List (CaptureRequest B)) :
    OnJournal (Sound (fun _ => first) [])
      (Run.final (CaptureRequest.serve K ports faults) ⟨world, store, []⟩ requests) :=
  Run.invariant (P := OnJournal (Sound (fun _ => first) [])) (s := ⟨world, store, []⟩) _
    (sound_initial hfresh hinit) (fun _ request h => sound_serve h request) requests

/-- Wherever the cursor stands, it has come there height by height from the configured first
height, and the messages of all the blocks up to it were published and acknowledged as
planned. -/
theorem cursor_passes_published (hfresh : InMemoryProgressStore.new capacity = .ok fresh)
    (hinit : fresh.initializeChain chainId first = .ok (d, store)) (world : ω)
    (requests : List (CaptureRequest B)) {s : CaptureState ω}
    (hrun : s = Run.final (CaptureRequest.serve K ports faults) ⟨world, store, []⟩ requests)
    {chain : ChainState} (hchain : s.progress.chains[chainId]? = some chain)
    {cursor : CaptureCursor} (hcursor : chain.cursor = some cursor) :
    (∀ k : BlockHeight, first ≤ k → k ≤ cursor.committedBlockHeight →
      ∃ block, chain.blocks[k]? = some block ∧ block.plan.chainId = chainId ∧
        block.plan.blockHeight = k ∧
        ∀ ordinal : UInt32, ordinal.toNat < block.plan.publications.length →
          ∃ planned ack, block.plan.publications[ordinal.toNat]? = some planned ∧
            block.acknowledgements[ordinal]? = some ack ∧ ackMatchesPublication ack planned ∧
            PublishedFor s.calls chainId k ordinal ack) ∧
      (movesOf chainId s.calls).getLast? = some cursor ∧
      (movesOf chainId s.calls).map (·.committedBlockHeight.toNat) =
        List.range' first.toNat (cursor.committedBlockHeight.toNat - first.toNat + 1) ∧
      first ≤ cursor.committedBlockHeight ∧
      cursor.cursorVersion.toNat =
        cursor.committedBlockHeight.toNat - first.toNat + 1 ∧
      ∃ block, chain.blocks[cursor.committedBlockHeight]? = some block ∧
        cursor.canonicalBlockHash = block.plan.canonicalBlockHash ∧
        cursor.archiveReceiptId = block.plan.archiveReceiptId ∧
        cursor.archiveManifestSha256 = block.plan.archiveManifestSha256 := by
  have hsound : OnJournal (Sound (fun _ => first) []) s :=
    hrun ▸ sound_run hfresh hinit world requests
  have h := hsound.tracked.chain _ _ hchain
  have hlast : (movesOf chainId s.calls).getLast? = some cursor := h.cursor.symm.trans hcursor
  have hheight := last_of_map_eq_range' h.heights hlast
  have hversion := last_of_map_eq_range' h.versions hlast
  have hpos : 0 < (movesOf chainId s.calls).length := by
    rw [List.length_pos_iff]
    intro hnil
    rw [hnil] at hlast
    cases hlast
  have hlen : (movesOf chainId s.calls).length =
      cursor.committedBlockHeight.toNat - first.toNat + 1 := by omega
  obtain ⟨last, hpassed⟩ := h.passed cursor (List.mem_of_getLast? hlast)
  refine ⟨?_, hlast, hlen ▸ h.heights, UInt64.le_iff_toNat_le.mpr (by omega), by omega, last,
    hpassed.found, hpassed.canonicalBlockHash, hpassed.archiveReceiptId,
    hpassed.archiveManifestSha256⟩
  intro k hfirst hk
  have hmem : k.toNat ∈ (movesOf chainId s.calls).map (·.committedBlockHeight.toNat) := by
    rw [h.heights, List.mem_range'_1]
    have h1 := UInt64.le_iff_toNat_le.mp hfirst
    have h2 := UInt64.le_iff_toNat_le.mp hk
    omega
  obtain ⟨passed, hmoved, hnat⟩ := List.mem_map.mp hmem
  obtain rfl := UInt64.toNat_inj.mp hnat
  obtain ⟨block, hblock⟩ := h.passed passed hmoved
  have hb := h.blocks _ _ hblock.found
  refine ⟨block, hblock.found, hb.chainId_eq, hb.blockHeight_eq, fun ordinal hlt => ?_⟩
  obtain ⟨ack, hack⟩ := hb.acknowledged hblock.complete hlt
  obtain ⟨planned, hplanned, hmatch⟩ := hb.planned ordinal ack hack
  exact ⟨planned, ack, hplanned, hack, hmatch, hb.published ordinal ack hack⟩

section Sample

open CanonicalLedger

/-- An archive that lists its blocks, a publisher that acknowledges every message and a clock
that stands still. -/
def samplePorts : CapturePorts sumBlake3 (List (BlockEnvelope sumBlake3)) where
  appendBlock block held :=
    match held.find? fun b => b.chainId = block.chainId ∧ b.blockHeight = block.blockHeight with
    | none => (.ok (sampleReceipt block), block :: held)
    | some found =>
      if found.canonicalBlockHash = block.canonicalBlockHash then (.ok (sampleReceipt found), held)
      else (.error (.conflictingBlock block.blockHeight), held)
  loadBlock chainId blockHeight held :=
    (Except.ofOption .rangeUnavailable
      (held.find? fun b => b.chainId = chainId ∧ b.blockHeight = blockHeight), held)
  publish message held :=
    (.ok ⟨message.messageId, message.stream, 1, false, message.publicationSha256, by decide⟩, held)
  acknowledgedAt _ _ held := (.ok 0, held)

/-- A fresh journal of the sample chain. -/
def sampleProgress : InMemoryProgressStore :=
  (⟨4, ∅, 0⟩ : InMemoryProgressStore).putChain sampleChain ⟨7, none, ∅⟩

theorem new_sampleProgress : new 4 = .ok ⟨4, ∅, 0⟩ :=
  if_neg (by decide)

theorem initializeChain_sampleProgress :
    (⟨4, ∅, 0⟩ : InMemoryProgressStore).initializeChain sampleChain 7 =
      .ok (.new, sampleProgress) := by
  rfl

theorem cursor_passes_published_changedMode :
    ∃ s : CaptureState (List (BlockEnvelope sumBlake3)), ∃ chain cursor,
      s = Run.final (CaptureRequest.serve byteCodec samplePorts noCoordinatorFaults)
        ⟨[], sampleProgress, []⟩ [.processBlock changedMode] ∧
      s.progress.chains[sampleChain]? = some chain ∧ chain.cursor = some cursor ∧
      (movesOf sampleChain s.calls).getLast? = some cursor := by
  have heval : (((Run.final (CaptureRequest.serve byteCodec samplePorts noCoordinatorFaults)
      ⟨[], sampleProgress, []⟩ [.processBlock changedMode]).progress.chains[sampleChain]?).bind
        (·.cursor)).isSome = true := by decide +kernel
  obtain ⟨cursor, hcursor⟩ := Option.isSome_iff_exists.mp heval
  obtain ⟨chain, hchain, hcursor⟩ := Option.bind_eq_some_iff.mp hcursor
  refine ⟨_, chain, cursor, rfl, hchain, hcursor, ?_⟩
  exact (cursor_passes_published new_sampleProgress initializeChain_sampleProgress [] _ rfl hchain
    hcursor).2.1

end Sample

end Coordinator

end AlphaDesk
