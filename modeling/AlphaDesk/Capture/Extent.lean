import AlphaDesk.Capture.Series

/-! # How far a run has come

The extent of a run along a series: so many blocks lie behind the cursor, so many are
journalled and so many archived. Everything else that a recovery depends on follows
from the extent and the invariant of the journal, and two runs of the same extent agree
on the cursor, the plans and what was published.
-/

namespace AlphaDesk

namespace BlockSeries

open Coordinator InMemoryProgressStore List Option

variable {B : Blake3} {K : EnvelopeCodec} {chain : ChainState}

def messageIds (block : BlockEnvelope B) : List String :=
  CommittedPublicationBatch.markerId block :: block.events.map (·.eventId.value)

def publishedIds (calls : List CaptureCall) : Set String :=
  {id | ∃ chainId blockHeight ordinal message reply,
    .published chainId blockHeight ordinal message (.ok reply) ∈ calls ∧ message.messageId = id}

/-- Every acknowledgement is from the stream of its subject. -/
def Streamed (progress : InMemoryProgressStore) : Prop :=
  ∀ (chainId : ChainId) (chain : ChainState) (blockHeight : BlockHeight) (block : BlockState)
    (ordinal : UInt32) (ack : PublicationAcknowledgement),
    progress.chains[chainId]? = some chain → chain.blocks[blockHeight]? = some block →
    block.acknowledgements[ordinal]? = some ack →
    ∃ subject : Subject, ack.subject = subject.asStr ∧ ack.stream = subject.stream

/-- The plans of a chain's journal are those of the first blocks of the series. -/
def Journals (series : BlockSeries B K) (journalled : ℕ) (chain : ChainState) : Prop :=
  ∀ blockHeight : BlockHeight, chain.blocks[blockHeight]?.map (·.plan) =
    (series.upTo journalled blockHeight).bind fun block =>
      (planOf K series.receiptOf block).toOption

/-- The run has come so far along the series. -/
structure Reached (series : BlockSeries B K) (capacity : UInt64) (behind journalled archived : ℕ)
    (held : Held B) (progress : InMemoryProgressStore) (calls : List CaptureCall) : Prop where
  sound : Sound (fun _ => series.first) [] progress calls
  moves : (movesOf series.chainId calls).length = behind
  capacity_eq : progress.capacity = capacity
  blockCount : progress.blockCount = journalled
  plans : ∃ chain, progress.chains[series.chainId]? = some chain ∧
    series.Journals journalled chain
  archive : ∀ blockHeight, held series.chainId blockHeight = series.upTo archived blockHeight
  published : ∀ id ∈ publishedIds calls, ∃ block ∈ series.blocks.take journalled,
    id ∈ messageIds block
  streamed : Streamed progress

section Steps

variable {series : BlockSeries B K} {capacity : UInt64} {behind journalled archived : ℕ}
  {held held' : Held B} {progress : InMemoryProgressStore} {calls : List CaptureCall}
  {batch : CommittedPublicationBatch} {plan : ArchivedBlockPlan} {i : ℕ}

theorem publishedIds_append {more : List CaptureCall} {id : String}
    (h : id ∈ publishedIds (calls ++ more)) : id ∈ publishedIds calls ∨ id ∈ publishedIds more := by
  obtain ⟨chainId, blockHeight, ordinal, message, reply, hmem, hid⟩ := h
  rcases mem_append.mp hmem with hmem | hmem
  · exact .inl ⟨chainId, blockHeight, ordinal, message, reply, hmem, hid⟩
  · exact .inr ⟨chainId, blockHeight, ordinal, message, reply, hmem, hid⟩

variable (h : series.Reached capacity behind journalled archived held progress calls)
  (hi : i < series.blocks.length) (hp : series.PlannedAs series.blocks[i] batch plan)
  {message : PublicationMessage}

include h hi in
theorem Reached.append (ha : i ≤ archived)
    (hheld : ∀ chainId blockHeight, held' chainId blockHeight =
      if chainId = series.blocks[i].chainId ∧ blockHeight = series.blocks[i].blockHeight
      then some series.blocks[i] else held chainId blockHeight) :
    series.Reached capacity behind journalled (max archived (i + 1)) held' progress calls := by
  refine { h with archive := fun blockHeight => ?_ }
  rw [hheld, series.chainId_eq _ (getElem_mem hi)]
  simp only [true_and]
  rcases ha.eq_or_lt with rfl | hlt
  · rw [max_eq_right (Nat.le_succ _), upTo_succ hi, h.archive]
  · rw [max_eq_left hlt, h.archive]
    split
    next heq => rw [heq, upTo_getElem hi, if_pos hlt]
    next => rfl

include hi hp

theorem Journals.addPlan (h : series.Journals i chain) :
    series.Journals (i + 1) (chain.addPlan plan) := by
  intro blockHeight
  rw [ChainState.addPlan, Std.ExtTreeMap.getElem?_insert_eq_ite, hp.plans.blockHeight, upTo_succ hi]
  split
  next => rw [map_some, bind_some, hp.planOf_eq, Except.toOption]
  next => exact h blockHeight

include h

theorem Reached.recorded (hj : i < journalled) : Recorded progress plan := by
  obtain ⟨chain, hchain, hplans⟩ := h.plans
  have hplan := hplans series.blocks[i].blockHeight
  rw [upTo_getElem hi, if_pos hj, bind_some, hp.planOf_eq] at hplan
  obtain ⟨block, hblock, rfl⟩ := map_eq_some_iff.mp hplan
  refine ⟨chain, block, ?_, ?_, rfl⟩
  · rw [hp.chainId_eq (getElem_mem hi)]
    exact hchain
  · rw [hp.plans.blockHeight]
    exact hblock

theorem Reached.unrecorded (hj : journalled ≤ i) :
    ∃ chain, progress.chains[plan.chainId]? = some chain ∧
      chain.firstBlockHeight ≤ plan.blockHeight ∧ chain.blocks[plan.blockHeight]? = none ∧
      series.Journals journalled chain := by
  obtain ⟨chain, hchain, hplans⟩ := h.plans
  have hplan := hplans series.blocks[i].blockHeight
  rw [upTo_getElem hi, if_neg (not_lt.mpr hj)] at hplan
  rw [hp.chainId_eq (getElem_mem hi), hp.plans.blockHeight]
  refine ⟨chain, hchain, ?_, map_eq_none_iff.mp hplan, hplans⟩
  rw [(h.sound.tracked.chain _ _ hchain).first_eq, UInt64.le_iff_toNat_le,
    series.toNat_blockHeight hi]
  omega

theorem Reached.full (hj : journalled ≤ i) (hfull : capacity.toNat ≤ journalled) :
    ∃ e, progress.recordArchived plan = .error e := by
  obtain ⟨chain, hchain, hfirst, hnone, -⟩ := h.unrecorded hi hp hj
  exact ⟨_, (recordArchived_of_none hchain hfirst hnone).trans
    (if_pos (by rw [h.capacity_eq, h.blockCount]; exact hfull))⟩

theorem Reached.publish (hj : i < journalled) {ordinal : UInt32}
    (hmessage : message ∈ batch.messages)
    (hopen : ¬Acked progress plan.chainId plan.blockHeight ordinal)
    (reply : Except PublicationError PublicationAck) :
    series.Reached capacity behind journalled archived held progress
      (calls ++ [.published plan.chainId plan.blockHeight ordinal message reply]) := by
  refine ⟨h.sound.publish hopen message reply, ?_, h.capacity_eq, h.blockCount, h.plans, h.archive,
    ?_, h.streamed⟩
  · rw [movesOf_append]
    exact (congrArg length (append_nil _)).trans h.moves
  · intro id hid
    rcases publishedIds_append hid with hid | ⟨_, _, _, _, _, hmem, rfl⟩
    · exact h.published id hid
    · obtain ⟨-, -, -, rfl, -⟩ := CaptureCall.published.inj (mem_singleton.mp hmem)
      refine ⟨series.blocks[i], mem_take_iff_getElem.mpr ⟨i, lt_min hj hi, rfl⟩, ?_⟩
      rw [messageIds, ← hp.holds.messageIds]
      exact mem_map_of_mem hmessage

theorem Reached.acknowledge (hj : i < journalled) {ack : PublicationAcknowledgement}
    {reply : PublicationAck} (hmessage : batch.messages[ack.ordinal.toNat]? = some message)
    (hid : ack.messageId = message.messageId) (hsubject : ack.subject = message.subject.asStr)
    (hsha : ack.publicationSha256 = message.publicationSha256)
    (hstream : ack.stream = message.stream)
    (hopen : ¬Acked progress plan.chainId plan.blockHeight ack.ordinal)
    (hpublished :
      .published plan.chainId plan.blockHeight ack.ordinal message (.ok reply) ∈ calls) :
    ∃ progress', progress.recordAcknowledgement plan.chainId plan.blockHeight ack =
        .ok (.new, progress') ∧
      series.Reached capacity behind journalled archived held progress'
        (calls ++ [.acknowledged plan.chainId plan.blockHeight ack]) := by
  obtain ⟨chain, block, hchain, hblock, rfl⟩ := h.recorded hi hp hj
  obtain ⟨publication, hplanned, h1, h2, h3⟩ := hp.planned hmessage
  have hmatch : ackMatchesPublication ack publication := by
    refine ⟨?_, hid.trans h1.symm, hsubject.trans h2.symm, hsha.trans h3.symm⟩
    obtain ⟨hlt, rfl⟩ := List.getElem?_eq_some_iff.mp hplanned
    exact UInt32.toNat.inj (block.plan.ordinal_getElem hlt).symm
  have hnone : block.acknowledgements[ack.ordinal]? = none := by
    rw [Std.ExtTreeMap.getElem?_eq_none_iff_notMem]
    exact fun hmem => hopen ⟨chain, block, hchain, hblock, hmem⟩
  have hstep : progress.recordAcknowledgement block.plan.chainId block.plan.blockHeight ack =
      .ok (.new, progress.putChain block.plan.chainId
        (chain.addAcknowledgement block.plan.blockHeight block ack)) := by
    simp [InMemoryProgressStore.recordAcknowledgement, chain_eq_ok.mpr hchain, hblock, hplanned,
      hmatch, hnone]
  have hsound := h.sound.recordAcknowledgement hstep
    ⟨message, reply, hpublished, hid.symm, hsubject.symm, hsha.symm⟩
  refine ⟨_, hstep, ⟨hsound, ?_, h.capacity_eq, h.blockCount, ?_, h.archive, ?_,
    AllAcks.addAcknowledgement h.streamed hchain hblock
      ⟨message.subject, hsubject, hstream⟩⟩⟩
  · rw [movesOf_append]
    exact (congrArg length (append_nil _)).trans h.moves
  · have hc := hp.chainId_eq (getElem_mem hi)
    obtain ⟨found, hfound, hplans⟩ := h.plans
    obtain rfl := some.inj (hchain.symm.trans (hc ▸ hfound))
    refine ⟨_, by rw [chains_putChain, if_pos hc.symm], fun blockHeight => ?_⟩
    rw [← hplans blockHeight, ChainState.addAcknowledgement,
      Std.ExtTreeMap.getElem?_insert_eq_ite]
    split
    next heq => rw [heq, hblock, map_some, map_some]
    next => rfl
  · intro id hmem
    rcases publishedIds_append hmem with hmem | ⟨_, _, _, _, _, hmem, -⟩
    · exact h.published id hmem
    · cases mem_singleton.mp hmem

omit h

theorem Reached.journal (h : series.Reached capacity i i archived held progress calls)
    (hroom : i < capacity.toNat) :
    ∃ progress', progress.recordArchived plan = .ok (.new, progress') ∧
      series.Reached capacity i (i + 1) archived held progress' calls := by
  obtain ⟨chain, hchain, hfirst, hnone, hplans⟩ := h.unrecorded hi hp le_rfl
  have hstep := (recordArchived_of_none hchain hfirst hnone).trans
    (if_neg (by rw [h.capacity_eq, h.blockCount]; exact not_le.mpr hroom))
  have hsound := (h.sound.recordArchived hstep).drop
  refine ⟨_, hstep, ⟨hsound, h.moves, h.capacity_eq, congrArg (· + 1) h.blockCount,
    ⟨chain.addPlan plan, ?_, hplans.addPlan hi hp⟩, h.archive, ?_,
    AllAcks.addPlan h.streamed hchain⟩⟩
  · change (progress.putChain plan.chainId (chain.addPlan plan)).chains[series.chainId]? = _
    rw [chains_putChain, if_pos (hp.chainId_eq (getElem_mem hi)).symm]
  · intro id hmem
    obtain ⟨block, hblock, hid⟩ := h.published id hmem
    exact ⟨block, take_subset_take_left _ (Nat.le_succ i) hblock, hid⟩

theorem Reached.advance (h : series.Reached capacity i (i + 1) archived held progress calls)
    (hroom : i < capacity.toNat)
    (hacked : ∀ ordinal : UInt32, ordinal.toNat < plan.publications.length →
      Acked progress plan.chainId plan.blockHeight ordinal) :
    ∃ cursor progress', progress.advanceCursor plan.chainId plan.blockHeight =
        .ok (cursor, progress') ∧ cursor.committedBlockHeight = plan.blockHeight ∧
      series.Reached capacity (i + 1) (i + 1) archived held progress'
        (calls ++ moved plan.chainId cursor progress) := by
  obtain ⟨chain, block, hchain, hblock, rfl⟩ := h.recorded hi hp (Nat.lt_succ_self i)
  have hc := hp.chainId_eq (getElem_mem hi)
  have htracked := h.sound.tracked.chain _ _ hchain
  have hmoves : (movesOf block.plan.chainId calls).length = i := by
    rw [hc]
    exact h.moves
  have hnext : chain.nextHeight = .ok block.plan.blockHeight := by
    refine htracked.nextHeight_iff.mpr ?_
    rw [hp.plans.blockHeight, series.toNat_blockHeight hi, hmoves]
  have hlt : i + 1 < 2 ^ 64 := (Nat.succ_le_of_lt hroom).trans_lt capacity.toNat_lt
  have hversion : chain.nextVersion = .ok (.ofNat (i + 1)) := by
    refine htracked.nextVersion_iff.mpr ?_
    rw [UInt64.toNat_ofNat_of_lt' hlt, hmoves, Nat.add_comm]
  have hpos : UInt64.ofNat (i + 1) ≠ 0 := by
    intro hzero
    have hnat := congrArg UInt64.toNat hzero
    rw [UInt64.toNat_ofNat_of_lt' hlt] at hnat
    exact absurd hnat (Nat.succ_ne_zero i)
  have hcomplete : block.IsComplete := by
    have hb := htracked.blocks _ _ hblock
    refine Std.ExtTreeMap.size_eq_of_forall_mem (f := UInt32.toNat) (fun _ _ => UInt32.toNat.inj)
      ?_ ?_
    · intro ordinal hmem
      exact hb.lt_of_mem hmem
    · intro o ho
      obtain ⟨hbound, -, -⟩ := checkPublications_eq_ok.mp block.plan.publications_checked o ho
      rw [length_nil, Nat.zero_add] at hbound
      have hnat := UInt32.toNat_ofNat_of_lt' hbound
      obtain ⟨chain', block', hchain', hblock', hmem⟩ := hacked (.ofNat o) (by rw [hnat]; exact ho)
      obtain rfl := mem_unique hchain hchain'
      obtain rfl := mem_unique hblock hblock'
      exact ⟨_, hmem, hnat⟩
  obtain ⟨cursor, progress', hstep⟩ := advanceCursor_next hchain hnext
    hversion hpos hblock hcomplete
  have hsound := h.sound.advanceCursor hstep
  obtain ⟨found, hfound, hheight, hcase⟩ := advanceCursor_eq_ok hstep
  obtain rfl := mem_unique hchain hfound
  rcases hcase with ⟨-, hcursor⟩ | ⟨-, -, -, -, -, hid, -, -, -, rfl⟩
  · exact absurd hheight (ChainState.ne_of_nextHeight hnext hcursor)
  refine ⟨cursor, _, hstep, hheight, ?_⟩
  rw [moved_of_nextHeight hchain hnext hheight] at hsound ⊢
  refine ⟨hsound, ?_, h.capacity_eq, h.blockCount, ?_, h.archive, ?_,
    AllAcks.cursor h.streamed hchain⟩
  · rw [movesOf_append, movesOf_advanced, if_pos (hid.trans hc), length_append, h.moves,
      length_singleton]
  · obtain ⟨found, hfound, hplans⟩ := h.plans
    obtain rfl := some.inj (hchain.symm.trans (hc ▸ hfound))
    exact ⟨{ chain with cursor := some cursor },
      by rw [chains_putChain, if_pos hc.symm], hplans⟩
  · intro id hmem
    rcases publishedIds_append hmem with hmem | ⟨_, _, _, _, _, hmem, -⟩
    · exact h.published id hmem
    · cases mem_singleton.mp hmem

end Steps

section Lookup

variable {series : BlockSeries B K} {capacity : UInt64} {behind journalled archived : ℕ}
  {held : Held B} {progress : InMemoryProgressStore} {calls : List CaptureCall}
  (h : series.Reached capacity behind journalled archived held progress calls)
include h

theorem Reached.nextExpectedHeight_iff {blockHeight : BlockHeight} :
    progress.nextExpectedHeight series.chainId = .ok blockHeight ↔
      blockHeight.toNat = series.first.toNat + behind := by
  obtain ⟨chain, hchain, -⟩ := h.plans
  rw [nextExpectedHeight, chain_eq_ok.mpr hchain,
    Except.ok_bind, (h.sound.tracked.chain _ _ hchain).nextHeight_iff, h.moves]

theorem Reached.loadArchivedBlock_eq (blockHeight : BlockHeight) :
    progress.loadArchivedBlock series.chainId blockHeight =
      .ok ((series.upTo journalled blockHeight).bind fun block =>
        (planOf K series.receiptOf block).toOption) := by
  obtain ⟨chain, hchain, hplans⟩ := h.plans
  rw [loadArchivedBlock, chain_eq_ok.mpr hchain,
    Except.ok_bind, ← hplans blockHeight]
  rfl

end Lookup

variable {series : BlockSeries B K} {capacity : UInt64} {count archived archived' : ℕ}
  {held held' : Held B} {progress progress' : InMemoryProgressStore}
  {calls calls' : List CaptureCall}

/-- A cursor up to the time at which it was set. -/
def place (cursor : CaptureCursor) : ChainId × BlockHeight × Hash32 × String × Hash32 × UInt64 :=
  (cursor.chainId, cursor.committedBlockHeight, cursor.canonicalBlockHash, cursor.archiveReceiptId,
    cursor.archiveManifestSha256, cursor.cursorVersion)

/-- What was published is what the blocks behind the cursor are to be followed by. -/
theorem Reached.publishedIds_eq
    (h : series.Reached capacity count count archived held progress calls) :
    publishedIds calls = {id | ∃ block ∈ series.blocks.take count, id ∈ messageIds block} := by
  ext id
  constructor
  · exact h.published id
  · rintro ⟨block, hmem, hid⟩
    obtain ⟨i, hi, rfl⟩ := mem_take_iff_getElem.mp hmem
    have hlt : i < count := hi.trans_le (min_le_left _ _)
    have hlen : i < series.blocks.length := hi.trans_le (min_le_right _ _)
    obtain ⟨batch, plan, hp⟩ := series.exists_plannedAs (getElem_mem hlen)
    obtain ⟨chain, found, hchain, hfound, rfl⟩ := h.recorded hlen hp hlt
    have htracked := h.sound.tracked.chain _ _ hchain
    -- the cursor has passed the block, so it is complete
    have hpassed : found.IsComplete := by
      have hheight : found.plan.blockHeight.toNat ∈
          (movesOf found.plan.chainId calls).map (·.committedBlockHeight.toNat) := by
        rw [htracked.heights, hp.chainId_eq (getElem_mem hlen), h.moves, mem_range'_1,
          hp.plans.blockHeight, series.toNat_blockHeight hlen]
        omega
      obtain ⟨cursor, hcursor, hnat⟩ := mem_map.mp hheight
      obtain ⟨passed, hpassed⟩ := htracked.passed cursor hcursor
      have hfound' := hpassed.found
      rw [UInt64.toNat_inj.mp hnat, hfound] at hfound'
      exact some.inj hfound' ▸ hpassed.complete
    rw [messageIds, ← hp.holds.messageIds] at hid
    obtain ⟨message, hmessage, rfl⟩ := mem_map.mp hid
    obtain ⟨o, hmessage⟩ := mem_iff_getElem?.mp hmessage
    obtain ⟨publication, hplanned, hmatch, -⟩ := hp.planned hmessage
    obtain ⟨ordinal, rfl, ho⟩ := found.plan.exists_ordinal hplanned
    have hb := htracked.blocks _ _ hfound
    obtain ⟨ack, hack⟩ := hb.acknowledged hpassed ho
    obtain ⟨publication', hplanned', hmatch'⟩ := hb.planned ordinal ack hack
    obtain rfl := mem_unique hplanned hplanned'
    obtain ⟨sent, reply, hsent, hsentId, -⟩ := hb.published ordinal ack hack
    exact ⟨_, _, _, sent, reply, hsent, hsentId.trans (hmatch'.2.1.trans hmatch)⟩

theorem chainId_of_mem_movesOf {chainId : ChainId} {cursor : CaptureCursor}
    (h : cursor ∈ movesOf chainId calls) : cursor.chainId = chainId := by
  obtain ⟨call, -, hcall⟩ := mem_filterMap.mp h
  cases call with
  | advanced found =>
    obtain ⟨hid, hsome⟩ := ite_none_right_eq_some.mp hcall
    exact some.inj hsome ▸ hid
  | published => cases hcall
  | acknowledged => cases hcall

/-- The last block behind the cursor determines the cursor but for its time. -/
theorem Reached.place_eq (h : series.Reached capacity count count archived held progress calls)
    (hcount : 0 < count) (hlen : count ≤ series.blocks.length) {batch : CommittedPublicationBatch}
    {plan : ArchivedBlockPlan} (hp : series.PlannedAs series.blocks[count - 1] batch plan)
    (hchain : progress.chains[series.chainId]? = some chain) :
    chain.cursor.map place = some (series.chainId, plan.blockHeight, plan.canonicalBlockHash,
      plan.archiveReceiptId, plan.archiveManifestSha256, .ofNat count) := by
  have htracked := h.sound.tracked.chain _ _ hchain
  have hcursor := htracked.cursor
  cases hc : chain.cursor with
  | none =>
    rw [hc, eq_comm, getLast?_eq_none_iff] at hcursor
    rw [← h.moves, hcursor] at hcount
    exact absurd hcount (Nat.lt_irrefl 0)
  | some cursor =>
    have hlast := hcursor.symm.trans hc
    have hheight := last_of_map_eq_range' htracked.heights hlast
    have hversion := last_of_map_eq_range' htracked.versions hlast
    rw [h.moves] at hheight hversion
    have hlt : count - 1 < series.blocks.length := by omega
    have hblock : cursor.committedBlockHeight = plan.blockHeight := by
      rw [hp.plans.blockHeight, ← UInt64.toNat_inj, series.toNat_blockHeight hlt]
      omega
    have hcount' : cursor.cursorVersion = .ofNat count := by
      have hnat : cursor.cursorVersion.toNat = count := by omega
      have hbound := cursor.cursorVersion.toNat_lt
      rw [hnat] at hbound
      rw [← UInt64.toNat_inj, UInt64.toNat_ofNat_of_lt' hbound, hnat]
    obtain ⟨passed, hpassed⟩ := htracked.passed cursor (mem_of_getLast? hlast)
    obtain ⟨chain', block, hchain', hfound, rfl⟩ := h.recorded hlt hp (by omega)
    rw [hp.chainId_eq (getElem_mem hlt)] at hchain'
    obtain rfl := mem_unique hchain hchain'
    obtain rfl := some.inj ((hblock ▸ hpassed.found).symm.trans hfound)
    rw [map_some, place, chainId_of_mem_movesOf (mem_of_getLast? hlast), hblock,
      hpassed.canonicalBlockHash, hpassed.archiveReceiptId, hpassed.archiveManifestSha256, hcount']

/-- Two runs of the same extent have the same cursor but for its time, the same plans, and have
published the same messages. -/
theorem Reached.agree (h : series.Reached capacity count count archived held progress calls)
    (h' : series.Reached capacity count count archived' held' progress' calls')
    (hcount : count ≤ series.blocks.length) :
    ∃ chain chain', progress.chains[series.chainId]? = some chain ∧
      progress'.chains[series.chainId]? = some chain' ∧
      chain.cursor.map place = chain'.cursor.map place ∧
      (∀ blockHeight : BlockHeight,
        chain.blocks[blockHeight]?.map (·.plan) = chain'.blocks[blockHeight]?.map (·.plan)) ∧
      publishedIds calls = publishedIds calls' := by
  obtain ⟨chain, hchain, hplans⟩ := h.plans
  obtain ⟨chain', hchain', hplans'⟩ := h'.plans
  refine ⟨chain, chain', hchain, hchain', ?_, fun blockHeight => ?_, ?_⟩
  · rcases Nat.eq_zero_or_pos count with rfl | hpos
    · rw [(h.sound.tracked.chain _ _ hchain).cursor, (h'.sound.tracked.chain _ _ hchain').cursor,
        eq_nil_of_length_eq_zero h.moves, eq_nil_of_length_eq_zero h'.moves]
    · have hlt : count - 1 < series.blocks.length := by omega
      obtain ⟨batch, plan, hp⟩ := series.exists_plannedAs (getElem_mem hlt)
      rw [h.place_eq hpos hcount hp hchain, h'.place_eq hpos hcount hp hchain']
  · rw [hplans blockHeight, hplans' blockHeight]
  · rw [h.publishedIds_eq, h'.publishedIds_eq]

end BlockSeries

end AlphaDesk
