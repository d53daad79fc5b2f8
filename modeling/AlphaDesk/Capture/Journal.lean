import AlphaDesk.Capture.Coordinator

/-! # The journal and the calls

What holds of the journal and the calls made so far, whatever the ports answered:
acknowledgements are for planned and published messages, the cursor has moved height
by height over complete blocks, and nothing is published again behind its
acknowledgement. Each change of the journal keeps it.
-/

namespace AlphaDesk

open Std.ExtTreeMap List

namespace InMemoryProgressStore

variable {plan : ArchivedBlockPlan} {block : BlockState}

/-- Plans and acknowledgements stay as they are, and the cursor moves on. -/
structure ChainGrows (old new : ChainState) : Prop where
  first : new.firstBlockHeight = old.firstBlockHeight
  blocks : ∀ (blockHeight : BlockHeight) (block : BlockState),
    old.blocks[blockHeight]? = some block → ∃ later, new.blocks[blockHeight]? = some later ∧
      later.plan = block.plan ∧
      ∀ (ordinal : UInt32) (ack : PublicationAcknowledgement),
        block.acknowledgements[ordinal]? = some ack → later.acknowledgements[ordinal]? = some ack
  cursor : ∀ cursor, old.cursor = some cursor → ∃ later, new.cursor = some later ∧
    cursor.committedBlockHeight.toNat ≤ later.committedBlockHeight.toNat

def Grows (old new : InMemoryProgressStore) : Prop :=
  ∀ (chainId : ChainId) (chain : ChainState), old.chains[chainId]? = some chain →
    ∃ later, new.chains[chainId]? = some later ∧ ChainGrows chain later

theorem ChainGrows.refl (chain : ChainState) : ChainGrows chain chain where
  first := rfl
  blocks _ block hblock := ⟨block, hblock, rfl, fun _ _ hack => hack⟩
  cursor cursor hcursor := ⟨cursor, hcursor, le_rfl⟩

variable {store : InMemoryProgressStore} {chainId : ChainId} {blockHeight : BlockHeight}
  {chain : ChainState}

theorem Grows.putChain {chain' : ChainState} (hchain : store.chains[chainId]? = some chain)
    (h : ChainGrows chain chain') : Grows store (store.putChain chainId chain') := by
  intro other old hold
  rw [chains_putChain]
  split
  next heq =>
    obtain rfl := Option.some.inj (hchain.symm.trans (heq ▸ hold))
    exact ⟨chain', rfl, h⟩
  next => exact ⟨old, hold, .refl old⟩

theorem chainGrows_addPlan (hnone : chain.blocks[plan.blockHeight]? = none) :
    ChainGrows chain (chain.addPlan plan) where
  first := rfl
  blocks _ block hblock :=
    ⟨block, getElem?_insert_of_absent hnone hblock, rfl, fun _ _ hack => hack⟩
  cursor cursor hcursor := ⟨cursor, hcursor, le_rfl⟩

theorem chainGrows_addAcknowledgement {ack : PublicationAcknowledgement}
    (hblock : chain.blocks[blockHeight]? = some block)
    (hnone : block.acknowledgements[ack.ordinal]? = none) :
    ChainGrows chain (chain.addAcknowledgement blockHeight block ack) where
  first := rfl
  blocks other old hold := by
    rw [ChainState.addAcknowledgement, getElem?_insert_eq_ite]
    split
    next heq =>
      obtain rfl := Option.some.inj (hblock.symm.trans (heq ▸ hold))
      exact ⟨_, rfl, rfl, fun _ _ hack => getElem?_insert_of_absent hnone hack⟩
    next => exact ⟨old, hold, rfl, fun _ _ hack => hack⟩
  cursor cursor hcursor := ⟨cursor, hcursor, le_rfl⟩

theorem chainGrows_cursor {cursor : CaptureCursor}
    (hnext : chain.nextHeight = .ok cursor.committedBlockHeight) :
    ChainGrows chain { chain with cursor := some cursor } where
  first := rfl
  blocks _ block hblock := ⟨block, hblock, rfl, fun _ _ hack => hack⟩
  cursor _ hold := ⟨cursor, rfl, (ChainState.lt_of_nextHeight hnext hold).le⟩

section Acknowledgements

def AllAcks (P : UInt32 → PublicationAcknowledgement → Prop) (store : InMemoryProgressStore) :
    Prop :=
  ∀ (chainId : ChainId) (chain : ChainState) (blockHeight : BlockHeight) (block : BlockState)
    (ordinal : UInt32) (ack : PublicationAcknowledgement), store.chains[chainId]? = some chain →
    chain.blocks[blockHeight]? = some block → block.acknowledgements[ordinal]? = some ack →
    P ordinal ack

variable {P : UInt32 → PublicationAcknowledgement → Prop} (h : AllAcks P store)
include h

theorem AllAcks.putChain
    (hnew : ∀ (blockHeight : BlockHeight) (block : BlockState),
      chain.blocks[blockHeight]? = some block → ∀ (ordinal : UInt32)
      (ack : PublicationAcknowledgement), block.acknowledgements[ordinal]? = some ack →
      P ordinal ack) : AllAcks P (store.putChain chainId chain) := by
  intro other found blockHeight block ordinal ack hfound hblock
  rw [chains_putChain] at hfound
  split at hfound
  next =>
    obtain rfl := Option.some.inj hfound
    exact hnew blockHeight block hblock ordinal ack
  next => exact h other found blockHeight block ordinal ack hfound hblock

variable (hchain : store.chains[chainId]? = some chain)
include hchain

theorem AllAcks.addPlan : AllAcks P (store.putChain chainId (chain.addPlan plan)) :=
  h.putChain (forall_insert
    (fun _ _ hblock _ _ hack => h _ _ _ _ _ _ hchain hblock hack) fun _ _ hack => by simp at hack)

theorem AllAcks.addAcknowledgement {blockHeight : BlockHeight} {ack : PublicationAcknowledgement}
    (hblock : chain.blocks[blockHeight]? = some block) (hack : P ack.ordinal ack) :
    AllAcks P (store.putChain chainId (chain.addAcknowledgement blockHeight block ack)) :=
  h.putChain (forall_insert
    (fun _ _ hfound _ _ hack => h _ _ _ _ _ _ hchain hfound hack)
    (forall_insert (fun _ _ hack => h _ _ _ _ _ _ hchain hblock hack) hack))

theorem AllAcks.cursor {cursor : Option CaptureCursor} :
    AllAcks P (store.putChain chainId { chain with cursor := cursor }) :=
  h.putChain fun _ _ hblock _ _ hack => h _ _ _ _ _ _ hchain hblock hack

end Acknowledgements

end InMemoryProgressStore

namespace Coordinator

open InMemoryProgressStore

/-- The cursors that a chain's cursor was set to, in order. -/
def movesOf (chainId : ChainId) (calls : List CaptureCall) : List CaptureCursor :=
  calls.filterMap fun call =>
    match call with
    | .advanced cursor => if cursor.chainId = chainId then some cursor else none
    | _ => none

/-- A message with the identity, the subject and the hash of the acknowledgement was published
for its place. -/
def PublishedFor (calls : List CaptureCall) (chainId : ChainId) (blockHeight : BlockHeight)
    (ordinal : UInt32) (ack : PublicationAcknowledgement) : Prop :=
  ∃ message reply, .published chainId blockHeight ordinal message (.ok reply) ∈ calls ∧
    message.messageId = ack.messageId ∧ message.subject.asStr = ack.subject ∧
    message.publicationSha256 = ack.publicationSha256

/-- The plan of a block is for its place, and what is acknowledged was planned and published. -/
structure BlockTracked (chainId : ChainId) (blockHeight : BlockHeight) (block : BlockState)
    (calls : List CaptureCall) : Prop where
  chainId_eq : block.plan.chainId = chainId
  blockHeight_eq : block.plan.blockHeight = blockHeight
  planned : ∀ (ordinal : UInt32) (ack : PublicationAcknowledgement),
    block.acknowledgements[ordinal]? = some ack →
    ∃ planned, block.plan.publications[ordinal.toNat]? = some planned ∧
      ackMatchesPublication ack planned
  published : ∀ (ordinal : UInt32) (ack : PublicationAcknowledgement),
    block.acknowledgements[ordinal]? = some ack →
    PublishedFor calls chainId blockHeight ordinal ack

/-- The block of the cursor is complete, and the cursor is for its plan. -/
structure Passed (chain : ChainState) (cursor : CaptureCursor) (block : BlockState) : Prop where
  found : chain.blocks[cursor.committedBlockHeight]? = some block
  complete : block.IsComplete
  canonicalBlockHash : cursor.canonicalBlockHash = block.plan.canonicalBlockHash
  archiveReceiptId : cursor.archiveReceiptId = block.plan.archiveReceiptId
  archiveManifestSha256 : cursor.archiveManifestSha256 = block.plan.archiveManifestSha256

/-- The journal of a chain that starts at `first` agrees with the calls. -/
structure ChainTracked (first : BlockHeight) (chainId : ChainId) (chain : ChainState)
    (calls : List CaptureCall) : Prop where
  first_eq : chain.firstBlockHeight = first
  blocks : ∀ (blockHeight : BlockHeight) (block : BlockState),
    chain.blocks[blockHeight]? = some block → BlockTracked chainId blockHeight block calls
  cursor : chain.cursor = (movesOf chainId calls).getLast?
  heights : (movesOf chainId calls).map (·.committedBlockHeight.toNat) =
    range' first.toNat (movesOf chainId calls).length
  versions : (movesOf chainId calls).map (·.cursorVersion.toNat) =
    range' 1 (movesOf chainId calls).length
  passed : ∀ cursor ∈ movesOf chainId calls, ∃ block, Passed chain cursor block

/-- The journal of chains that start at the given heights agrees with the calls. -/
structure Tracked (firsts : ChainId → BlockHeight) (progress : InMemoryProgressStore)
    (calls : List CaptureCall) : Prop where
  chain : ∀ (chainId : ChainId) (chain : ChainState), progress.chains[chainId]? = some chain →
    ChainTracked (firsts chainId) chainId chain calls
  absent : ∀ chainId : ChainId, progress.chains[chainId]? = none → movesOf chainId calls = []

def Recorded (progress : InMemoryProgressStore) (plan : ArchivedBlockPlan) : Prop :=
  ∃ chain block, progress.chains[plan.chainId]? = some chain ∧
    chain.blocks[plan.blockHeight]? = some block ∧ block.plan = plan

def Acked (progress : InMemoryProgressStore) (chainId : ChainId) (blockHeight : BlockHeight)
    (ordinal : UInt32) : Prop :=
  ∃ chain block, progress.chains[chainId]? = some chain ∧
    chain.blocks[blockHeight]? = some block ∧ ordinal ∈ block.acknowledgements

/-- The later call publishes what the earlier has acknowledged. -/
def Repeats (earlier later : CaptureCall) : Prop :=
  ∃ chainId blockHeight ack message reply,
    earlier = .acknowledged chainId blockHeight ack ∧
      later = .published chainId blockHeight ack.ordinal message reply

/-- Nothing was published again behind its acknowledgement, and the acknowledgements are
still there. -/
structure Unrepeated (progress : InMemoryProgressStore) (calls : List CaptureCall) : Prop where
  acked : ∀ chainId blockHeight ack, .acknowledged chainId blockHeight ack ∈ calls →
    Acked progress chainId blockHeight ack.ordinal
  pairwise : calls.Pairwise fun earlier later => ¬Repeats earlier later

/-- The invariant of the calls that work on the given plans. -/
structure Sound (firsts : ChainId → BlockHeight) (plans : List ArchivedBlockPlan)
    (progress : InMemoryProgressStore) (calls : List CaptureCall) : Prop where
  tracked : Tracked firsts progress calls
  unrepeated : Unrepeated progress calls
  recorded : ∀ plan ∈ plans, Recorded progress plan

variable {blockHeight : BlockHeight} {block : BlockState}
  {progress progress' : InMemoryProgressStore} {plan : ArchivedBlockPlan} {ordinal : UInt32}
  {ack : PublicationAcknowledgement} {calls : List CaptureCall}

theorem Recorded.mono (h : Recorded progress plan) (hgrows : progress.Grows progress') :
    Recorded progress' plan := by
  obtain ⟨chain, block, hchain, hblock, hplan⟩ := h
  obtain ⟨later, hlater, hg⟩ := hgrows _ _ hchain
  obtain ⟨block', hblock', hplan', -⟩ := hg.blocks _ _ hblock
  exact ⟨later, block', hlater, hblock', hplan'.trans hplan⟩

theorem Acked.mono {chainId : ChainId} (h : Acked progress chainId blockHeight ordinal)
    (hgrows : progress.Grows progress') : Acked progress' chainId blockHeight ordinal := by
  obtain ⟨chain, block, hchain, hblock, hmem⟩ := h
  obtain ⟨later, hlater, hg⟩ := hgrows _ _ hchain
  obtain ⟨block', hblock', -, hacks⟩ := hg.blocks _ _ hblock
  refine ⟨later, block', hlater, hblock', ?_⟩
  obtain ⟨ack, hack⟩ := mem_iff_getElem?.mp hmem
  exact mem_iff_getElem?.mpr ⟨ack, hacks _ _ hack⟩

theorem Unrepeated.mono (h : Unrepeated progress calls) (hgrows : progress.Grows progress') :
    Unrepeated progress' calls :=
  ⟨fun _ _ _ hmem => (h.acked _ _ _ hmem).mono hgrows, h.pairwise⟩

variable {firsts : ChainId → BlockHeight} {first : BlockHeight} {chainId : ChainId}
  {chain : ChainState} {calls' : List CaptureCall} {n : UInt64}

theorem movesOf_append (chainId : ChainId) (calls more : List CaptureCall) :
    movesOf chainId (calls ++ more) = movesOf chainId calls ++ movesOf chainId more :=
  filterMap_append

theorem PublishedFor.mono (h : PublishedFor calls chainId blockHeight ordinal ack)
    (hsub : calls ⊆ calls') : PublishedFor calls' chainId blockHeight ordinal ack := by
  obtain ⟨message, reply, hmem, hids⟩ := h
  exact ⟨message, reply, hsub hmem, hids⟩

theorem BlockTracked.mono (h : BlockTracked chainId blockHeight block calls)
    (hsub : calls ⊆ calls') : BlockTracked chainId blockHeight block calls' :=
  ⟨h.chainId_eq, h.blockHeight_eq, h.planned, fun ordinal ack hack =>
    (h.published ordinal ack hack).mono hsub⟩

theorem ChainTracked.mono (h : ChainTracked first chainId chain calls) (hsub : calls ⊆ calls')
    (hmoves : movesOf chainId calls' = movesOf chainId calls) :
    ChainTracked first chainId chain calls' where
  first_eq := h.first_eq
  blocks blockHeight block hblock := (h.blocks blockHeight block hblock).mono hsub
  cursor := hmoves ▸ h.cursor
  heights := hmoves ▸ h.heights
  versions := hmoves ▸ h.versions
  passed := hmoves ▸ h.passed

theorem Tracked.mono (h : Tracked firsts progress calls) (hsub : calls ⊆ calls')
    (hmoves : ∀ chainId, movesOf chainId calls' = movesOf chainId calls) :
    Tracked firsts progress calls' where
  chain chainId chain hchain := (h.chain chainId chain hchain).mono hsub (hmoves chainId)
  absent chainId hnone := (hmoves chainId).trans (h.absent chainId hnone)

theorem Tracked.putChain (h : Tracked firsts progress calls) (hsub : calls ⊆ calls')
    (hmoves : ∀ other ≠ chainId, movesOf other calls' = movesOf other calls)
    (hnew : ChainTracked (firsts chainId) chainId chain calls') :
    Tracked firsts (progress.putChain chainId chain) calls' where
  chain other found hfound := by
    rw [chains_putChain] at hfound
    split at hfound
    next heq =>
      obtain rfl := heq
      obtain rfl := Option.some.inj hfound
      exact hnew
    next hne => exact (h.chain other found hfound).mono hsub (hmoves other hne)
  absent other hnone := by
    rw [chains_putChain] at hnone
    split at hnone
    next => cases hnone
    next hne => exact (hmoves other hne).trans (h.absent other hnone)

theorem BlockTracked.lt_of_mem (h : BlockTracked chainId blockHeight block calls)
    (hmem : ordinal ∈ block.acknowledgements) : ordinal.toNat < block.plan.publications.length := by
  obtain ⟨ack, hack⟩ :=
    mem_iff_getElem?.mp hmem
  obtain ⟨planned, hplanned, -⟩ := h.planned ordinal ack hack
  exact (List.getElem?_eq_some_iff.mp hplanned).1

theorem BlockTracked.acknowledged (h : BlockTracked chainId blockHeight block calls)
    (hc : block.IsComplete) (hlt : ordinal.toNat < block.plan.publications.length) :
    ∃ ack, block.acknowledgements[ordinal]? = some ack := by
  have hmem : ordinal ∈ block.acknowledgements := by
    exact mem_of_size_eq (f := UInt32.toNat) (fun _ _ => UInt32.toNat.inj)
      (fun _ => h.lt_of_mem) hc hlt
  exact mem_iff_getElem?.mp hmem

theorem BlockTracked.ordinal_eq (h : BlockTracked chainId blockHeight block calls)
    (hack : block.acknowledgements[ordinal]? = some ack) : ack.ordinal = ordinal := by
  obtain ⟨planned, hplanned, hmatch⟩ := h.planned ordinal ack hack
  obtain ⟨hlt, rfl⟩ := List.getElem?_eq_some_iff.mp hplanned
  exact UInt32.toNat.inj ((congrArg _ hmatch.1).trans (block.plan.ordinal_getElem hlt))

/-- A chain's blocks may grow where its cursor has not passed. -/
theorem ChainTracked.insert (h : ChainTracked first chainId chain calls)
    (hnew : BlockTracked chainId blockHeight block calls)
    (hpassed : ∀ old, chain.blocks[blockHeight]? = some old → old.IsComplete → False) :
    ChainTracked first chainId { chain with blocks := chain.blocks.insert blockHeight block }
      calls where
  first_eq := h.first_eq
  blocks := forall_insert h.blocks hnew
  cursor := h.cursor
  heights := h.heights
  versions := h.versions
  passed cursor hcursor := by
    obtain ⟨old, hold⟩ := h.passed cursor hcursor
    refine ⟨old, ⟨?_, hold.complete, hold.canonicalBlockHash, hold.archiveReceiptId,
      hold.archiveManifestSha256⟩⟩
    have hne : cursor.committedBlockHeight ≠ blockHeight := by
      rintro heq
      exact hpassed old (heq ▸ hold.found) hold.complete
    rw [getElem?_insert_eq_ite, if_neg hne]
    exact hold.found

theorem movesOf_advanced (other : ChainId) (cursor : CaptureCursor) :
    movesOf other [.advanced cursor] = if cursor.chainId = other then [cursor] else [] := by
  by_cases h : cursor.chainId = other <;> simp [movesOf, h]

theorem last_of_map_eq_range' {α : Type} {l : List α} {f : α → ℕ} {start : ℕ}
    (h : l.map f = range' start l.length) {x : α} (hx : l.getLast? = some x) :
    f x + 1 = start + l.length := by
  obtain ⟨ys, rfl⟩ := getLast?_eq_some_iff.mp hx
  rw [map_append, length_append, length_singleton, range'_1_concat] at h
  obtain ⟨-, hlast⟩ := append_inj' h rfl
  rw [length_append, length_singleton, singleton_inj.mp hlast]
  omega

theorem toNat_succ (h : n.toNat + 1 < 2 ^ 64) : (n + 1).toNat = n.toNat + 1 := by
  exact Nat.mod_eq_of_lt h

theorem succ_eq_iff {m : UInt64} {value : ℕ} (hn : n.toNat + 1 = value) {ε : Type} {e : ε} :
    (if n.toNat + 1 < 2 ^ 64 then Except.ok (n + 1) else .error e) = .ok m ↔
      m.toNat = value := by
  split
  next hlt =>
    rw [Except.ok.injEq, ← UInt64.toNat_inj, toNat_succ hlt, hn]
    exact eq_comm
  next hge =>
    have hm := m.toNat_lt
    exact ⟨nofun, fun heq => absurd heq (by omega)⟩

theorem ChainTracked.nextHeight_iff (h : ChainTracked first chainId chain calls) :
    chain.nextHeight = .ok blockHeight ↔
      blockHeight.toNat = first.toNat + (movesOf chainId calls).length := by
  have hcursor := h.cursor
  unfold ChainState.nextHeight
  split
  next cursor hsome =>
    exact succ_eq_iff (last_of_map_eq_range' h.heights (hcursor.symm.trans hsome))
  next hnone =>
    rw [getLast?_eq_none_iff.mp (hcursor.symm.trans hnone), length_nil, Nat.add_zero,
      Except.ok.injEq, ← UInt64.toNat_inj, h.first_eq]
    exact eq_comm

theorem ChainTracked.nextVersion_iff {version : UInt64}
    (h : ChainTracked first chainId chain calls) :
    chain.nextVersion = .ok version ↔ version.toNat = 1 + (movesOf chainId calls).length := by
  have hcursor := h.cursor
  unfold ChainState.nextVersion
  split
  next cursor hsome =>
    exact succ_eq_iff (last_of_map_eq_range' h.versions (hcursor.symm.trans hsome))
  next hnone =>
    rw [getLast?_eq_none_iff.mp (hcursor.symm.trans hnone), length_nil, Nat.add_zero,
      Except.ok.injEq, ← UInt64.toNat_inj]
    exact eq_comm

theorem Tracked.recorded (h : Tracked firsts progress calls)
    (hchain : progress.chains[chainId]? = some chain)
    (hblock : chain.blocks[blockHeight]? = some block) : Recorded progress block.plan := by
  obtain ⟨hid, hheight, -, -⟩ := (h.chain _ _ hchain).blocks _ _ hblock
  exact ⟨chain, block, by rw [hid]; exact hchain, by rw [hheight]; exact hblock, rfl⟩

theorem Tracked.pendingBlocks (h : Tracked firsts progress calls) {limit : ℕ}
    {pending : List ArchivedBlockPlan}
    (hpending : progress.pendingBlocks chainId limit = .ok pending) :
    ∀ plan ∈ pending, Recorded progress plan := by
  obtain ⟨-, hpending⟩ := Except.of_check hpending
  obtain ⟨chain, hchain, hpending⟩ := Except.of_bind hpending
  obtain rfl := Except.ok.inj hpending
  intro plan hplan
  obtain ⟨entry, hentry, rfl⟩ := mem_map.mp hplan
  have hmem := mem_of_mem_filter (mem_of_mem_take hentry)
  exact h.recorded (chain_eq_ok.mp hchain)
    (mem_toList_iff_getElem?_eq_some.mp hmem)

variable {plans : List ArchivedBlockPlan} {call : CaptureCall}

theorem Unrepeated.concat (h : Unrepeated progress calls)
    (hacked : ∀ chainId blockHeight ack, call = .acknowledged chainId blockHeight ack →
      Acked progress chainId blockHeight ack.ordinal)
    (hfresh : ∀ earlier ∈ calls, ¬Repeats earlier call) :
    Unrepeated progress (calls ++ [call]) := by
  constructor
  · intro chainId blockHeight ack hmem
    rcases mem_append.mp hmem with hmem | hmem
    · exact h.acked _ _ _ hmem
    · exact hacked _ _ _ (mem_singleton.mp hmem).symm
  · refine pairwise_append.mpr ⟨h.pairwise, pairwise_singleton _ _, ?_⟩
    intro earlier hearlier later hlater
    obtain rfl := mem_singleton.mp hlater
    exact hfresh earlier hearlier

theorem Tracked.concat (h : Tracked firsts progress calls)
    (hmoves : ∀ chainId, movesOf chainId [call] = []) :
    Tracked firsts progress (calls ++ [call]) := by
  refine h.mono (subset_append_left ..) fun chainId => ?_
  rw [movesOf_append, hmoves, append_nil]

/-- What is not acknowledged may be published. -/
theorem Sound.publish (h : Sound firsts plans progress calls) {ordinal : UInt32}
    (hopen : ¬Acked progress chainId blockHeight ordinal) (message : PublicationMessage)
    (reply : Except PublicationError PublicationAck) :
    Sound firsts plans progress
      (calls ++ [.published chainId blockHeight ordinal message reply]) := by
  refine ⟨h.tracked.concat fun _ => rfl, h.unrepeated.concat nofun ?_, h.recorded⟩
  rintro earlier hearlier ⟨_, _, ack, _, _, rfl, heq⟩
  obtain ⟨rfl, rfl, rfl, -, -⟩ := CaptureCall.published.inj heq
  exact hopen (h.unrepeated.acked _ _ _ hearlier)

theorem Sound.recordArchived {d : ProgressRecordDisposition}
    (h : Sound firsts plans progress calls)
    (hstep : progress.recordArchived plan = .ok (d, progress')) :
    Sound firsts (plan :: plans) progress' calls := by
  obtain ⟨chain, hchain, hcase⟩ := recordArchived_eq_ok hstep
  rcases hcase with ⟨rfl, block, hblock, hplan⟩ | ⟨hnone, -, rfl⟩
  · exact ⟨h.tracked, h.unrepeated,
      forall_mem_cons.mpr ⟨⟨chain, block, hchain, hblock, hplan⟩, h.recorded⟩⟩
  · have hgrows := Grows.putChain hchain
      (chainGrows_addPlan hnone)
    have hblock : (chain.addPlan plan).blocks[plan.blockHeight]? = some ⟨plan, ∅⟩ := by
      rw [ChainState.addPlan, getElem?_insert_eq_ite, if_pos rfl]
    have hnew : ChainTracked (firsts plan.chainId) plan.chainId (chain.addPlan plan) calls := by
      refine (h.tracked.chain _ _ hchain).insert ⟨rfl, rfl, ?_, ?_⟩ ?_
      · intro ordinal ack hack
        simp at hack
      · intro ordinal ack hack
        simp at hack
      · intro old hold
        rw [hnone] at hold
        cases hold
    -- the count of blocks plays no part in the invariant
    obtain ⟨htracked, habsent⟩ := h.tracked.putChain (List.Subset.refl _) (fun _ _ => rfl) hnew
    obtain ⟨hacked, hpairwise⟩ := h.unrepeated.mono hgrows
    refine ⟨⟨htracked, habsent⟩, ⟨hacked, hpairwise⟩, ?_⟩
    intro p hp
    rcases mem_cons.mp hp with rfl | hp
    · exact ⟨_, _, by rw [chains_putChain, if_pos rfl], hblock, rfl⟩
    · exact (h.recorded p hp).mono hgrows

section Acknowledging

variable {d : ProgressRecordDisposition}
  (hstep : progress.recordAcknowledgement chainId blockHeight ack = .ok (d, progress'))
include hstep

theorem acked_recordAcknowledgement {ordinal : UInt32} :
    Acked progress' chainId blockHeight ordinal ↔
      Acked progress chainId blockHeight ordinal ∨ ordinal = ack.ordinal := by
  obtain ⟨chain, block, -, hchain, hblock, -, -, hcase⟩ :=
    recordAcknowledgement_eq_ok hstep
  rcases hcase with ⟨rfl, hsome⟩ | ⟨hnone, rfl⟩
  · have hmem : ack.ordinal ∈ block.acknowledgements :=
      mem_iff_getElem?.mpr ⟨ack, hsome⟩
    refine ⟨.inl, ?_⟩
    rintro (hacked | rfl)
    · exact hacked
    · exact ⟨chain, block, hchain, hblock, hmem⟩
  · have hnew : (chain.addAcknowledgement blockHeight block ack).blocks[blockHeight]? =
        some ⟨block.plan, block.acknowledgements.insert ack.ordinal ack⟩ := by
      rw [ChainState.addAcknowledgement, getElem?_insert_eq_ite, if_pos rfl]
    constructor
    · rintro ⟨chain', block', hchain', hblock', hmem⟩
      rw [chains_putChain, if_pos rfl] at hchain'
      obtain rfl := Option.some.inj hchain'
      obtain rfl := Option.mem_unique hnew hblock'
      rcases mem_insert.mp hmem with heq | hmem
      · exact .inr (Std.LawfulEqCmp.eq_of_compare heq).symm
      · exact .inl ⟨chain, block, hchain, hblock, hmem⟩
    · rintro (hacked | rfl)
      · exact hacked.mono (.putChain hchain (chainGrows_addAcknowledgement hblock hnone))
      · exact ⟨_, _, by rw [chains_putChain, if_pos rfl], hnew,
          mem_insert_self⟩

theorem Sound.recordAcknowledgement (h : Sound firsts plans progress calls)
    (hpub : PublishedFor calls chainId blockHeight ack.ordinal ack) :
    Sound firsts plans progress' (calls ++ [.acknowledged chainId blockHeight ack]) := by
  have hconcat : ∀ {progress : InMemoryProgressStore}, Unrepeated progress calls →
      Acked progress chainId blockHeight ack.ordinal →
      Unrepeated progress (calls ++ [.acknowledged chainId blockHeight ack]) := by
    intro progress hunrepeated hacked
    refine hunrepeated.concat ?_ ?_
    · rintro _ _ _ heq
      obtain ⟨rfl, rfl, rfl⟩ := CaptureCall.acknowledged.inj heq
      exact hacked
    · rintro earlier - ⟨_, _, _, _, _, -, heq⟩
      cases heq
  have hacked := (acked_recordAcknowledgement hstep).mpr (.inr rfl)
  obtain ⟨chain, block, publication, hchain, hblock, hplanned, hmatch, hcase⟩ :=
    recordAcknowledgement_eq_ok hstep
  rcases hcase with ⟨rfl, -⟩ | ⟨hnone, rfl⟩
  · exact ⟨h.tracked.concat fun _ => rfl, hconcat h.unrepeated hacked, h.recorded⟩
  · have hgrows := Grows.putChain hchain
      (chainGrows_addAcknowledgement hblock hnone)
    have hold := (h.tracked.chain _ _ hchain).blocks _ _ hblock
    have hnew : BlockTracked chainId blockHeight
        ⟨block.plan, block.acknowledgements.insert ack.ordinal ack⟩ calls := by
      refine ⟨hold.chainId_eq, hold.blockHeight_eq, ?_, ?_⟩
      · exact forall_insert hold.planned ⟨publication, hplanned, hmatch⟩
      · exact forall_insert hold.published hpub
    have hchain' : ChainTracked (firsts chainId) chainId
        (chain.addAcknowledgement blockHeight block ack) calls := by
      refine (h.tracked.chain _ _ hchain).insert hnew ?_
      -- a complete block has no room for another ordinal
      intro old hfound hcomplete
      obtain rfl := Option.mem_unique hblock hfound
      obtain ⟨hlt, -⟩ := List.getElem?_eq_some_iff.mp hplanned
      obtain ⟨found, hfound⟩ := hold.acknowledged hcomplete hlt
      rw [hnone] at hfound
      cases hfound
    have htracked := h.tracked.putChain (List.Subset.refl _) (fun _ _ => rfl) hchain'
    exact ⟨htracked.concat fun _ => rfl, hconcat (h.unrepeated.mono hgrows) hacked,
      fun p hp => (h.recorded p hp).mono hgrows⟩

end Acknowledging

theorem loadCursor_of_chain (hchain : progress.chains[chainId]? = some chain) :
    progress.loadCursor chainId = .ok chain.cursor := by
  unfold loadCursor
  rw [chain_eq_ok.mpr hchain]
  rfl

theorem moved_of_nextHeight {cursor : CaptureCursor}
    (hchain : progress.chains[chainId]? = some chain) (hnext : chain.nextHeight = .ok blockHeight)
    (hheight : cursor.committedBlockHeight = blockHeight) :
    moved chainId cursor progress = [.advanced cursor] := by
  rw [moved, loadCursor_of_chain hchain, if_neg]
  intro heq
  exact ChainState.ne_of_nextHeight hnext (Except.ok.inj heq) hheight

theorem Sound.advanceCursor {cursor : CaptureCursor} (h : Sound firsts plans progress calls)
    (hstep : progress.advanceCursor chainId blockHeight = .ok (cursor, progress')) :
    Sound firsts plans progress' (calls ++ moved chainId cursor progress) := by
  obtain ⟨chain, hchain, hheight, hcase⟩ := advanceCursor_eq_ok hstep
  have htracked := h.tracked.chain _ _ hchain
  rcases hcase with ⟨rfl, hcursor⟩ |
    ⟨hnext, hversion, block, hblock, hcomplete, hid, hhash, hreceipt, hmanifest, rfl⟩
  · rw [moved, loadCursor_of_chain hchain, hcursor, if_pos rfl, append_nil]
    exact h
  · have hlength := htracked.nextHeight_iff.mp hnext
    have hmoves : movesOf chainId (calls ++ [.advanced cursor]) =
        movesOf chainId calls ++ [cursor] := by
      rw [movesOf_append, movesOf_advanced, if_pos hid]
    rw [moved_of_nextHeight hchain hnext hheight]
    have hnew : ChainTracked (firsts chainId) chainId { chain with cursor := some cursor }
        (calls ++ [.advanced cursor]) := by
      refine ⟨htracked.first_eq, ?_, ?_, ?_, ?_, ?_⟩
      · intro other found hfound
        exact (htracked.blocks other found hfound).mono (subset_append_left ..)
      · rw [hmoves, getLast?_concat]
      · rw [hmoves, map_append, htracked.heights, length_append, length_singleton,
          range'_1_concat, map_singleton, hheight, hlength]
      · rw [hmoves, map_append, htracked.versions, length_append, length_singleton,
          range'_1_concat, map_singleton, htracked.nextVersion_iff.mp hversion]
      · rw [hmoves]
        intro other hother
        rcases mem_append.mp hother with hother | hother
        · obtain ⟨old, hold⟩ := htracked.passed other hother
          exact ⟨old, hold.found, hold.complete, hold.canonicalBlockHash, hold.archiveReceiptId,
            hold.archiveManifestSha256⟩
        · obtain rfl := mem_singleton.mp hother
          exact ⟨block, by rw [hheight]; exact hblock, hcomplete, hhash, hreceipt, hmanifest⟩
    have hgrows := Grows.putChain hchain
      (chainGrows_cursor (hheight ▸ hnext))
    refine ⟨h.tracked.putChain (subset_append_left ..) ?_ hnew,
      (h.unrepeated.mono hgrows).concat nofun ?_, fun p hp => (h.recorded p hp).mono hgrows⟩
    · intro other hother
      rw [movesOf_append, movesOf_advanced, if_neg fun heq => hother (heq.symm.trans hid),
        append_nil]
    · rintro earlier - ⟨_, _, _, _, _, -, heq⟩
      cases heq

end Coordinator

end AlphaDesk
