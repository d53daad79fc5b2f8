import AlphaDesk.Replay.Engine

/-! # Replay is a fold

Whatever the archive answers and whenever the replay is cancelled, the blocks it has
applied are the archived ones, one for each height from the start of the range on, and
the ledger is the initial one with these blocks applied. A completed replay has applied
the whole range.
-/

namespace AlphaDesk

open CanonicalLedger Effect Except List

variable {B : Blake3}

namespace SerialReplayEngine

variable {manifests : List ReplayManifestIdentity} {e : ReplayError} {height : BlockHeight}

variable {archive : CanonicalArchive B} {request : ReplayRequest} {l : CanonicalLedger}
  {identities : List ReplayManifestIdentity} {fail : String → ReplayError}
  {expectedStart : BlockHeight} {planned : UInt64}

theorem preflightFrom_eq_ok {planned' : UInt64} {identities' : List ReplayManifestIdentity}
    {manifests : List ManifestId}
    (hidentities : ∀ identity ∈ identities,
      identity.blockRange.endInclusive ≤ request.range.endInclusive)
    (h : preflightFrom archive request fail expectedStart planned identities manifests =
      .ok (planned', identities')) :
    identities'.map (·.manifestId) = identities.map (·.manifestId) ++ manifests ∧
      ∀ identity ∈ identities',
        identity.blockRange.endInclusive ≤ request.range.endInclusive := by
  induction manifests generalizing expectedStart planned identities with
  | nil =>
    obtain ⟨rfl, rfl⟩ := Prod.mk.inj (ok.inj h)
    exact ⟨(append_nil _).symm, hidentities⟩
  | cons manifestId rest ih =>
    obtain ⟨verified, -, h⟩ := of_bind h
    obtain ⟨_, hvalid, h⟩ := of_bind h
    simp only [validateManifest, mapError_eq_ok, ite_error_eq_ok, not_or, not_not,
      UInt64.not_lt] at hvalid
    obtain ⟨-, ⟨hid, -, hend⟩, -⟩ := hvalid
    obtain ⟨count, -, h⟩ := of_bind h
    obtain ⟨planned₁, -, h⟩ := of_bind h
    obtain ⟨start₁, -, h⟩ := of_bind h
    obtain ⟨hmap, hall⟩ := ih (by
      intro identity hmem
      rcases mem_append.mp hmem with hold | hnew
      · exact hidentities identity hold
      · rw [mem_singleton.mp hnew]
        exact hend) h
    refine ⟨?_, hall⟩
    rw [hmap, map_append, append_assoc, map_singleton, hid, singleton_append]

theorem preflightFrom_eq_error {manifests : List ManifestId}
    (h : preflightFrom archive request fail expectedStart planned identities manifests =
      .error e) : ∃ reason, fail reason = e := by
  induction manifests generalizing expectedStart planned identities with
  | nil => cases h
  | cons manifestId rest ih =>
    rcases bind_eq_error.mp h with h | ⟨verified, -, h⟩
    · obtain ⟨e', -, he⟩ := mapError_eq_error.mp h
      exact ⟨_, he⟩
    rcases bind_eq_error.mp h with h | ⟨_, -, h⟩
    · obtain ⟨reason, -, he⟩ := mapError_eq_error.mp h
      exact ⟨reason, he⟩
    rcases bind_eq_error.mp h with h | ⟨count, -, h⟩
    · exact ⟨_, (ofOption_eq_error.mp h).2⟩
    rcases bind_eq_error.mp h with h | ⟨planned₁, -, h⟩
    · exact ⟨_, (ofOption_eq_error.mp h).2⟩
    rcases bind_eq_error.mp h with h | ⟨start₁, -, h⟩
    · exact ⟨_, (ofOption_eq_error.mp h).2⟩
    exact ih h

theorem preflight_eq_error (h : preflight archive request l = .error e) :
    ∃ reason, .manifestPlan reason (emptyProgress l) = e := by
  rcases bind_eq_error.mp h with h | ⟨⟨planned, identities⟩, -, h⟩
  · exact preflightFrom_eq_error h
  · dsimp only at h
    split at h
    next => exact ⟨_, Except.error.inj h⟩
    next => cases h

variable {R : EventReducer} {cancellation : ℕ → Bool} {blocks : List (BlockEnvelope B)}
  {block : BlockEnvelope B} {s : ReplayRun} {manifest : ReplayManifestIdentity}
  {expected : BlockHeight} {item : Except ArchiveError (BlockEnvelope B)} {P : ReplayRun → Prop}

structure Replayed (R : EventReducer) (l : CanonicalLedger) (request : ReplayRequest)
    (blocks : List (BlockEnvelope B)) (s : ReplayRun) : Prop where
  applied : appliedBlocks R l blocks = blocks
  ledger : s.ledger = CanonicalLedger.run R l blocks
  count : s.applied.toNat = blocks.length
  last : s.lastHeight = blocks.getLast?.map (·.blockHeight)
  bounded : ∀ block ∈ blocks, block.blockHeight ≤ request.range.endInclusive

/-- A run that has stopped behind the blocks, with the progress until then in its error. -/
def StoppedBehind (R : EventReducer) (l : CanonicalLedger) (request : ReplayRequest)
    (blocks : List (BlockEnvelope B)) (stop : ReplayStop) (s : ReplayRun) : Prop :=
  Replayed R l request blocks s ∧
    ∀ e, stop = .failed e → e.progress = s.progress ∧ e.atStart = false

theorem failWith_triple {α : Type} {error : ReplayProgress → ReplayError} {Q : α → ReplayRun → Prop}
    (hP : ∀ s, P s → Replayed R l request blocks s)
    (herror : ∀ p, (error p).progress = p ∧ (error p).atStart = false) :
    Triple P (failWith error : Effect ReplayRun ReplayStop α) Q
      (StoppedBehind R l request blocks) := by
  intro s hs
  refine ⟨nofun, ?_⟩
  intro stop hstop
  obtain rfl := Except.error.inj hstop
  refine ⟨hP s hs, ?_⟩
  rintro e ⟨⟩
  exact herror s.progress

theorem pollCancellation_triple :
    Triple (Replayed R l request blocks) (pollCancellation cancellation)
      (fun _ => Replayed R l request blocks) (StoppedBehind R l request blocks) := by
  intro s hs
  have hs' : Replayed R l request blocks { s with polls := s.polls + 1 } :=
    ⟨hs.applied, hs.ledger, hs.count, hs.last, hs.bounded⟩
  refine ⟨fun _ _ => hs', ?_⟩
  intro stop hstop
  refine ⟨hs', ?_⟩
  rintro e rfl
  rw [pollCancellation, exec_mk] at hstop
  split at hstop <;> cases hstop

theorem blockOf_triple :
    Triple (Replayed R l request blocks) (blockOf item)
      (fun block s => item = .ok block ∧ Replayed R l request blocks s)
      (StoppedBehind R l request blocks) := by
  cases item with
  | ok block => exact Triple.pure fun s hs => ⟨rfl, hs⟩
  | error e => exact failWith_triple (fun _ h => h) fun _ => ⟨rfl, rfl⟩

theorem checkContent_triple :
    Triple (Replayed R l request blocks) (checkContent request manifest expected block)
      (fun _ s => block.blockHeight ≤ manifest.blockRange.endInclusive ∧
        Replayed R l request blocks s)
      (StoppedBehind R l request blocks) := by
  unfold checkContent
  split
  next => exact failWith_triple (fun _ h => h) fun _ => ⟨rfl, rfl⟩
  next hcontent =>
    simp only [not_or, not_not, UInt64.not_lt] at hcontent
    exact Triple.pure fun s hs => ⟨hcontent.2.2, hs⟩

theorem expectedAfter_triple {E : ReplayStop → ReplayRun → Prop}
    (hend : height ≤ manifest.blockRange.endInclusive) :
    Triple P (expectedAfter manifest height) (fun _ => P) E := by
  unfold expectedAfter
  split
  next => exact Triple.pure fun _ h => h
  next hne =>
    have hlt : height.toNat + 1 < UInt64.size := by
      have hle := UInt64.le_iff_toNat_le.mp hend
      have hne' : height.toNat ≠ manifest.blockRange.endInclusive.toNat :=
        fun h => hne (UInt64.toNat_inj.mp h)
      have hmax := manifest.blockRange.endInclusive.toNat_lt
      simp only [UInt64.size]
      omega
    rw [nextHeight, if_pos hlt]
    exact Triple.pure fun _ h => h

theorem readBlocks_triple {manifestId : ManifestId} :
    Triple (Replayed R l request blocks) (readBlocks archive manifestId)
      (fun items s => archive.readManifestBlocks manifestId = .ok items ∧
        Replayed R l request blocks s)
      (StoppedBehind R l request blocks) := by
  unfold readBlocks
  split
  next items hitems => exact Triple.pure fun s hs => ⟨hitems, hs⟩
  next => exact failWith_triple (fun _ h => h) fun _ => ⟨rfl, rfl⟩

theorem checkEnd_triple :
    Triple (Replayed R l request blocks) (checkEnd manifest expected)
      (fun _ s => s.lastHeight = some manifest.blockRange.endInclusive ∧
        Replayed R l request blocks s)
      (StoppedBehind R l request blocks) := by
  intro s hs
  rw [checkEnd, exec_mk]
  split
  next =>
    refine ⟨nofun, ?_⟩
    rintro stop ⟨⟩
    refine ⟨hs, ?_⟩
    rintro e ⟨⟩
    exact ⟨rfl, rfl⟩
  next hlast =>
    simp only [not_or, not_not] at hlast
    exact ⟨fun _ _ => ⟨hlast.1, hs⟩, nofun⟩

/-- The blocks applied are the archived ones of the manifests, up to the end of the last. -/
def ReplayedThrough (R : EventReducer) (l : CanonicalLedger) (archive : CanonicalArchive B)
    (request : ReplayRequest) (manifests : List ReplayManifestIdentity) (s : ReplayRun) : Prop :=
  ∃ blocks, blocks.map .ok = archive.items (manifests.map (·.manifestId)) ∧
    Replayed R l request blocks s ∧
    ∀ manifest ∈ manifests.getLast?, s.lastHeight = some manifest.blockRange.endInclusive

theorem items_append (archive : CanonicalArchive B) (before after : List ManifestId) :
    archive.items (before ++ after) = archive.items before ++ archive.items after :=
  flatMap_append

section Range

variable (hfirst : l.nextHeight = .ok request.range.startInclusive)
  (hrange : request.range.endInclusive.toNat - request.range.startInclusive.toNat + 1 <
    UInt64.size)

include hfirst

theorem Replayed.heights (hs : Replayed R l request blocks s) :
    blocks.map (·.blockHeight.toNat) =
      range' request.range.startInclusive.toNat blocks.length :=
  (heights_of_applied hfirst hs.applied).1

theorem Replayed.snoc (hs : Replayed R l request blocks s)
    (hrange : request.range.endInclusive.toNat - request.range.startInclusive.toNat + 1 <
      UInt64.size)
    (happlies : applies R s.ledger block = true)
    (hend : block.blockHeight ≤ request.range.endInclusive) :
    s.applied.toNat + 1 < UInt64.size ∧
      Replayed R l request (blocks ++ [block])
        { s with
          ledger := (s.ledger.applyBlock R block).2
          applied := s.applied + 1
          lastHeight := some block.blockHeight } := by
  have hnext := (blockHeight_of_applies happlies).2
  rw [hs.ledger] at happlies hnext
  have hheight := (heights_of_applied hfirst hs.applied).2 _ hnext
  have hend' := UInt64.le_iff_toNat_le.mp hend
  have hcount := hs.count
  have hsize : s.applied.toNat + 1 < UInt64.size := by omega
  refine ⟨hsize, ?_⟩
  constructor
  · exact appliedBlocks_concat_eq_iff.mpr ⟨hs.applied, happlies⟩
  · rw [run_concat, ← hs.ledger]
  · have hadd : (s.applied + 1).toNat = s.applied.toNat + 1 := by
      rw [UInt64.toNat_add]
      exact Nat.mod_eq_of_lt hsize
    rw [hadd, hcount, length_append, length_singleton]
  · simp
  · intro b hb
    rcases mem_append.mp hb with hb | hb
    · exact hs.bounded b hb
    · rw [mem_singleton.mp hb]
      exact hend

include hrange

theorem applyNext_triple (hend : block.blockHeight ≤ request.range.endInclusive) :
    Triple (Replayed R l request blocks) (applyNext R block)
      (fun _ => Replayed R l request (blocks ++ [block])) (StoppedBehind R l request blocks) := by
  intro s hs
  have hexec : ((applyBlock R block).exec s).1 = .ok (s.ledger.applyBlock R block).1 := rfl
  rw [applyNext, exec_bind_of_ok hexec]
  have hstate : ((applyBlock R block).exec s).2 =
    { s with ledger := (s.ledger.applyBlock R block).2 } := rfl
  rw [hstate]
  -- behind a refusal the ledger is as it was
  have hrefused : applies R s.ledger block = false →
      Replayed R l request blocks { s with ledger := (s.ledger.applyBlock R block).2 } := by
    intro h
    rw [applyBlock_of_not_applies h]
    exact hs
  split
  next d hd =>
    obtain ⟨hsize, hs'⟩ := hs.snoc hfirst hrange (by simp [applies, hd]) hend
    have hcount : countApplied.exec { s with ledger := (s.ledger.applyBlock R block).2 } =
        (.ok (), { s with
          ledger := (s.ledger.applyBlock R block).2
          applied := s.applied + 1 }) := if_pos hsize
    rw [exec_bind_of_ok (congrArg Prod.fst hcount), hcount]
    exact ⟨fun _ _ => hs', fun _ h => by cases h⟩
  next c hc =>
    have hs' := hrefused (by simp [applies, hc])
    exact failWith_triple (fun _ h => h) (fun _ => ⟨rfl, rfl⟩) _ hs'
  next e he =>
    have hs' := hrefused (by simp [applies, he])
    exact failWith_triple (fun _ h => h) (fun _ => ⟨rfl, rfl⟩) _ hs'

theorem replayBlock_triple
    (hmanifest : manifest.blockRange.endInclusive ≤ request.range.endInclusive) :
    Triple (Replayed R l request blocks) (replayBlock R request cancellation manifest expected item)
      (fun _ s => ∃ block, item = .ok block ∧ Replayed R l request (blocks ++ [block]) s)
      (StoppedBehind R l request blocks) := by
  unfold replayBlock
  refine pollCancellation_triple.bind fun _ => ?_
  refine blockOf_triple.bind fun block => ?_
  refine Triple.given (fun _ h => h.1) fun hitem => ?_
  refine (checkContent_triple.pre fun _ h => h.2).bind fun _ => ?_
  refine Triple.given (fun _ h => h.1) fun hend => ?_
  refine ((applyNext_triple hfirst hrange (UInt64.le_trans hend hmanifest)).pre
    fun _ h => h.2).bind fun _ => ?_
  exact (expectedAfter_triple hend).post fun _ _ h => ⟨block, hitem, h⟩

theorem replayBlocks_triple
    (hmanifest : manifest.blockRange.endInclusive ≤ request.range.endInclusive)
    {items : List (Except ArchiveError (BlockEnvelope B))} {start : BlockHeight} :
    Triple (Replayed R l request blocks)
      (items.foldlM (replayBlock R request cancellation manifest) start)
      (fun _ s => ∃ more, more.map .ok = items ∧ Replayed R l request (blocks ++ more) s)
      (fun stop s => ∃ more, more.map .ok <+: items ∧
        StoppedBehind R l request (blocks ++ more) stop s) := by
  refine (Triple.foldlM (I := fun done _ s =>
    ∃ more, more.map .ok = done ∧ Replayed R l request (blocks ++ more) s) ?_).conseq
    (fun s hs => ⟨[], rfl, by rwa [append_nil]⟩) (fun _ _ h => h) fun _ _ h => h
  intro done item later expected hitems s hs
  obtain ⟨more, hmore, hs⟩ := hs
  have hround : Triple (Replayed R l request (blocks ++ more))
      (replayBlock R request cancellation manifest expected item) _ _ :=
    replayBlock_triple hfirst hrange hmanifest
  obtain ⟨hok, herror⟩ := hround s hs
  constructor
  · intro expected' hreply
    obtain ⟨block, rfl, hs'⟩ := hok expected' hreply
    refine ⟨more ++ [block], by rw [map_append, hmore, map_singleton], ?_⟩
    rwa [← append_assoc]
  · intro stop hreply
    exact ⟨more, by rw [hmore, hitems]; exact prefix_append _ _, herror stop hreply⟩

theorem replayManifest_triple
    (hmanifest : manifest.blockRange.endInclusive ≤ request.range.endInclusive) :
    Triple (Replayed R l request blocks) (replayManifest R archive request cancellation manifest)
      (fun _ s => ∃ more, more.map .ok = archive.items [manifest.manifestId] ∧
        Replayed R l request (blocks ++ more) s ∧
        s.lastHeight = some manifest.blockRange.endInclusive)
      (fun stop s => ∃ more, more.map .ok <+: archive.items [manifest.manifestId] ∧
        StoppedBehind R l request (blocks ++ more) stop s) := by
  unfold replayManifest
  refine (readBlocks_triple.conseq (fun _ h => h) (fun _ _ h => h) ?_).bind fun items => ?_
  · intro stop s hs
    exact ⟨[], nil_prefix, by rwa [append_nil]⟩
  refine Triple.given (fun _ h => h.1) fun hread => ?_
  have hitems : archive.items [manifest.manifestId] = items := by
    simp [CanonicalArchive.items, hread, Except.toOption]
  rw [hitems]
  refine ((replayBlocks_triple hfirst hrange hmanifest).pre fun _ h => h.2).bind
    fun expected => ?_
  rintro s ⟨more, hmore, hs⟩
  have hend : Triple (Replayed R l request (blocks ++ more)) (checkEnd manifest expected) _ _ :=
    checkEnd_triple
  obtain ⟨hok, herror⟩ := hend s hs
  constructor
  · intro u hreply
    exact ⟨more, hmore, (hok u hreply).2, (hok u hreply).1⟩
  · intro stop hreply
    exact ⟨more, hmore ▸ prefix_refl _, herror stop hreply⟩

theorem replayManifests_triple
    (hmanifests : ∀ manifest ∈ manifests,
      manifest.blockRange.endInclusive ≤ request.range.endInclusive) :
    Triple (ReplayedThrough R l archive request [])
      (replayManifests R archive request cancellation manifests)
      (fun _ => ReplayedThrough R l archive request manifests)
      (fun stop s => ∃ blocks, blocks.map .ok <+: archive.items (manifests.map (·.manifestId)) ∧
        StoppedBehind R l request blocks stop s) := by
  refine Triple.foldlM (I := fun done _ => ReplayedThrough R l archive request done) ?_
  rintro done manifest later _ hmanifest s ⟨blocks, hblocks, hs, -⟩
  have hmem : manifest ∈ manifests := by simp [hmanifest]
  have hround : Triple (Replayed R l request blocks)
      (replayManifest R archive request cancellation manifest) _ _ :=
    replayManifest_triple hfirst hrange (hmanifests manifest hmem)
  obtain ⟨hok, herror⟩ := hround s hs
  constructor
  · intro u hreply
    obtain ⟨more, hmore, hs', hlast⟩ := hok u hreply
    refine ⟨blocks ++ more, ?_, hs', by simpa using hlast⟩
    rw [map_append, map_append, hblocks, hmore, ← items_append, map_singleton]
  · intro stop hreply
    obtain ⟨more, hmore, hstop⟩ := herror stop hreply
    refine ⟨blocks ++ more, ?_, hstop⟩
    have hall : archive.items (manifests.map (·.manifestId)) =
        archive.items (done.map (·.manifestId)) ++
          (archive.items [manifest.manifestId] ++ archive.items (later.map (·.manifestId))) := by
      rw [hmanifest, ← items_append, ← items_append, map_append]
      rfl
    rw [hall, map_append, hblocks, prefix_append_right_inj]
    exact hmore.trans (prefix_append _ _)

end Range

theorem Replayed.describes (hs : Replayed R l request blocks s) :
    s.progress.Describes blocks s.ledger :=
  ⟨hs.count, hs.last, rfl⟩

theorem replayed_nil (l : CanonicalLedger) (request : ReplayRequest) :
    Replayed R l request ([] : List (BlockEnvelope B)) ⟨l, 0, none, 0⟩ :=
  ⟨rfl, rfl, rfl, rfl, by simp⟩

theorem hasBlockCount {range : BlockRange} (h : range.blockCount ≠ none) :
    range.startInclusive ≤ range.endInclusive ∧
      range.endInclusive.toNat - range.startInclusive.toNat + 1 < UInt64.size := by
  revert h
  fun_cases BlockRange.blockCount range with
  | case2 hle hsize => exact fun _ => ⟨UInt64.not_lt.mp hle, hsize⟩
  | _ => exact fun h => absurd rfl h

section Range

variable (hfirst : l.nextHeight = .ok request.range.startInclusive)
  (hle : request.range.startInclusive ≤ request.range.endInclusive)

include hfirst

theorem Replayed.length_of_last (hs : Replayed R l request blocks s)
    (hlast : s.lastHeight = some height) :
    height.toNat + 1 = request.range.startInclusive.toNat + blocks.length ∧
      height ≤ request.range.endInclusive := by
  obtain ⟨block, hblock, rfl⟩ := Option.map_eq_some_iff.mp (hs.last.symm.trans hlast)
  refine ⟨?_, hs.bounded block (mem_of_getLast? hblock)⟩
  obtain ⟨before, rfl⟩ := getLast?_eq_some_iff.mp hblock
  have hheights := hs.heights hfirst
  rw [map_append, length_append, length_singleton, range'_concat,
    map_singleton, Nat.one_mul] at hheights
  have hheight := singleton_inj.mp (append_inj' hheights rfl).2
  rw [hheight, length_append, length_singleton, Nat.add_assoc]

theorem Replayed.heights_prefix (hs : Replayed R l request blocks s) :
    blocks.map (·.blockHeight.toNat) <+:
      range' request.range.startInclusive.toNat request.range.size := by
  rw [hs.heights hfirst]
  have hlength : blocks.length ≤ request.range.size := by
    rcases hblock : blocks.getLast? with _ | block
    · rw [getLast?_eq_none_iff.mp hblock]
      exact Nat.zero_le _
    · have hlast : s.lastHeight = some block.blockHeight := by rw [hs.last, hblock]; rfl
      obtain ⟨hcount, hend⟩ := hs.length_of_last hfirst hlast
      have hend' := UInt64.le_iff_toNat_le.mp hend
      rw [BlockRange.size]
      omega
  obtain ⟨rest, hrest⟩ := Nat.exists_eq_add_of_le hlength
  rw [hrest, ← range'_append_1]
  exact prefix_append _ _

include hle

theorem ReplayedThrough.complete {manifest : ReplayManifestIdentity}
    (hs : ReplayedThrough R l archive request manifests s)
    (hlast : manifests.getLast? = some manifest)
    (hend : manifest.blockRange.endInclusive = request.range.endInclusive) :
    ∃ blocks, blocks.map .ok = archive.items (manifests.map (·.manifestId)) ∧
      Replayed R l request blocks s ∧ blocks.length = request.range.size := by
  obtain ⟨blocks, hblocks, hs, hheight⟩ := hs
  refine ⟨blocks, hblocks, hs, ?_⟩
  obtain ⟨hcount, -⟩ := hs.length_of_last hfirst (hheight manifest hlast)
  have hle' := UInt64.le_iff_toNat_le.mp hle
  rw [hend] at hcount
  rw [BlockRange.size]
  omega

end Range

/-- A reply against the blocks that were applied: they are archived ones, one for each height from
the start of the range on, and the ledger is behind them. A completed replay has applied the whole
range, and every reply tells how far it came. -/
structure FoldedOver (R : EventReducer) (archive : CanonicalArchive B) (request : ReplayRequest)
    (l : CanonicalLedger) (reply : Except ReplayError ReplayOutcome × CanonicalLedger)
    (blocks : List (BlockEnvelope B)) : Prop where
  archived : blocks.map .ok <+: archive.items request.manifests
  heights : blocks.map (·.blockHeight.toNat) <+:
    range' request.range.startInclusive.toNat request.range.size
  applied : appliedBlocks R l blocks = blocks
  ledger : reply.2 = CanonicalLedger.run R l blocks
  completed : ∀ receipt, reply.1 = .ok (.completed receipt) →
    blocks.map .ok = archive.items request.manifests ∧
      blocks.map (·.blockHeight.toNat) =
        range' request.range.startInclusive.toNat request.range.size ∧
      receipt.appliedBlockCount.toNat = request.range.size ∧
      receipt.progress.Describes blocks reply.2
  cancelled : ∀ receipt, reply.1 = .ok (.cancelled receipt) →
    receipt.progress.Describes blocks reply.2
  failed : ∀ e, reply.1 = .error e →
    e.progress.Describes blocks reply.2 ∧ (e.atStart = true → blocks = [])

/-- A replay that fails before its first block leaves the ledger as it was. -/
theorem foldedOver_nil (he : e.progress = emptyProgress l) :
    FoldedOver R archive request l (.error e, l) ([] : List (BlockEnvelope B)) where
  archived := nil_prefix
  heights := nil_prefix
  applied := rfl
  ledger := rfl
  completed := nofun
  cancelled := nofun
  failed := by
    rintro e' ⟨⟩
    rw [he]
    exact ⟨⟨rfl, rfl, rfl⟩, fun _ => rfl⟩

/-- Whatever the archive answers and whenever it is cancelled, a replay folds the ledger over
archived blocks of consecutive heights. -/
theorem replay_eq_fold (R : EventReducer) (archive : CanonicalArchive B) (request : ReplayRequest)
    (cancellation : ℕ → Bool) (limits : ReplayLimits) (l : CanonicalLedger) :
    ∃ blocks, FoldedOver R archive request l
      (run R archive request cancellation limits l) blocks := by
  unfold run
  split
  next => exact ⟨[], foldedOver_nil rfl⟩
  next hlimits =>
  split
  next => exact ⟨[], foldedOver_nil rfl⟩
  next =>
  split
  next => exact ⟨[], foldedOver_nil rfl⟩
  next hstart =>
  split
  next e he =>
    obtain ⟨reason, rfl⟩ := preflight_eq_error he
    exact ⟨[], foldedOver_nil rfl⟩
  next hpreflight =>
    obtain ⟨⟨planned, manifests⟩, hfrom, hpreflight⟩ := of_bind hpreflight
    obtain ⟨hids, hends⟩ := preflightFrom_eq_ok (by simp) hfrom
    obtain ⟨hlast, hpreflight⟩ := of_check hpreflight
    obtain rfl := ok.inj hpreflight
    rw [not_or] at hlast
    obtain ⟨manifest, hlast, hend⟩ : ∃ manifest, manifests.getLast? = some manifest ∧
        manifest.blockRange.endInclusive = request.range.endInclusive := by
      cases hidentity : manifests.getLast? with
      | none => simp [hidentity] at hlast
      | some manifest => exact ⟨manifest, rfl, by simpa [hidentity] using hlast.1⟩
    have hcount : request.range.blockCount ≠ none := by
      intro hnone
      simp [hnone] at hlimits
    obtain ⟨hle, hrange⟩ := hasBlockCount hcount
    have hfirst : l.nextHeight = .ok request.range.startInclusive :=
      mem_toOption.mp (not_not.mp hstart)
    have hrun : Triple (ReplayedThrough R l archive request [])
        (replayManifests R archive request cancellation manifests) _ _ :=
      replayManifests_triple hfirst hrange hends
    obtain ⟨hok, herror⟩ := hrun ⟨l, 0, none, 0⟩ ⟨[], rfl, replayed_nil l request, by simp⟩
    rw [hids] at herror
    generalize (replayManifests R archive request cancellation manifests).exec
      ⟨l, 0, none, 0⟩ = final at hok herror ⊢
    obtain ⟨(_ | e) | ⟨⟩, s⟩ := final
    case error.cancelled =>
      obtain ⟨blocks, hblocks, hs, -⟩ := herror _ rfl
      refine ⟨blocks, hblocks, hs.heights_prefix hfirst, hs.applied, hs.ledger, nofun, ?_, nofun⟩
      rintro receipt ⟨⟩
      exact hs.describes
    case error.failed =>
      obtain ⟨blocks, hblocks, hs, hprogress⟩ := herror _ rfl
      refine ⟨blocks, hblocks, hs.heights_prefix hfirst, hs.applied, hs.ledger, nofun, nofun, ?_⟩
      rintro e' ⟨⟩
      obtain ⟨hp, hstarted⟩ := hprogress e rfl
      refine ⟨hp ▸ hs.describes, ?_⟩
      rw [hstarted]
      exact nofun
    case ok =>
      obtain ⟨blocks, hblocks, hs, hlength⟩ := (hok _ rfl).complete hfirst hle hlast hend
      rw [hids] at hblocks
      refine ⟨blocks, hblocks ▸ prefix_refl _, hs.heights_prefix hfirst, hs.applied, hs.ledger,
        ?_, nofun, nofun⟩
      rintro receipt ⟨⟩
      refine ⟨hblocks, ?_, hs.count.trans hlength, hs.describes⟩
      rw [hs.heights hfirst, hlength]

end SerialReplayEngine

end AlphaDesk
