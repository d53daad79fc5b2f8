import AlphaDesk.Ledger.History
import AlphaDesk.Sequencer.Invariant

/-! # The sequencer merges reports of one block only

Merging adds evidence and leaves the content of a block alone, so every block that
the sequencer holds reports what some candidate reported. Where the digests do not
collide, a candidate of the same hash therefore never differs from it in content.
-/

namespace AlphaDesk

open List CanonicalEventEnvelope

variable {B : Blake3}

variable {existing merged : BlockEnvelope B} {candidate : BlockCandidate B}

theorem events_of_compareAndMerge (h : compareAndMerge existing candidate = .ok merged) :
    existing.events.map (·.content) = candidate.block.events.map (·.content) ∧
      merged.events =
        zipWith (·.withEvidenceOf ·) existing.events candidate.block.events := by
  obtain ⟨-, -, hlen, hevents, -⟩ := compareAndMerge_eq_ok h
  have hall := (Except.mapM_eq_ok.mp hevents).imp fun _ _ h =>
    mergeMatchingSourceEvidence_eq_ok_iff.mp (Except.mapError_eq_ok.mp h)
  generalize merged.events = ms at hall
  generalize existing.events = es at hall hlen
  generalize candidate.block.events = cs at hall hlen
  induction es generalizing cs ms with
  | nil =>
    obtain rfl : cs = [] := length_eq_zero_iff.mp hlen.symm
    cases hall
    exact ⟨rfl, rfl⟩
  | cons e es ih =>
    cases cs with
    | nil => cases hlen
    | cons c cs =>
      rcases hall with _ | ⟨⟨hcontent, -, rfl⟩, hrest⟩
      obtain ⟨hcontents, rfl⟩ := ih _ _ hrest (Nat.succ.inj hlen)
      exact ⟨by simp [hcontent, hcontents], rfl⟩

theorem map_content_zipWith {es cs : List CanonicalEventEnvelope} (h : es.length = cs.length) :
    (zipWith (·.withEvidenceOf ·) es cs).map (·.content) = es.map (·.content) := by
  induction es generalizing cs with
  | nil => rfl
  | cons e es ih =>
    cases cs with
    | nil => cases h
    | cons c cs => simp [ih (Nat.succ.inj h)]

theorem sameContent_of_compareAndMerge (h : compareAndMerge existing candidate = .ok merged) :
    merged.SameContent existing := by
  obtain ⟨-, -, hlen, -, hchain, hheight, htime, -⟩ := compareAndMerge_eq_ok h
  refine ⟨hchain, hheight, htime, ?_⟩
  rw [(events_of_compareAndMerge h).2, map_content_zipWith hlen]

namespace BlockEnvelope

variable {a b : BlockEnvelope B}

theorem canonicalBlockHash_of_sameContent (h : a.SameContent b) :
    a.canonicalBlockHash = b.canonicalBlockHash := by
  have hlen : a.events.length = b.events.length := by simpa using congrArg length h.events
  have hhashed : a.events.map hashedEvent = b.events.map hashedEvent := by
    rw [← forall₂_eq_eq_eq, forall₂_map_left_iff, forall₂_map_right_iff]
    have hall := h.events
    rw [← forall₂_eq_eq_eq, forall₂_map_left_iff, forall₂_map_right_iff] at hall
    exact hall.imp fun _ _ => hashedEvent_of_content
  simp only [canonicalBlockHash, computeBlockHash, h.chainId, h.blockHeight, h.blockTime, hlen,
    flatMap_def, hhashed]

theorem SameContent.symm (h : a.SameContent b) : b.SameContent a :=
  ⟨h.chainId.symm, h.blockHeight.symm, h.blockTime.symm, h.events.symm⟩

theorem SameContent.trans {c : BlockEnvelope B} (h : a.SameContent b) (h' : b.SameContent c) :
    a.SameContent c :=
  ⟨h.chainId.trans h'.chainId, h.blockHeight.trans h'.blockHeight,
    h.blockTime.trans h'.blockTime, h.events.trans h'.events⟩

end BlockEnvelope

theorem mergeEvent_ne_invalidEvidence {pair : CanonicalEventEnvelope × CanonicalEventEnvelope}
    (h : pair.1.content = pair.2.content) (eventId : Option EventId) (reason : String) :
    mergeEvent existing pair ≠ .error (.invalidEvidence eventId reason) := by
  have hne := merge_ne_mismatch h
  unfold mergeEvent
  rcases hm : pair.1.mergeMatchingSourceEvidence pair.2 with (_ | _) | m
  · exact absurd hm hne
  · rintro ⟨⟩
  · rintro ⟨⟩

theorem compareAndMerge_ne_invalidEvidence (h : existing.SameContent candidate.block)
    (eventId : Option EventId) (reason : String) :
    compareAndMerge existing candidate ≠ .error (.invalidEvidence eventId reason) := by
  have hlen : existing.events.length = candidate.block.events.length := by
    simpa using congrArg length h.events
  have hall := h.events
  rw [← forall₂_eq_eq_eq, forall₂_map_left_iff, forall₂_map_right_iff] at hall
  fun_cases compareAndMerge existing candidate with
  | case1 | case2 => rintro ⟨⟩
  | case3 _ _ hne => exact absurd hlen hne
  | case4 =>
    rcases hm : (existing.events.zip candidate.block.events).mapM (mergeEvent existing) with
      error | events
    · rintro heq
      obtain rfl := Except.error.inj heq
      obtain ⟨pair, hpair, herror⟩ := Except.mapM_error hm
      exact mergeEvent_ne_invalidEvidence (forall₂_zip hall hpair) eventId reason herror
    · rw [Except.ok_bind]
      intro heq
      cases ht : BlockEnvelope.tryNew B existing.chainId existing.blockHeight existing.blockTime
          existing.confirmationClass events (existing.sourceBlockHashes.insertMany
            candidate.block.sourceBlockHashes.toList) <;>
        rw [ht] at heq <;> cases heq

namespace CanonicalSequencer

variable {s : CanonicalSequencer B} {config : SequencerConfig} {block : BlockEnvelope B}

theorem getElem?_of_insert {m : Std.ExtTreeMap BlockHeight (BlockEnvelope B)}
    {key height : BlockHeight} {new : BlockEnvelope B}
    (h : (m.insert key new)[height]? = some block) : block = new ∨ m[height]? = some block := by
  rw [Std.ExtTreeMap.getElem?_insert] at h
  split at h
  next => exact .inl (Option.some.inj h).symm
  next => exact .inr h

theorem getElem?_of_advance {w : Watermark B} {height : BlockHeight} {new : BlockEnvelope B}
    (h : (w.advance new).retained[height]? = some block) :
    block = new ∨ w.retained[height]? = some block :=
  getElem?_of_insert (Watermark.getElem?_of_evict h)

theorem holds_of_drainContiguous {fuel : ℕ} (h : (s.drainContiguous fuel).2.Holds block) :
    s.Holds block := by
  fun_induction drainContiguous fuel s with
  | case1 | case2 | case3 => exact h
  | case4 fuel s next hnext drained hdrained rest ih =>
    obtain ⟨height, hp | hc | hv⟩ := ih h
    · exact ⟨height, .inl (Std.ExtTreeMap.getElem?_of_erase hp)⟩
    · rcases getElem?_of_advance hc with rfl | hc
      · exact ⟨next, .inl hdrained⟩
      · exact ⟨height, .inr (.inl hc)⟩
    · exact ⟨height, .inr (.inr hv)⟩

theorem holds_of_observe {c : BlockCandidate B} (h : (s.observe c).2.Holds block) :
    s.Holds block ∨ block = c.block ∨
      ∃ existing, s.Holds existing ∧ compareAndMerge existing c = .ok block := by
  have hobs := observation s c
  generalize s.observe c = out at hobs h
  cases hobs with
  | rejected | mismatched | awaiting | historical => exact .inl h
  | mergedRetained committed existing merged he hm =>
    cases committed with
    | true =>
      obtain ⟨height, hp | hc | hv⟩ := h
      · exact .inl ⟨height, .inl hp⟩
      · rcases getElem?_of_insert hc with rfl | hc
        · exact .inr (.inr ⟨existing, ⟨_, .inr (.inl he)⟩, hm⟩)
        · exact .inl ⟨height, .inr (.inl hc)⟩
      · exact .inl ⟨height, .inr (.inr hv)⟩
    | false =>
      obtain ⟨height, hp | hc | hv⟩ := h
      · exact .inl ⟨height, .inl hp⟩
      · exact .inl ⟨height, .inr (.inl hc)⟩
      · rcases getElem?_of_insert hv with rfl | hv
        · exact .inr (.inr ⟨existing, ⟨_, .inr (.inr he)⟩, hm⟩)
        · exact .inl ⟨height, .inr (.inr hv)⟩
  | mergedPending existing merged he hm =>
    obtain ⟨height, hp | hr⟩ := h
    · rcases getElem?_of_insert hp with rfl | hp
      · exact .inr (.inr ⟨existing, ⟨_, .inl he⟩, hm⟩)
      · exact .inl ⟨height, .inl hp⟩
    · exact .inl ⟨height, .inr hr⟩
  | diverged =>
    simp only [latchDivergence] at h
    split at h <;> exact .inl h
  | published =>
    obtain ⟨height, hp | hc | hv⟩ := h
    · exact .inl ⟨height, .inl hp⟩
    · exact .inl ⟨height, .inr (.inl hc)⟩
    · rcases getElem?_of_advance hv with rfl | hv
      · exact .inr (.inl rfl)
      · exact .inl ⟨height, .inr (.inr hv)⟩
  | inserted =>
    obtain ⟨d, heq, -⟩ := insertPending_eq s c.block
    rw [heq] at h
    obtain ⟨height, hp | hr⟩ := holds_of_drainContiguous (s := s.addPending c.block) h
    · rcases getElem?_of_insert hp with rfl | hp
      · exact .inr (.inl rfl)
      · exact .inl ⟨height, .inl hp⟩
    · exact .inl ⟨height, .inr hr⟩

theorem sameContent_of_holds {candidates : List (BlockCandidate B)}
    (h : (after config candidates).Holds block) :
    ∃ c ∈ candidates, block.SameContent c.block := by
  induction candidates using reverseRecOn generalizing block with
  | nil =>
    obtain ⟨height, h⟩ := h
    simp [after, new, Watermark.new] at h
  | append_singleton candidates c ih =>
    rw [after_concat] at h
    rcases holds_of_observe h with h | rfl | ⟨existing, h, hm⟩
    · obtain ⟨c', hc', hsame⟩ := ih h
      exact ⟨c', mem_append_left _ hc', hsame⟩
    · exact ⟨c, mem_append_right _ mem_cons_self, rfl, rfl, rfl, rfl⟩
    · obtain ⟨c', hc', hsame⟩ := ih h
      exact ⟨c', mem_append_left _ hc', (sameContent_of_compareAndMerge hm).trans hsame⟩

variable {candidates : List (BlockCandidate B)} {C : PayloadCodec}

/-- A candidate's events correct nothing: no lane takes corrected blocks. -/
theorem supersededEventId_of_candidate (c : BlockCandidate B) {e : CanonicalEventEnvelope}
    (he : e ∈ c.block.events) : e.supersededEventId = none := by
  by_contra hne
  have hcorrected := e.corrects hne
  rw [(c.block.belongsTo he).confirmationClass] at hcorrected
  have hconfirmed := c.confirmed
  rw [validateConfirmation, Except.bind_eq_ok] at hconfirmed
  obtain ⟨expected, hexpected, hconfirmed⟩ := hconfirmed
  have heq : expected = .corrected := by
    split at hconfirmed
    next h => exact h.symm.trans hcorrected
    next => cases hconfirmed
  rw [heq] at hexpected
  unfold expectedConfirmation at hexpected
  split at hexpected <;> cases hexpected

theorem returned_concat (c : BlockCandidate B) :
    returned config (candidates ++ [c]) =
      returned config candidates ++ [((after config candidates).observe c).1] :=
  Run.outputs_concat _ _ _ _

/-- Where the digests do not collide, no candidate has the hash of a held block and other
content. -/
theorem returned_ne_invalidMergedEvidence
    (hfree : BlockEnvelope.CollisionFree {b | ∃ c ∈ candidates, b = c.block})
    (hreported : ∀ c ∈ candidates, c.block.Framed ∧ ∀ e ∈ c.block.events, e.Encoded B C)
    {r : Except SequencerError (List (SequencerDecision B))}
    (hr : r ∈ returned config candidates) (eventId : Option EventId) (reason : String) :
    r ≠ .error (.invalidMergedEvidence eventId reason) := by
  have hrep : ∀ c ∈ candidates, c.block.Reported C := fun c hc =>
    ⟨(hreported c hc).1, (hreported c hc).2, fun _ => supersededEventId_of_candidate c⟩
  -- over the prefixes of the run, of which only the last call is new
  have hprefix : ∀ seen, seen <+: candidates → ∀ r ∈ returned config seen,
      r ≠ .error (.invalidMergedEvidence eventId reason) := by
    intro seen
    induction seen using reverseRecOn with
    | nil =>
      intro _ r hr
      cases hr
    | append_singleton seen c ih =>
      intro hseen r hr
      rw [returned_concat, mem_append, mem_singleton] at hr
      rcases hr with hr | rfl
      · exact ih ((prefix_append seen [c]).trans hseen) r hr
      · have hc : c ∈ candidates :=
          hseen.subset (mem_append_right _ mem_cons_self)
        have hobs := observation (after config seen) c
        intro herror
        generalize (after config seen).observe c = out at hobs herror
        cases hobs with
        | rejected error hne => exact hne eventId reason (Except.error.inj herror)
        | mismatched existing id why hheld hm =>
          obtain ⟨c', hc', hsame⟩ := sameContent_of_holds hheld
          have hc'' : c' ∈ candidates := hseen.subset (mem_append_left _ hc')
          by_cases hhash : existing.canonicalBlockHash = c.block.canonicalBlockHash
          · have hboth := BlockEnvelope.sameContent_of_canonicalBlockHash hfree
              ⟨c', hc'', rfl⟩ ⟨c, hc, rfl⟩ (hrep c' hc'') (hrep c hc)
              ((BlockEnvelope.canonicalBlockHash_of_sameContent hsame).symm.trans hhash)
            exact compareAndMerge_ne_invalidEvidence (hsame.trans hboth) id why hm
          · rw [compareAndMerge, if_pos hhash] at hm
            cases hm
        | _ => cases herror
  exact hprefix candidates prefix_rfl r hr

/-- Blocks of one hash report the same events, position by position; so no run of candidates
ends in a merge of evidence for other content. What the constructor of envelopes builds meets
the conditions on events. -/
theorem content_bound_by_hash (C : PayloadCodec) :
    (∀ a b : BlockEnvelope B, BlockEnvelope.CollisionFree {a, b} → a.Reported C → b.Reported C →
      a.canonicalBlockHash = b.canonicalBlockHash →
      a.chainId = b.chainId ∧ a.blockHeight = b.blockHeight ∧ a.blockTime = b.blockTime ∧
      a.events.length = b.events.length ∧
      ∀ (i : ℕ) (ha : i < a.events.length) (hb : i < b.events.length),
        a.events[i].hasSameCanonicalContent b.events[i] = true) ∧
    (∀ (config : SequencerConfig) (candidates : List (BlockCandidate B)),
      BlockEnvelope.CollisionFree {b | ∃ c ∈ candidates, b = c.block} →
      (∀ c ∈ candidates, c.block.Framed ∧ ∀ e ∈ c.block.events, e.Encoded B C) →
      ∀ r ∈ returned config candidates, ∀ eventId reason,
        r ≠ .error (.invalidMergedEvidence eventId reason)) ∧
    (∀ (V : VersionParser) (input : CanonicalEventInput) (e : CanonicalEventEnvelope),
      CanonicalEventEnvelope.fromInput B C V input = .ok e →
        e.Encoded B C ∧ e.supersededEventId = none) := by
  refine ⟨?_, ?_, fun V input e => encoded_of_fromInput⟩
  · intro a b hfree ha hb hhash
    have hsame := BlockEnvelope.sameContent_of_canonicalBlockHash hfree (by simp) (by simp) ha hb
      hhash
    refine ⟨hsame.chainId, hsame.blockHeight, hsame.blockTime, ?_, ?_⟩
    · simpa using congrArg length hsame.events
    · intro i hia hib
      rw [hasSameCanonicalContent_iff]
      have hi := getElem_of_eq hsame.events (by simpa using hia)
      simpa using hi
  · intro config candidates hfree hreported r hr eventId reason
    exact returned_ne_invalidMergedEvidence hfree hreported hr eventId reason

section Sample

open CanonicalLedger

def sampleHalt : EventPayload := .marketHalted ⟨sampleChain, "upgrade"⟩

/-- The halt of a market, with the evidence of one source. -/
def haltEvent (source : SourceId) (height : BlockHeight) : CanonicalEventEnvelope :=
  { sampleEvent height [] [] sampleHalt (by decide) (by decide) with
    sourceEvidence := [{ sampleEvidence with sourceId := source }]
    evidenced := by simp }

def haltBlock (source : SourceId) (height : BlockHeight) : BlockEnvelope sumBlake3 where
  chainId := sampleChain
  blockHeight := height
  blockTime := 0
  confirmationClass := .committedPrimary
  events := [haltEvent source height]
  sourceBlockHashes := (∅ : Std.ExtTreeMap SourceId Hash32).insert source (.replicate 32 2)
  sourced := by simp
  events_valid := by
    simp [validateEvents, validateEventsFrom, validateOrder, haltEvent, sampleEvent,
      expectedEventId, eventKind]

def haltReport (source : SourceId) (height : BlockHeight) : BlockCandidate sumBlake3 where
  sourceId := source
  admission := committedAdmission
  block := haltBlock source height
  sourced := ⟨rfl, Std.ExtTreeMap.mem_insert_self⟩
  evidence := by simp [haltBlock, haltEvent]
  confirmed := rfl

def haltCodec : PayloadCodec where
  encodeToVec payload := if payload = sampleHalt then .ok [] else .error (.missing "payload")
  decodePreserving _ _ := .ok sampleHalt
  decode_encode h := by
    split at h
    next heq => rw [heq]
    next => cases h

def archiveSource : SourceId := ⟨"archive", by decide⟩

theorem haltEvent_framed (source : SourceId) : (haltEvent source 7).Framed where
  chainId := (by decide : sampleChain.asBytes.length < 256 ^ 8)
  transactionId := (by decide : sampleChain.asBytes.length < 256 ^ 8)
  eventId := (by decide +kernel : (computeEventId sumBlake3 sampleChain 7 sampleChain 0
    .marketHalted schemaMajor).asBytes.length < 256 ^ 8)
  schemaVersion := (by decide : (Bytes.utf8 "1.0.0").length < 256 ^ 8)
  marketIds := (by decide : 0 < 256 ^ 8)
  market := fun _ h => absurd h not_mem_nil
  accountIds := (by decide : 0 < 256 ^ 8)

theorem haltBlock_reported (source : SourceId) : (haltBlock source 7).Reported haltCodec where
  framed := ⟨(by decide : sampleChain.asBytes.length < 256 ^ 8), (by decide : 1 < 256 ^ 8),
    forall_mem_singleton.mpr (haltEvent_framed source)⟩
  encoded := forall_mem_singleton.mpr
    ⟨rfl, (by decide : Vector.replicate 32 0 = sumBlake3.hash [])⟩
  supersedes := forall_mem_singleton.mpr rfl

theorem haltBlock_collisionFree {blocks : Set (BlockEnvelope sumBlake3)}
    (h : ∀ b ∈ blocks, ∃ source, b = haltBlock source 7) :
    BlockEnvelope.CollisionFree blocks where
  block := by
    rintro _ ⟨b, hb, rfl⟩ _ ⟨b', hb', rfl⟩ -
    obtain ⟨source, rfl⟩ := h b hb
    obtain ⟨source', rfl⟩ := h b' hb'
    rfl
  event := by
    rintro _ ⟨b, hb, e, he, rfl⟩ _ ⟨b', hb', e', he', rfl⟩ -
    obtain ⟨source, rfl⟩ := h b hb
    obtain ⟨source', rfl⟩ := h b' hb'
    rw [mem_singleton.mp he, mem_singleton.mp he']
    rfl
  payload := by
    rintro _ ⟨b, hb, e, he, rfl⟩ _ ⟨b', hb', e', he', rfl⟩ -
    obtain ⟨source, rfl⟩ := h b hb
    obtain ⟨source', rfl⟩ := h b' hb'
    rw [mem_singleton.mp he, mem_singleton.mp he']
    rfl

/-- Two sources report a block, and the second report is merged with the first. -/
theorem content_bound_by_hash_halt :
    (haltEvent nodeSource 7).hasSameCanonicalContent (haltEvent archiveSource 7) = true ∧
      ∀ r ∈ returned sampleConfig [haltReport nodeSource 7, haltReport archiveSource 7],
        ∀ eventId reason, r ≠ .error (.invalidMergedEvidence eventId reason) := by
  obtain ⟨hsame, hrun, -⟩ := content_bound_by_hash (B := sumBlake3) haltCodec
  constructor
  · have hfree : BlockEnvelope.CollisionFree
        {haltBlock nodeSource 7, haltBlock archiveSource 7} := by
      refine haltBlock_collisionFree ?_
      rintro b (rfl | rfl)
      · exact ⟨nodeSource, rfl⟩
      · exact ⟨archiveSource, rfl⟩
    obtain ⟨-, -, -, -, hevents⟩ :=
      hsame _ _ hfree (haltBlock_reported _) (haltBlock_reported _) rfl
    exact hevents 0 (by decide) (by decide)
  · have hreports : ∀ c ∈ [haltReport nodeSource 7, haltReport archiveSource 7],
        ∃ source, c = haltReport source 7 := by
      simp only [forall_mem_cons]
      exact ⟨⟨_, rfl⟩, ⟨_, rfl⟩, forall_mem_nil _⟩
    refine hrun sampleConfig _ (haltBlock_collisionFree ?_) fun c hc => ?_
    · rintro b ⟨c, hc, rfl⟩
      obtain ⟨source, rfl⟩ := hreports c hc
      exact ⟨source, rfl⟩
    · obtain ⟨source, rfl⟩ := hreports c hc
      exact ⟨(haltBlock_reported source).framed, (haltBlock_reported source).encoded⟩

end Sample

end CanonicalSequencer

end AlphaDesk
