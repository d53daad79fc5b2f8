import AlphaDesk.Sequencer.Content

/-! # Gathering the reports of one block

What a block holds after the reports of several candidates have been merged into it
does not depend on their order: the source hashes are those of the candidates, and
the evidence of an event is sorted as soon as there is more than one report.
-/

namespace AlphaDesk

open SortedList List BlockEnvelope

variable {B : Blake3}

variable {existing merged : BlockEnvelope B} {c : BlockCandidate B}

theorem BlockCandidate.toList_sourceBlockHashes (c : BlockCandidate B) :
    c.block.sourceBlockHashes.toList = [(c.sourceId, c.sourceHash)] := by
  have hlen : c.block.sourceBlockHashes.toList.length = 1 := by
    rw [Std.ExtTreeMap.length_toList, c.sourced.1]
  have hmem : (c.sourceId, c.sourceHash) ∈ c.block.sourceBlockHashes.toList := by
    rw [Std.ExtTreeMap.mem_toList_iff_getElem?_eq_some, BlockCandidate.sourceHash,
      Std.ExtTreeMap.getElem?_eq_some_getElem c.sourced.2]
    rfl
  obtain ⟨entry, hentry⟩ := length_eq_one_iff.mp hlen
  rw [hentry, mem_singleton] at hmem
  rw [hentry, hmem]

theorem sourceHashConflict_eq_none_iff :
    sourceHashConflict existing c = none ↔
      ∀ hash, existing.sourceBlockHashes[c.sourceId]? = some hash → hash = c.sourceHash := by
  unfold sourceHashConflict
  rcases existing.sourceBlockHashes[c.sourceId]? with _ | hash
  · simp
  · simp [Option.filter]

theorem validateEventsFrom_withEvidenceOf {chainId : ChainId} {height : BlockHeight}
    {time : ProtocolTime} {confirmation : ConfirmationClass} {es cs : List CanonicalEventEnvelope}
    (h : es.length = cs.length) (seen : List EventId)
    (previous : Option (UInt32 × UInt32 × TransactionId)) :
    validateEventsFrom B chainId height time confirmation seen previous
        (zipWith (·.withEvidenceOf ·) es cs) =
      validateEventsFrom B chainId height time confirmation seen previous es := by
  induction es generalizing cs seen previous with
  | nil => rfl
  | cons e es ih =>
    cases cs with
    | nil => cases h
    | cons c cs =>
      rw [zipWith_cons_cons, validateEventsFrom, validateEventsFrom, ih (Nat.succ.inj h)]
      rfl

theorem compareAndMerge_isOk (hsame : existing.SameContent c.block)
    (hsource : ∀ hash, existing.sourceBlockHashes[c.sourceId]? = some hash → hash = c.sourceHash)
    (hevidence : ∀ e ∈ existing.events, ∀ e' ∈ c.block.events, ∀ x ∈ e.sourceEvidence,
      ∀ y ∈ e'.sourceEvidence, x.conflicts y = false) :
    ∃ merged, compareAndMerge existing c = .ok merged := by
  have hlen : existing.events.length = c.block.events.length := by
    simpa using congrArg length hsame.events
  have hall := hsame.events
  rw [← forall₂_eq_eq_eq, forall₂_map_left_iff, forall₂_map_right_iff] at hall
  have hmerge : (existing.events.zip c.block.events).mapM (mergeEvent existing) =
      .ok (zipWith (·.withEvidenceOf ·) existing.events c.block.events) := by
    rw [← map_uncurry_zip_eq_zipWith, Except.mapM_eq_ok, forall₂_map_right_iff,
      forall₂_same]
    intro pair hpair
    have hmem := of_mem_zip hpair
    refine Except.mapError_eq_ok.mpr
      (CanonicalEventEnvelope.mergeMatchingSourceEvidence_eq_ok_iff.mpr ⟨?_, ?_, rfl⟩)
    · exact forall₂_zip hall hpair
    · exact hevidence _ hmem.1 _ hmem.2
  have hsourced : (existing.sourceBlockHashes.insertMany
      c.block.sourceBlockHashes.toList).isEmpty = false := by
    rw [c.toList_sourceBlockHashes, Std.ExtTreeMap.insertMany_list_singleton]
    simp
  have hvalid : validateEvents B existing.chainId existing.blockHeight existing.blockTime
      existing.confirmationClass
      (zipWith (·.withEvidenceOf ·) existing.events c.block.events) = .ok () :=
    (validateEventsFrom_withEvidenceOf hlen [] none).trans existing.events_valid
  have hhash := canonicalBlockHash_of_sameContent hsame
  unfold compareAndMerge
  rw [if_neg (not_not.mpr hhash), sourceHashConflict_eq_none_iff.mpr hsource]
  simp only
  rw [if_neg (not_not.mpr hlen), hmerge, Except.ok_bind, tryNew, dif_pos hsourced]
  split
  next => exact ⟨_, rfl⟩
  next error herror => cases herror.symm.trans hvalid

theorem sourceBlockHashes_of_compareAndMerge (h : compareAndMerge existing c = .ok merged) :
    merged.sourceBlockHashes = existing.sourceBlockHashes.insert c.sourceId c.sourceHash := by
  obtain ⟨-, -, -, -, -, -, -, -, hsources⟩ := compareAndMerge_eq_ok h
  rw [hsources, c.toList_sourceBlockHashes, Std.ExtTreeMap.insertMany_list_singleton]

def BlockEnvelope.evidenceAt (b : BlockEnvelope B) (i : ℕ) : List SourceEvidence :=
  (b.events[i]?.map (·.sourceEvidence)).getD []

theorem evidenceAt_of_compareAndMerge {existing merged : BlockEnvelope B} {c : BlockCandidate B}
    (h : compareAndMerge existing c = .ok merged) (i : ℕ) :
    merged.evidenceAt i = sortDedup (existing.evidenceAt i ++ c.block.evidenceAt i) := by
  obtain ⟨-, -, hlen, -⟩ := compareAndMerge_eq_ok h
  unfold evidenceAt
  rw [(events_of_compareAndMerge h).2, getElem?_zipWith]
  rcases Nat.lt_or_ge i existing.events.length with hi | hi
  · rw [getElem?_eq_getElem hi, getElem?_eq_getElem (hlen ▸ hi)]
    rfl
  · rw [getElem?_eq_none hi, getElem?_eq_none (hlen ▸ hi)]
    rfl

/-- The block is what the reports, taken together, say of it. -/
structure Gathered (reports : List (BlockCandidate B)) (b : BlockEnvelope B) : Prop where
  content : ∀ c ∈ reports, b.SameContent c.block
  sources : ∀ (source : SourceId) (hash : Hash32), b.sourceBlockHashes[source]? = some hash ↔
    ∃ c ∈ reports, c.sourceId = source ∧ c.sourceHash = hash
  evidence : ∀ i x, x ∈ b.evidenceAt i ↔ ∃ c ∈ reports, x ∈ c.block.evidenceAt i
  alone : ∀ c, reports = [c] → b.events = c.block.events
  sorted : 2 ≤ reports.length → ∀ i, Increasing (b.evidenceAt i)

variable {reports reports' : List (BlockCandidate B)} {b b' : BlockEnvelope B}

theorem gathered_singleton (c : BlockCandidate B) : Gathered [c] c.block where
  content := forall_mem_singleton.mpr ⟨rfl, rfl, rfl, rfl⟩
  sources source hash := by
    rw [← Std.ExtTreeMap.mem_toList_iff_getElem?_eq_some, c.toList_sourceBlockHashes]
    simp [eq_comm]
  evidence := by simp
  alone := by simp
  sorted := by simp

theorem Gathered.merge (h : Gathered reports b) (hne : reports ≠ [])
    (hsame : b.SameContent c.block)
    (hsource : ∀ hash, b.sourceBlockHashes[c.sourceId]? = some hash → hash = c.sourceHash)
    (hmerged : compareAndMerge b c = .ok merged) : Gathered (reports ++ [c]) merged where
  content := by
    have hm := sameContent_of_compareAndMerge hmerged
    intro c' hc'
    rcases mem_append.mp hc' with hc' | hc'
    · exact hm.trans (h.content c' hc')
    · rw [mem_singleton.mp hc']
      exact hm.trans hsame
  sources source hash := by
    rw [sourceBlockHashes_of_compareAndMerge hmerged, Std.ExtTreeMap.getElem?_insert]
    constructor
    · intro hlookup
      split at hlookup
      next heq =>
        refine ⟨c, by simp, Std.LawfulEqCmp.eq_of_compare heq, Option.some.inj hlookup⟩
      next =>
        obtain ⟨c', hc', heq⟩ := (h.sources source hash).mp hlookup
        exact ⟨c', mem_append_left _ hc', heq⟩
    · rintro ⟨c', hc', rfl, rfl⟩
      rcases mem_append.mp hc' with hc' | hc'
      · have hlookup := (h.sources _ _).mpr ⟨c', hc', rfl, rfl⟩
        split
        next heq =>
          rw [← Std.LawfulEqCmp.eq_of_compare heq] at hlookup
          rw [hsource _ hlookup]
        next => exact hlookup
      · rw [mem_singleton.mp hc', if_pos Std.ReflCmp.compare_self]
  evidence i x := by
    rw [evidenceAt_of_compareAndMerge hmerged, mem_sortDedup_iff, mem_append, h.evidence]
    simp only [mem_append, mem_singleton]
    constructor
    · rintro (⟨c', hc', hx⟩ | hx)
      · exact ⟨c', .inl hc', hx⟩
      · exact ⟨c, .inr rfl, hx⟩
    · rintro ⟨c', hc' | rfl, hx⟩
      · exact .inl ⟨c', hc', hx⟩
      · exact .inr hx
  alone c' heq := by
    have hlen := congrArg length heq
    simp only [length_append, length_singleton] at hlen
    exact absurd (length_eq_zero_iff.mp (by omega)) hne
  sorted _ i := by
    rw [evidenceAt_of_compareAndMerge hmerged]
    exact increasing_sortDedup _

theorem Gathered.eq_of_perm (h : Gathered reports b) (h' : Gathered reports' b')
    (hp : reports.Perm reports') (hne : reports ≠ []) :
    b.canonicalBlockHash = b'.canonicalBlockHash ∧ b.sourceBlockHashes = b'.sourceBlockHashes ∧
      b.events.map (·.sourceEvidence) = b'.events.map (·.sourceEvidence) := by
  obtain ⟨c, hc⟩ := exists_mem_of_ne_nil _ hne
  have hcontent : b.SameContent b' :=
    (h.content c hc).trans (h'.content c (hp.mem_iff.mp hc)).symm
  refine ⟨canonicalBlockHash_of_sameContent hcontent, ?_, ?_⟩
  · ext source hash
    rw [h.sources, h'.sources]
    simp only [hp.mem_iff]
  · have hlen : b.events.length = b'.events.length := by
      simpa using congrArg length hcontent.events
    -- one report is stored as it is; more are sorted
    have hat : ∀ i, b.evidenceAt i = b'.evidenceAt i := by
      intro i
      rcases Nat.lt_or_ge reports.length 2 with hone | hmany
      · have hlength : reports.length = 1 := by
          have := length_pos_of_ne_nil hne
          omega
        obtain ⟨c, rfl⟩ := length_eq_one_iff.mp hlength
        obtain rfl := singleton_perm.mp hp
        rw [evidenceAt, h.alone c rfl, ← h'.alone c rfl, ← evidenceAt]
      · refine (h.sorted hmany i).eq_of_mem_iff (h'.sorted (hp.length_eq ▸ hmany) i) ?_
        intro x
        rw [h.evidence, h'.evidence]
        simp only [hp.mem_iff]
    refine ext_getElem (by simpa using hlen) ?_
    intro i hi hi'
    rw [length_map] at hi hi'
    have hi'' := hat i
    simpa [evidenceAt, getElem?_eq_getElem hi,
      getElem?_eq_getElem hi'] using hi''

end AlphaDesk
