import AlphaDesk.Sequencer.Gather

/-! # The order of arrival

Under enough room, what the sequencer holds for a height is what the candidates of
that height say together, wherever it is held; and how far it has committed is given
by the first height that nobody has reported. Neither depends on the order in which
the candidates arrived.
-/

namespace AlphaDesk

open List hiding getElem?_insert

open Std.ExtTreeMap

namespace CanonicalSequencer

variable {B : Blake3} {s : CanonicalSequencer B} {config : SequencerConfig}
  {commits : List (BlockEnvelope B)} {block : BlockEnvelope B}

variable {fuel : ℕ}

/-- The block that is held for a height of the committed lane. -/
def block? (s : CanonicalSequencer B) (height : BlockHeight) : Option (BlockEnvelope B) :=
  s.pending[height]?.or s.committed.retained[height]?

theorem Watermark.evict_of_le {limit : ℕ} {retained : Std.ExtTreeMap BlockHeight (BlockEnvelope B)}
    (h : retained.size ≤ limit) (fuel : ℕ) : Watermark.evict limit fuel retained = retained := by
  cases fuel with
  | zero => rfl
  | succ fuel => rw [Watermark.evict, if_neg (by omega)]

theorem Aligned.mem_retained_iff (h : s.Aligned config commits)
    (hroom : commits.length ≤ config.retainedCommittedBlocks) {height : BlockHeight} :
    height ∈ s.committed.retained ↔ config.firstHeight.toNat ≤ height.toNat ∧
      height.toNat < config.firstHeight.toNat + commits.length := by
  rw [← Std.ExtTreeMap.mem_keys, h.retained, Nat.sub_eq_zero_of_le hroom, drop_zero,
    ← mem_range'_1, ← h.heights, mem_map, mem_map]
  simp only [UInt64.toNat_inj]

theorem Aligned.size_retained (h : s.Aligned config commits)
    (hroom : commits.length ≤ config.retainedCommittedBlocks) :
    s.committed.retained.size = commits.length := by
  rw [← length_keys, h.retained, Nat.sub_eq_zero_of_le hroom, drop_zero,
    length_map]

theorem Aligned.block?_drainContiguous (h : s.Aligned config commits)
    (hroom : (commits ++ committedBlocks (s.drainContiguous fuel).1).length ≤
      config.retainedCommittedBlocks) (height : BlockHeight) :
    (s.drainContiguous fuel).2.block? height = s.block? height := by
  fun_induction drainContiguous fuel s generalizing commits with
  | case1 | case2 | case3 => rfl
  | case4 fuel s next hnext block hblock rest =>
    rename_i ih
    simp only [committedBlocks_commit, length_append, length_cons, rest] at hroom
    have hadvance := h.advance hnext hblock
    have hstored : block.blockHeight = next := h.stored next block hblock
    rw [ih hadvance (by simp only [length_append, length_singleton]; omega)]
    -- the block of the next height changes its place and nothing is evicted
    have hsize : (s.committed.retained.insert block.blockHeight block).size ≤
        s.committed.retainedLimit := by
      rw [h.limit]
      have hle := size_insert_le (t := s.committed.retained)
        (k := block.blockHeight) (v := block)
      rw [h.size_retained (by omega)] at hle
      omega
    simp only [block?, Watermark.advance, Watermark.evict_of_le hsize]
    rw [getElem?_erase, getElem?_insert, hstored]
    split
    next heq =>
      rw [← Std.LawfulEqCmp.eq_of_compare heq, hblock]
      rfl
    next => rfl

theorem pending_of_mem_drainContiguous (hb : block ∈ committedBlocks (s.drainContiguous fuel).1) :
    ∃ height : BlockHeight, s.pending[height]? = some block := by
  fun_induction drainContiguous fuel s with
  | case1 | case2 | case3 => cases hb
  | case4 fuel s next hnext drained hdrained rest ih =>
    rcases mem_cons.mp hb with rfl | hb
    · exact ⟨next, hdrained⟩
    · obtain ⟨height, hp⟩ := ih hb
      exact ⟨height, getElem?_of_erase hp⟩

def atHeight (seen : List (BlockCandidate B)) (height : BlockHeight) : List (BlockCandidate B) :=
  seen.filter (·.block.blockHeight = height)

def heightCount (candidates : List (BlockCandidate B)) : ℕ :=
  (candidates.map (·.block.blockHeight)).dedup.length

/-- Everything that has been seen is held, and for each height together. -/
structure Collected (config : SequencerConfig) (seen : List (BlockCandidate B))
    (commits : List (BlockEnvelope B)) (s : CanonicalSequencer B) : Prop
    extends Settled config commits s where
  green : s.redIncidentId = none
  room : commits.length ≤ config.retainedCommittedBlocks
  found : ∀ height, (s.block? height).isSome = true ↔
    config.firstHeight ≤ height ∧ atHeight seen height ≠ []
  gathered : ∀ height block, s.block? height = some block → Gathered (atHeight seen height) block
  reported : ∀ block ∈ commits, ∃ c ∈ seen, block.SameContent c.block

variable {seen : List (BlockCandidate B)} {c : BlockCandidate B}

theorem atHeight_concat_of_ne {height : BlockHeight} (h : c.block.blockHeight ≠ height) :
    atHeight (seen ++ [c]) height = atHeight seen height := by
  simp [atHeight, h]

theorem atHeight_concat_self :
    atHeight (seen ++ [c]) c.block.blockHeight = atHeight seen c.block.blockHeight ++ [c] := by
  simp [atHeight]

theorem atHeight_ne_nil_iff {height : BlockHeight} :
    atHeight seen height ≠ [] ↔ ∃ c ∈ seen, c.block.blockHeight = height := by
  simp [atHeight]

theorem collected_new (config : SequencerConfig) :
    Collected config [] [] (new (B := B) config) where
  toSettled := settled_new config
  green := rfl
  room := Nat.zero_le _
  found height := by simp [block?, new, Watermark.new, atHeight]
  gathered height block h := by simp [block?, new, Watermark.new] at h
  reported := by simp

variable {existing : BlockEnvelope B} {height : BlockHeight}

/-- A height is at or below the watermark when it has been committed. -/
theorem Aligned.any_current_iff (h : s.Aligned config commits)
    (hfirst : config.firstHeight ≤ height) :
    s.committed.current.any (height ≤ ·) = true ↔
      height.toNat < config.firstHeight.toNat + commits.length := by
  have hge := UInt64.le_iff_toNat_le.mp hfirst
  rw [h.current]
  rcases eq_nil_or_concat commits with rfl | ⟨before, last, rfl⟩
  · simpa using hge
  · rw [concat_eq_append] at h ⊢
    have hlast := height_of_last h.heights
    simp only [getLast?_concat, Option.map_some, Option.any_some, decide_eq_true_eq,
      UInt64.le_iff_toNat_le, hlast, length_append, length_singleton]
    omega

/-- A candidate of the committed lane, on the chain, of a sequencer that is not red. -/
structure Accepted (s : CanonicalSequencer B) (c : BlockCandidate B) : Prop where
  lane : c.isCommitted = true
  chain : c.block.chainId = s.config.chainId
  green : s.redIncidentId = none

theorem Accepted.observe_eq (h : s.Accepted c) : s.observe c = s.observeCommitted c := by
  have hlane : c.admission.publicationLane = .committedCandidate := of_decide_eq_true h.lane
  rw [observe, if_neg (not_not.mpr h.chain)]
  simp only [hlane]

theorem Accepted.observe_retained (h : s.Accepted c)
    (hold : c.block.blockHeight < s.config.firstHeight ∨
      s.committed.current.any (c.block.blockHeight ≤ ·) = true) :
    s.observe c = s.observeRetained c true := by
  simp only [h.observe_eq, observeCommitted, h.green, if_pos hold]

/-- A candidate that contradicts none of those seen. -/
structure AgreesWith (seen : List (BlockCandidate B)) (c : BlockCandidate B) : Prop where
  content : ∀ c' ∈ seen, c'.block.blockHeight = c.block.blockHeight →
    c'.block.SameContent c.block
  source : ∀ c' ∈ seen, c'.block.blockHeight = c.block.blockHeight →
    c'.sourceId = c.sourceId → c'.sourceHash = c.sourceHash
  evidence : ∀ c' ∈ seen, ∀ e ∈ c'.block.events, ∀ e' ∈ c.block.events,
    ∀ x ∈ e.sourceEvidence, ∀ y ∈ e'.sourceEvidence, x.conflicts y = false

theorem AgreesWith.compareAndMerge_isOk (h : AgreesWith seen c)
    (hgathered : Gathered (atHeight seen c.block.blockHeight) existing)
    (hne : atHeight seen c.block.blockHeight ≠ []) :
    ∃ merged, compareAndMerge existing c = .ok merged ∧
      Gathered (atHeight seen c.block.blockHeight ++ [c]) merged := by
  have hmem : ∀ c' ∈ atHeight seen c.block.blockHeight,
      c' ∈ seen ∧ c'.block.blockHeight = c.block.blockHeight := by
    intro c' hc'
    simpa [atHeight] using hc'
  obtain ⟨c₀, hc₀⟩ := exists_mem_of_ne_nil _ hne
  have hcontent : existing.SameContent c.block :=
    (hgathered.content c₀ hc₀).trans (h.content c₀ (hmem c₀ hc₀).1 (hmem c₀ hc₀).2)
  have hsources : ∀ hash, existing.sourceBlockHashes[c.sourceId]? = some hash →
      hash = c.sourceHash := by
    intro hash hlookup
    obtain ⟨c', hc', hid, rfl⟩ := (hgathered.sources _ _).mp hlookup
    exact h.source c' (hmem c' hc').1 (hmem c' hc').2 hid
  have hconflicts : ∀ e ∈ existing.events, ∀ e' ∈ c.block.events, ∀ x ∈ e.sourceEvidence,
      ∀ y ∈ e'.sourceEvidence, x.conflicts y = false := by
    intro e he e' he' x hx y hy
    obtain ⟨i, hi⟩ := mem_iff_getElem?.mp he
    have hat : x ∈ existing.evidenceAt i := by
      rw [BlockEnvelope.evidenceAt, hi]
      exact hx
    obtain ⟨c', hc', hx'⟩ := (hgathered.evidence i x).mp hat
    rw [BlockEnvelope.evidenceAt] at hx'
    cases hevent : c'.block.events[i]? with
    | none =>
      rw [hevent] at hx'
      cases hx'
    | some e₀ =>
      rw [hevent] at hx'
      exact h.evidence c' (hmem c' hc').1 e₀ (mem_of_getElem? hevent) e' he' x hx' y hy
  obtain ⟨merged, hmerged⟩ := AlphaDesk.compareAndMerge_isOk hcontent hsources hconflicts
  exact ⟨merged, hmerged, hgathered.merge hne hcontent hsources hmerged⟩

/-- An observation after which the candidate is collected, without a quarantine. -/
def Collects (config : SequencerConfig) (seen : List (BlockCandidate B))
    (commits : List (BlockEnvelope B)) (c : BlockCandidate B) (out : Outcome B) : Prop :=
  Collected config (seen ++ [c]) (commits ++ committedIn out.1) out.2 ∧
    ∃ ds, out.1 = .ok ds ∧ ∀ record, .quarantine record ∉ ds

section Step

variable (hs : s.Collected config seen commits)

include hs

theorem Collected.held (h : s.block? height = some block) :
    config.firstHeight ≤ height ∧ atHeight seen height ≠ [] :=
  (hs.found height).mp (by rw [h]; rfl)

/-- What is held is pending if it lies beyond what has been committed. -/
theorem Collected.pending_eq (height : BlockHeight) : s.pending[height]? =
    if config.firstHeight.toNat + commits.length ≤ height.toNat then s.block? height else none := by
  split
  next hge =>
    have hnot : height ∉ s.committed.retained := by
      rw [hs.mem_retained_iff hs.room]
      omega
    rw [block?, getElem?_eq_none_iff_notMem.mpr hnot, Option.or_none]
  next hlt => exact getElem?_eq_none_iff_notMem.mpr fun hp => hlt (hs.beyond height hp).le

/-- What is held is retained if it has been committed. -/
theorem Collected.retained_eq (height : BlockHeight) : s.committed.retained[height]? =
    if config.firstHeight.toNat + commits.length ≤ height.toNat then none else s.block? height := by
  split
  next hge =>
    rw [getElem?_eq_none_iff_notMem, hs.mem_retained_iff hs.room]
    omega
  next hlt => rw [block?, hs.pending_eq, if_neg hlt, Option.none_or]

theorem Collected.count_le :
    s.pending.size + commits.length ≤ heightCount seen := by
  have hheld : ∀ height, height ∈ s.pending ∨ height ∈ s.committed.retained →
      height ∈ seen.map (·.block.blockHeight) := by
    intro height hmem
    have hsome : (s.block? height).isSome = true := by
      rw [block?, Option.isSome_or, Bool.or_eq_true]
      exact hmem.imp mem_iff_isSome_getElem?.mp
        mem_iff_isSome_getElem?.mp
    obtain ⟨c, hc, heq⟩ := atHeight_ne_nil_iff.mp ((hs.found height).mp hsome).2
    exact mem_map.mpr ⟨c, hc, heq⟩
  have hdisjoint : List.Disjoint s.pending.keys s.committed.retained.keys := by
    intro height hp hr
    have hbeyond := hs.beyond height (Std.ExtTreeMap.mem_keys.mp hp)
    have hbelow := (hs.mem_retained_iff hs.room).mp (Std.ExtTreeMap.mem_keys.mp hr)
    omega
  have hnodup : (s.pending.keys ++ s.committed.retained.keys).Nodup :=
    nodup_append'.mpr ⟨nodup_keys, nodup_keys, hdisjoint⟩
  have hsub : s.pending.keys ++ s.committed.retained.keys ⊆
      (seen.map (·.block.blockHeight)).dedup := by
    intro height hmem
    rw [mem_append, Std.ExtTreeMap.mem_keys, Std.ExtTreeMap.mem_keys] at hmem
    exact mem_dedup.mpr (hheld height hmem)
  have hlen := (subperm_of_subset hnodup hsub).length_le
  rwa [length_append, length_keys, length_keys,
    hs.size_retained hs.room] at hlen

theorem Accepted.observe_below (h : s.Accepted c)
    (hbelow : c.block.blockHeight < config.firstHeight) :
    s.observe c = (.ok [.verifyHistoricalBlock c.block.blockHeight c.sourceId
      c.block.canonicalBlockHash], s) := by
  have hnone : s.committed.retained[c.block.blockHeight]? = none := by
    rw [getElem?_eq_none_iff_notMem, hs.mem_retained_iff hs.room]
    have hlt := UInt64.lt_iff_toNat_lt.mp hbelow
    omega
  rw [h.observe_retained (.inl (hs.configured ▸ hbelow))]
  simp only [observeRetained, watermark, if_true, hnone]

theorem Collected.not_old (hfirst : config.firstHeight ≤ height)
    (hbeyond : ¬height.toNat < config.firstHeight.toNat + commits.length) :
    ¬(height < s.config.firstHeight ∨ s.committed.current.any (height ≤ ·) = true) := by
  rw [hs.configured, hs.any_current_iff hfirst]
  exact not_or.mpr ⟨UInt64.not_lt.mpr hfirst, hbeyond⟩

theorem Accepted.observe_held (h : s.Accepted c)
    {merged : BlockEnvelope B} (hheld : s.block? c.block.blockHeight = some existing)
    (hmerged : compareAndMerge existing c = .ok merged) :
    ∃ t, s.observe c = (.ok [.recordDuplicate c.block.blockHeight c.sourceId], t) ∧
      t.redIncidentId = none ∧
      ∀ height, t.block? height =
        if height = c.block.blockHeight then some merged else s.block? height := by
  have hfirst := (hs.held hheld).1
  by_cases hcommitted :
      c.block.blockHeight.toNat < config.firstHeight.toNat + commits.length
  · -- committed: the block is retained, and not pending
    have hpending := hs.pending_eq c.block.blockHeight
    have hretained := hs.retained_eq c.block.blockHeight
    rw [if_neg (by omega)] at hpending hretained
    rw [hheld] at hretained
    rw [h.observe_retained (.inr ((hs.any_current_iff hfirst).mpr hcommitted))]
    simp only [observeRetained, watermark, if_true, hretained, hmerged, resolveMerge]
    refine ⟨_, rfl, h.green, ?_⟩
    intro height
    simp only [block?, setWatermark, if_true, getElem?_insert_eq_ite]
    split
    next heq => rw [heq, hpending, Option.none_or]
    next => rfl
  · -- beyond: the block is pending
    have hpending := hs.pending_eq c.block.blockHeight
    rw [if_pos (by omega), hheld] at hpending
    simp only [h.observe_eq, observeCommitted, h.green, if_neg (hs.not_old hfirst hcommitted),
      hpending, hmerged, resolveMerge]
    refine ⟨_, rfl, rfl, ?_⟩
    intro height
    simp only [block?, getElem?_insert_eq_ite]
    split
    next => rfl
    next => rfl

theorem Accepted.observe_new (h : s.Accepted c)
    (hfirst : config.firstHeight ≤ c.block.blockHeight)
    (hnew : s.block? c.block.blockHeight = none)
    (hpending : s.pending.size < config.maxPendingBlocks)
    (hretained : s.pending.size + 1 + commits.length ≤ config.retainedCommittedBlocks) :
    s.observe c = s.insertPending c.block ∧
      (s.insertPending c.block).2.redIncidentId = none ∧
      (commits ++ committedIn (s.insertPending c.block).1).length ≤
        config.retainedCommittedBlocks ∧
      (∀ block ∈ committedIn (s.insertPending c.block).1, ∃ height : BlockHeight,
        (s.addPending c.block).pending[height]? = some block) ∧
      ∀ height, (s.insertPending c.block).2.block? height =
        if height = c.block.blockHeight then some c.block else s.block? height := by
  have hnotpending : s.pending[c.block.blockHeight]? = none := by
    rw [block?, Option.or_eq_none_iff] at hnew
    exact hnew.1
  have hnotretained : c.block.blockHeight ∉ s.committed.retained := by
    rw [block?, Option.or_eq_none_iff] at hnew
    exact getElem?_eq_none_iff_notMem.mp hnew.2
  have hge := UInt64.le_iff_toNat_le.mp hfirst
  have hbeyond : ¬c.block.blockHeight.toNat < config.firstHeight.toNat + commits.length :=
    fun hlt => hnotretained ((hs.mem_retained_iff hs.room).mpr ⟨hge, hlt⟩)
  have hobserve : s.observe c = s.insertPending c.block := by
    have hfits : ¬(s.config.maxPendingBlocks ≤ s.pending.size ∧
        some c.block.blockHeight ≠ s.nextCommittedHeight) := by
      rw [hs.configured]
      omega
    simp only [h.observe_eq, observeCommitted, h.green, if_neg (hs.not_old hfirst hbeyond),
      hnotpending, if_neg hfits]
  have hsize := size_addPending hnotpending
  have halign := hs.toAligned.addPending (Nat.not_lt.mp hbeyond)
  obtain ⟨-, -, hcount⟩ := halign.drain le_rfl
  obtain ⟨d, heq, hd⟩ := insertPending_eq s c.block
  have hlength : (commits ++ committedBlocks ((s.addPending c.block).drainContiguous
      (s.addPending c.block).pending.size).1).length ≤ config.retainedCommittedBlocks := by
    rw [length_append]
    omega
  refine ⟨hobserve, ?_⟩
  rw [heq, committedIn, hd]
  refine ⟨?_, hlength, fun block => pending_of_mem_drainContiguous, ?_⟩
  · obtain ⟨pending, committed, hframe⟩ := drainContiguous_frame
      (s.addPending c.block).pending.size (s.addPending c.block)
    rw [hframe]
    exact h.green
  · intro height
    have hdrain := halign.block?_drainContiguous hlength height
    have hadd : (s.addPending c.block).block? height =
        if height = c.block.blockHeight then some c.block else s.block? height := by
      simp only [block?, addPending, getElem?_insert_eq_ite]
      split <;> rfl
    exact hdrain.trans hadd

theorem Collected.update {t : CanonicalSequencer B} {new : BlockEnvelope B}
    {commits' : List (BlockEnvelope B)} (hsettled : t.Settled config commits')
    (hgreen : t.redIncidentId = none) (hroom : commits'.length ≤ config.retainedCommittedBlocks)
    (hreported : ∀ block ∈ commits', ∃ c' ∈ seen ++ [c], block.SameContent c'.block)
    (hfirst : config.firstHeight ≤ c.block.blockHeight)
    (hnew : Gathered (atHeight seen c.block.blockHeight ++ [c]) new)
    (hblock : ∀ height, t.block? height =
      if height = c.block.blockHeight then some new else s.block? height) :
    Collected config (seen ++ [c]) commits' t where
  toSettled := hsettled
  green := hgreen
  room := hroom
  found height := by
    rw [hblock]
    split
    next heq =>
      subst heq
      rw [atHeight_concat_self]
      simp [hfirst]
    next hne => rw [hs.found, atHeight_concat_of_ne (Ne.symm hne)]
  gathered height block h := by
    rw [hblock] at h
    split at h
    next heq =>
      subst heq
      rw [atHeight_concat_self, ← Option.some.inj h]
      exact hnew
    next hne =>
      rw [atHeight_concat_of_ne (Ne.symm hne)]
      exact hs.gathered height block h
  reported := hreported

theorem Collected.reported_concat :
    ∀ block ∈ commits, ∃ c' ∈ seen ++ [c], block.SameContent c'.block := by
  intro block hb
  obtain ⟨c', hc', h⟩ := hs.reported block hb
  exact ⟨c', mem_append_left _ hc', h⟩

theorem Collected.reported_of_pending
    (hp : (s.addPending c.block).pending[height]? = some block) :
    ∃ c' ∈ seen ++ [c], block.SameContent c'.block := by
  rw [addPending, getElem?_insert_eq_ite] at hp
  split at hp
  next => exact ⟨c, by simp, Option.some.inj hp ▸ ⟨rfl, rfl, rfl, rfl⟩⟩
  next =>
    have hheld : s.block? height = some block := by
      rw [block?, hp]
      rfl
    obtain ⟨c', hc'⟩ := exists_mem_of_ne_nil _ (hs.held hheld).2
    exact ⟨c', mem_append_left _ (mem_filter.mp hc').1,
      (hs.gathered height block hheld).content c' hc'⟩

theorem Collected.observe_new (hc : s.Accepted c)
    (hfirst : config.firstHeight ≤ c.block.blockHeight)
    (hnew : s.block? c.block.blockHeight = none)
    (hpending : heightCount (seen ++ [c]) ≤ config.maxPendingBlocks)
    (hretained : heightCount (seen ++ [c]) ≤ config.retainedCommittedBlocks) :
    Collects config seen commits c (s.observe c) := by
  have hnil : atHeight seen c.block.blockHeight = [] := by
    by_contra hne
    have hsome := (hs.found _).mpr ⟨hfirst, hne⟩
    rw [hnew] at hsome
    cases hsome
  have hfresh : c.block.blockHeight ∉ seen.map (·.block.blockHeight) := by
    intro hmem
    obtain ⟨c', hc', heq⟩ := mem_map.mp hmem
    exact atHeight_ne_nil_iff.mpr ⟨c', hc', heq⟩ hnil
  have hcount : heightCount (seen ++ [c]) = heightCount seen + 1 := by
    rw [heightCount, heightCount, ← card_toFinset, ← card_toFinset, map_append, toFinset_append,
      map_singleton, toFinset_cons, toFinset_nil, Finset.union_insert,
      Finset.union_empty, Finset.card_insert_of_notMem (by simpa using hfresh)]
  have hle := hs.count_le
  obtain ⟨heq, hgreen, hroom, hcommitted, hblock⟩ :=
    hc.observe_new hs hfirst hnew (by omega) (by omega)
  have hsettled := hs.toSettled.observe c
  rw [heq] at hsettled ⊢
  refine ⟨hs.update hsettled hgreen hroom ?_ hfirst ?_ hblock, ?_⟩
  · intro block hb
    rcases mem_append.mp hb with hb | hb
    · exact hs.reported_concat block hb
    · obtain ⟨height, hp⟩ := hcommitted block hb
      exact hs.reported_of_pending hp
  · rw [hnil]
    exact gathered_singleton c
  · obtain ⟨ds, hds, -⟩ := insertPending_eq s c.block
    refine ⟨ds, congrArg Prod.fst hds, ?_⟩
    intro record hmem
    obtain ⟨_, h⟩ | ⟨_, _, _, h⟩ | h := mem_insertPending (congrArg Prod.fst hds) hmem <;> cases h

theorem Collected.observe_held (hc : s.Accepted c)
    (hagrees : AgreesWith seen c) (hheld : s.block? c.block.blockHeight = some existing) :
    Collects config seen commits c (s.observe c) := by
  obtain ⟨hfirst, hne⟩ := hs.held hheld
  obtain ⟨merged, hmerged, hgathered⟩ :=
    hagrees.compareAndMerge_isOk (hs.gathered _ _ hheld) hne
  obtain ⟨t, heq, hgreen, hblock⟩ := hc.observe_held hs hheld hmerged
  have hsettled := hs.toSettled.observe c
  rw [heq] at hsettled ⊢
  refine ⟨?_, _, rfl, by simp⟩
  simp only [committedIn, committedBlocks, filterMap_cons, filterMap_nil, append_nil] at hsettled ⊢
  exact hs.update hsettled hgreen hs.room hs.reported_concat hfirst hgathered hblock

theorem Collected.observe_below (hc : s.Accepted c)
    (hbelow : c.block.blockHeight < config.firstHeight) :
    Collects config seen commits c (s.observe c) := by
  have hsettled := hs.toSettled.observe c
  rw [hc.observe_below hs hbelow] at hsettled ⊢
  have hother : ∀ height, config.firstHeight ≤ height →
      atHeight (seen ++ [c]) height = atHeight seen height := by
    intro height hh
    refine atHeight_concat_of_ne ?_
    rintro rfl
    exact UInt64.not_lt.mpr hh hbelow
  refine ⟨?_, _, rfl, by simp⟩
  simp only [committedIn, committedBlocks, filterMap_cons, filterMap_nil, append_nil] at hsettled ⊢
  refine { toSettled := hsettled, green := hs.green, room := hs.room, found := ?_, gathered := ?_,
           reported := hs.reported_concat }
  · intro height
    rw [hs.found]
    refine and_congr_right fun hh => ?_
    rw [hother height hh]
  · intro height block hblock
    rw [hother height (hs.held hblock).1]
    exact hs.gathered height block hblock

theorem Collected.observe (hc : s.Accepted c)
    (hagrees : AgreesWith seen c)
    (hpending : heightCount (seen ++ [c]) ≤ config.maxPendingBlocks)
    (hretained : heightCount (seen ++ [c]) ≤ config.retainedCommittedBlocks) :
    Collects config seen commits c (s.observe c) := by
  by_cases hfirst : config.firstHeight ≤ c.block.blockHeight
  · rcases hheld : s.block? c.block.blockHeight with _ | existing
    · exact hs.observe_new hc hfirst hheld hpending hretained
    · exact hs.observe_held hc hagrees hheld
  · exact hs.observe_below hc (UInt64.not_le.mp hfirst)

end Step

section Permuted

variable {t : CanonicalSequencer B} {commits' : List (BlockEnvelope B)}
  {seen' : List (BlockCandidate B)}

theorem perm_atHeight (hp : seen.Perm seen') (height : BlockHeight) :
    (atHeight seen height).Perm (atHeight seen' height) := hp.filter _

/-- What a source reads off a block that is held: its hash, its sources and its evidence. -/
def report (b : BlockEnvelope B) :
    Hash32 × Std.ExtTreeMap SourceId Hash32 × List (List SourceEvidence) :=
  (b.canonicalBlockHash, b.sourceBlockHashes, b.events.map (·.sourceEvidence))

variable (h : s.Collected config seen commits) (h' : t.Collected config seen' commits')
  (hp : seen.Perm seen') (height : BlockHeight)

include h h'

theorem Collected.length_le
    (hheld : ∀ height, (s.block? height).isSome = (t.block? height).isSome) :
    commits'.length ≤ commits.length := by
  by_contra hlt
  -- otherwise the next height of one run has been committed in the other
  have hn : commits.length < commits'.length := by omega
  have hheight : commits'[commits.length].blockHeight.toNat =
      config.firstHeight.toNat + commits.length := by
    have hget := getElem_of_eq h'.heights (by simpa using hn)
    simpa using hget
  have hmem : commits'[commits.length].blockHeight ∈ t.committed.retained := by
    rw [h'.mem_retained_iff h'.room]
    omega
  have hpending : commits'[commits.length].blockHeight ∈ s.pending := by
    rw [mem_iff_isSome_getElem?, h'.retained_eq, if_neg (by omega), ← hheld] at hmem
    rwa [mem_iff_isSome_getElem?, h.pending_eq, if_pos hheight.ge]
  have hbeyond := h.beyond _ hpending
  omega

include hp

theorem Collected.isSome_block? : (s.block? height).isSome = (t.block? height).isSome := by
  have hne : atHeight seen height ≠ [] ↔ atHeight seen' height ≠ [] := by
    rw [← length_pos_iff, ← length_pos_iff, (perm_atHeight hp height).length_eq]
  rw [Bool.eq_iff_iff, h.found, h'.found, hne]

theorem Collected.report_block? :
    (s.block? height).map report = (t.block? height).map report := by
  have hsome := h.isSome_block? h' hp height
  rcases hb : s.block? height with _ | b <;> rcases hb' : t.block? height with _ | b'
  · rfl
  · rw [hb, hb'] at hsome
    cases hsome
  · rw [hb, hb'] at hsome
    cases hsome
  · obtain ⟨hhash, hsources, hevidence⟩ := (h.gathered height b hb).eq_of_perm
      (h'.gathered height b' hb') (perm_atHeight hp height) (h.held hb).2
    simp only [Option.map_some, report, hhash, hsources, hevidence]

theorem Collected.length_eq : commits.length = commits'.length :=
  le_antisymm (h'.length_le h fun height => h'.isSome_block? h hp.symm height)
    (h.length_le h' fun height => h.isSome_block? h' hp height)

theorem Collected.keys_pending_eq : s.pending.keys = t.pending.keys := by
  refine keys_eq_of_pairwise t.pending.ordered_keys ?_
  intro height
  rw [Std.ExtTreeMap.mem_keys, mem_iff_isSome_getElem?, mem_iff_isSome_getElem?, h.pending_eq,
    h'.pending_eq, h.length_eq h' hp]
  split
  next => rw [h.isSome_block? h' hp]
  next => rfl

theorem Collected.report_pending :
    s.pending[height]?.map report = t.pending[height]?.map report := by
  rw [h.pending_eq, h'.pending_eq, h.length_eq h' hp]
  split
  next => exact h.report_block? h' hp height
  next => rfl

theorem Collected.report_retained :
    s.committed.retained[height]?.map report = t.committed.retained[height]?.map report := by
  rw [h.retained_eq, h'.retained_eq, h.length_eq h' hp]
  split
  next => rfl
  next => exact h.report_block? h' hp height

theorem Collected.heights_eq : commits.map (·.blockHeight) = commits'.map (·.blockHeight) := by
  have hnat : (commits.map (·.blockHeight)).map UInt64.toNat =
      (commits'.map (·.blockHeight)).map UInt64.toNat := by
    rw [List.map_map, List.map_map]
    exact h.heights.trans ((h.length_eq h' hp) ▸ h'.heights.symm)
  exact map_injective_iff.mpr (fun _ _ => UInt64.toNat.inj) hnat

theorem Collected.commits_eq
    (hhash : ∀ c ∈ seen, ∀ c' ∈ seen, c.block.blockHeight = c'.block.blockHeight →
      c.block.canonicalBlockHash = c'.block.canonicalBlockHash) :
    commits.map (fun b => (b.blockHeight, b.canonicalBlockHash)) =
      commits'.map (fun b => (b.blockHeight, b.canonicalBlockHash)) := by
  have hheights := h.heights_eq h' hp
  refine ext_getElem (by simpa using h.length_eq h' hp) ?_
  intro i hi hi'
  rw [length_map] at hi hi'
  rw [getElem_map, getElem_map]
  have hheight : commits[i].blockHeight = commits'[i].blockHeight := by
    have hget : (commits.map (·.blockHeight))[i]? = (commits'.map (·.blockHeight))[i]? := by
      rw [hheights]
    simpa [getElem?_eq_getElem hi, getElem?_eq_getElem hi'] using hget
  obtain ⟨c, hc, hsame⟩ := h.reported _ (getElem_mem hi)
  obtain ⟨c', hc', hsame'⟩ := h'.reported _ (getElem_mem hi')
  have hcc := hhash c hc c' (hp.mem_iff.mpr hc')
    (hsame.blockHeight.symm.trans (hheight.trans hsame'.blockHeight))
  rw [hheight, BlockEnvelope.canonicalBlockHash_of_sameContent hsame, hcc,
    ← BlockEnvelope.canonicalBlockHash_of_sameContent hsame']

end Permuted

/-- Candidates of the committed lane that contradict each other in nothing: one hash for each
height, one source hash for each source of a height, one content for each piece of evidence. -/
structure Consistent (candidates : List (BlockCandidate B)) : Prop where
  committed : ∀ c ∈ candidates, c.isCommitted = true
  hash : ∀ c ∈ candidates, ∀ c' ∈ candidates, c.block.blockHeight = c'.block.blockHeight →
    c.block.canonicalBlockHash = c'.block.canonicalBlockHash
  source : ∀ c ∈ candidates, ∀ c' ∈ candidates, c.block.blockHeight = c'.block.blockHeight →
    c.sourceId = c'.sourceId → c.sourceHash = c'.sourceHash
  evidence : ∀ c ∈ candidates, ∀ c' ∈ candidates, ∀ e ∈ c.block.events, ∀ e' ∈ c'.block.events,
    ∀ x ∈ e.sourceEvidence, ∀ y ∈ e'.sourceEvidence, x.conflicts y = false

variable {candidates candidates' : List (BlockCandidate B)} {C : PayloadCodec}

theorem heightCount_le_of_subset (h : candidates ⊆ candidates') :
    heightCount candidates ≤ heightCount candidates' := by
  rw [heightCount, heightCount, ← card_toFinset, ← card_toFinset]
  refine Finset.card_le_card ?_
  intro height
  rw [mem_toFinset, mem_toFinset]
  exact fun hmem => map_subset _ h hmem

def onChain (config : SequencerConfig) (c : BlockCandidate B) : Bool :=
  c.block.chainId = config.chainId

theorem Consistent.collected (h : Consistent candidates)
    (hcontent : ∀ c ∈ candidates, ∀ c' ∈ candidates,
      c.block.blockHeight = c'.block.blockHeight → c.block.SameContent c'.block)
    (hpending : heightCount candidates ≤ config.maxPendingBlocks)
    (hretained : heightCount candidates ≤ config.retainedCommittedBlocks)
    {seen : List (BlockCandidate B)} (hseen : seen ⊆ candidates) :
    Collected config (seen.filter (onChain config)) (CanonicalSequencer.commits config seen)
      (after config seen) ∧
    ∀ r ∈ returned config seen, ∀ ds, r = .ok ds → ∀ record, .quarantine record ∉ ds := by
  induction seen using reverseRecOn with
  | nil => exact ⟨collected_new config, by simp [returned, Run.outputs]⟩
  | append_singleton seen c ih =>
    have hsub : seen ⊆ candidates := fun c' hc' => hseen (mem_append_left _ hc')
    have hc : c ∈ candidates := hseen (by simp)
    obtain ⟨hs, hquiet⟩ := ih hsub
    have hfilter : ∀ c' ∈ seen.filter (onChain config), c' ∈ candidates :=
      fun c' hc' => hsub (mem_filter.mp hc').1
    rw [after_concat, commits_append, returned_concat, filter_append]
    simp only [Run.outputs, flatMap_cons, flatMap_nil, append_nil]
    by_cases hchain : c.block.chainId = config.chainId
    · have hkeep : [c].filter (onChain config) = [c] := by simp [onChain, hchain]
      have hall : seen.filter (onChain config) ++ [c] ⊆ candidates := by
        intro c' hc'
        rcases mem_append.mp hc' with hc' | hc'
        · exact hfilter c' hc'
        · rwa [mem_singleton.mp hc']
      have haccepted : (after config seen).Accepted c :=
        ⟨h.committed c hc, by rw [hs.configured, hchain], hs.green⟩
      have hagrees : AgreesWith (seen.filter (onChain config)) c :=
        ⟨fun c' hc' => hcontent c' (hfilter c' hc') c hc,
          fun c' hc' => h.source c' (hfilter c' hc') c hc,
          fun c' hc' => h.evidence c' (hfilter c' hc') c hc⟩
      obtain ⟨hcollected, ds, hds, hnone⟩ := hs.observe haccepted hagrees
        ((heightCount_le_of_subset hall).trans hpending)
        ((heightCount_le_of_subset hall).trans hretained)
      rw [hkeep]
      refine ⟨hcollected, forall_mem_append.mpr ⟨hquiet, forall_mem_singleton.mpr ?_⟩⟩
      rw [hds]
      rintro _ ⟨⟩
      exact hnone
    · -- a candidate of another chain is refused
      have hskip : [c].filter (onChain config) = [] := by simp [onChain, hchain]
      have hrefused : (after config seen).observe c = (.error (.chainMismatch config.chainId
          c.block.chainId), after config seen) := by
        rw [CanonicalSequencer.observe, hs.configured, if_pos hchain]
      rw [hskip, hrefused, append_nil]
      refine ⟨by simpa [committedIn] using hs,
        forall_mem_append.mpr ⟨hquiet, forall_mem_singleton.mpr ?_⟩⟩
      rintro _ ⟨⟩

/-- Consistent candidates are committed, held and merged alike in every order of arrival. -/
theorem observe_order_independent (hp : candidates.Perm candidates') (h : Consistent candidates)
    (hfree : BlockEnvelope.CollisionFree {b | ∃ c ∈ candidates, b = c.block})
    (hreported : ∀ c ∈ candidates, c.block.Framed ∧ ∀ e ∈ c.block.events, e.Encoded B C)
    (hpending : heightCount candidates ≤ config.maxPendingBlocks)
    (hretained : heightCount candidates ≤ config.retainedCommittedBlocks) :
    let s := after config candidates
    let t := after config candidates'
    (CanonicalSequencer.commits config candidates).map
        (fun b => (b.blockHeight, b.canonicalBlockHash)) =
      (CanonicalSequencer.commits config candidates').map
        (fun b => (b.blockHeight, b.canonicalBlockHash)) ∧
    ((CanonicalSequencer.commits config candidates').map (·.blockHeight)).Pairwise (· < ·) ∧
    (∀ r ∈ returned config candidates', ∀ ds, r = .ok ds → ∀ record, .quarantine record ∉ ds) ∧
    s.committed.current = t.committed.current ∧ s.pending.keys = t.pending.keys ∧
    s.outstandingGap = t.outstandingGap ∧
    ∀ height : BlockHeight,
      s.committed.retained[height]?.map report = t.committed.retained[height]?.map report ∧
      s.pending[height]?.map report = t.pending[height]?.map report := by
  intro s t
  have hrep : ∀ c ∈ candidates, c.block.Reported C := fun c hc =>
    ⟨(hreported c hc).1, (hreported c hc).2, fun _ => supersededEventId_of_candidate c⟩
  have hcontent : ∀ c ∈ candidates, ∀ c' ∈ candidates,
      c.block.blockHeight = c'.block.blockHeight → c.block.SameContent c'.block := by
    intro c hc c' hc' hheight
    exact BlockEnvelope.sameContent_of_canonicalBlockHash hfree ⟨c, hc, rfl⟩ ⟨c', hc', rfl⟩
      (hrep c hc) (hrep c' hc') (h.hash c hc c' hc' hheight)
  obtain ⟨hs, -⟩ := h.collected hcontent hpending hretained (List.Subset.refl candidates)
  obtain ⟨ht, hquiet⟩ := h.collected hcontent hpending hretained hp.symm.subset
  have hperm := hp.filter (onChain config)
  have hhash : ∀ c ∈ candidates.filter (onChain config), ∀ c' ∈ candidates.filter (onChain config),
      c.block.blockHeight = c'.block.blockHeight →
        c.block.canonicalBlockHash = c'.block.canonicalBlockHash := fun c hc c' hc' =>
    h.hash c (mem_filter.mp hc).1 c' (mem_filter.mp hc').1
  have hheights := hs.heights_eq ht hperm
  have hkeys := hs.keys_pending_eq ht hperm
  refine ⟨hs.commits_eq ht hperm hhash, ?_, hquiet, ?_, hkeys, ?_,
    fun height => ⟨hs.report_retained ht hperm height, hs.report_pending ht hperm height⟩⟩
  · have hrange : ((CanonicalSequencer.commits config candidates').map
        (·.blockHeight.toNat)).Pairwise (· < ·) := by
      rw [ht.heights]
      exact pairwise_lt_range'
    rw [pairwise_map] at hrange ⊢
    exact hrange.imp UInt64.lt_iff_toNat_lt.mpr
  · rw [hs.current, ht.current, ← getLast?_map, ← getLast?_map, hheights]
  · rw [hs.outstandingGap_eq, ht.outstandingGap_eq, minKey?_eq_head?_keys,
      minKey?_eq_head?_keys, hkeys, hs.length_eq ht hperm]

section Sample

open CanonicalLedger

def nodeThenArchive : List (BlockCandidate sumBlake3) :=
  [haltReport nodeSource 7, haltReport archiveSource 7]

theorem mem_nodeThenArchive {c : BlockCandidate sumBlake3} (hc : c ∈ nodeThenArchive) :
    c = haltReport nodeSource 7 ∨ c = haltReport archiveSource 7 := by
  simpa [nodeThenArchive] using hc

theorem nodeThenArchive_consistent : Consistent nodeThenArchive where
  committed c hc := by
    rcases mem_nodeThenArchive hc with rfl | rfl <;> rfl
  hash c hc c' hc' _ := by
    rcases mem_nodeThenArchive hc with rfl | rfl <;>
      rcases mem_nodeThenArchive hc' with rfl | rfl <;> rfl
  source c hc c' hc' _ _ := by
    rcases mem_nodeThenArchive hc with rfl | rfl <;>
      rcases mem_nodeThenArchive hc' with rfl | rfl <;> decide +kernel
  evidence c hc c' hc' := by
    rcases mem_nodeThenArchive hc with rfl | rfl <;>
      rcases mem_nodeThenArchive hc' with rfl | rfl <;> decide +kernel

/-- Two sources report height 7 in either order; it is committed with the evidence of both. -/
theorem observe_order_independent_halt :
    (after sampleConfig nodeThenArchive).committed.current = some 7 ∧
      (after sampleConfig nodeThenArchive).committed.retained[(7 : BlockHeight)]?.map report =
        (after sampleConfig nodeThenArchive.reverse).committed.retained[(7 : BlockHeight)]?.map
          report := by
  have hfree : BlockEnvelope.CollisionFree {b | ∃ c ∈ nodeThenArchive, b = c.block} := by
    refine haltBlock_collisionFree ?_
    rintro b ⟨c, hc, rfl⟩
    rcases mem_nodeThenArchive hc with rfl | rfl
    · exact ⟨nodeSource, rfl⟩
    · exact ⟨archiveSource, rfl⟩
  have hreported : ∀ c ∈ nodeThenArchive, c.block.Framed ∧
      ∀ e ∈ c.block.events, e.Encoded sumBlake3 haltCodec := by
    intro c hc
    rcases mem_nodeThenArchive hc with rfl | rfl
    · exact ⟨(haltBlock_reported nodeSource).framed, (haltBlock_reported nodeSource).encoded⟩
    · exact ⟨(haltBlock_reported archiveSource).framed, (haltBlock_reported archiveSource).encoded⟩
  have hpending : heightCount nodeThenArchive ≤ sampleConfig.maxPendingBlocks := by decide +kernel
  have hretained : heightCount nodeThenArchive ≤ sampleConfig.retainedCommittedBlocks := by
    decide +kernel
  obtain ⟨-, -, -, -, -, -, hreport⟩ := observe_order_independent (reverse_perm _).symm
    nodeThenArchive_consistent hfree hreported hpending hretained
  exact ⟨by decide +kernel, (hreport 7).1⟩

end Sample

end CanonicalSequencer

end AlphaDesk
