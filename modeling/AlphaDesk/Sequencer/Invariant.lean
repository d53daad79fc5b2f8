import AlphaDesk.Ledger.Run
import AlphaDesk.Sequencer.Observe

/-! # What every run of the sequencer keeps

The committed heights count up from the first one, the blocks that are pending lie
beyond the next height, and the recorded gap is the one that they leave. Draining
restores this after an insertion; every other observation leaves heights alone.
-/

namespace AlphaDesk

open Option

open List hiding getElem?_insert

open Std.ExtTreeMap

variable {height : BlockHeight}

variable {B : Blake3} {retained : Std.ExtTreeMap BlockHeight (BlockEnvelope B)} {limit fuel : ℕ}

theorem Watermark.keys_evict (hf : retained.size ≤ fuel + limit) :
    (evict limit fuel retained).keys = retained.keys.drop (retained.size - limit) := by
  fun_induction evict limit fuel retained with
  | case1 retained => rw [Nat.sub_eq_zero_of_le (by omega), drop_zero]
  | case2 fuel retained hlt hnone =>
    rw [head?_eq_none_iff.mp hnone, drop_nil]
  | case3 fuel retained hlt oldest ho ih =>
    have hmem : oldest ∈ retained := Std.ExtTreeMap.mem_keys.mp (mem_of_head? ho)
    have hsize := size_erase_of_mem hmem
    rw [ih (by omega), keys_erase_head? ho, drop_tail]
    congr 1
    omega
  | case4 fuel retained hge => rw [Nat.sub_eq_zero_of_le (by omega), drop_zero]

theorem Watermark.getElem?_of_evict {block : BlockEnvelope B}
    (h : (evict limit fuel retained)[height]? = some block) : retained[height]? = some block := by
  fun_induction evict limit fuel retained with
  | case1 | case2 | case4 => exact h
  | case3 fuel retained hlt oldest ho ih =>
    exact getElem?_of_erase (ih h)

variable {existing merged : BlockEnvelope B} {candidate : BlockCandidate B}

theorem BlockEnvelope.tryNew_eq_ok {chainId : ChainId} {blockHeight : BlockHeight}
    {blockTime : ProtocolTime} {confirmationClass : ConfirmationClass}
    {events : List CanonicalEventEnvelope} {hashes : Std.ExtTreeMap SourceId Hash32}
    {block : BlockEnvelope B}
    (h : tryNew B chainId blockHeight blockTime confirmationClass events hashes = .ok block) :
    block.chainId = chainId ∧ block.blockHeight = blockHeight ∧ block.blockTime = blockTime ∧
      block.confirmationClass = confirmationClass ∧ block.events = events ∧
      block.sourceBlockHashes = hashes := by
  revert h
  fun_cases tryNew B chainId blockHeight blockTime confirmationClass events hashes with
  | case1 =>
    rintro ⟨⟩
    exact ⟨rfl, rfl, rfl, rfl, rfl, rfl⟩
  | _ => rintro ⟨⟩

theorem compareAndMerge_eq_ok (h : compareAndMerge existing candidate = .ok merged) :
    existing.canonicalBlockHash = candidate.block.canonicalBlockHash ∧
      sourceHashConflict existing candidate = none ∧
      existing.events.length = candidate.block.events.length ∧
      (existing.events.zip candidate.block.events).mapM (mergeEvent existing) = .ok merged.events ∧
      merged.chainId = existing.chainId ∧ merged.blockHeight = existing.blockHeight ∧
      merged.blockTime = existing.blockTime ∧
      merged.confirmationClass = existing.confirmationClass ∧
      merged.sourceBlockHashes = existing.sourceBlockHashes.insertMany
        candidate.block.sourceBlockHashes.toList := by
  unfold compareAndMerge at h
  obtain ⟨hhash, h⟩ := Except.of_check h
  split at h
  next => cases h
  next hsource =>
    obtain ⟨hlen, h⟩ := Except.of_check h
    obtain ⟨events, hevents, h⟩ := Except.of_bind h
    obtain ⟨hc, hh, ht, hk, rfl, hs⟩ := BlockEnvelope.tryNew_eq_ok (Except.mapError_eq_ok.mp h)
    exact ⟨not_not.mp hhash, hsource, not_not.mp hlen, hevents, hc, hh, ht, hk, hs⟩

namespace CanonicalSequencer

variable {s : CanonicalSequencer B} {config : SequencerConfig} {commits : List (BlockEnvelope B)}
  {block : BlockEnvelope B} {d : SequencerDecision B}

/-- The blocks that a later candidate may be merged with. -/
def Holds (s : CanonicalSequencer B) (block : BlockEnvelope B) : Prop :=
  ∃ height : BlockHeight, s.pending[height]? = some block ∨
    s.committed.retained[height]? = some block ∨ s.provisional.retained[height]? = some block

inductive Observation (s : CanonicalSequencer B) (c : BlockCandidate B) : Outcome B → Prop
  | rejected (error : SequencerError)
      (herror : ∀ eventId reason, error ≠ .invalidMergedEvidence eventId reason) :
    Observation s c (.error error, s)
  | mismatched (existing : BlockEnvelope B) (eventId : Option EventId) (reason : String)
      (hexisting : s.Holds existing)
      (hmerged : compareAndMerge existing c = .error (.invalidEvidence eventId reason)) :
    Observation s c (.error (.invalidMergedEvidence eventId reason), s)
  | awaiting (incidentId : String) (hred : s.redIncidentId = some incidentId) :
    Observation s c (.ok [.awaitOperatorResolution incidentId], s)
  | historical : Observation s c (.ok [.verifyHistoricalBlock c.block.blockHeight c.sourceId
      c.block.canonicalBlockHash], s)
  | mergedRetained (committed : Bool) (existing merged : BlockEnvelope B)
      (hexisting : (s.watermark committed).retained[c.block.blockHeight]? = some existing)
      (hmerged : compareAndMerge existing c = .ok merged) :
    Observation s c (.ok [.recordDuplicate c.block.blockHeight c.sourceId],
      s.setWatermark committed { s.watermark committed with
        retained := (s.watermark committed).retained.insert c.block.blockHeight merged })
  | mergedPending (existing merged : BlockEnvelope B)
      (hexisting : s.pending[c.block.blockHeight]? = some existing)
      (hmerged : compareAndMerge existing c = .ok merged) :
    Observation s c (.ok [.recordDuplicate c.block.blockHeight c.sourceId],
      { s with pending := s.pending.insert c.block.blockHeight merged })
  | diverged (existing : BlockEnvelope B) (record : QuarantineRecord)
      (hmerged : compareAndMerge existing c = .error (.divergence record)) :
    Observation s c (.ok [.quarantine record], s.latchDivergence record)
  | published : Observation s c (.ok [.publishProvisional c.block],
      { s with provisional := s.provisional.advance c.block })
  | inserted (hred : s.redIncidentId = none) (hnew : s.pending[c.block.blockHeight]? = none)
      (hfirst : s.config.firstHeight ≤ c.block.blockHeight)
      (habove : ∀ w, s.committed.current = some w → w < c.block.blockHeight)
      (hroom : s.pending.size < s.config.maxPendingBlocks ∨
        s.nextCommittedHeight = some c.block.blockHeight) :
    Observation s c (s.insertPending c.block)

theorem observation_resolveMerge {c : BlockCandidate B} {existing : BlockEnvelope B}
    {store : BlockEnvelope B → CanonicalSequencer B} (hexisting : s.Holds existing)
    (hstore : ∀ merged, compareAndMerge existing c = .ok merged → Observation s c
      (.ok [.recordDuplicate c.block.blockHeight c.sourceId], store merged)) :
    Observation s c (s.resolveMerge c store (compareAndMerge existing c)) := by
  rcases h : compareAndMerge existing c with (record | error | ⟨eventId, reason⟩) | merged
  · exact .diverged existing record h
  · exact .rejected _ nofun
  · exact .mismatched existing eventId reason hexisting h
  · exact hstore merged h

theorem observation_observeRetained (c : BlockCandidate B) (committed : Bool) :
    Observation s c (s.observeRetained c committed) := by
  simp only [observeRetained]
  split
  next => exact .historical
  next existing he =>
    refine observation_resolveMerge ⟨c.block.blockHeight, ?_⟩ fun merged hm =>
      .mergedRetained committed existing merged he hm
    cases committed with
    | true => exact .inr (.inl he)
    | false => exact .inr (.inr he)

theorem observation_observeCommitted (c : BlockCandidate B) :
    Observation s c (s.observeCommitted c) := by
  fun_cases observeCommitted s c with
  | case1 incidentId hred => exact .awaiting incidentId hred
  | case2 => exact observation_observeRetained c true
  | case3 hred height hheight existing he =>
    exact observation_resolveMerge ⟨c.block.blockHeight, .inl he⟩ fun merged hm =>
      .mergedPending existing merged he hm
  | case4 => exact .rejected _ nofun
  | case5 hred height hheight hnew hroom =>
    have hfirst : s.config.firstHeight ≤ c.block.blockHeight :=
      UInt64.not_lt.mp fun h => hheight (.inl h)
    refine .inserted hred hnew hfirst ?_ ?_
    · intro w hw
      refine UInt64.not_le.mp fun h => hheight (.inr ?_)
      simp [hw, h, height]
    · by_cases hsize : s.pending.size < s.config.maxPendingBlocks
      · exact .inl hsize
      · refine .inr (by_contra fun hne => hroom ⟨by omega, fun h => hne h.symm⟩)

theorem observation (s : CanonicalSequencer B) (c : BlockCandidate B) :
    Observation s c (s.observe c) := by
  fun_cases observe s c with
  | case2 => exact observation_observeCommitted c
  | case3 =>
    fun_cases observeProvisional s c with
    | case1 => exact observation_observeRetained c false
    | case2 => exact .published
  | _ => exact .rejected _ nofun

/-- The state follows the commits, and what is pending is not below the next height. -/
structure Aligned (config : SequencerConfig) (commits : List (BlockEnvelope B))
    (s : CanonicalSequencer B) : Prop where
  configured : s.config = config
  limit : s.committed.retainedLimit = config.retainedCommittedBlocks
  heights : commits.map (·.blockHeight.toNat) =
    range' config.firstHeight.toNat commits.length
  current : s.committed.current = commits.getLast?.map (·.blockHeight)
  retained : s.committed.retained.keys =
    (commits.drop (commits.length - config.retainedCommittedBlocks)).map (·.blockHeight)
  stored : ∀ (height : BlockHeight) (block : BlockEnvelope B),
    s.pending[height]? = some block → block.blockHeight = height
  pending : ∀ height ∈ s.pending, config.firstHeight.toNat + commits.length ≤ height.toNat

theorem height_of_last {first : ℕ}
    (h : (commits ++ [block]).map (·.blockHeight.toNat) =
      range' first (commits ++ [block]).length) :
    block.blockHeight.toNat = first + commits.length := by
  rw [length_append, length_singleton, range'_1_concat, map_append] at h
  exact singleton_inj.mp (append_inj_right h (by simp))

theorem Aligned.nextCommittedHeight_eq_some_iff (h : s.Aligned config commits) :
    s.nextCommittedHeight = some height ↔
      height.toNat = config.firstHeight.toNat + commits.length := by
  have hcurrent := h.current
  rcases eq_nil_or_concat commits with rfl | ⟨before, last, rfl⟩
  · simp only [getLast?_nil, map_none] at hcurrent
    simp only [nextCommittedHeight, hcurrent, h.configured, some.injEq, length_nil,
      Nat.add_zero]
    rw [eq_comm, UInt64.toNat_inj]
  · rw [concat_eq_append] at hcurrent h ⊢
    have hlast := height_of_last h.heights
    rw [getLast?_concat, map_some] at hcurrent
    simp only [nextCommittedHeight, hcurrent, length_append, length_singleton]
    have hlt := height.toNat_lt_size
    split
    next hroom =>
      have hnat : (last.blockHeight + 1).toNat = last.blockHeight.toNat + 1 := by
        rw [UInt64.toNat_add]
        exact Nat.mod_eq_of_lt hroom
      rw [some.injEq, ← UInt64.toNat_inj, hnat, hlast]
      omega
    next hfull =>
      constructor
      · intro hnone
        cases hnone
      · intro heq
        omega

theorem Aligned.advance (h : s.Aligned config commits) {next : BlockHeight}
    (hnext : s.nextCommittedHeight = some next) (hblock : s.pending[next]? = some block) :
    Aligned config (commits ++ [block])
      { s with pending := s.pending.erase next, committed := s.committed.advance block } := by
  have hheight := h.nextCommittedHeight_eq_some_iff.mp hnext
  have hb : block.blockHeight = next := h.stored next block hblock
  have hbelow : ∀ a ∈ s.committed.retained, compare a block.blockHeight = .lt := by
    intro a ha
    rw [← Std.ExtTreeMap.mem_keys, h.retained] at ha
    obtain ⟨b, hmem, rfl⟩ := mem_map.mp ha
    have hlt := mem_range'_1.mp (h.heights ▸ mem_map_of_mem (mem_of_mem_drop hmem))
    rw [Std.compare_eq_lt, UInt64.lt_iff_toNat_lt, hb]
    omega
  refine ⟨h.configured, h.limit, ?_, ?_, ?_, ?_, ?_⟩
  · rw [map_append, h.heights, length_append, length_singleton,
      range'_1_concat, map_singleton, hb, hheight]
  · simp [Watermark.advance]
  · have hkeys := keys_insert_greatest block hbelow
    have hlen : (s.committed.retained.insert block.blockHeight block).size =
        (s.committed.retained.keys ++ [block.blockHeight]).length := by
      rw [← hkeys, length_keys]
    simp only [Watermark.advance]
    rw [Watermark.keys_evict (Nat.le_add_right _ _), hkeys, hlen, h.limit, h.retained,
      map_drop, map_drop, ← drop_append_of_le_length (by simp), drop_drop]
    simp only [length_append, length_drop, length_map, length_singleton,
      map_append, map_singleton]
    congr 1
    omega
  · exact fun height b hp => h.stored height b (getElem?_of_erase hp)
  · intro height hp
    rw [mem_erase] at hp
    have hge := h.pending height hp.2
    have hne : height.toNat ≠ next.toNat := fun heq => hp.1 (by
      rw [UInt64.toNat_inj.mp heq]
      exact Std.ReflCmp.compare_self)
    rw [length_append, length_singleton]
    omega

@[simp] theorem committedBlocks_commit (block : BlockEnvelope B) (d : List (SequencerDecision B)) :
    committedBlocks (.commit block :: d) = block :: committedBlocks d := rfl

theorem drainContiguous_frame (fuel : ℕ) (s : CanonicalSequencer B) :
    ∃ pending committed,
      (s.drainContiguous fuel).2 = { s with pending := pending, committed := committed } := by
  fun_induction drainContiguous fuel s with
  | case1 | case2 | case3 => exact ⟨_, _, rfl⟩
  | case4 fuel s next hnext block hblock rest ih =>
    obtain ⟨pending, committed, h⟩ := ih
    exact ⟨pending, committed, h⟩

theorem Aligned.stay (h : s.Aligned config commits)
    (hne : ∀ height ∈ s.pending, s.nextCommittedHeight ≠ some height) :
    Aligned config (commits ++ []) s ∧ (∀ height ∈ s.pending, config.firstHeight.toNat +
      (commits ++ []).length < height.toNat) ∧ s.pending.size + 0 = s.pending.size := by
  rw [append_nil]
  refine ⟨h, fun height hp => ?_, rfl⟩
  have hge := h.pending height hp
  have hnot := mt h.nextCommittedHeight_eq_some_iff.mpr (hne height hp)
  omega

theorem Aligned.drain (h : s.Aligned config commits) (hf : s.pending.size ≤ fuel) :
    Aligned config (commits ++ committedBlocks (s.drainContiguous fuel).1)
      (s.drainContiguous fuel).2 ∧
    (∀ height ∈ (s.drainContiguous fuel).2.pending, config.firstHeight.toNat +
      (commits ++ committedBlocks (s.drainContiguous fuel).1).length < height.toNat) ∧
    (s.drainContiguous fuel).2.pending.size + (committedBlocks (s.drainContiguous fuel).1).length =
      s.pending.size := by
  fun_induction drainContiguous fuel s generalizing commits with
  | case1 s =>
    have hempty : s.pending = ∅ := eq_empty_iff_size_eq_zero.mpr (by omega)
    exact h.stay (by simp [hempty])
  | case2 fuel s hnone => exact h.stay (by simp [hnone])
  | case3 fuel s next hnext habsent =>
    refine h.stay fun height hp heq => ?_
    obtain rfl := some.inj (hnext.symm.trans heq)
    exact getElem?_eq_none_iff_notMem.mp habsent hp
  | case4 fuel s next hnext block hblock rest =>
    rename_i ih
    have hsize := size_erase_of_mem (mem_iff_getElem?.mpr ⟨block, hblock⟩)
    obtain ⟨ha, hb, hc⟩ := ih (h.advance hnext hblock) (by simp only; omega)
    simp only [append_assoc, singleton_append] at ha hb
    have hc : rest.2.pending.size + (committedBlocks rest.1).length =
      (s.pending.erase next).size := hc
    refine ⟨ha, hb, ?_⟩
    simp only [committedBlocks_commit, length_cons]
    omega

theorem commit_of_mem_drainContiguous (hd : d ∈ (s.drainContiguous fuel).1) :
    ∃ block, d = .commit block := by
  fun_induction drainContiguous fuel s with
  | case1 | case2 | case3 => cases hd
  | case4 fuel s next hnext block hblock rest ih =>
    rcases mem_cons.mp hd with rfl | hd
    · exact ⟨block, rfl⟩
    · exact ih hd

theorem refreshGap_state (s : CanonicalSequencer B) (d : List (SequencerDecision B)) :
    (s.refreshGap d).2 = { s with outstandingGap := s.gapOfPending } := by
  fun_cases refreshGap s d with
  | case1 hnone => simp [gapOfPending, hnone]
  | case2 | case3 => rfl
  | case4 _ _ heq => rw [not_not.mp heq]

theorem committedBlocks_refreshGap (s : CanonicalSequencer B) (d : List (SequencerDecision B)) :
    committedBlocks (s.refreshGap d).1 = committedBlocks d := by
  fun_cases refreshGap s d with
  | case1 | case3 | case4 => rfl
  | case2 => simp [committedBlocks]

theorem committedBlocks_orAwait (d : List (SequencerDecision B)) :
    committedBlocks (if d.isEmpty then [.awaitMoreEvidence] else d) = committedBlocks d := by
  cases d <;> rfl

theorem insertPending_eq (s : CanonicalSequencer B) (block : BlockEnvelope B) :
    ∃ d, s.insertPending block = (.ok d,
        { ((s.addPending block).drainContiguous (s.addPending block).pending.size).2 with
          outstandingGap := ((s.addPending block).drainContiguous
            (s.addPending block).pending.size).2.gapOfPending }) ∧
      committedBlocks d = committedBlocks
        ((s.addPending block).drainContiguous (s.addPending block).pending.size).1 := by
  refine ⟨_, Prod.ext rfl (refreshGap_state _ _), ?_⟩
  rw [committedBlocks_orAwait, committedBlocks_refreshGap]

theorem mem_insertPending {ds : List (SequencerDecision B)} (h : (s.insertPending block).1 = .ok ds)
    (hd : d ∈ ds) :
    (∃ committed, d = .commit committed) ∨
      (∃ incidentId start endInclusive, d = .requestGap incidentId start endInclusive) ∨
      d = .awaitMoreEvidence := by
  obtain rfl := Except.ok.inj h
  split at hd
  next => exact .inr (.inr (mem_singleton.mp hd))
  next =>
    have hrefresh : ∀ (t : CanonicalSequencer B) (ds : List (SequencerDecision B)),
        d ∈ (t.refreshGap ds).1 → d ∈ ds ∨
          ∃ incidentId start endInclusive, d = .requestGap incidentId start endInclusive := by
      intro t ds
      fun_cases refreshGap t ds with
      | case1 | case3 | case4 => exact .inl
      | case2 =>
        intro hmem
        rcases mem_append.mp hmem with hmem | hmem
        · exact .inl hmem
        · exact .inr ⟨_, _, _, mem_singleton.mp hmem⟩
    rcases hrefresh _ _ hd with hd | hgap
    · exact .inl (commit_of_mem_drainContiguous hd)
    · exact .inr (.inl hgap)

structure Settled (config : SequencerConfig) (commits : List (BlockEnvelope B))
    (s : CanonicalSequencer B) : Prop extends Aligned config commits s where
  beyond : ∀ height ∈ s.pending, config.firstHeight.toNat + commits.length < height.toNat
  capacity : s.pending.size ≤ config.maxPendingBlocks
  gap : s.outstandingGap = s.gapOfPending

theorem settled_new (config : SequencerConfig) : Settled config [] (new (B := B) config) := by
  refine { configured := rfl, limit := rfl, heights := rfl, current := rfl, retained := ?_,
           stored := ?_, pending := ?_, beyond := ?_, capacity := ?_, gap := ?_ }
  · simp [new, Watermark.new]
  · intro height block h
    simp [new] at h
  · exact fun height h => absurd h not_mem_empty
  · exact fun height h => absurd h not_mem_empty
  · simp [new]
  · simp [new, gapOfPending, nextCommittedHeight, Watermark.new]

/-- The invariant reads the committed side of the state only. -/
theorem Settled.frame {t : CanonicalSequencer B} (h : s.Settled config commits)
    (hconfig : t.config = s.config) (hcommitted : t.committed = s.committed)
    (hpending : t.pending = s.pending) (hgap : t.outstandingGap = s.outstandingGap) :
    Settled config commits t := by
  have hg : t.gapOfPending = s.gapOfPending := by
    simp only [gapOfPending, nextCommittedHeight, hconfig, hcommitted, hpending]
  exact { configured := hconfig.trans h.configured, limit := hcommitted ▸ h.limit,
          heights := h.heights, current := hcommitted ▸ h.current,
          retained := hcommitted ▸ h.retained, stored := hpending ▸ h.stored,
          pending := hpending ▸ h.pending, beyond := hpending ▸ h.beyond,
          capacity := hpending ▸ h.capacity, gap := hgap.trans (h.gap.trans hg.symm) }

theorem Settled.mergedRetained (h : s.Settled config commits)
    (hmem : height ∈ s.committed.retained) :
    Settled config commits { s with committed := { s.committed with
      retained := s.committed.retained.insert height merged } } := by
  refine { configured := h.configured, limit := h.limit, heights := h.heights,
           current := h.current, retained := ?_, stored := h.stored, pending := h.pending,
           beyond := h.beyond, capacity := h.capacity, gap := h.gap }
  rw [keys_insert_of_mem _ hmem, h.retained]

theorem Settled.mergedPending (h : s.Settled config commits) (hmem : height ∈ s.pending)
    (hmerged : merged.blockHeight = height) :
    Settled config commits { s with pending := s.pending.insert height merged } := by
  have hkeys := keys_insert_of_mem merged hmem
  have hmem' : ∀ a, a ∈ s.pending.insert height merged ↔ a ∈ s.pending := by
    intro a
    rw [← Std.ExtTreeMap.mem_keys, hkeys, Std.ExtTreeMap.mem_keys]
  refine { configured := h.configured, limit := h.limit, heights := h.heights,
           current := h.current, retained := h.retained, stored := ?_, pending := ?_,
           beyond := ?_, capacity := ?_, gap := ?_ }
  · exact forall_insert h.stored hmerged
  · exact fun a ha => h.pending a ((hmem' a).mp ha)
  · exact fun a ha => h.beyond a ((hmem' a).mp ha)
  · rw [← length_keys, hkeys, length_keys]
    exact h.capacity
  · rw [h.gap]
    simp only [gapOfPending, nextCommittedHeight, hkeys]

theorem size_addPending (hnew : s.pending[block.blockHeight]? = none) :
    (s.addPending block).pending.size = s.pending.size + 1 := by
  rw [addPending, size_insert, if_neg]
  rw [← mem_iff_contains]
  exact getElem?_eq_none_iff_notMem.mp hnew

theorem Aligned.addPending (h : s.Aligned config commits)
    (hge : config.firstHeight.toNat + commits.length ≤ block.blockHeight.toNat) :
    Aligned config commits (s.addPending block) := by
  refine ⟨h.configured, h.limit, h.heights, h.current, h.retained, ?_, ?_⟩
  · exact forall_insert h.stored rfl
  · intro a hp
    rw [CanonicalSequencer.addPending, mem_insert] at hp
    rcases hp with heq | hp
    · rwa [← Std.LawfulEqCmp.eq_of_compare heq]
    · exact h.pending a hp

/-- A new height between the watermark and the end of the heights is inserted and drained. -/
theorem Settled.insertPending (h : s.Settled config commits)
    (hnew : s.pending[block.blockHeight]? = none) (hfirst : config.firstHeight ≤ block.blockHeight)
    (habove : ∀ w, s.committed.current = some w → w < block.blockHeight)
    (hroom : s.pending.size < config.maxPendingBlocks ∨
      s.nextCommittedHeight = some block.blockHeight) :
    Settled config (commits ++ committedIn (s.insertPending block).1)
      (s.insertPending block).2 := by
  have hge : config.firstHeight.toNat + commits.length ≤ block.blockHeight.toNat := by
    rcases eq_nil_or_concat commits with rfl | ⟨before, last, rfl⟩
    · exact UInt64.le_iff_toNat_le.mp hfirst
    · rw [concat_eq_append] at h ⊢
      have hlast := height_of_last h.heights
      have hlt := UInt64.lt_iff_toNat_lt.mp
        (habove last.blockHeight (by rw [h.current, getLast?_concat]; rfl))
      rw [length_append, length_singleton]
      omega
  have hsize := size_addPending hnew
  have halign := h.toAligned.addPending hge
  obtain ⟨hdrained, hbeyond, hcount⟩ := halign.drain le_rfl
  obtain ⟨d, heq, hd⟩ := insertPending_eq s block
  rw [heq, committedIn, hd]
  refine { toAligned := { hdrained with }, beyond := hbeyond, capacity := ?_, gap := rfl }
  rcases hroom with hroom | hroom
  · simp only
    omega
  · -- the next height itself is taken out again
    have hpos : 0 < (committedBlocks ((s.addPending block).drainContiguous
        (s.addPending block).pending.size).1).length := by
      have hnext : (s.addPending block).nextCommittedHeight = some block.blockHeight := hroom
      have hheld : (s.addPending block).pending[block.blockHeight]? = some block :=
        getElem?_insert_self
      simp [hsize, drainContiguous, hnext, hheld]
    have hle := h.capacity
    simp only
    omega

theorem Settled.observe (h : s.Settled config commits) (c : BlockCandidate B) :
    Settled config (commits ++ committedIn (s.observe c).1) (s.observe c).2 := by
  -- an observation that commits nothing is judged by the state it leaves
  have hnone : ∀ t, Settled config commits t → Settled config (commits ++ []) t := by
    intro t ht
    rwa [append_nil]
  have hobs := observation s c
  generalize s.observe c = out at hobs ⊢
  cases hobs with
  | rejected | mismatched | awaiting | historical => exact hnone _ h
  | mergedRetained committed existing merged he hm =>
    refine hnone _ ?_
    cases committed with
    | true => exact h.mergedRetained (mem_iff_getElem?.mpr ⟨existing, he⟩)
    | false => exact h.frame rfl rfl rfl rfl
  | mergedPending existing merged he hm =>
    obtain ⟨-, -, -, -, -, hheight, -⟩ := compareAndMerge_eq_ok hm
    exact hnone _ (h.mergedPending (mem_iff_getElem?.mpr ⟨existing, he⟩)
      (hheight.trans (h.stored _ _ he)))
  | diverged =>
    refine hnone _ ?_
    unfold latchDivergence
    split <;> exact h.frame rfl rfl rfl rfl
  | published => exact hnone _ (h.frame rfl rfl rfl rfl)
  | inserted _ hnew hfirst habove hroom =>
    rw [h.configured] at hfirst hroom
    exact h.insertPending hnew hfirst habove hroom

theorem observe_of_red {incidentId : String} (hred : s.redIncidentId = some incidentId)
    (c : BlockCandidate B) :
    committedIn (s.observe c).1 = [] ∧ (s.observe c).2.redIncidentId = some incidentId := by
  have hobs := observation s c
  generalize s.observe c = out at hobs ⊢
  cases hobs with
  | rejected | mismatched | awaiting | historical | mergedPending | published =>
    exact ⟨rfl, hred⟩
  | mergedRetained committed =>
    refine ⟨rfl, ?_⟩
    cases committed <;> exact hred
  | diverged =>
    refine ⟨rfl, ?_⟩
    simp only [latchDivergence, hred]
  | inserted hnone =>
    rw [hnone] at hred
    cases hred

theorem observe_error {error : SequencerError} {c : BlockCandidate B}
    (h : (s.observe c).1 = .error error) : (s.observe c).2 = s := by
  have hobs := observation s c
  generalize s.observe c = out at hobs h ⊢
  cases hobs with
  | rejected | mismatched => rfl
  | _ => cases h

section Runs

variable (config) (candidates before after : List (BlockCandidate B)) (c : BlockCandidate B)

theorem after_concat : CanonicalSequencer.after config (candidates ++ [c]) =
    ((CanonicalSequencer.after config candidates).observe c).2 :=
  Run.final_concat _ _ _ _

theorem commits_append : CanonicalSequencer.commits config (before ++ after) =
    CanonicalSequencer.commits config before ++
      (Run.outputs observe (CanonicalSequencer.after config before) after).flatMap
        committedIn := by
  simp only [CanonicalSequencer.commits, returned, Run.outputs_append, flatMap_append]
  rfl

theorem settled_after : Settled config (CanonicalSequencer.commits config candidates)
    (CanonicalSequencer.after config candidates) := by
  induction candidates using reverseRecOn with
  | nil => exact settled_new config
  | append_singleton candidates c ih =>
    rw [after_concat, commits_append]
    simpa [Run.outputs] using ih.observe c

theorem commits_of_red (hred : (CanonicalSequencer.after config before).redIncidentId ≠ none) :
    CanonicalSequencer.commits config (before ++ after) =
      CanonicalSequencer.commits config before := by
  obtain ⟨incidentId, hred⟩ := ne_none_iff_exists'.mp hred
  have hall : ∀ t : CanonicalSequencer B, t.redIncidentId = some incidentId →
      (Run.outputs observe t after).flatMap committedIn = [] := by
    induction after with
    | nil => exact fun _ _ => rfl
    | cons c after ih =>
      intro t ht
      obtain ⟨hnone, hstill⟩ := observe_of_red ht c
      simp only [Run.outputs, flatMap_cons, hnone, nil_append]
      exact ih _ hstill
  rw [commits_append, hall _ hred, append_nil]

end Runs

theorem Settled.outstandingGap_eq (h : s.Settled config commits) :
    s.outstandingGap = s.pending.minKey?.map fun height =>
      ⟨.ofNat (config.firstHeight.toNat + commits.length), .ofNat (height.toNat - 1)⟩ := by
  rw [h.gap, gapOfPending, ← minKey?_eq_head?_keys]
  rcases hmin : s.pending.minKey? with _ | lowest
  · split <;> rfl
  · have hlow := h.beyond lowest (minKey?_mem hmin)
    have hlt := lowest.toNat_lt_size
    have hnat : (UInt64.ofNat (config.firstHeight.toNat + commits.length)).toNat =
        config.firstHeight.toNat + commits.length :=
      UInt64.toNat_ofNat_of_lt' (by omega)
    rw [h.nextCommittedHeight_eq_some_iff.mpr hnat]
    have hfilter : UInt64.ofNat (config.firstHeight.toNat + commits.length) < lowest := by
      rw [UInt64.lt_iff_toNat_lt, hnat]
      exact hlow
    simp only [filter_some, hfilter, decide_true, if_true, map_some]

/-- What holds after every run: the commits count up from the first height, the pending blocks
lie beyond the next one, the gap is the one they leave, the last blocks are retained, a red
sequencer commits nothing more, and a failed call changes nothing. -/
theorem run_invariant (config : SequencerConfig) (candidates : List (BlockCandidate B)) :
    let commits := CanonicalSequencer.commits config candidates
    let s := after config candidates
    commits.map (·.blockHeight.toNat) = range' config.firstHeight.toNat commits.length ∧
    s.committed.current = commits.getLast?.map (·.blockHeight) ∧
    (∀ height ∈ s.pending, config.firstHeight.toNat + commits.length < height.toNat) ∧
    s.pending.size ≤ config.maxPendingBlocks ∧
    s.outstandingGap = s.pending.minKey?.map (fun height =>
      ⟨.ofNat (config.firstHeight.toNat + commits.length), .ofNat (height.toNat - 1)⟩) ∧
    (∀ before later, candidates = before ++ later →
      (after config before).redIncidentId ≠ none →
        commits = CanonicalSequencer.commits config before) ∧
    s.committed.retained.keys = (commits.drop
      (commits.length - config.retainedCommittedBlocks)).map (·.blockHeight) ∧
    ∀ c error, (s.observe c).1 = .error error → (s.observe c).2 = s := by
  intro commits s
  have h : Settled config commits s := settled_after config candidates
  refine ⟨h.heights, h.current, h.beyond, h.capacity, h.outstandingGap_eq, ?_, h.retained,
    fun c error => observe_error⟩
  rintro before later hsplit hred
  have hcommits := commits_of_red config before later hred
  rwa [← hsplit] at hcommits

section Sample

open CanonicalLedger

/-- A block without events; blocks of other times have other hashes. -/
def committedAdmission : SourceAdmission :=
  ⟨.locallyVerifiedCommitted, .committedBlock, .committedCandidate, rfl⟩

def quietCommitted (height : BlockHeight) (time : ProtocolTime) : BlockCandidate sumBlake3 where
  sourceId := sampleChain
  admission := committedAdmission
  block := quietBlock sumBlake3 sampleChain height time .committedPrimary
  sourced := ⟨rfl, mem_insert_self⟩
  evidence := fun _ h => absurd h not_mem_nil
  confirmed := rfl

def sampleConfig : SequencerConfig := ⟨sampleChain, 7, 4, 2, by decide, by decide⟩

/-- Two reports of height 7 that differ. -/
def sampleDivergence : List (BlockCandidate sumBlake3) :=
  [quietCommitted 7 0, quietCommitted 7 1]

/-- After the divergence height 8 is not committed any more. -/
theorem run_invariant_sample :
    (after sampleConfig sampleDivergence).redIncidentId.isSome = true ∧
      CanonicalSequencer.commits sampleConfig
          (sampleDivergence ++ [quietCommitted 8 ⟨0, by decide⟩]) =
        CanonicalSequencer.commits sampleConfig sampleDivergence := by
  have hred : (after sampleConfig sampleDivergence).redIncidentId.isSome = true := by
    decide +kernel
  refine ⟨hred, ?_⟩
  exact (run_invariant sampleConfig _).2.2.2.2.2.1 _ _ rfl (isSome_iff_ne_none.mp hred)

end Sample

end CanonicalSequencer

end AlphaDesk
