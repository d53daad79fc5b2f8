import AlphaDesk.Sequencer.Invariant

/-! # The lanes of the sequencer

The two lanes keep separate watermarks but share the red latch. Deleting the
provisional candidates from a run leaves the committed lane as it is exactly when
no candidate of that lane arrives after a provisional one has latched it.
-/

namespace AlphaDesk

variable {B : Blake3}

namespace CanonicalSequencer

variable {s t : CanonicalSequencer B} {config : SequencerConfig} {c : BlockCandidate B}

/-- The sequencer without what only the provisional lane and the operator read. -/
def committedSide (s : CanonicalSequencer B) : CanonicalSequencer B :=
  { s with provisional := .new s.config.retainedCommittedBlocks, quarantines := [] }

@[simp] theorem nextCommittedHeight_committedSide :
    s.committedSide.nextCommittedHeight = s.nextCommittedHeight := rfl

@[simp] theorem gapOfPending_committedSide : s.committedSide.gapOfPending = s.gapOfPending := rfl

@[simp] theorem latchDivergence_committedSide (record : QuarantineRecord) :
    (s.committedSide.latchDivergence record).committedSide =
      (s.latchDivergence record).committedSide := by
  have hred : s.committedSide.redIncidentId = s.redIncidentId := rfl
  unfold latchDivergence
  rw [hred]
  split <;> rfl

theorem drainContiguous_committedSide (fuel : ℕ) (s : CanonicalSequencer B) :
    s.committedSide.drainContiguous fuel =
      ((s.drainContiguous fuel).1, (s.drainContiguous fuel).2.committedSide) := by
  induction fuel generalizing s with
  | zero => rfl
  | succ fuel ih =>
    have hpending : s.committedSide.pending = s.pending := rfl
    rw [drainContiguous, drainContiguous, nextCommittedHeight_committedSide, hpending]
    split
    next => rfl
    next next _ =>
      split
      next => rfl
      next block _ =>
        have hrest := ih { s with
          pending := s.pending.erase next
          committed := s.committed.advance block }
        have hfst := congrArg Prod.fst hrest
        have hsnd := congrArg Prod.snd hrest
        exact Prod.ext (congrArg (List.cons (.commit block)) hfst) hsnd

theorem refreshGap_committedSide (s : CanonicalSequencer B) (d : List (SequencerDecision B)) :
    s.committedSide.refreshGap d = ((s.refreshGap d).1, (s.refreshGap d).2.committedSide) := by
  have hgap : s.committedSide.outstandingGap = s.outstandingGap := rfl
  unfold refreshGap
  rw [nextCommittedHeight_committedSide, gapOfPending_committedSide, hgap]
  split
  next => rfl
  next =>
    split
    next => split <;> rfl
    next => rfl

theorem insertPending_committedSide (s : CanonicalSequencer B) (block : BlockEnvelope B) :
    s.committedSide.insertPending block =
      ((s.insertPending block).1, (s.insertPending block).2.committedSide) := by
  have hadd : s.committedSide.addPending block = (s.addPending block).committedSide := rfl
  have hsize : (s.addPending block).committedSide.pending.size =
      (s.addPending block).pending.size := rfl
  simp only [insertPending]
  rw [hadd, hsize, drainContiguous_committedSide]
  simp only [refreshGap_committedSide]

theorem resolveMerge_committedSide {store store' : BlockEnvelope B → CanonicalSequencer B}
    (hstore : ∀ merged, (store' merged).committedSide = (store merged).committedSide)
    (outcome : Except MergeError (BlockEnvelope B)) :
    (s.committedSide.resolveMerge c store' outcome).1 = (s.resolveMerge c store outcome).1 ∧
      (s.committedSide.resolveMerge c store' outcome).2.committedSide =
        (s.resolveMerge c store outcome).2.committedSide := by
  rcases outcome with (record | error | ⟨eventId, reason⟩) | merged
  · exact ⟨rfl, latchDivergence_committedSide record⟩
  · exact ⟨rfl, rfl⟩
  · exact ⟨rfl, rfl⟩
  · exact ⟨rfl, hstore merged⟩

theorem observeCommitted_committedSide :
    (s.committedSide.observeCommitted c).1 = (s.observeCommitted c).1 ∧
      (s.committedSide.observeCommitted c).2.committedSide =
        (s.observeCommitted c).2.committedSide := by
  have hred : s.committedSide.redIncidentId = s.redIncidentId := rfl
  have hconfig : s.committedSide.config = s.config := rfl
  have hcommitted : s.committedSide.committed = s.committed := rfl
  have hpending : s.committedSide.pending = s.pending := rfl
  simp only [observeCommitted, hred, hconfig, hcommitted, hpending,
    nextCommittedHeight_committedSide]
  split
  next => exact ⟨rfl, rfl⟩
  next =>
    split
    next =>
      have hwatermark : s.committedSide.watermark true = s.watermark true := rfl
      simp only [observeRetained, hwatermark]
      split
      next => exact ⟨rfl, rfl⟩
      next =>
        refine resolveMerge_committedSide ?_ _
        exact fun _ => rfl
    next =>
      split
      next =>
        refine resolveMerge_committedSide ?_ _
        exact fun _ => rfl
      next =>
        split
        next => exact ⟨rfl, rfl⟩
        next =>
          rw [insertPending_committedSide]
          exact ⟨rfl, rfl⟩

theorem observe_committedSide (hc : c.isCommitted = true) :
    (s.committedSide.observe c).1 = (s.observe c).1 ∧
      (s.committedSide.observe c).2.committedSide = (s.observe c).2.committedSide := by
  have hlane : c.admission.publicationLane = .committedCandidate := of_decide_eq_true hc
  have hconfig : s.committedSide.config = s.config := rfl
  simp only [observe, hlane, hconfig]
  split
  next => exact ⟨rfl, rfl⟩
  next => exact observeCommitted_committedSide

/-- States that agree in what the committed lane reads, but for the latch. -/
structure SameLane (s t : CanonicalSequencer B) : Prop where
  config : s.config = t.config
  committed : s.committed = t.committed
  pending : s.pending = t.pending
  outstandingGap : s.outstandingGap = t.outstandingGap

theorem SameLane.trans {u : CanonicalSequencer B} (h : s.SameLane t) (h' : t.SameLane u) :
    s.SameLane u :=
  ⟨h.config.trans h'.config, h.committed.trans h'.committed, h.pending.trans h'.pending,
    h.outstandingGap.trans h'.outstandingGap⟩

theorem SameLane.committedSide_eq (h : s.SameLane t) (hred : s.redIncidentId = t.redIncidentId) :
    s.committedSide = t.committedSide := by
  simp only [committedSide, h.config, h.committed, h.pending, h.outstandingGap, hred]

theorem sameLane_of_committedSide (h : s.committedSide = t.committedSide) :
    s.SameLane t ∧ s.redIncidentId = t.redIncidentId := by
  simp only [committedSide, CanonicalSequencer.mk.injEq] at h
  exact ⟨⟨h.1, h.2.1, h.2.2.2.1, h.2.2.2.2.1⟩, h.2.2.2.2.2.1⟩

theorem SameLane.observe (h : s.SameLane t) (hred : s.redIncidentId = t.redIncidentId)
    (hc : c.isCommitted = true) :
    (s.observe c).1 = (t.observe c).1 ∧ (s.observe c).2.SameLane (t.observe c).2 ∧
      (s.observe c).2.redIncidentId = (t.observe c).2.redIncidentId := by
  obtain ⟨hs, hs'⟩ := observe_committedSide (s := s) hc
  obtain ⟨ht, ht'⟩ := observe_committedSide (s := t) hc
  rw [h.committedSide_eq hred] at hs hs'
  exact ⟨hs.symm.trans ht, sameLane_of_committedSide (hs'.symm.trans ht')⟩

theorem observe_of_not_committed (hc : c.isCommitted = false) : (s.observe c).2.SameLane s := by
  have hlane : c.admission.publicationLane ≠ .committedCandidate := of_decide_eq_false hc
  have hsame : s.SameLane s := ⟨rfl, rfl, rfl, rfl⟩
  unfold CanonicalSequencer.observe
  split
  next => exact hsame
  next =>
    split
    next heq => exact absurd heq hlane
    next =>
      unfold observeProvisional
      split
      next =>
        simp only [observeRetained]
        split
        next => exact hsame
        next existing _ =>
          rcases compareAndMerge existing c with (record | error | ⟨eventId, reason⟩) | merged
          · simp only [resolveMerge, latchDivergence]
            split <;> exact ⟨rfl, rfl, rfl, rfl⟩
          · exact hsame
          · exact hsame
          · exact ⟨rfl, rfl, rfl, rfl⟩
      next => exact ⟨rfl, rfl, rfl, rfl⟩
    all_goals exact hsame

variable (config) (candidates : List (BlockCandidate B))

/-- What is returned for the candidates of the committed lane, in order. -/
def committedDecisions : List (Except SequencerError (List (SequencerDecision B))) :=
  ((candidates.zip (returned config candidates)).filter (·.1.isCommitted)).map Prod.snd

/-- What the committed lane shows of a run: what its candidates were answered, the watermark,
the pending blocks and the gap. -/
def committedView : List (Except SequencerError (List (SequencerDecision B))) ×
    Option BlockHeight × Std.ExtTreeMap BlockHeight (BlockEnvelope B) × Option GapRange :=
  (committedDecisions config candidates, (after config candidates).committed.current,
    (after config candidates).pending, (after config candidates).outstandingGap)

/-- No provisional candidate has turned the sequencer red. -/
def UnlatchedByProvisional : Prop :=
  Run.Along (fun before c => c.isCommitted = false → (after config before).redIncidentId = none →
    (after config (before ++ [c])).redIncidentId = none) candidates

/-- Every candidate of the committed lane and of the chain arrives before a provisional candidate
has turned the sequencer red. -/
def Undisturbed : Prop :=
  Run.Along (fun before c => c.isCommitted = true → c.block.chainId = config.chainId →
    UnlatchedByProvisional config before) candidates

variable {config candidates}

theorem committedDecisions_concat :
    committedDecisions config (candidates ++ [c]) = committedDecisions config candidates ++
      if c.isCommitted then [((after config candidates).observe c).1] else [] := by
  have hlen : candidates.length = (returned config candidates).length :=
    (Run.length_outputs _ _ _).symm
  have hreturned : returned config (candidates ++ [c]) =
      returned config candidates ++ [((after config candidates).observe c).1] :=
    Run.outputs_concat _ _ _ _
  unfold committedDecisions
  rw [hreturned, List.zip_append hlen, List.filter_append, List.map_append]
  cases hc : c.isCommitted <;> simp [hc]

theorem config_after : (after config candidates : CanonicalSequencer B).config = config :=
  (settled_after config candidates).configured

theorem observe_of_chain_ne (h : c.block.chainId ≠ s.config.chainId) :
    s.observe c = (.error (.chainMismatch s.config.chainId c.block.chainId), s) := if_pos h

theorem redIncidentId_observe (h : s.redIncidentId ≠ none) :
    (s.observe c).2.redIncidentId ≠ none := by
  obtain ⟨incidentId, hred⟩ := Option.ne_none_iff_exists'.mp h
  rw [(observe_of_red hred c).2]
  nofun

theorem sameLane_of_undisturbed (h : Undisturbed config candidates) :
    (after config candidates).SameLane (after config (candidates.filter (·.isCommitted))) ∧
      (UnlatchedByProvisional config candidates →
        (after config candidates).redIncidentId =
          (after config (candidates.filter (·.isCommitted))).redIncidentId) ∧
      (¬UnlatchedByProvisional config candidates →
        (after config candidates).redIncidentId ≠ none ∧
          (after config (candidates.filter (·.isCommitted))).redIncidentId = none) := by
  induction candidates using List.reverseRecOn with
  | nil => exact ⟨⟨rfl, rfl, rfl, rfl⟩, fun _ => rfl, fun hn => absurd Run.along_nil hn⟩
  | append_singleton candidates c ih =>
    obtain ⟨hbefore, hnow⟩ := Run.along_concat.mp h
    obtain ⟨hlane, hun, hla⟩ := ih hbefore
    have hunlatched : UnlatchedByProvisional config (candidates ++ [c]) ↔
        UnlatchedByProvisional config candidates ∧ (c.isCommitted = false →
          (after config candidates).redIncidentId = none →
          (after config (candidates ++ [c])).redIncidentId = none) := Run.along_concat
    rw [hunlatched, List.filter_append, after_concat]
    cases hc : c.isCommitted with
    | false =>
      have hskip : [c].filter (·.isCommitted) = [] := by simp [hc]
      rw [hskip, List.append_nil]
      refine ⟨(observe_of_not_committed hc).trans hlane, ?_, ?_⟩
      · rintro ⟨hu, hstep⟩
        cases hred : (after config candidates).redIncidentId with
        | none =>
          rw [hstep rfl hred, ← hun hu, hred]
        | some incidentId =>
          rw [(observe_of_red hred c).2, ← hun hu, hred]
      · intro hnot
        by_cases hu : UnlatchedByProvisional config candidates
        · -- this candidate set the latch
          have hstep : ¬((after config candidates).redIncidentId = none →
              ((after config candidates).observe c).2.redIncidentId = none) :=
            fun hs => hnot ⟨hu, fun _ => hs⟩
          obtain ⟨hred, hset⟩ := Classical.not_imp.mp hstep
          exact ⟨hset, by rw [← hun hu, hred]⟩
        · exact ⟨redIncidentId_observe (hla hu).1, (hla hu).2⟩
    | true =>
      have hkeep : [c].filter (·.isCommitted) = [c] := by simp [hc]
      rw [hkeep, after_concat]
      by_cases hchain : c.block.chainId = config.chainId
      · have hu := hnow hc hchain
        obtain ⟨-, hlane', hred'⟩ := hlane.observe (hun hu) hc
        exact ⟨hlane', fun _ => hred', fun hnot => absurd ⟨hu, by simp⟩ hnot⟩
      · have hskip : ∀ cs : List (BlockCandidate B),
            ((after config cs).observe c).2 = after config cs := fun cs => by
          rw [observe_of_chain_ne (by rwa [config_after])]
        rw [hskip, hskip]
        exact ⟨hlane, fun hu => hun hu.1, fun hnot => hla fun hu => hnot ⟨hu, by simp⟩⟩

theorem undisturbed_concat :
    Undisturbed config (candidates ++ [c]) ↔ Undisturbed config candidates ∧
      (c.isCommitted = true → c.block.chainId = config.chainId →
        UnlatchedByProvisional config candidates) := Run.along_concat

theorem observe_ne_of_red (hc : c.isCommitted = true) (hs : c.block.chainId = s.config.chainId)
    (hred : s.redIncidentId ≠ none) (hnone : t.redIncidentId = none) :
    (s.observe c).1 ≠ (t.observe c).1 := by
  have hlane : c.admission.publicationLane = .committedCandidate := of_decide_eq_true hc
  obtain ⟨incidentId, hred⟩ := Option.ne_none_iff_exists'.mp hred
  have hawait : (s.observe c).1 = .ok [.awaitOperatorResolution incidentId] := by
    simp only [observe, hs, ne_eq, not_true_eq_false, if_false, hlane, observeCommitted, hred]
  rw [hawait]
  intro heq
  have hobs := observation t c
  generalize t.observe c = out at hobs heq
  cases hobs with
  | awaiting id hid =>
    rw [hnone] at hid
    cases hid
  | inserted =>
    obtain ⟨_, hd⟩ | ⟨_, _, _, hd⟩ | hd := mem_insertPending heq.symm List.mem_cons_self <;>
      cases hd
  | _ => cases heq

theorem committedDecisions_filter_iff :
    committedDecisions config candidates =
      committedDecisions config (candidates.filter (·.isCommitted)) ↔
        Undisturbed config candidates := by
  induction candidates using List.reverseRecOn with
  | nil => exact ⟨fun _ => Run.along_nil, fun _ => rfl⟩
  | append_singleton candidates c ih =>
    rw [undisturbed_concat, ← ih, List.filter_append, committedDecisions_concat]
    cases hc : c.isCommitted with
    | false => simp [hc]
    | true =>
      have hkeep : [c].filter (·.isCommitted) = [c] := by simp [hc]
      rw [hkeep, committedDecisions_concat, hc]
      simp only [if_true, true_implies]
      constructor
      · intro heq
        obtain ⟨hbefore, hlast⟩ := List.append_inj' heq rfl
        refine ⟨hbefore, fun hchain => by_contra fun hlatched => ?_⟩
        obtain ⟨hred, hnone⟩ := (sameLane_of_undisturbed (ih.mp hbefore)).2.2 hlatched
        exact observe_ne_of_red hc (by rw [config_after, hchain]) hred hnone
          (List.singleton_inj.mp hlast)
      · rintro ⟨hbefore, hun⟩
        rw [hbefore]
        by_cases hchain : c.block.chainId = config.chainId
        · obtain ⟨hlane, hred, -⟩ := sameLane_of_undisturbed (ih.mp hbefore)
          rw [(hlane.observe (hred (hun hchain)) hc).1]
        · rw [observe_of_chain_ne (by rwa [config_after]),
            observe_of_chain_ne (by rwa [config_after]), config_after, config_after]

/-- Deleting the provisional candidates leaves the committed lane as it is exactly when it is
undisturbed. So two undisturbed runs that agree on the committed candidates agree on the lane,
and an undisturbed and a disturbed run never do. -/
theorem committedView_iff_undisturbed (config : SequencerConfig) :
    (∀ candidates : List (BlockCandidate B),
      committedView config candidates =
        committedView config (candidates.filter (·.isCommitted)) ↔
          Undisturbed config candidates) ∧
    (∀ candidates candidates' : List (BlockCandidate B),
      candidates.filter (·.isCommitted) = candidates'.filter (·.isCommitted) →
      Undisturbed config candidates →
      (committedView config candidates = committedView config candidates' ↔
        Undisturbed config candidates')) := by
  have hiff : ∀ candidates : List (BlockCandidate B), committedView config candidates =
      committedView config (candidates.filter (·.isCommitted)) ↔
        Undisturbed config candidates := by
    intro candidates
    constructor
    · exact fun h => committedDecisions_filter_iff.mp (congrArg Prod.fst h)
    · intro h
      obtain ⟨hlane, -⟩ := sameLane_of_undisturbed h
      unfold committedView
      rw [committedDecisions_filter_iff.mpr h, hlane.committed, hlane.pending, hlane.outstandingGap]
  refine ⟨hiff, ?_⟩
  intro candidates candidates' hsame h
  rw [(hiff candidates).mpr h, hsame, eq_comm, hiff]

section Sample

open CanonicalLedger

def quietProvisional (height : BlockHeight) (time : ProtocolTime) : BlockCandidate sumBlake3 where
  sourceId := sampleChain
  admission := ⟨.thirdPartyProvisional, .provisionalFeed, .provisional, rfl⟩
  block := quietBlock sumBlake3 sampleChain height time .provisionalSource
  sourced := ⟨rfl, Std.ExtTreeMap.mem_insert_self⟩
  evidence := fun _ h => absurd h List.not_mem_nil
  confirmed := rfl

/-- Two provisional reports of height 9 that differ, and then the first committed block. -/
def disturbedRun : List (BlockCandidate sumBlake3) :=
  [quietProvisional 9 0, quietProvisional 9 1, quietCommitted 7 0]

/-- With the provisional reports nothing is committed; without them height 7 is. -/
theorem committedView_disturbedRun :
    committedView sampleConfig disturbedRun ≠
      committedView sampleConfig (disturbedRun.filter (·.isCommitted)) ∧
    (after sampleConfig disturbedRun).committed.current = none ∧
    (after sampleConfig (disturbedRun.filter (·.isCommitted))).committed.current = some 7 := by
  have hnone : (after sampleConfig disturbedRun).committed.current = none := by decide +kernel
  have hsome : (after sampleConfig (disturbedRun.filter (·.isCommitted))).committed.current =
      some 7 := by decide +kernel
  refine ⟨?_, hnone, hsome⟩
  intro heq
  have hcurrent : (after sampleConfig disturbedRun).committed.current =
      (after sampleConfig (disturbedRun.filter (·.isCommitted))).committed.current :=
    congrArg (fun v => v.2.1) heq
  cases hcurrent

/-- A provisional report that is not contradicted does not disturb the lane. -/
theorem committedView_iff_undisturbed_sample :
    committedView sampleConfig
        ([quietProvisional 9 ⟨0, by decide⟩] ++ [quietCommitted 7 ⟨0, by decide⟩]) =
      committedView sampleConfig [quietCommitted 7 ⟨0, by decide⟩] := by
  have hunlatched : UnlatchedByProvisional sampleConfig [quietProvisional 9 ⟨0, by decide⟩] :=
    Run.along_singleton.mpr fun _ _ => by decide +kernel
  have hprovisional : Undisturbed sampleConfig [quietProvisional 9 ⟨0, by decide⟩] :=
    Run.along_singleton.mpr fun h => absurd h (by decide)
  have halone : Undisturbed sampleConfig [quietCommitted 7 ⟨0, by decide⟩] :=
    Run.along_singleton.mpr fun _ _ => Run.along_nil
  have hboth : Undisturbed sampleConfig
      ([quietProvisional 9 ⟨0, by decide⟩] ++ [quietCommitted 7 ⟨0, by decide⟩]) :=
    undisturbed_concat.mpr ⟨hprovisional, fun _ _ => hunlatched⟩
  refine ((committedView_iff_undisturbed sampleConfig).2 _ _ ?_ hboth).mpr halone
  rfl

end Sample

end CanonicalSequencer

end AlphaDesk
