import AlphaDesk.Consumer.Assembly
import AlphaDesk.Capture.Plan

/-! # Assembly in any interleaving

The deliveries of several blocks are pushed into an empty assembler one after the
other, in any order. What is held for a block is what came of it, until it is
complete; so every block is assembled at the last of its deliveries, and nothing
is left at the end.
-/

namespace AlphaDesk

open Publication List

variable {B : Blake3} {K : EnvelopeCodec}

namespace BlockAssembler

/-- The assembler behind a list of deliveries, and the replies to them. -/
def pushAll (B : Blake3) (K : EnvelopeCodec) (deliveries : List CanonicalDelivery) :
    BlockAssembler :=
  Run.final (fun s d => (s.push B K d).2) .new deliveries

def replies (B : Blake3) (K : EnvelopeCodec) (deliveries : List CanonicalDelivery) :
    List (Except JetStreamReplayError (Option (AssembledBlock B))) :=
  Run.outputs (fun (s : BlockAssembler) d => s.push B K d) .new deliveries

def assembledBlocks (B : Blake3) (K : EnvelopeCodec) (deliveries : List CanonicalDelivery) :
    List (BlockEnvelope B) :=
  (replies B K deliveries).filterMap fun reply =>
    reply.toOption.join.map AssembledBlock.block

end BlockAssembler

variable {P Q : Publication B K} {held before : List CanonicalDelivery} {d : CanonicalDelivery}

theorem Publication.completeIn_congr (h : P.own held = P.own before) :
    P.CompleteIn held ↔ P.CompleteIn before := by
  rw [← completeIn_own, h, completeIn_own]

theorem Publication.completeIn_concat_of_ne (hd : d ∈ P.deliveries) (hne : Q.hash ≠ P.hash) :
    Q.CompleteIn (before ++ [d]) ↔ Q.CompleteIn before :=
  completeIn_congr (own_concat_of_ne hd hne)

theorem Publication.own_settle_of_ne (hne : Q.hash ≠ P.hash) :
    Q.own (P.settle held) = Q.own held := by
  unfold settle
  split
  · exact own_filter_ne hne
  · rfl

theorem Publication.own_settle : P.own (P.settle held) =
    if P.CompleteIn held then [] else P.own held := by
  unfold settle
  split
  · simp [own, filter_filter]
  · rfl

theorem pendingCount_lt {Ps : List (Publication B K)} (hP : P ∈ Ps) (hown : P.own held = []) :
    pendingCount Ps held < Ps.length :=
  countP_lt_length_iff.mpr ⟨P, hP, by simp [hown]⟩

namespace BlockAssembler

variable {Ps : List (Publication B K)} {order : List CanonicalDelivery} {s : BlockAssembler}

/-- Behind these deliveries, the assembler holds what came of the blocks that are not complete. -/
def Collected (Ps : List (Publication B K)) (before : List CanonicalDelivery)
    (s : BlockAssembler) : Prop :=
  ∃ held, s.Holds Ps held ∧
    ∀ P ∈ Ps, P.own held = if P.CompleteIn before then [] else P.own before

theorem collected_new (Ps : List (Publication B K)) : Collected Ps [] .new :=
  ⟨[], holds_new Ps, by simp [own]⟩

theorem Collected.push (hs : Collected Ps before s) (hPs : (Ps.map Publication.hash).Nodup)
    (hcount : Ps.length ≤ maxPendingBlocks) (hP : P ∈ Ps) (hd : d ∈ P.deliveries)
    (hnew : d ∉ before) :
    (s.push B K d).1 = .ok (if P.CompleteIn (before ++ [d]) then
      some ⟨P.block, (P.own (before ++ [d])).map (·.messageId)⟩ else none) ∧
    Collected Ps (before ++ [d]) (s.push B K d).2 := by
  obtain ⟨held, hheld, hown⟩ := hs
  -- the block is not complete, since this delivery is new
  have hownP : P.own held = P.own before := by
    rw [hown P hP, if_neg fun hc => hnew (hc d hd)]
  have hnew' : d ∉ held := by
    rwa [← mem_own hd, hownP, mem_own hd]
  have hown' : P.own (held ++ [d]) = P.own (before ++ [d]) := by
    rw [own_concat hd, own_concat hd, hownP]
  have hroom : P.own held ≠ [] ∨ pendingCount Ps held < maxPendingBlocks := by
    by_cases h : P.own held = []
    · exact .inr ((pendingCount_lt hP h).trans_le hcount)
    · exact .inl h
  obtain ⟨hreply, hnext⟩ := hheld.push_new hPs hP hd hnew' hroom
  simp only [completeIn_congr hown', hown'] at hreply
  refine ⟨hreply, P.settle (held ++ [d]), hnext, ?_⟩
  intro Q hQ
  by_cases hQP : Q.hash = P.hash
  · obtain rfl := inj_on_of_nodup_map hPs hQ hP hQP
    simp only [own_settle, completeIn_congr hown', hown']
  · rw [own_settle_of_ne hQP, own_concat_of_ne hd hQP, hown Q hQ]
    simp only [completeIn_concat_of_ne hd hQP, own_concat_of_ne hd hQP]

/-- Each delivery comes once, and for one of the blocks. -/
structure Fresh (Ps : List (Publication B K)) (before : List CanonicalDelivery) : Prop where
  nodup : before.Nodup
  made : ∀ d ∈ before, ∃ P ∈ Ps, d ∈ P.deliveries

theorem Fresh.of_append {after : List CanonicalDelivery} (h : Fresh Ps (before ++ after)) :
    Fresh Ps before :=
  ⟨h.nodup.of_append_left, fun d hd => h.made d (mem_append_left _ hd)⟩

theorem Fresh.notMem (h : Fresh Ps (before ++ [d])) : d ∉ before := by
  have hnodup := nodup_append.mp h.nodup
  intro hd
  exact hnodup.2.2 d hd d (mem_singleton_self d) rfl

theorem fresh_of_perm (hPs : (Ps.map Publication.hash).Nodup)
    (horder : order.Perm (Ps.flatMap Publication.deliveries)) : Fresh Ps order := by
  refine ⟨horder.nodup_iff.mpr (nodup_flatMap.mpr ⟨fun P _ => P.nodup_deliveries, ?_⟩), ?_⟩
  · refine (pairwise_map.mp hPs).imp ?_
    intro P Q hne d hdP hdQ
    exact hne ((bears hdP).blockHash.symm.trans (bears hdQ).blockHash)
  · intro d hd
    exact mem_flatMap.mp (horder.mem_iff.mp hd)

theorem collected_pushAll (hPs : (Ps.map Publication.hash).Nodup)
    (hcount : Ps.length ≤ maxPendingBlocks) (h : Fresh Ps before) :
    Collected Ps before (pushAll B K before) := by
  induction before using reverseRecOn with
  | nil => exact collected_new Ps
  | append_singleton before d ih =>
    obtain ⟨P, hP, hd⟩ := h.made d (by simp)
    rw [pushAll, Run.final_concat]
    exact ((ih h.of_append).push hPs hcount hP hd h.notMem).2

theorem assembledBlocks_concat : assembledBlocks B K (before ++ [d]) = assembledBlocks B K before ++
    (((pushAll B K before).push B K d).1.toOption.join.map AssembledBlock.block).toList := by
  rw [assembledBlocks, replies, Run.outputs_concat, filterMap_append]
  rfl

theorem filter_perm_concat {α : Type} {l : List α} {p q : α → Bool} {a : α} (hl : l.Nodup)
    (ha : a ∈ l) (hp : p a = false) (hq : q a = true) (h : ∀ b ∈ l, b ≠ a → q b = p b) :
    (l.filter q).Perm (l.filter p ++ [a]) := by
  have hnodup : (l.filter p ++ [a]).Nodup := by
    refine nodup_append.mpr ⟨hl.filter p, nodup_singleton a, ?_⟩
    rintro b hb c hc rfl
    rw [mem_singleton.mp hc, mem_filter, hp] at hb
    exact Bool.noConfusion hb.2
  refine (perm_ext_iff_of_nodup (hl.filter q) hnodup).mpr ?_
  intro b
  rw [mem_append, mem_filter, mem_filter, mem_singleton]
  by_cases hb : b = a
  · simp [hb, ha, hq]
  · simp only [hb, or_false]
    exact and_congr_right fun hmem => by rw [h b hmem hb]

theorem assembledBlocks_perm (hPs : (Ps.map Publication.hash).Nodup)
    (hcount : Ps.length ≤ maxPendingBlocks) (h : Fresh Ps before) :
    (assembledBlocks B K before).Perm
      ((Ps.filter fun P => P.CompleteIn before).map Publication.block) := by
  induction before using reverseRecOn with
  | nil =>
    have hnone : (Ps.filter fun P => P.CompleteIn []) = [] := by
      rw [filter_eq_nil_iff]
      intro P _ hc
      exact absurd (of_decide_eq_true hc P.marker mem_cons_self) not_mem_nil
    rw [hnone]
    exact .nil
  | append_singleton before d ih =>
    obtain ⟨P, hP, hd⟩ := h.made d (by simp)
    obtain ⟨hreply, -⟩ := (collected_pushAll hPs hcount h.of_append).push hPs hcount hP hd h.notMem
    have hothers : ∀ Q ∈ Ps, Q ≠ P →
        decide (Q.CompleteIn (before ++ [d])) = decide (Q.CompleteIn before) := by
      intro Q hQ hne
      have hhash : Q.hash ≠ P.hash := fun h => hne (inj_on_of_nodup_map hPs hQ hP h)
      simp only [completeIn_concat_of_ne hd hhash]
    have hbefore : decide (P.CompleteIn before) = false :=
      decide_eq_false fun hc => h.notMem (hc d hd)
    rw [assembledBlocks_concat, hreply]
    by_cases hc : P.CompleteIn (before ++ [d])
    · have hperm := filter_perm_concat hPs.of_map hP hbefore (decide_eq_true hc) hothers
      rw [if_pos hc]
      refine ((ih h.of_append).append_right _).trans ?_
      have hmap := (hperm.map Publication.block).symm
      rwa [map_append] at hmap
    · have heq : (Ps.filter fun Q => Q.CompleteIn (before ++ [d])) =
          Ps.filter fun Q => Q.CompleteIn before := by
        refine filter_congr fun Q hQ => ?_
        by_cases hQP : Q = P
        · rw [hQP, hbefore, decide_eq_false hc]
        · exact hothers Q hQ hQP
      rw [if_neg hc, heq]
      change (assembledBlocks B K before ++ []).Perm _
      rw [append_nil]
      exact ih h.of_append

/-- What came of a complete block is all that is made for it. -/
theorem own_perm_deliveries (hPs : (Ps.map Publication.hash).Nodup) (hP : P ∈ Ps)
    (h : Fresh Ps before) (hc : P.CompleteIn before) : (P.own before).Perm P.deliveries := by
  refine (perm_ext_iff_of_nodup (h.nodup.filter _) P.nodup_deliveries).mpr ?_
  intro d
  constructor
  · intro hd
    obtain ⟨hd, hhash⟩ := mem_filter.mp hd
    obtain ⟨Q, hQ, hdQ⟩ := h.made d hd
    have heq : Q.hash = P.hash :=
      (bears hdQ).blockHash.symm.trans (of_decide_eq_true hhash)
    rwa [← inj_on_of_nodup_map hPs hQ hP heq]
  · intro hd
    exact (mem_own hd).mpr (hc d hd)

/-- The deliveries of up to 64 blocks of distinct hashes, in any order: each block is assembled
once, at the last of its deliveries, from all of them, and nothing stays pending. -/
theorem assembles_in_any_order (hcount : Ps.length ≤ maxPendingBlocks)
    (hPs : (Ps.map Publication.hash).Nodup)
    (horder : order.Perm (Ps.flatMap Publication.deliveries)) :
    (∀ before d after, order = before ++ d :: after → ∃ P ∈ Ps, d ∈ P.deliveries ∧
      ((∃ d' ∈ after, d' ∈ P.deliveries) → ((pushAll B K before).push B K d).1 = .ok none) ∧
      ((∀ d' ∈ after, d' ∉ P.deliveries) → ∃ messageIds : List String,
        messageIds.Perm (P.deliveries.map (·.messageId)) ∧
        ((pushAll B K before).push B K d).1 = .ok (some ⟨P.block, messageIds⟩))) ∧
    (assembledBlocks B K order).Perm (Ps.map Publication.block) ∧
    (pushAll B K order).hasPending = false := by
  have hfresh := fresh_of_perm hPs horder
  have hall : ∀ P ∈ Ps, P.CompleteIn order :=
    fun P hP d hd => horder.mem_iff.mpr (mem_flatMap.mpr ⟨P, hP, hd⟩)
  refine ⟨?_, ?_, ?_⟩
  · rintro before d after rfl
    have hfresh' : Fresh Ps (before ++ [d]) := by
      rw [← singleton_append, ← append_assoc] at hfresh
      exact hfresh.of_append
    obtain ⟨P, hP, hd⟩ := hfresh'.made d (by simp)
    obtain ⟨hreply, -⟩ := (collected_pushAll hPs hcount hfresh'.of_append).push hPs hcount hP hd
      hfresh'.notMem
    refine ⟨P, hP, hd, ?_, ?_⟩
    · rintro ⟨d', hd', hdP⟩
      rw [hreply, if_neg]
      intro hc
      -- the later delivery would be there twice
      have hnodup := hfresh.nodup
      rw [← singleton_append, ← append_assoc] at hnodup
      exact (nodup_append.mp hnodup).2.2 d' (hc d' hdP) d' hd' rfl
    · intro hlast
      have hc : P.CompleteIn (before ++ [d]) := by
        intro d' hd'
        have hmem := hall P hP d' hd'
        rw [← singleton_append, ← append_assoc, mem_append] at hmem
        exact hmem.resolve_right fun hafter => hlast d' hafter hd'
      refine ⟨_, ?_, by rw [hreply, if_pos hc]⟩
      exact (own_perm_deliveries hPs hP hfresh' hc).map _
  · have hfilter : (Ps.filter fun P => P.CompleteIn order) = Ps :=
      filter_eq_self.mpr fun P hP => decide_eq_true (hall P hP)
    have hperm := assembledBlocks_perm hPs hcount hfresh
    rwa [hfilter] at hperm
  · obtain ⟨held, hheld, hown⟩ := collected_pushAll hPs hcount hfresh
    have hempty : (pushAll B K order).pending.isEmpty = true := by
      rw [Std.ExtTreeMap.isEmpty_iff, Std.ExtTreeMap.eq_empty_iff_forall_not_mem]
      intro h hmem
      obtain ⟨P, hP, rfl⟩ := hheld.known h hmem
      have habsent := hheld.absent P hP (by rw [hown P hP, if_pos (hall P hP)])
      exact Std.ExtTreeMap.getElem?_eq_none_iff_notMem.mp habsent hmem
    rw [hasPending, hempty]
    rfl

end BlockAssembler

section Sample

open CanonicalLedger

/-- The publication of a block whose deliveries can be made. -/
def Publication.make (block : BlockEnvelope B) (receipt : ArchiveReceipt)
    (hmarker : (committedBlockDelivery K block receipt).toOption.isSome = true)
    (hevents : (block.events.mapM (committedEventDelivery K · block receipt)).toOption.isSome =
      true)
    (admissible : AdmissibleIds block receipt)
    (roundTrip : ∀ event ∈ block.events, ∀ bytes, K.encodeToVec event = .ok bytes →
      K.decode bytes = .ok event) : Publication B K where
  block := block
  receipt := receipt
  marker := Option.get _ hmarker
  events := Option.get _ hevents
  marker_made := Except.mem_toOption.mp (Option.get_mem hmarker)
  events_made := Except.mem_toOption.mp (Option.get_mem hevents)
  admissible := admissible
  roundTrip := roundTrip

def haltingEvent : CanonicalEventEnvelope :=
  sampleEvent 7 [] [] (.marketHalted ⟨sampleChain, "upgrade"⟩) rfl rfl

def haltCodec : EnvelopeCodec := { byteCodec with decode := fun _ => .ok haltingEvent }

/-- The block that halts a market, as one of two sources has it. -/
def haltedAt (twin : Bool) : BlockEnvelope sumBlake3 :=
  { haltedMarket with
    sourceBlockHashes := Std.ExtTreeMap.empty.insert sampleChain
      (.replicate 32 (if twin then 2 else 1))
    sourced := by simp }

theorem haltedAt_admissible (twin : Bool) :
    AdmissibleIds (haltedAt twin) (sampleReceipt (haltedAt twin)) where
  chainId := (by decide +kernel : validIdentity sampleChain.value = true)
  receiptId := (by decide +kernel : validIdentity "receipt" = true)
  manifestId := (by decide +kernel : validIdentity sampleChain.value = true)
  sources := by
    cases twin <;> decide +kernel
  events := by
    intro event hevent
    obtain rfl := mem_singleton.mp hevent
    decide +kernel

def haltedPublication (twin : Bool) : Publication sumBlake3 haltCodec :=
  .make (haltedAt twin) (sampleReceipt (haltedAt twin)) (by cases twin <;> decide +kernel)
    (by cases twin <;> decide +kernel) (haltedAt_admissible twin) (by
      intro event hevent bytes _
      rw [mem_singleton.mp hevent]
      rfl)

/-- The event may come before the marker. -/
theorem assembles_in_any_order_haltedPublication :
    (BlockAssembler.assembledBlocks sumBlake3 haltCodec
      (haltedPublication false).deliveries.reverse).Perm [(haltedPublication false).block] ∧
    (BlockAssembler.pushAll sumBlake3 haltCodec
      (haltedPublication false).deliveries.reverse).hasPending = false := by
  have hperm : (haltedPublication false).deliveries.reverse.Perm
      ([haltedPublication false].flatMap Publication.deliveries) := by
    rw [flatMap_singleton]
    exact reverse_perm _
  have hdistinct : ([haltedPublication false].map Publication.hash).Nodup := nodup_singleton _
  have h := BlockAssembler.assembles_in_any_order (by decide) hdistinct hperm
  exact h.2

/-- Two blocks that differ in the hashes of their sources alone have one hash. The marker of one
is refused while the other is pending. -/
theorem twin_refused :
    (haltedPublication false).block.sourceBlockHashes ≠
      (haltedPublication true).block.sourceBlockHashes ∧
    ((haltedPublication false).marker :: (haltedPublication true).marker ::
      ((haltedPublication false).events ++ (haltedPublication true).events)).Perm
      ([haltedPublication false, haltedPublication true].flatMap Publication.deliveries) ∧
    ((BlockAssembler.pushAll sumBlake3 haltCodec [(haltedPublication false).marker]).push sumBlake3
      haltCodec (haltedPublication true).marker).1.isOk = false := by
  refine ⟨by decide +kernel, ?_, by decide +kernel⟩
  rw [flatMap_cons, flatMap_singleton, Publication.deliveries, Publication.deliveries,
    cons_append]
  exact List.Perm.cons _ perm_middle.symm

end Sample

end AlphaDesk
