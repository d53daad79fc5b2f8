import AlphaDesk.Consumer.Interleaving
import AlphaDesk.Consumer.Rounds
import AlphaDesk.Consumer.Session

/-! # Redelivered messages

Messages may be delivered again at any later place. The consumption of such a sequence
is compared with the one without the copies: both apply the same blocks, and a copy is
harmless when it belongs to a whole round of its block that ends while that block is
still the last one applied.
-/

namespace AlphaDesk

open List Publication

variable {B : Blake3} {K : EnvelopeCodec} {σ : Type}

namespace Consumption

variable {R : EventReducer} {S : AtomicStateStore B σ} {c c' : Consumption σ}
  {block block' : BlockEnvelope B} {messageIds messageIds' : List String}
  {acked : Std.ExtTreeSet String}

theorem mem_ack {id : String} : id ∈ ack acked messageIds ↔ id ∈ acked ∨ id ∈ messageIds := by
  induction messageIds generalizing acked with
  | nil => simp [ack]
  | cons head tail ih =>
    change id ∈ ack (acked.insert head) tail ↔ _
    rw [ih, Std.ExtTreeSet.mem_insert, Std.LawfulEqCmp.compare_eq_iff_eq, mem_cons]
    tauto

theorem ack_congr (h : ∀ id, id ∈ messageIds ↔ id ∈ messageIds') :
    ack acked messageIds = ack acked messageIds' := by
  apply Std.ExtTreeSet.ext_mem
  intro id
  rw [mem_ack, mem_ack, h]

theorem ack_of_subset (h : ∀ id ∈ messageIds, id ∈ acked) : ack acked messageIds = acked := by
  apply Std.ExtTreeSet.ext_mem
  intro id
  rw [mem_ack]
  exact or_iff_left_of_imp (h id)

/-- The two consumptions differ in the assembler and the count of recognised blocks alone. -/
structure Same (c c' : Consumption σ) : Prop where
  ledger : c.session.ledger = c'.session.ledger
  store : c.session.store = c'.session.store
  applied : c.report.applied = c'.report.applied
  lastHeight : c.report.lastHeight = c'.report.lastHeight
  stateHash : c.report.stateHash = c'.report.stateHash
  acked : c.acked = c'.acked

theorem Same.refl (c : Consumption σ) : Same c c := ⟨rfl, rfl, rfl, rfl, rfl, rfl⟩

theorem Same.trans {c'' : Consumption σ} (h : Same c c') (h' : Same c' c'') : Same c c'' :=
  ⟨h.ledger.trans h'.ledger, h.store.trans h'.store, h.applied.trans h'.applied,
    h.lastHeight.trans h'.lastHeight, h.stateHash.trans h'.stateHash, h.acked.trans h'.acked⟩

/-- The consumption has noted this block last. -/
structure At (R : EventReducer) (c : Consumption σ) (block : BlockEnvelope B) : Prop where
  ledger : c.session.ledger.At R block
  lastHeight : c.report.lastHeight = some block.blockHeight
  stateHash : c.report.stateHash = c.session.ledger.stateHash

theorem applyAssembled_ok {assembled : AssembledBlock B}
    (h : (c.applyAssembled R S assembled).1 = .ok ()) :
    (c.applyAssembled R S assembled).2.At R assembled.block ∧
      (c.applyAssembled R S assembled).2.acked = ack c.acked assembled.messageIds ∧
      c.session.ledger.Takes R assembled.block
        (c.applyAssembled R S assembled).2.session.ledger := by
  have hat : ∀ outcome, (applyBlockDurably R S c.session.ledger c.session.store
      assembled.block).1 = .ok outcome → _ :=
    fun outcome => CanonicalLedger.at_of_applyBlockDurably
  unfold applyAssembled at h ⊢
  generalize applyBlockDurably R S c.session.ledger c.session.store assembled.block = reply
    at hat h ⊢
  obtain ⟨e | outcome, ledger, store⟩ := reply
  · cases h
  · obtain ⟨hledger, htakes⟩ := hat outcome rfl
    cases outcome with
    | alreadyApplied checkpoint => exact ⟨⟨hledger, rfl, rfl⟩, rfl, htakes⟩
    | applied delta disposition =>
      dsimp only [record] at h ⊢
      split at h
      · cases h
      · exact ⟨⟨hledger, rfl, rfl⟩, rfl, htakes⟩

theorem applyAssembled_assembler (assembled : AssembledBlock B) :
    (c.applyAssembled R S assembled).2.session.assembler = c.session.assembler := by
  unfold applyAssembled
  rcases applyBlockDurably R S c.session.ledger c.session.store assembled.block with
    ⟨e | outcome, ledger, store⟩
  · rfl
  · cases outcome with
    | alreadyApplied checkpoint => rfl
    | applied delta disposition =>
      dsimp only [record]
      split <;> rfl

theorem Same.withLedger (h : Same c c') (ledger : CanonicalLedger) (store : σ) :
    Same (c.withLedger ledger store) (c'.withLedger ledger store) :=
  ⟨rfl, rfl, h.applied, h.lastHeight, h.stateHash, h.acked⟩

theorem Same.withAssembler (h : Same c c') (assembler assembler' : BlockAssembler) :
    Same (c.withAssembler assembler) (c'.withAssembler assembler') :=
  ⟨h.ledger, h.store, h.applied, h.lastHeight, h.stateHash, h.acked⟩

theorem Same.record (h : Same c c') (hids : ∀ id, id ∈ messageIds ↔ id ∈ messageIds')
    (outcome : DurableApplyOutcome) :
    (c.record ⟨block, messageIds⟩ outcome).1 = (c'.record ⟨block, messageIds'⟩ outcome).1 ∧
      Same (c.record ⟨block, messageIds⟩ outcome).2
        (c'.record ⟨block, messageIds'⟩ outcome).2 := by
  have hacked : ack c.acked messageIds = ack c'.acked messageIds' := by
    rw [h.acked, ack_congr hids]
  have hhash : c.session.ledger.stateHash = c'.session.ledger.stateHash := by rw [h.ledger]
  cases outcome with
  | alreadyApplied checkpoint =>
    exact ⟨rfl, h.ledger, h.store, h.applied, rfl, hhash, hacked⟩
  | applied delta disposition =>
    simp only [Consumption.record, h.applied, h.ledger]
    cases countApplied c'.report.applied c'.session.ledger block with
    | error e => exact ⟨rfl, h⟩
    | ok applied => exact ⟨rfl, h.ledger, h.store, rfl, rfl, hhash, hacked⟩

theorem Same.applyAssembled (h : Same c c')
    (hids : ∀ id, id ∈ messageIds ↔ id ∈ messageIds') :
    (c.applyAssembled R S ⟨block, messageIds⟩).1 = (c'.applyAssembled R S ⟨block, messageIds'⟩).1 ∧
      Same (c.applyAssembled R S ⟨block, messageIds⟩).2
        (c'.applyAssembled R S ⟨block, messageIds'⟩).2 := by
  simp only [Consumption.applyAssembled, h.ledger, h.store]
  rcases applyBlockDurably R S c'.session.ledger c'.session.store block with
    ⟨e | outcome, ledger, store⟩
  · exact ⟨rfl, h.withLedger ledger store⟩
  · exact (h.withLedger ledger store).record hids outcome

theorem At.applyAssembled (h : c.At R block) (hids : ∀ id ∈ messageIds, id ∈ c.acked) :
    (c.applyAssembled R S ⟨block, messageIds⟩).1 = .ok () ∧
      Same (c.applyAssembled R S ⟨block, messageIds⟩).2 c := by
  obtain ⟨checkpoint, happly⟩ : ∃ checkpoint,
      applyBlockDurably R S c.session.ledger c.session.store block =
        (.ok (.alreadyApplied checkpoint), c.session.ledger, c.session.store) :=
    h.ledger.applyBlockDurably
  simp only [Consumption.applyAssembled, happly]
  exact ⟨rfl, rfl, rfl, rfl, h.lastHeight.symm, h.stateHash.symm, ack_of_subset hids⟩

theorem At.refuses (h : c.At R block) (hlt : block'.blockHeight < block.blockHeight) :
    ∃ e, (c.applyAssembled R S ⟨block', messageIds⟩).1 = .error e := by
  obtain ⟨e, he⟩ : ∃ e, (applyBlockDurably R S c.session.ledger c.session.store block').1 =
      .error e :=
    h.ledger.refuses hlt
  unfold Consumption.applyAssembled
  generalize applyBlockDurably R S c.session.ledger c.session.store block' = reply at he ⊢
  obtain ⟨e' | outcome, ledger, store⟩ := reply
  · exact ⟨_, rfl⟩
  · cases he

theorem At.withAssembler (h : c.At R block) (assembler : BlockAssembler) :
    (c.withAssembler assembler).At R block :=
  ⟨h.ledger, h.lastHeight, h.stateHash⟩

section Steps

variable {Ps : List (Publication B K)} {P Q : Publication B K} {before : List CanonicalDelivery}
  {d : CanonicalDelivery}

/-- No complete block is above this one. -/
def Latest (Ps : List (Publication B K)) (before : List CanonicalDelivery) (P : Publication B K) :
    Prop :=
  ∀ Q ∈ Ps, Q.CompleteIn before → Q.block.blockHeight ≤ P.block.blockHeight

/-- Where a consumption is behind the deliveries: the rounds of its assembler, the highest
complete block, and the messages of the complete blocks. -/
structure Reached (R : EventReducer) (Ps : List (Publication B K))
    (before : List CanonicalDelivery) (c : Consumption σ) : Prop where
  rounds : ∃ held, BlockAssembler.InRounds Ps before held c.session.assembler
  latest : ∀ P ∈ Ps, P.CompleteIn before → Latest Ps before P → c.At R P.block
  acked : ∀ P ∈ Ps, P.CompleteIn before → ∀ d ∈ P.deliveries, d.messageId ∈ c.acked

theorem reached_start {session : JetStreamReplaySession σ} (h : session.assembler = .new) :
    (start session ∅).Reached R Ps [] where
  rounds := ⟨[], by rw [start, h]; exact BlockAssembler.inRounds_new Ps⟩
  latest P _ hc := absurd (hc P.marker mem_cons_self) not_mem_nil
  acked P _ hc := absurd (hc P.marker mem_cons_self) not_mem_nil

/-- A delivery does no harm when it goes on with a round or begins one, and when the round that it
ends is one of the highest block so far. -/
structure Harmless (Ps : List (Publication B K)) (before : List CanonicalDelivery)
    (P : Publication B K) (d : CanonicalDelivery) : Prop where
  admits : P.Admits Ps before d
  latest : P.EndsRound before d → Latest Ps before P

theorem completeIn_of_endsRound (hends : P.EndsRound before d) :
    P.CompleteIn (before ++ [d]) := by
  intro d' hd'
  by_cases hne : d' = d
  · simp [hne]
  · exact mem_append_left _ (count_pos_iff.mp (Nat.zero_lt_of_lt (hends d' hd' hne)))

/-- A new delivery ends the first round of its block when it completes it. -/
theorem endsRound_of_completeIn (hnew : d ∉ before) (hc : P.CompleteIn (before ++ [d])) :
    P.EndsRound before d := by
  intro d' hd' hne
  rw [count_eq_zero.mpr hnew]
  apply count_pos_iff.mpr
  exact (mem_append.mp (hc d' hd')).resolve_right (by simpa using hne)

theorem completeIn_concat_iff (hPs : (Ps.map hash).Nodup) (hP : P ∈ Ps) (hQ : Q ∈ Ps)
    (hd : d ∈ P.deliveries) (h : Q ≠ P ∨ d ∈ before) :
    Q.CompleteIn (before ++ [d]) ↔ Q.CompleteIn before := by
  refine ⟨fun hc d' hd' => ?_, fun hc d' hd' => mem_append_left _ (hc d' hd')⟩
  rcases mem_append.mp (hc d' hd') with hmem | hmem
  · exact hmem
  · obtain rfl := mem_singleton.mp hmem
    exact h.resolve_left (not_not.mpr (BlockAssembler.eq_of_mem_deliveries hPs hQ hP hd' hd))

theorem exists_latest (hQ : Q ∈ Ps) (hc : Q.CompleteIn before) :
    ∃ P ∈ Ps, P.CompleteIn before ∧ Latest Ps before P := by
  obtain ⟨P, hP⟩ : ∃ P, P ∈ argmax (fun P : Publication B K => P.block.blockHeight.toNat)
      (Ps.filter fun P => P.CompleteIn before) := by
    apply Option.ne_none_iff_exists'.mp
    rw [ne_eq, argmax_eq_none]
    exact ne_nil_of_mem (mem_filter.mpr ⟨hQ, decide_eq_true hc⟩)
  have hmem := mem_filter.mp (argmax_mem hP)
  refine ⟨P, hmem.1, of_decide_eq_true hmem.2, fun Q hQ hc => ?_⟩
  exact le_of_mem_argmax (mem_filter.mpr ⟨hQ, decide_eq_true hc⟩) hP

variable (h : c.Reached R Ps before) (hPs : (Ps.map hash).Nodup) (hP : P ∈ Ps)
  (hd : d ∈ P.deliveries)

include h hPs hP hd

theorem Reached.consumeDelivery_admitted
    (hadmits : P.Admits Ps before d) : ∃ held assembler messageIds,
      BlockAssembler.InRounds Ps (before ++ [d]) held assembler ∧
      (P.EndsRound before d → ∀ id, id ∈ messageIds ↔ id ∈ P.deliveries.map (·.messageId)) ∧
      c.consumeDelivery R S K d = if P.EndsRound before d then
        (c.withAssembler assembler).applyAssembled R S ⟨P.block, messageIds⟩
        else (.ok (), c.withAssembler assembler) := by
  obtain ⟨held, hrounds⟩ := h.rounds
  obtain ⟨held', messageIds, hids, hreply, hnext⟩ := hrounds.push_admitted hPs hP hd hadmits
  refine ⟨held', (c.session.assembler.push B K d).2, messageIds, hnext, hids, ?_⟩
  unfold Consumption.consumeDelivery
  generalize c.session.assembler.push B K d = reply at hreply ⊢
  obtain ⟨result, assembler⟩ := reply
  dsimp only at hreply
  rw [hreply]
  by_cases hends : P.EndsRound before d
  · rw [if_pos hends, if_pos hends]
  · rw [if_neg hends, if_neg hends]

theorem Reached.harmless_of_ok (hok : (c.consumeDelivery R S K d).1 = .ok ()) :
    Harmless Ps before P d := by
  have hadmits : P.Admits Ps before d := by
    by_contra hnot
    obtain ⟨held, hrounds⟩ := h.rounds
    obtain ⟨e, he⟩ := hrounds.push_refused hPs hP hd hnot
    unfold Consumption.consumeDelivery at hok
    generalize c.session.assembler.push B K d = reply at he hok
    obtain ⟨e' | assembled, assembler⟩ := reply
    · cases hok
    · cases he
  refine ⟨hadmits, fun hends Q hQ hc => ?_⟩
  obtain ⟨held, assembler, messageIds, -, -, hstep⟩ :=
    h.consumeDelivery_admitted (S := S) hPs hP hd hadmits
  rw [hstep, if_pos hends] at hok
  -- the ledger is at the highest complete block and refuses what is below it
  obtain ⟨top, htop, htopc, hlatest⟩ := exists_latest hQ hc
  refine UInt64.le_trans (hlatest Q hQ hc) (UInt64.not_lt.mp fun hlt => ?_)
  have hat := (h.latest top htop htopc hlatest).withAssembler assembler
  obtain ⟨e, he⟩ : ∃ e, ((c.withAssembler assembler).applyAssembled R S
      ⟨P.block, messageIds⟩).1 = .error e := hat.refuses hlt
  rw [hok] at he
  cases he

theorem Reached.consumeDelivery (hheights : (Ps.map fun P => P.block.blockHeight).Nodup)
    (hok : (c.consumeDelivery R S K d).1 = .ok ()) :
    (c.consumeDelivery R S K d).2.Reached R Ps (before ++ [d]) := by
  obtain ⟨hadmits, hlatest⟩ := h.harmless_of_ok hPs hP hd hok
  obtain ⟨held, assembler, messageIds, hrounds, hids, hstep⟩ :=
    h.consumeDelivery_admitted (S := S) hPs hP hd hadmits
  rw [hstep] at hok ⊢
  by_cases hends : P.EndsRound before d
  · rw [if_pos hends] at hok ⊢
    obtain ⟨hat, hacked, -⟩ := applyAssembled_ok hok
    refine ⟨⟨held, ?_⟩, fun Q hQ hc hQlatest => ?_, fun Q hQ hc e he => ?_⟩
    · rw [applyAssembled_assembler]
      exact hrounds
    · -- the highest complete block is the one that was applied
      have heq : Q = P := by
        by_contra hne
        have hle := hlatest hends Q hQ ((completeIn_concat_iff hPs hP hQ hd (.inl hne)).mp hc)
        have hge := hQlatest P hP (completeIn_of_endsRound hends)
        exact hne (inj_on_of_nodup_map hheights hQ hP (UInt64.le_antisymm hle hge))
      rw [heq]
      exact hat
    · rw [hacked, mem_ack]
      by_cases hne : Q = P
      · rw [hne] at he
        exact .inr ((hids hends _).mpr (mem_map_of_mem he))
      · exact .inl (h.acked Q hQ ((completeIn_concat_iff hPs hP hQ hd (.inl hne)).mp hc) e he)
  · rw [if_neg hends]
    have hcomplete : ∀ Q ∈ Ps, Q.CompleteIn (before ++ [d]) ↔ Q.CompleteIn before := by
      intro Q hQ
      by_cases hold : d ∈ before
      · exact completeIn_concat_iff hPs hP hQ hd (.inr hold)
      · by_cases hne : Q = P
        · rw [hne]
          refine ⟨fun hc => absurd (endsRound_of_completeIn hold hc) hends, fun hc => ?_⟩
          exact absurd (hc d hd) hold
        · exact completeIn_concat_iff hPs hP hQ hd (.inl hne)
    refine ⟨⟨held, hrounds⟩, fun Q hQ hc hQlatest => ?_, fun Q hQ hc => ?_⟩
    · have hQlatest' : Latest Ps before Q :=
        fun Q' hQ' hc' => hQlatest Q' hQ' ((hcomplete Q' hQ').mpr hc')
      exact (h.latest Q hQ ((hcomplete Q hQ).mp hc) hQlatest').withAssembler assembler
    · exact h.acked Q hQ ((hcomplete Q hQ).mp hc)

/-- A harmless copy changes nothing but the assembler and the count of recognised blocks. -/
theorem Reached.consume_copy (hold : d ∈ before) (hharmless : Harmless Ps before P d) :
    (c.consumeDelivery R S K d).1 = .ok () ∧ Same (c.consumeDelivery R S K d).2 c := by
  obtain ⟨held, assembler, messageIds, -, hids, hstep⟩ :=
    h.consumeDelivery_admitted (S := S) hPs hP hd hharmless.admits
  rw [hstep]
  by_cases hends : P.EndsRound before d
  · have hc : P.CompleteIn before :=
      (completeIn_concat_iff hPs hP hP hd (.inr hold)).mp (completeIn_of_endsRound hends)
    have hat := (h.latest P hP hc (hharmless.latest hends)).withAssembler assembler
    rw [if_pos hends]
    have hacked : ∀ id ∈ messageIds, id ∈ c.acked := by
      intro id hid
      obtain ⟨e, he, rfl⟩ := mem_map.mp ((hids hends id).mp hid)
      exact h.acked P hP hc e he
    obtain ⟨hok, hsame⟩ := hat.applyAssembled (S := S) hacked
    exact ⟨hok, hsame.trans ((Same.refl c).withAssembler assembler c.session.assembler)⟩
  · rw [if_neg hends]
    exact ⟨rfl, (Same.refl c).withAssembler assembler c.session.assembler⟩

theorem Reached.consume_new {seq : List CanonicalDelivery} (h' : c'.Reached R Ps seq)
    (hsame : Same c' c) (hmem : ∀ e, e ∈ seq ↔ e ∈ before) (hnew : d ∉ before)
    (hok : (c.consumeDelivery R S K d).1 = .ok ()) (hharmless : Harmless Ps seq P d) :
    (c'.consumeDelivery R S K d).1 = .ok () ∧
      Same (c'.consumeDelivery R S K d).2 (c.consumeDelivery R S K d).2 := by
  obtain ⟨-, assembler, messageIds, -, hids, hstep⟩ :=
    h.consumeDelivery_admitted (S := S) hPs hP hd (h.harmless_of_ok hPs hP hd hok).admits
  obtain ⟨-, assembler', messageIds', -, hids', hstep'⟩ :=
    h'.consumeDelivery_admitted (S := S) hPs hP hd hharmless.admits
  have hends : P.EndsRound seq d ↔ P.EndsRound before d := by
    have hcomplete : P.CompleteIn (seq ++ [d]) ↔ P.CompleteIn (before ++ [d]) := by
      simp only [Publication.CompleteIn, mem_append, hmem]
    have hnew' : d ∉ seq := fun hd' => hnew ((hmem d).mp hd')
    exact ⟨fun he => endsRound_of_completeIn hnew (hcomplete.mp (completeIn_of_endsRound he)),
      fun he => endsRound_of_completeIn hnew' (hcomplete.mpr (completeIn_of_endsRound he))⟩
  rw [hstep] at hok ⊢
  rw [hstep']
  by_cases he : P.EndsRound before d
  · rw [if_pos he] at hok ⊢
    rw [if_pos (hends.mpr he)]
    have hids'' : ∀ id, id ∈ messageIds' ↔ id ∈ messageIds :=
      fun id => (hids' (hends.mpr he) id).trans (hids he id).symm
    obtain ⟨hreply, hnext⟩ := (hsame.withAssembler assembler' assembler).applyAssembled hids''
    exact ⟨hreply.trans hok, hnext⟩
  · rw [if_neg he, if_neg (mt hends.mp he)]
    exact ⟨rfl, hsame.withAssembler assembler' assembler⟩

end Steps

variable {Ps : List (Publication B K)} {session : JetStreamReplaySession σ}
  {base seq : List CanonicalDelivery}

theorem andThen_eq_ok {α : Type} {reply : Call σ Unit} {next : Consumption σ → Call σ α} {a : α} :
    andThen reply next = (.ok a, c) ↔ ∃ c', reply = (.ok (), c') ∧ next c' = (.ok a, c) := by
  obtain ⟨e | _, c'⟩ := reply
  · simp [andThen]
  · simp [andThen]

theorem finish_eq_ok {c' : Consumption σ} {report : JetStreamReplayReport} :
    c'.finish = (.ok report, c) ↔
      c'.session.assembler.hasPending = false ∧ report = c'.report ∧ c = c' := by
  unfold finish
  split
  next h => simp [h]
  next h => simp [h, eq_comm]

def Made (Ps : List (Publication B K)) (deliveries : List CanonicalDelivery) : Prop :=
  ∀ d ∈ deliveries, ∃ P ∈ Ps, d ∈ P.deliveries

/-- What was consumed is where it has come to, and did no harm on the way. -/
theorem reached_of_consumeBatch (hnew : session.assembler = .new)
    (hPs : (Ps.map hash).Nodup)
    (hheights : (Ps.map fun P => P.block.blockHeight).Nodup) (hmade : Made Ps seq)
    (hok : (start session ∅).consumeBatch R S K seq = (.ok (), c)) :
    c.Reached R Ps seq ∧
      Run.Along (fun before d => ∀ P ∈ Ps, d ∈ P.deliveries → Harmless Ps before P d) seq := by
  induction seq using reverseRecOn generalizing c with
  | nil =>
    obtain rfl : start session ∅ = c := congrArg Prod.snd hok
    exact ⟨reached_start hnew, Run.along_nil⟩
  | append_singleton seq d ih =>
    rw [consumeBatch_concat, andThen_eq_ok] at hok
    obtain ⟨c', hok, hstep⟩ := hok
    obtain ⟨hreached, halong⟩ := ih (fun e he => hmade e (mem_append_left _ he)) hok
    obtain ⟨P, hP, hd⟩ := hmade d (by simp)
    have hstep' : (c'.consumeDelivery R S K d).1 = .ok () := by rw [hstep]
    have hnext := hreached.consumeDelivery hPs hP hd hheights hstep'
    rw [hstep] at hnext
    refine ⟨hnext, Run.along_concat.mpr ⟨halong, fun Q hQ hdQ => ?_⟩⟩
    exact hreached.harmless_of_ok hPs hQ hdQ hstep'

section Consumed

open BlockAssembler

variable {l : CanonicalLedger} {deliveries : List CanonicalDelivery} {d : CanonicalDelivery}

/-- The ledger has taken the blocks that the deliveries complete, and the messages of these are
acknowledged. -/
structure Consumed (B : Blake3) (K : EnvelopeCodec) (R : EventReducer) (l : CanonicalLedger)
    (deliveries : List CanonicalDelivery) (c : Consumption σ) : Prop where
  assembler : c.session.assembler = pushAll B K deliveries
  ledger : Run.Path (CanonicalLedger.Takes R) l (assembledBlocks B K deliveries) c.session.ledger
  acked : ∀ id, id ∈ c.acked ↔ ∃ a, .ok (some a) ∈ replies B K deliveries ∧ id ∈ a.messageIds

theorem Consumed.consumeDelivery (h : Consumed B K R l deliveries c)
    (hok : c.consumeDelivery R S K d = (.ok (), c')) :
    Consumed B K R l (deliveries ++ [d]) c' := by
  have hall : pushAll B K (deliveries ++ [d]) = ((pushAll B K deliveries).push B K d).2 :=
    Run.final_concat ..
  have hreplies : replies B K (deliveries ++ [d]) =
      replies B K deliveries ++ [((pushAll B K deliveries).push B K d).1] := Run.outputs_concat ..
  have hblocks : assembledBlocks B K (deliveries ++ [d]) = _ := assembledBlocks_concat
  unfold Consumption.consumeDelivery at hok
  rw [h.assembler] at hok
  generalize (pushAll B K deliveries).push B K d = reply at hok hall hreplies hblocks
  obtain ⟨e | _ | a, s⟩ := reply
  · cases hok
  · obtain rfl : c.withAssembler s = c' := congrArg Prod.snd hok
    refine ⟨hall.symm, ?_, fun id => ?_⟩
    · rw [hblocks]
      exact (append_nil (assembledBlocks B K deliveries)).symm ▸ h.ledger
    · change id ∈ c.acked ↔ _
      rw [hreplies, h.acked]
      simp
  · change (c.withAssembler s).applyAssembled R S a = _ at hok
    obtain ⟨-, hacked, htakes⟩ := applyAssembled_ok (congrArg Prod.fst hok)
    have hassembler := applyAssembled_assembler (R := R) (S := S) (c := c.withAssembler s) a
    rw [hok] at hassembler hacked htakes
    refine ⟨hassembler.trans hall.symm, hblocks ▸ h.ledger.snoc htakes, fun id => ?_⟩
    rw [hacked, mem_ack, hreplies]
    change id ∈ c.acked ∨ _ ↔ _
    rw [h.acked]
    simp [or_and_right, exists_or]

/-- A consumption that succeeds has given the ledger the blocks that its deliveries complete, in
the order in which they do, and each was taken. The messages it acknowledges are theirs. -/
theorem consumeAvailable_takes {report : JetStreamReplayReport} (hnew : session.assembler = .new)
    (h : session.consumeAvailable R S K (.new deliveries) = (.ok report, c)) :
    Run.Path (CanonicalLedger.Takes R) session.ledger (assembledBlocks B K deliveries)
        c.session.ledger ∧
      ∀ id, id ∈ c.acked ↔ ∃ a, .ok (some a) ∈ replies B K deliveries ∧ id ∈ a.messageIds := by
  simp only [JetStreamReplaySession.consumeAvailable_eq, andThen_eq_ok, finish_eq_ok] at h
  obtain ⟨c, hrun, -, -, rfl⟩ := h
  have hconsumed : Consumed B K R session.ledger deliveries c := by
    induction deliveries using reverseRecOn generalizing c with
    | nil =>
      obtain rfl : start session ∅ = c := congrArg Prod.snd hrun
      exact ⟨hnew, .nil, by simp [start, replies, Run.outputs]⟩
    | append_singleton deliveries d ih =>
      rw [consumeBatch_concat, andThen_eq_ok] at hrun
      obtain ⟨c', hrun, hstep⟩ := hrun
      exact (ih hrun).consumeDelivery hstep
  exact ⟨hconsumed.ledger, hconsumed.acked⟩

end Consumed

end Consumption

open Consumption in
/-- What keeps redelivered messages from changing the outcome. -/
structure Redeliverable (Ps : List (Publication B K)) (seq : List CanonicalDelivery) : Prop where
  harmless : Run.Along (fun before d => ∀ P ∈ Ps, d ∈ P.deliveries → Harmless Ps before P d) seq
  whole : ∀ P ∈ Ps, ¬P.Uneven seq

/-- The deliveries with copies of earlier ones between them. -/
inductive Redelivers : List CanonicalDelivery → List CanonicalDelivery → Prop
  | nil : Redelivers [] []
  | keep {base seq : List CanonicalDelivery} (d : CanonicalDelivery) :
    Redelivers base seq → Redelivers (base ++ [d]) (seq ++ [d])
  | copy {base seq : List CanonicalDelivery} {d : CanonicalDelivery} :
    Redelivers base seq → d ∈ seq → Redelivers base (seq ++ [d])

namespace Redelivers

open Consumption

variable {R : EventReducer} {S : AtomicStateStore B σ} {Ps : List (Publication B K)}
  {session : JetStreamReplaySession σ} {base seq : List CanonicalDelivery} {c : Consumption σ}
  {report : JetStreamReplayReport}

theorem mem_iff (h : Redelivers base seq) (d : CanonicalDelivery) : d ∈ seq ↔ d ∈ base := by
  induction h with
  | nil => rfl
  | keep e _ ih => rw [mem_append, mem_append, ih]
  | copy _ hmem ih =>
    rw [mem_append, mem_singleton, ← ih]
    exact or_iff_left_of_imp fun heq => heq ▸ hmem

theorem consumeBatch (h : Redelivers base seq) (hnew : session.assembler = .new)
    (hPs : (Ps.map hash).Nodup)
    (hheights : (Ps.map fun P => P.block.blockHeight).Nodup)
    (hfresh : BlockAssembler.Fresh Ps base)
    (hbase : (start session ∅).consumeBatch R S K base = (.ok (), c))
    (hseq : Run.Along (fun before d => ∀ P ∈ Ps, d ∈ P.deliveries →
      Harmless Ps before P d) seq) :
    ∃ c', (start session ∅).consumeBatch R S K seq = (.ok (), c') ∧
      Same c' c := by
  induction h generalizing c with
  | nil => exact ⟨c, hbase, .refl c⟩
  | @keep base seq d h ih =>
    rw [consumeBatch_concat, andThen_eq_ok] at hbase
    obtain ⟨c₁, hbase, hstep⟩ := hbase
    obtain ⟨hseq, hharmless⟩ := Run.along_concat.mp hseq
    obtain ⟨c₂, hrun, hsame⟩ := ih hfresh.of_append hbase hseq
    obtain ⟨P, hP, hd⟩ := hfresh.made d (by simp)
    have hreached := (reached_of_consumeBatch hnew hPs hheights
      hfresh.of_append.made hbase).1
    have hmade : Made Ps seq :=
      fun e he => hfresh.of_append.made e ((h.mem_iff e).mp he)
    have hreached' := (reached_of_consumeBatch hnew hPs hheights hmade hrun).1
    have hok : (c₁.consumeDelivery R S K d).1 = .ok () := by rw [hstep]
    obtain ⟨hok', hnext⟩ := hreached.consume_new hPs hP hd hreached' hsame h.mem_iff hfresh.notMem
      hok (hharmless P hP hd)
    rw [hstep] at hnext
    refine ⟨(c₂.consumeDelivery R S K d).2, ?_, hnext⟩
    rw [consumeBatch_concat]
    exact andThen_eq_ok.mpr ⟨c₂, hrun, Prod.ext hok' rfl⟩
  | @copy base seq d h hmem ih =>
    obtain ⟨hseq, hharmless⟩ := Run.along_concat.mp hseq
    obtain ⟨c₂, hrun, hsame⟩ := ih hfresh hbase hseq
    have hmade : Made Ps seq := fun e he => hfresh.made e ((h.mem_iff e).mp he)
    obtain ⟨P, hP, hd⟩ := hmade d hmem
    have hreached := (reached_of_consumeBatch hnew hPs hheights hmade hrun).1
    obtain ⟨hok, hnext⟩ := hreached.consume_copy (S := S) hPs hP hd hmem (hharmless P hP hd)
    refine ⟨(c₂.consumeDelivery R S K d).2, ?_, hnext.trans hsame⟩
    rw [consumeBatch_concat]
    exact andThen_eq_ok.mpr ⟨c₂, hrun, Prod.ext hok rfl⟩

theorem redeliverable_of_consumeAvailable (hnew : session.assembler = .new)
    (hPs : (Ps.map hash).Nodup)
    (hheights : (Ps.map fun P => P.block.blockHeight).Nodup) (hmade : Made Ps seq)
    (hrun : session.consumeAvailable R S K (.new seq) = (.ok report, c)) :
    Redeliverable Ps seq := by
  simp only [JetStreamReplaySession.consumeAvailable_eq, andThen_eq_ok,
    finish_eq_ok] at hrun
  obtain ⟨c, hrun, hpending, -, -⟩ := hrun
  obtain ⟨hreached, halong⟩ := reached_of_consumeBatch hnew hPs hheights hmade hrun
  obtain ⟨held, hrounds⟩ := hreached.rounds
  exact ⟨halong, (hrounds.hasPending_eq_false_iff hPs).mp hpending⟩

/-- Copies leave the outcome as it is without them exactly when each is due in a round of its
block, there is room for the rounds, each round ends while its block is the highest, and all
rounds end. -/
theorem consumeAvailable_iff (h : Redelivers base seq) (hnew : session.assembler = .new)
    (hPs : (Ps.map Publication.hash).Nodup)
    (hheights : (Ps.map fun P => P.block.blockHeight).Nodup)
    (hperm : base.Perm (Ps.flatMap Publication.deliveries))
    (hbase : session.consumeAvailable R S K (.new base) = (.ok report, c)) :
    (∃ report' c', session.consumeAvailable R S K (.new seq) = (.ok report', c') ∧
      c'.session.ledger.stateHash = c.session.ledger.stateHash ∧
      report'.stateHash = report.stateHash ∧ report'.lastHeight = report.lastHeight ∧
      c'.acked = c.acked) ↔ Redeliverable Ps seq := by
  have hfresh := BlockAssembler.fresh_of_perm hPs hperm
  have hmade : Made Ps seq := fun e he => hfresh.made e ((h.mem_iff e).mp he)
  constructor
  · rintro ⟨report', c', hrun, -⟩
    exact redeliverable_of_consumeAvailable hnew hPs hheights hmade hrun
  · intro hseq
    simp only [JetStreamReplaySession.consumeAvailable_eq, andThen_eq_ok,
      finish_eq_ok] at hbase ⊢
    obtain ⟨c, hbase, -, rfl, rfl⟩ := hbase
    obtain ⟨c', hrun, hsame⟩ := h.consumeBatch hnew hPs hheights hfresh hbase hseq.harmless
    obtain ⟨held, hrounds⟩ :=
      (reached_of_consumeBatch hnew hPs hheights hmade hrun).1.rounds
    have hpending := (hrounds.hasPending_eq_false_iff hPs).mpr hseq.whole
    exact ⟨_, _, ⟨c', hrun, hpending, rfl, rfl⟩, by rw [hsame.ledger], hsame.stateHash,
      hsame.lastHeight, hsame.acked⟩

end Redelivers

section Sample

open CanonicalLedger DurableState

/-- What a new session, over a store that commits, makes of the deliveries. -/
def idleReplay (deliveries : List CanonicalDelivery) :
    Consumption.Call (Option StateImage × Bool) JetStreamReplayReport :=
  JetStreamReplaySession.consumeAvailable idleReducer (flakyStore false) haltCodec
    ⟨sampleLedger, (none, true), .new⟩ (.new deliveries)

theorem idleReplay_haltedPublication :
    (idleReplay (haltedPublication false).deliveries).1.isOk = true := by
  decide +kernel

theorem haltedPublication_deliveries : ∃ d, (haltedPublication false).marker ≠ d ∧
    (haltedPublication false).deliveries = [(haltedPublication false).marker, d] := by
  refine ⟨(haltedPublication false).eventDelivery haltingEvent,
    marker_ne_eventDelivery _ _, ?_⟩
  rw [deliveries, events_eq]
  rfl

theorem haltedPublication_distinct :
    ([haltedPublication false].map hash).Nodup ∧
    ([haltedPublication false].map fun P => P.block.blockHeight).Nodup :=
  ⟨nodup_singleton _, nodup_singleton _⟩

theorem exists_idleReplay {deliveries : List CanonicalDelivery}
    (h : (idleReplay deliveries).1.isOk = true) :
    ∃ report, idleReplay deliveries = (.ok report, (idleReplay deliveries).2) := by
  generalize idleReplay deliveries = reply at h ⊢
  obtain ⟨e | report, c⟩ := reply
  · cases h
  · exact ⟨report, rfl⟩

theorem consumeAvailable_takes_haltedPublication :
    ∃ l, Run.Path (Takes idleReducer) sampleLedger (BlockAssembler.assembledBlocks sumBlake3
      haltCodec (haltedPublication false).deliveries) l := by
  obtain ⟨report, hrun⟩ := exists_idleReplay idleReplay_haltedPublication
  exact ⟨_, (Consumption.consumeAvailable_takes rfl hrun).1⟩

/-- A block of one event may be delivered in whole once more. -/
theorem redeliverable_twice {P : Publication B K} {d : CanonicalDelivery} (hne : P.marker ≠ d)
    (h : P.deliveries = [P.marker, d]) :
    Redeliverable [P] (P.deliveries ++ P.deliveries) := by
  have hone : [P].length < maxPendingBlocks := Nat.lt_add_left 62 (Nat.lt_succ_self 1)
  have hharmless : ∀ before e, P.Due before e → ∀ Q ∈ [P], e ∈ Q.deliveries →
      Consumption.Harmless [P] before Q e := by
    intro before e hdue Q hQ _
    obtain rfl := mem_singleton.mp hQ
    refine ⟨⟨hdue, .inr (countP_le_length.trans_lt hone)⟩, fun _ Q' hQ' _ => ?_⟩
    rw [mem_singleton.mp hQ']
    exact UInt64.le_refl _
  rw [h]
  constructor
  · change Run.Along _ (((([] ++ [P.marker]) ++ [d]) ++ [P.marker]) ++ [d])
    simp only [Run.along_concat]
    refine ⟨⟨⟨⟨Run.along_nil, hharmless _ _ ?_⟩, hharmless _ _ ?_⟩, hharmless _ _ ?_⟩,
      hharmless _ _ ?_⟩
    all_goals simp [Publication.Due, h, hne, hne.symm, count_cons]
  · simp [Publication.Uneven, h, hne, hne.symm, count_cons]

/-- A block that is delivered in whole once more is recognised. -/
theorem consumeAvailable_iff_haltedPublication :
    Redelivers (haltedPublication false).deliveries
      ((haltedPublication false).deliveries ++ (haltedPublication false).deliveries) ∧
    (idleReplay ((haltedPublication false).deliveries ++
      (haltedPublication false).deliveries)).1.isOk = true := by
  obtain ⟨d, hne, hdeliveries⟩ := haltedPublication_deliveries
  obtain ⟨hhashes, hheights⟩ := haltedPublication_distinct
  obtain ⟨report, hbase⟩ := exists_idleReplay idleReplay_haltedPublication
  have hcopies : Redelivers (haltedPublication false).deliveries
      ((haltedPublication false).deliveries ++ (haltedPublication false).deliveries) := by
    rw [hdeliveries]
    exact .copy (.copy (.keep d (.keep _ .nil)) (by simp)) (by simp)
  have hperm : (haltedPublication false).deliveries.Perm
      ([haltedPublication false].flatMap deliveries) := by
    rw [flatMap_singleton]
  obtain ⟨report', c, hrun, -⟩ := (hcopies.consumeAvailable_iff rfl hhashes hheights hperm
    hbase).mpr (redeliverable_twice hne hdeliveries)
  exact ⟨hcopies, by rw [idleReplay, hrun]; rfl⟩

/-- The marker comes again before the event of its block, and is refused. -/
theorem redelivered_marker_refused :
    Redelivers (haltedPublication false).deliveries
      ((haltedPublication false).marker :: (haltedPublication false).deliveries) ∧
    (idleReplay (haltedPublication false).deliveries).1.isOk = true ∧
    (idleReplay ((haltedPublication false).marker ::
      (haltedPublication false).deliveries)).1.isOk = false := by
  obtain ⟨d, hne, hdeliveries⟩ := haltedPublication_deliveries
  obtain ⟨hhashes, hheights⟩ := haltedPublication_distinct
  refine ⟨?_, idleReplay_haltedPublication, Bool.eq_false_iff.mpr fun hok => ?_⟩
  · rw [hdeliveries]
    exact .keep d (.copy (.keep _ .nil) mem_cons_self)
  · obtain ⟨report, hrun⟩ := exists_idleReplay hok
    have hmade : Consumption.Made [haltedPublication false]
        ((haltedPublication false).marker :: (haltedPublication false).deliveries) := by
      simp [Consumption.Made, deliveries]
    have hdue := ((Redelivers.redeliverable_of_consumeAvailable rfl hhashes hheights hmade
      hrun).harmless [(haltedPublication false).marker] _ _ rfl _ mem_cons_self
      mem_cons_self).admits.due d (by simp [hdeliveries])
    simp [hne] at hdue

end Sample

end AlphaDesk
