import AlphaDesk.Consumer.Assembly
import Std.Data.ExtTreeSet

/-! # Consuming what is available

A session takes deliveries from the source in batches, applies every block that they
complete and acknowledges its messages, until the source has nothing more. A batch is
a part of the queue like any other, so the queue is consumed delivery by delivery.
-/

namespace AlphaDesk

variable {B : Blake3} {σ : Type}

structure JetStreamReplayReport where
  applied : UInt64
  alreadyApplied : UInt64
  lastHeight : Option BlockHeight
  stateHash : Hash32
  liveQualified : Bool
  stage2Qualified : Bool

def JetStreamReplayReport.empty (stateHash : Hash32) (lastHeight : Option BlockHeight) :
    JetStreamReplayReport :=
  ⟨0, 0, lastHeight, stateHash, false, false⟩

structure JetStreamReplaySession (σ : Type) where
  ledger : CanonicalLedger
  store : σ
  assembler : BlockAssembler

def fetchBatch : ℕ := 64

/-- A source in memory: the deliveries in its queue and the messages that were acknowledged. -/
structure InMemoryCanonicalSource where
  queued : List CanonicalDelivery
  acked : Std.ExtTreeSet String

namespace InMemoryCanonicalSource

def new (deliveries : List CanonicalDelivery) : InMemoryCanonicalSource := ⟨deliveries, ∅⟩

def fetch (source : InMemoryCanonicalSource) (maxMessages : ℕ) :
    List CanonicalDelivery × InMemoryCanonicalSource :=
  (source.queued.take maxMessages, { source with queued := source.queued.drop maxMessages })

end InMemoryCanonicalSource

def ack (acked : Std.ExtTreeSet String) (messageIds : List String) : Std.ExtTreeSet String :=
  messageIds.foldl (fun acked id => acked.insert id) acked

/-- What a consumption changes: the session, the report and the acknowledged messages. -/
structure Consumption (σ : Type) where
  session : JetStreamReplaySession σ
  report : JetStreamReplayReport
  acked : Std.ExtTreeSet String

namespace Consumption

abbrev Call (σ α : Type) := Except JetStreamReplayError α × Consumption σ

def start (session : JetStreamReplaySession σ) (acked : Std.ExtTreeSet String) : Consumption σ :=
  ⟨session, .empty session.ledger.stateHash (session.ledger.checkpoint.map (·.blockHeight)), acked⟩

def acknowledge (c : Consumption σ) (assembled : AssembledBlock B) : Consumption σ :=
  { c with
    report := { c.report with
      lastHeight := some assembled.block.blockHeight
      stateHash := c.session.ledger.stateHash }
    acked := ack c.acked assembled.messageIds }

def alignWatermarks (blockHeight archiveHeight stateHeight : BlockHeight) :
    Except JetStreamReplayError Unit :=
  if blockHeight = archiveHeight ∧ archiveHeight = stateHeight then .ok ()
  else .error .watermarkMisaligned

/-- Count an applied block, which the ledger's checkpoint must be at. -/
def countApplied (applied : UInt64) (ledger : CanonicalLedger) (block : BlockEnvelope B) :
    Except JetStreamReplayError UInt64 := do
  if applied.toNat + 1 = UInt64.size then throw .overflow
  let stateHeight ← Except.ofOption .watermarkMisaligned
    (ledger.checkpoint.map (·.blockHeight))
  alignWatermarks block.blockHeight block.blockHeight stateHeight
  return applied + 1

def countAlreadyApplied (alreadyApplied : UInt64) : UInt64 :=
  if alreadyApplied.toNat + 1 = UInt64.size then alreadyApplied else alreadyApplied + 1

def withLedger (c : Consumption σ) (ledger : CanonicalLedger) (store : σ) : Consumption σ :=
  { c with session := { c.session with ledger := ledger, store := store } }

def withAssembler (c : Consumption σ) (assembler : BlockAssembler) : Consumption σ :=
  { c with session := { c.session with assembler := assembler } }

/-- Count an outcome and acknowledge the messages of its block. -/
def record (c : Consumption σ) (assembled : AssembledBlock B) :
    DurableApplyOutcome → Call σ Unit
  | .applied .. =>
    match countApplied c.report.applied c.session.ledger assembled.block with
    | .error e => (.error e, c)
    | .ok applied =>
      (.ok (), acknowledge { c with report := { c.report with applied := applied } } assembled)
  | .alreadyApplied _ =>
    let alreadyApplied := countAlreadyApplied c.report.alreadyApplied
    (.ok (), acknowledge
      { c with report := { c.report with alreadyApplied := alreadyApplied } } assembled)

def applyAssembled (R : EventReducer) (S : AtomicStateStore B σ) (assembled : AssembledBlock B)
    (c : Consumption σ) : Call σ Unit :=
  match applyBlockDurably R S c.session.ledger c.session.store assembled.block with
  | (.error e, ledger, store) => (.error (.durable e), c.withLedger ledger store)
  | (.ok outcome, ledger, store) => (c.withLedger ledger store).record assembled outcome

def consumeDelivery (R : EventReducer) (S : AtomicStateStore B σ) (K : EnvelopeCodec)
    (d : CanonicalDelivery) (c : Consumption σ) : Call σ Unit :=
  match c.session.assembler.push B K d with
  | (.error e, assembler) => (.error e, c.withAssembler assembler)
  | (.ok none, assembler) => (.ok (), c.withAssembler assembler)
  | (.ok (some assembled), assembler) => (c.withAssembler assembler).applyAssembled R S assembled

/-- The deliveries of a batch one after the other, up to the first error. -/
def consumeBatch (R : EventReducer) (S : AtomicStateStore B σ) (K : EnvelopeCodec) :
    List CanonicalDelivery → Consumption σ → Call σ Unit
  | [], c => (.ok (), c)
  | d :: batch, c =>
    match c.consumeDelivery R S K d with
    | (.error e, c) => (.error e, c)
    | (.ok (), c) => consumeBatch R S K batch c

/-- The end of a consumption, which must leave no block pending. -/
def finish (c : Consumption σ) : Call σ JetStreamReplayReport :=
  if c.session.assembler.hasPending then (.error .incompleteBlock, c) else (.ok c.report, c)

/-- The loop over the batches. A round that does not end it takes a delivery from the queue, so
one more round than there are deliveries is enough. -/
def consumeRounds (R : EventReducer) (S : AtomicStateStore B σ) (K : EnvelopeCodec) :
    ℕ → InMemoryCanonicalSource → Consumption σ → Call σ JetStreamReplayReport
  | 0, _, c => (.error .transport, c)
  | rounds + 1, source, c =>
    match source.fetch fetchBatch with
    | ([], _) => c.finish
    | (d :: batch, source) =>
      match c.consumeBatch R S K (d :: batch) with
      | (.error e, c) => (.error e, c)
      | (.ok (), c) => consumeRounds R S K rounds source c

end Consumption

/-- The reply, with what the session and the acknowledged messages are behind it. -/
def JetStreamReplaySession.consumeAvailable (R : EventReducer) (S : AtomicStateStore B σ)
    (K : EnvelopeCodec) (session : JetStreamReplaySession σ) (source : InMemoryCanonicalSource) :
    Consumption.Call σ JetStreamReplayReport :=
  Consumption.consumeRounds R S K (source.queued.length + 1) source
    (.start session source.acked)

namespace Consumption

variable {R : EventReducer} {S : AtomicStateStore B σ} {K : EnvelopeCodec} {c : Consumption σ}

def andThen {α : Type} (reply : Call σ Unit) (next : Consumption σ → Call σ α) : Call σ α :=
  match reply with
  | (.error e, c) => (.error e, c)
  | (.ok (), c) => next c

theorem consumeBatch_append (first second : List CanonicalDelivery) (c : Consumption σ) :
    c.consumeBatch R S K (first ++ second) =
      andThen (c.consumeBatch R S K first) fun c => c.consumeBatch R S K second := by
  induction first generalizing c with
  | nil => rfl
  | cons d first ih =>
    simp only [List.cons_append, consumeBatch]
    rcases c.consumeDelivery R S K d with ⟨e | _, c'⟩
    · rfl
    · exact ih c'

theorem consumeBatch_concat (deliveries : List CanonicalDelivery) (d : CanonicalDelivery) :
    c.consumeBatch R S K (deliveries ++ [d]) =
      andThen (c.consumeBatch R S K deliveries) fun c => c.consumeDelivery R S K d := by
  rw [consumeBatch_append]
  congr
  funext c
  simp only [consumeBatch]
  rcases c.consumeDelivery R S K d with ⟨e | _, c'⟩ <;> rfl

theorem consumeRounds_eq {rounds : ℕ} {source : InMemoryCanonicalSource}
    (h : source.queued.length < rounds) :
    consumeRounds R S K rounds source c = andThen (c.consumeBatch R S K source.queued) finish := by
  induction rounds generalizing source c with
  | zero => exact absurd h (Nat.not_lt_zero _)
  | succ rounds ih =>
    obtain ⟨queued, acked⟩ := source
    have hsplit := List.take_append_drop fetchBatch queued
    have hrest : (queued.drop fetchBatch).length = queued.length - 64 := List.length_drop
    have htake : (queued.take fetchBatch).length = min 64 queued.length := List.length_take
    change queued.length < _ at h
    simp only [consumeRounds, InMemoryCanonicalSource.fetch]
    cases hbatch : queued.take fetchBatch with
    | nil =>
      rw [hbatch, List.length_nil] at htake
      obtain rfl : queued = [] := List.length_eq_zero_iff.mp (by omega)
      rfl
    | cons d batch =>
      rw [hbatch, List.length_cons] at htake
      rw [hbatch] at hsplit
      conv_rhs => rw [← hsplit, consumeBatch_append]
      dsimp only
      rcases c.consumeBatch R S K (d :: batch) with ⟨e | _, c'⟩
      · rfl
      · exact ih (by change (queued.drop fetchBatch).length < rounds; omega)

end Consumption

theorem JetStreamReplaySession.consumeAvailable_eq (R : EventReducer) (S : AtomicStateStore B σ)
    (K : EnvelopeCodec) (session : JetStreamReplaySession σ)
    (deliveries : List CanonicalDelivery) :
    session.consumeAvailable R S K (.new deliveries) =
      Consumption.andThen ((Consumption.start session ∅).consumeBatch R S K deliveries)
        Consumption.finish :=
  Consumption.consumeRounds_eq (Nat.lt_succ_self _)

variable {R : EventReducer} {S : AtomicStateStore B σ} {l : CanonicalLedger} {s : σ}
  {block block' : BlockEnvelope B}

/-- The ledger is at the block: its last commit was this one. -/
structure CanonicalLedger.At (R : EventReducer) (l : CanonicalLedger) (block : BlockEnvelope B) :
    Prop where
  version : R.reducerSetVersion = l.state.reducerSetVersion
  boundary : l.validateBoundary block = .ok ()
  watermark : l.state.watermark = some ⟨block.blockHeight, block.canonicalBlockHash⟩

/-- The ledger takes the block: it commits it, or is at it already. -/
def CanonicalLedger.Takes (R : EventReducer) (l : CanonicalLedger) (block : BlockEnvelope B)
    (l' : CanonicalLedger) : Prop :=
  ∃ outcome, l.applyBlock R block = (.ok outcome, l')

namespace CanonicalLedger

theorem version_of_prepareBlock {outcome : PrepareOutcome}
    (h : l.prepareBlock R block = .ok outcome) :
    R.reducerSetVersion = l.state.reducerSetVersion :=
  not_not.mp (Except.of_check h).1

theorem duplicateCheckpoint_eq_some {c : StateCheckpoint}
    (h : l.duplicateCheckpoint block = .ok (some c)) : ∃ w, l.state.watermark = some w ∧
      block.blockHeight = w.blockHeight ∧ block.canonicalBlockHash = w.canonicalBlockHash := by
  revert h
  fun_cases duplicateCheckpoint l block with
  | case4 w hw hheight hhash => exact fun _ => ⟨w, hw, not_not.mp hheight, not_not.mp hhash⟩
  | _ => rintro ⟨⟩

theorem at_of_applyBlockDurably {outcome : DurableApplyOutcome}
    (h : (applyBlockDurably R S l s block).1 = .ok outcome) :
    (applyBlockDurably R S l s block).2.1.At R block ∧
      l.Takes R block (applyBlockDurably R S l s block).2.1 := by
  obtain ⟨e, hp⟩ | ⟨c, hp, hb, hd⟩ | ⟨staged, hh, hp, hb, -⟩ := prepareBlock_cases R l block
  · rw [applyBlockDurably, hp] at h
    cases h
  · obtain ⟨w, hw, hheight, hhash⟩ := duplicateCheckpoint_eq_some hd
    rw [applyBlockDurably, hp]
    exact ⟨⟨version_of_prepareBlock hp, hb, by rw [hw, hheight, hhash]⟩, _, by
      rw [applyBlock, hp]⟩
  · have hversion := version_of_prepareBlock hp
    have hat : (l.advance (l.prepared block staged hh)).At R block := ⟨hversion, hb, rfl⟩
    have htakes : l.Takes R block (l.advance (l.prepared block staged hh)) :=
      ⟨_, by simp only [applyBlock, hp, commitPrepared_prepared]; rfl⟩
    simp only [applyBlockDurably, hp, AtomicStateCommit.tryNew_prepared] at h ⊢
    rcases hcommit : S.commit (.ofPrepared l block staged hh) s with ⟨e | d, s'⟩
    · rw [hcommit] at h
      cases h
    · rw [hcommit] at h
      dsimp only at h ⊢
      split at h
      next => cases h
      next hmatches =>
        rw [if_neg hmatches, commitPrepared_prepared]
        exact ⟨hat, htakes⟩

theorem At.applyBlockDurably (h : l.At R block) : ∃ checkpoint,
    applyBlockDurably R S l s block = (.ok (.alreadyApplied checkpoint), l, s) := by
  have hd := duplicateCheckpoint_of_watermark h.watermark rfl rfl
  exact ⟨_, by
    rw [AlphaDesk.applyBlockDurably, prepareBlock_of_duplicate h.version h.boundary hd]⟩

theorem At.refuses (h : l.At R block) (hlt : block'.blockHeight < block.blockHeight) :
    ∃ e, (AlphaDesk.applyBlockDurably R S l s block').1 = .error e := by
  obtain ⟨e, hp⟩ | ⟨c, -, -, hd⟩ | ⟨staged, hh, -, -, -, hn, -⟩ := prepareBlock_cases R l block'
  · exact ⟨_, by rw [AlphaDesk.applyBlockDurably, hp]⟩
  · obtain ⟨w, hw, hheight, -⟩ := duplicateCheckpoint_eq_some hd
    rw [← Option.mem_unique h.watermark hw] at hheight
    rw [hheight, UInt64.lt_iff_toNat_lt] at hlt
    exact absurd hlt (Nat.lt_irrefl _)
  · have := (nextHeight_eq_ok hn).1 _ h.watermark
    rw [UInt64.lt_iff_toNat_lt] at hlt
    dsimp only at this
    omega

end CanonicalLedger

end AlphaDesk
