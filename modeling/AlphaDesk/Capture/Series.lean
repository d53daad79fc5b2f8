import AlphaDesk.Capture.Safety

/-! # A series of blocks

A series is a list of consecutive blocks that can all be planned. How far a run has
come along a series is three numbers: the blocks behind the cursor, the blocks in the
journal and the blocks in the archive. The numbers say what is held, planned and
published, and each change of the journal takes them one step further.
-/

namespace AlphaDesk

open Except

variable {blockHeight : BlockHeight}

namespace Coordinator

open Effect

variable {B : Blake3} {ω : Type}

/-- What the archive holds, by chain and height. -/
abbrev Held (B : Blake3) := ChainId → BlockHeight → Option (BlockEnvelope B)

/-- Ports that do their work: the archive keeps what it is given, returns the same receipt for
the same block and has nothing else to return; the publisher and the clock answer. -/
structure Dependable (ports : CapturePorts B ω) (held : ω → Held B)
    (receiptOf : BlockEnvelope B → ArchiveReceipt) : Prop where
  append : ∀ block w, (∀ found, held w block.chainId block.blockHeight = some found →
      found = block) →
    (ports.appendBlock block w).1 = .ok (receiptOf block) ∧
      ∀ chainId blockHeight, held (ports.appendBlock block w).2 chainId blockHeight =
        if chainId = block.chainId ∧ blockHeight = block.blockHeight then some block
        else held w chainId blockHeight
  load : ∀ chainId blockHeight w, (ports.loadBlock chainId blockHeight w).1 =
      Except.ofOption .rangeUnavailable (held w chainId blockHeight) ∧
    held (ports.loadBlock chainId blockHeight w).2 = held w
  publish : ∀ message w, (∃ reply, (ports.publish message w).1 = .ok reply ∧
      reply.messageId = message.messageId ∧ reply.stream = message.stream ∧
      reply.publicationSha256 = message.publicationSha256) ∧
    held (ports.publish message w).2 = held w
  clock : ∀ blockHeight ordinal w, (∃ time, (ports.acknowledgedAt blockHeight ordinal w).1 =
      .ok time) ∧
    held (ports.acknowledgedAt blockHeight ordinal w).2 = held w

/-- Faults leave the archive alone. -/
def Inert (faults : FaultInjector ω) (held : ω → Held B) : Prop :=
  ∀ point w, held (faults point w).2 = held w

def Quiet (faults : FaultInjector ω) : Prop := ∀ point w, (faults point w).1 = .ok ()

theorem inert_noCoordinatorFaults (held : ω → Held B) : Inert noCoordinatorFaults held :=
  fun _ _ => rfl

theorem quiet_noCoordinatorFaults : Quiet (ω := ω) noCoordinatorFaults := fun _ _ => rfl

/-- A property of the archive, the journal and the calls. -/
abbrev View (B : Blake3) := Held B → InMemoryProgressStore → List CaptureCall → Prop

def OnView (held : ω → Held B) (P : View B) (s : CaptureState ω) : Prop :=
  P (held s.world) s.progress s.calls

variable {held : ω → Held B} {receiptOf : BlockEnvelope B → ArchiveReceipt}
  {ports : CapturePorts B ω} {faults : FaultInjector ω} {P : View B} {α : Type}
  {E : CoordinatorError → CaptureState ω → Prop} {Q : α → View B}

theorem check_view {point : CoordinatorFaultPoint} (hinert : Inert faults held)
    (hE : ∀ e s, ¬Quiet faults → OnView held P s → E e s) :
    Triple (OnView held P) (check faults point) (fun _ => OnView held P) E := by
  intro s hs
  have hview : OnView held P ((check faults point).exec s).2 := by
    change P (held (faults point s.world).2) s.progress s.calls
    rw [hinert]
    exact hs
  refine ⟨fun _ _ => hview, fun e he => hE e _ (fun hquiet => ?_) hview⟩
  change (faults point s.world).1.mapError id = _ at he
  rw [hquiet] at he
  cases he

section Ports

variable (hports : Dependable ports held receiptOf) {chainId : ChainId}
include hports

theorem clock_view {ordinal : UInt32} :
    Triple (OnView held P) (port (ports.acknowledgedAt blockHeight ordinal) id)
      (fun _ => OnView held P) E := by
  refine .of_exec_ok fun s hs => ?_
  obtain ⟨⟨time, htime⟩, hheld⟩ := hports.clock blockHeight ordinal s.world
  refine ⟨time, mapError_eq_ok.mpr htime, ?_⟩
  change P (held (ports.acknowledgedAt blockHeight ordinal s.world).2) _ _
  rwa [hheld]

theorem load_view {block : BlockEnvelope B}
    (hfound : ∀ v progress calls, P v progress calls → v chainId blockHeight = some block) :
    Triple (OnView held P) (loadBlock ports chainId blockHeight)
      (fun found s => found = block ∧ OnView held P s) E := by
  refine .of_exec_ok fun s hs => ?_
  obtain ⟨hreply, hheld⟩ := hports.load chainId blockHeight s.world
  rw [hfound _ _ _ hs, ofOption_some] at hreply
  refine ⟨block, mapError_eq_ok.mpr hreply, rfl, ?_⟩
  change P (held (ports.loadBlock chainId blockHeight s.world).2) _ _
  rwa [hheld]

theorem find_view :
    Triple (OnView held P) (findBlock ports chainId blockHeight)
      (fun found => OnView held fun v progress calls => P v progress calls ∧
        v chainId blockHeight = found) E := by
  refine .of_exec_ok fun s hs => ?_
  obtain ⟨hreply, hheld⟩ := hports.load chainId blockHeight s.world
  refine ⟨held s.world chainId blockHeight, ?_, ?_⟩
  · rw [findBlock, exec_mk]
    dsimp only
    rw [hreply]
    cases held s.world chainId blockHeight <;> rfl
  · change P (held (ports.loadBlock chainId blockHeight s.world).2) _ _ ∧ _ = _
    rw [hheld]
    exact ⟨hs, congrFun₂ hheld _ _⟩

end Ports

theorem read_view {load : InMemoryProgressStore → Except ProgressError α}
    (h : ∀ v progress calls, P v progress calls →
      ∃ a, load progress = .ok a ∧ Q a v progress calls) :
    Triple (OnView held P) (read load) (fun a => OnView held (Q a)) E := by
  refine .of_exec_ok fun s hs => ?_
  obtain ⟨a, hload, hQ⟩ := h _ _ _ hs
  exact ⟨a, mapError_eq_ok.mpr hload, hQ⟩

theorem write_view
    {change : InMemoryProgressStore → Except ProgressError (α × InMemoryProgressStore)}
    {more : α → InMemoryProgressStore → List CaptureCall}
    (h : ∀ v progress calls, P v progress calls → ∃ a progress',
      change progress = .ok (a, progress') ∧ Q a v progress' (calls ++ more a progress)) :
    Triple (OnView held P) (write change more) (fun a => OnView held (Q a)) E := by
  refine .of_exec_ok fun s hs => ?_
  obtain ⟨a, progress', hchange, hQ⟩ := h _ _ _ hs
  refine ⟨a, ?_⟩
  rw [write, exec_mk]
  simp only [hchange]
  exact ⟨trivial, hQ⟩

end Coordinator

/-- The plan that a block is journalled with, when the archive returns the given receipt. -/
def planOf {B : Blake3} (K : EnvelopeCodec) (receiptOf : BlockEnvelope B → ArchiveReceipt)
    (block : BlockEnvelope B) : Except CoordinatorError ArchivedBlockPlan := do
  let batch ← (CommittedPublicationBatch.tryNew K block (receiptOf block)).mapError
    fun _ => .publication
  buildPlan block (receiptOf block) batch

/-- Consecutive blocks of a chain that can all be planned, with the receipts for them. -/
structure BlockSeries (B : Blake3) (K : EnvelopeCodec) where
  chainId : ChainId
  first : BlockHeight
  blocks : List (BlockEnvelope B)
  receiptOf : BlockEnvelope B → ArchiveReceipt
  chainId_eq : ∀ block ∈ blocks, block.chainId = chainId
  heights : blocks.map (·.blockHeight.toNat) = List.range' first.toNat blocks.length
  planned : ∀ block ∈ blocks, ∃ plan, planOf K receiptOf block = .ok plan

namespace BlockSeries

variable {B : Blake3} {K : EnvelopeCodec} (series : BlockSeries B K) {i : ℕ}

section Lookup

theorem toNat_blockHeight (hi : i < series.blocks.length) :
    series.blocks[i].blockHeight.toNat = series.first.toNat + i := by
  have hmap : (series.blocks.map (·.blockHeight.toNat))[i]? = some (series.first.toNat + i) := by
    rw [series.heights, List.getElem?_range' hi, Nat.one_mul]
  rw [List.getElem?_map, List.getElem?_eq_getElem hi] at hmap
  exact Option.some.inj hmap

/-- The block of a height among the first blocks of the series. -/
def upTo (count : ℕ) (blockHeight : BlockHeight) : Option (BlockEnvelope B) :=
  if series.first ≤ blockHeight ∧ blockHeight.toNat - series.first.toNat < count then
    series.blocks[blockHeight.toNat - series.first.toNat]?
  else none

variable {series} {count : ℕ}

theorem upTo_of_toNat (h : blockHeight.toNat = series.first.toNat + i) :
    series.upTo count blockHeight = if i < count then series.blocks[i]? else none := by
  have hle : series.first ≤ blockHeight := UInt64.le_iff_toNat_le.mpr (by omega)
  have hsub : blockHeight.toNat - series.first.toNat = i := by omega
  rw [upTo, hsub]
  simp only [hle, true_and]

theorem upTo_getElem (hi : i < series.blocks.length) :
    series.upTo count series.blocks[i].blockHeight =
      if i < count then some series.blocks[i] else none := by
  rw [upTo_of_toNat (series.toNat_blockHeight hi), List.getElem?_eq_getElem hi]

theorem upTo_succ (hcount : count < series.blocks.length) (blockHeight : BlockHeight) :
    series.upTo (count + 1) blockHeight =
      if blockHeight = series.blocks[count].blockHeight then some series.blocks[count]
      else series.upTo count blockHeight := by
  have hiff : blockHeight = series.blocks[count].blockHeight ↔ series.first ≤ blockHeight ∧
      blockHeight.toNat - series.first.toNat = count := by
    rw [← UInt64.toNat_inj, series.toNat_blockHeight hcount, UInt64.le_iff_toNat_le]
    omega
  rw [upTo, upTo]
  by_cases hle : series.first ≤ blockHeight
  · simp only [hiff, hle, true_and, Nat.lt_succ_iff_lt_or_eq]
    split_ifs <;> simp_all
  · simp [hiff, hle]

end Lookup

structure PlannedAs (block : BlockEnvelope B) (batch : CommittedPublicationBatch)
    (plan : ArchivedBlockPlan) : Prop where
  batch_eq : CommittedPublicationBatch.tryNew K block (series.receiptOf block) = .ok batch
  plan_eq : buildPlan block (series.receiptOf block) batch = .ok plan

theorem exists_plannedAs {block : BlockEnvelope B} (hblock : block ∈ series.blocks) :
    ∃ batch plan, series.PlannedAs block batch plan := by
  obtain ⟨plan, hplan⟩ := series.planned block hblock
  obtain ⟨batch, hbatch, hplan⟩ := of_bind hplan
  exact ⟨batch, plan, mapError_eq_ok.mp hbatch, hplan⟩

namespace PlannedAs

variable {series} {block : BlockEnvelope B} {batch : CommittedPublicationBatch}
  {plan : ArchivedBlockPlan} (h : series.PlannedAs block batch plan)
include h

theorem planOf_eq : planOf K series.receiptOf block = .ok plan :=
  bind_eq_ok.mpr ⟨batch, mapError_eq_ok.mpr h.batch_eq, h.plan_eq⟩

theorem holds : batch.Holds K block (series.receiptOf block) :=
  CommittedPublicationBatch.holds_of_tryNew h.batch_eq

theorem plans : Plans block (series.receiptOf block) batch plan := plans_of_buildPlan h.plan_eq

theorem verified : verifyPlanMatchesBatch plan batch = .ok () := h.plans.verified h.holds

theorem receiptFromPlan_eq : receiptFromPlan plan = .ok (series.receiptOf block) := by
  have hplans := h.plans
  have hholds := h.holds
  rw [receiptFromPlan, hplans.archiveReceiptId, hplans.archiveManifestId, hplans.blockHeight,
    hplans.canonicalBlockHash, hplans.archiveObjectSha256, hplans.archiveManifestSha256,
    hplans.archiveSchemaFingerprint, hplans.archivedAt, ← hholds.blockHeight,
    ← hholds.canonicalBlockHash, ArchiveReceipt.tryNew_fields]
  rfl

theorem chainId_eq (hblock : block ∈ series.blocks) : plan.chainId = series.chainId :=
  h.plans.chainId.trans (series.chainId_eq block hblock)

theorem planned {message : PublicationMessage} (hm : batch.messages[i]? = some message) :
    ∃ publication, plan.publications[i]? = some publication ∧
      publication.messageId = message.messageId ∧
      publication.subject = message.subject.asStr ∧
      publication.publicationSha256 = message.publicationSha256 := by
  obtain ⟨hi, rfl⟩ := List.getElem?_eq_some_iff.mp hm
  have hlen := h.plans.publications.length_eq
  exact ⟨_, List.getElem?_eq_getElem (hlen ▸ hi), h.plans.publications.get (hlen ▸ hi) hi⟩

end PlannedAs

end BlockSeries

end AlphaDesk
