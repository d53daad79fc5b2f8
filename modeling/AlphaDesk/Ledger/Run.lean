import AlphaDesk.Foundation.Run
import AlphaDesk.Ledger.Apply

/-! # Ledger runs

Every call on the ledger rejects its block, recognises it as the one already
applied, or commits it whole. From these three cases follow the atomicity of a
call, the agreement of the cached hash with the state, and that a run depends
only on the blocks it applied.
-/

namespace AlphaDesk

open Except

namespace CanonicalLedger

variable {B : Blake3} {R : EventReducer} {l : CanonicalLedger} {block : BlockEnvelope B}

theorem validateNextHeight_eq_ok_iff {actual : BlockHeight}
    {hh : PLift (l.state.firstHeight ≤ actual)} :
    l.validateNextHeight actual = .ok hh ↔ l.nextHeight = .ok actual := by
  fun_cases validateNextHeight l actual with
  | case1 e hn => simp [hn]
  | case2 hn => simp [hn]
  | case3 expected hn ha => simpa [hn] using fun h => ha h.symm

theorem prepareBlock_cases (R : EventReducer) (l : CanonicalLedger) (block : BlockEnvelope B) :
    (∃ e, l.prepareBlock R block = .error e) ∨
    (∃ c, l.prepareBlock R block = .ok (.alreadyApplied c) ∧ l.validateBoundary block = .ok () ∧
      l.duplicateCheckpoint block = .ok (some c)) ∨
    (∃ staged hh, l.prepareBlock R block = .ok (.ready (l.prepared block staged hh)) ∧
      l.validateBoundary block = .ok () ∧ l.duplicateCheckpoint block = .ok none ∧
      l.nextHeight = .ok block.blockHeight ∧ l.reduceBlock R block = .ok staged) := by
  rcases hp : l.prepareBlock R block with e | o
  · exact .inl ⟨e, rfl⟩
  · right
    obtain ⟨-, h⟩ := of_check hp
    obtain ⟨_, hb, h⟩ := of_bind h
    obtain ⟨d, hd, h⟩ := of_bind h
    cases d with
    | some c =>
      obtain rfl := ok.inj h
      exact .inl ⟨c, rfl, hb, hd⟩
    | none =>
      obtain ⟨hh, hn, h⟩ := of_bind h
      obtain ⟨staged, hs, h⟩ := of_bind h
      obtain rfl := ok.inj h
      exact .inr ⟨staged, hh.down, rfl, hb, hd, validateNextHeight_eq_ok_iff.mp hn, hs⟩

theorem prepareBlock_of_duplicate {c : StateCheckpoint}
    (hv : R.reducerSetVersion = l.state.reducerSetVersion) (hb : l.validateBoundary block = .ok ())
    (hd : l.duplicateCheckpoint block = .ok (some c)) :
    l.prepareBlock R block = .ok (.alreadyApplied c) := by
  simp [prepareBlock, hv, hb, hd]

def advance (l : CanonicalLedger) (p : PreparedBlock) : CanonicalLedger :=
  { l with state := p.nextState, stateHash := p.delta.afterStateHash }

/-- A block that was prepared on the ledger is committed, as its state has not drifted. -/
theorem commitPrepared_prepared {staged : StagedBlock} {hh} :
    l.commitPrepared (l.prepared block staged hh) = (.ok (l.prepared block staged hh).delta,
      l.advance (l.prepared block staged hh)) :=
  if_neg (not_not.mpr rfl)

/-- What a call can do: refuse the block, recognise it, or commit it whole. -/
theorem applyBlock_cases (R : EventReducer) (l : CanonicalLedger) (block : BlockEnvelope B) :
    (∃ e, l.applyBlock R block = (.error e, l) ∧ l.prepareBlock R block = .error e) ∨
    (∃ c, l.applyBlock R block = (.ok (.alreadyApplied c), l) ∧
      l.validateBoundary block = .ok () ∧ l.duplicateCheckpoint block = .ok (some c)) ∨
    (∃ staged hh, l.applyBlock R block =
        (.ok (.applied (l.prepared block staged hh).delta),
          l.advance (l.prepared block staged hh)) ∧
      l.validateBoundary block = .ok () ∧ l.nextHeight = .ok block.blockHeight ∧
      l.reduceBlock R block = .ok staged) := by
  obtain ⟨e, h⟩ | ⟨c, h, hb, hd⟩ | ⟨staged, hh, h, hb, -, hn, hs⟩ := prepareBlock_cases R l block
  · exact .inl ⟨e, by rw [applyBlock, h], h⟩
  · exact .inr (.inl ⟨c, by rw [applyBlock, h], hb, hd⟩)
  · refine .inr (.inr ⟨staged, hh, ?_, hb, hn, hs⟩)
    simp only [applyBlock, h, commitPrepared_prepared]
    rfl

theorem duplicateCheckpoint_of_watermark {w : StateWatermark} (hw : l.state.watermark = some w)
    (hh : block.blockHeight = w.blockHeight)
    (hc : block.canonicalBlockHash = w.canonicalBlockHash) :
    l.duplicateCheckpoint block = .ok (some (l.checkpointFrom w l.stateHash)) := by
  simp [duplicateCheckpoint, hw, hh, hc]

theorem duplicateCheckpoint_of_height_ne
    (hh : ∀ w ∈ l.state.watermark, block.blockHeight ≠ w.blockHeight) :
    l.duplicateCheckpoint block = .ok none := by
  unfold duplicateCheckpoint
  split
  next => rfl
  next w hw => simp [hh w hw]

theorem validateNextHeight_error {actual : BlockHeight} (hn : l.nextHeight ≠ .ok actual) :
    ∃ e, l.validateNextHeight actual = .error e ∧
      (l.nextHeight = .error e ∨
        ∃ expected, l.nextHeight = .ok expected ∧ e = .heightDiscontinuity expected actual) := by
  fun_cases validateNextHeight l actual with
  | case1 e he => exact ⟨e, rfl, .inl he⟩
  | case2 he => exact absurd he hn
  | case3 expected he => exact ⟨_, rfl, .inr ⟨expected, he, rfl⟩⟩

theorem nextHeight_eq_ok {h : BlockHeight} (hn : l.nextHeight = .ok h) :
    (∀ w ∈ l.state.watermark, h.toNat = w.blockHeight.toNat + 1) ∧
    (l.state.watermark = none → h = l.state.firstHeight) := by
  revert hn
  fun_cases nextHeight l with
  | case1 w hw hlt =>
    rintro ⟨⟩
    refine ⟨fun w' hw' => ?_, by simp [hw]⟩
    obtain rfl : w = w' := Option.mem_unique hw hw'
    exact Nat.mod_eq_of_lt hlt
  | case2 => rintro ⟨⟩
  | case3 hw =>
    rintro ⟨⟩
    simp [hw]

variable (R)

def applies (l : CanonicalLedger) (block : BlockEnvelope B) : Bool :=
  match (l.applyBlock R block).1 with
  | .ok (.applied _) => true
  | _ => false

/-- The ledger after a sequence of blocks, whatever became of each. -/
def run (l : CanonicalLedger) (blocks : List (BlockEnvelope B)) : CanonicalLedger :=
  Run.final (fun l block => (l.applyBlock R block).2) l blocks

/-- The blocks of a sequence that the ledger commits, in order. -/
def appliedBlocks (l : CanonicalLedger) (blocks : List (BlockEnvelope B)) :
    List (BlockEnvelope B) :=
  Run.effectives (fun l block => (l.applyBlock R block).2) (applies R) l blocks

/-- What holds of a ledger for a chain between calls. -/
structure Sound (B : Blake3) (chainId : ChainId) (firstHeight : BlockHeight)
    (l : CanonicalLedger) : Prop where
  chain : l.state.chainId = chainId
  first : l.state.firstHeight = firstHeight
  version : R.reducerSetVersion = l.state.reducerSetVersion
  hash : l.stateHash = l.state.stateHash B

variable {R} {chainId : ChainId} {firstHeight : BlockHeight}

theorem sound_tryNew {limits : LedgerLimits}
    (h : tryNew B chainId firstHeight R limits = .ok l) : l.Sound R B chainId firstHeight := by
  obtain ⟨_, h⟩ := dite_else_error_eq_ok.mp h
  obtain rfl := ok.inj h
  exact ⟨rfl, rfl, rfl, rfl⟩

theorem Sound.applyBlock (h : l.Sound R B chainId firstHeight) (block : BlockEnvelope B) :
    (l.applyBlock R block).2.Sound R B chainId firstHeight := by
  obtain ⟨e, ha, -⟩ | ⟨c, ha, -⟩ | ⟨staged, hh, ha, -⟩ := applyBlock_cases R l block
  · rw [ha]
    exact h
  · rw [ha]
    exact h
  · rw [ha]
    exact ⟨h.chain, h.first, h.version, rfl⟩

theorem Sound.run (h : l.Sound R B chainId firstHeight) (blocks : List (BlockEnvelope B)) :
    (run R l blocks).Sound R B chainId firstHeight :=
  Run.invariant _ h (fun _ block hl => hl.applyBlock block) blocks

theorem applyBlock_of_not_applies (h : applies R l block = false) :
    (l.applyBlock R block).2 = l := by
  obtain ⟨e, ha, -⟩ | ⟨c, ha, -⟩ | ⟨staged, hh, ha, -⟩ := applyBlock_cases R l block
  · rw [ha]
  · rw [ha]
  · simp [applies, ha] at h

/-- Every block committed by a run passes the boundary checks at its end. -/
theorem validateBoundary_of_mem_appliedBlocks {blocks : List (BlockEnvelope B)}
    (h : block ∈ appliedBlocks R l blocks) : (run R l blocks).validateBoundary block = .ok () := by
  refine Run.effectives_mem (P := fun l block => l.validateBoundary block = .ok ()) ?_ ?_ l blocks
    block h
  · intro l block hb
    obtain ⟨e, ha, -⟩ | ⟨c, ha, -⟩ | ⟨staged, hh, ha, hv, -⟩ := applyBlock_cases R l block
    · simp [applies, ha] at hb
    · simp [applies, ha] at hb
    · rw [ha]
      exact hv
  · intro l block next hb
    obtain ⟨e, ha, -⟩ | ⟨c, ha, -⟩ | ⟨staged, hh, ha, -⟩ := applyBlock_cases R l next
    all_goals
      rw [ha]
      exact hb

theorem run_appliedBlocks (R : EventReducer) (l : CanonicalLedger)
    (blocks : List (BlockEnvelope B)) :
    run R l (appliedBlocks R l blocks) = run R l blocks :=
  Run.final_effectives (fun _ _ h => applyBlock_of_not_applies h) l blocks

theorem applyBlock_error (l : CanonicalLedger) (block : BlockEnvelope B) {e : LedgerError}
    (h : (l.applyBlock R block).1 = .error e) : (l.applyBlock R block).2 = l := by
  apply applyBlock_of_not_applies
  simp [applies, h]

theorem Sound.applyBlock_refused (hl : l.Sound R B chainId firstHeight) {P : LedgerError → Prop}
    (h : l.validateBoundary block = .ok () → ∃ e, l.prepareBlock R block = .error e ∧ P e) :
    ∃ e, l.applyBlock R block = (.error e, l) ∧ (l.validateBoundary block = .ok () → P e) := by
  rcases hb : l.validateBoundary block with e | u
  · exact ⟨e, by simp [AlphaDesk.CanonicalLedger.applyBlock, prepareBlock, hl.version, hb], nofun⟩
  · obtain ⟨e, he, hp⟩ := h hb
    exact ⟨e, by rw [AlphaDesk.CanonicalLedger.applyBlock, he], fun _ => hp⟩

/-- Run atomicity. At every point of a run from a new ledger, whatever the reducer:
a refused block changes nothing; a committed block moves the watermark to the next
height; the block at the watermark is recognised and changes nothing; another block
at that height diverges, and any other height but the next is refused; and the cached
hash is the hash of the state. The run is that of the blocks it committed. -/
theorem ledger_run_atomic {l₀ : CanonicalLedger} {limits : LedgerLimits}
    (hnew : tryNew B chainId firstHeight R limits = .ok l₀) (blocks : List (BlockEnvelope B)) :
    (∀ block : BlockEnvelope B,
      (∀ e, ((run R l₀ blocks).applyBlock R block).1 = .error e →
        ((run R l₀ blocks).applyBlock R block).2 = run R l₀ blocks ∧
        ((run R l₀ blocks).applyBlock R block).2.checkpoint = (run R l₀ blocks).checkpoint) ∧
      (∀ d, ((run R l₀ blocks).applyBlock R block).1 = .ok (.applied d) →
        ((run R l₀ blocks).applyBlock R block).2.state.watermark =
          some ⟨block.blockHeight, block.canonicalBlockHash⟩ ∧
        (∀ w ∈ (run R l₀ blocks).state.watermark,
          block.blockHeight.toNat = w.blockHeight.toNat + 1) ∧
        ((run R l₀ blocks).state.watermark = none → block.blockHeight = firstHeight)) ∧
      (∀ w ∈ (run R l₀ blocks).state.watermark,
        block ∈ appliedBlocks R l₀ blocks ∨ (run R l₀ blocks).validateBoundary block = .ok () →
        block.blockHeight = w.blockHeight → block.canonicalBlockHash = w.canonicalBlockHash →
        ∃ c, (run R l₀ blocks).checkpoint = some c ∧
          (run R l₀ blocks).applyBlock R block = (.ok (.alreadyApplied c), run R l₀ blocks)) ∧
      (∀ w ∈ (run R l₀ blocks).state.watermark,
        block.blockHeight = w.blockHeight → block.canonicalBlockHash ≠ w.canonicalBlockHash →
        ∃ e, (run R l₀ blocks).applyBlock R block = (.error e, run R l₀ blocks) ∧
          ((run R l₀ blocks).validateBoundary block = .ok () → e = .canonicalDivergence)) ∧
      ((∀ w ∈ (run R l₀ blocks).state.watermark, block.blockHeight ≠ w.blockHeight) →
        (run R l₀ blocks).nextHeight ≠ .ok block.blockHeight →
        ∃ e, (run R l₀ blocks).applyBlock R block = (.error e, run R l₀ blocks) ∧
          ((run R l₀ blocks).validateBoundary block = .ok () →
            (run R l₀ blocks).nextHeight = .error e ∨
            ∃ expected, (run R l₀ blocks).nextHeight = .ok expected ∧
              e = .heightDiscontinuity expected block.blockHeight)) ∧
      ((run R l₀ blocks).applyBlock R block).2.stateHash =
        ((run R l₀ blocks).applyBlock R block).2.state.stateHash B) ∧
    run R l₀ (appliedBlocks R l₀ blocks) = run R l₀ blocks ∧
    (∀ blocks' : List (BlockEnvelope B), appliedBlocks R l₀ blocks' = appliedBlocks R l₀ blocks →
      run R l₀ blocks' = run R l₀ blocks) := by
  have hl : (run R l₀ blocks).Sound R B chainId firstHeight := (sound_tryNew hnew).run blocks
  refine ⟨fun block => ⟨?_, ?_, ?_, ?_, ?_, (hl.applyBlock block).hash⟩,
    run_appliedBlocks R l₀ blocks, ?_⟩
  · intro e he
    have hs := applyBlock_error _ block he
    exact ⟨hs, congrArg checkpoint hs⟩
  · intro d hd
    obtain ⟨e, ha, -⟩ | ⟨c, ha, -⟩ | ⟨staged, hh, ha, -, hn, -⟩ :=
      applyBlock_cases R (run R l₀ blocks) block
    · simp [ha] at hd
    · simp [ha] at hd
    · obtain ⟨hsucc, hfirst⟩ := nextHeight_eq_ok hn
      rw [ha]
      exact ⟨rfl, hsucc, fun h => (hfirst h).trans hl.first⟩
  · intro w hw hb hh hc
    have hb' : (run R l₀ blocks).validateBoundary block = .ok () :=
      hb.elim validateBoundary_of_mem_appliedBlocks id
    have hd := prepareBlock_of_duplicate hl.version hb' (duplicateCheckpoint_of_watermark hw hh hc)
    exact ⟨_, by rw [checkpoint, hw]; rfl, by rw [applyBlock, hd]⟩
  · intro w hw hh hc
    refine hl.applyBlock_refused fun hb => ⟨.canonicalDivergence, ?_, rfl⟩
    have hd : _ = some w := hw
    simp [prepareBlock, hl.version, hb, duplicateCheckpoint, hd, hh, hc]
  · intro hh hn
    refine hl.applyBlock_refused fun hb => ?_
    obtain ⟨e, he, hp⟩ := validateNextHeight_error hn
    have hd := duplicateCheckpoint_of_height_ne hh
    exact ⟨e, by simp [prepareBlock, hl.version, hb, hd, he], hp⟩
  · intro blocks' heq
    rw [← run_appliedBlocks R l₀ blocks', heq, run_appliedBlocks]

/-- A digest function for evaluating the model. -/
def zeroBlake3 : Blake3 := ⟨fun _ => .replicate 32 0, fun _ _ => .replicate 32 0⟩

/-- Another, which tells more strings apart: the sum of the bytes. -/
def sumBlake3 : Blake3 :=
  let sum (b : List UInt8) : Hash32 := .replicate 32 (b.foldl (· + ·) 0)
  ⟨sum, fun _ => sum⟩

def idleReducer : EventReducer where
  reducerSetVersion := "idle"
  supports _ := true
  reduce _ _ _ := .ok []
  validateBlockDelta _ _ _ := .ok ()

def sampleChain : ChainId := ⟨"hyperliquid", by decide⟩

def nodeSource : SourceId := ⟨"node", by decide⟩

def quietBlock (B : Blake3) (source : SourceId) (height : BlockHeight) (time : ProtocolTime)
    (confirmation : ConfirmationClass) : BlockEnvelope B where
  chainId := sampleChain
  blockHeight := height
  blockTime := time
  confirmationClass := confirmation
  events := []
  sourceBlockHashes := Std.ExtTreeMap.empty.insert source (.replicate 32 1)
  sourced := by simp
  events_valid := rfl

def sampleBlock : BlockEnvelope zeroBlake3 := quietBlock zeroBlake3 nodeSource 7 0 .committedPrimary

/-- A block committed at the first height is recognised when it comes again. -/
theorem ledger_run_atomic_sampleBlock :
    ∃ l₀, tryNew zeroBlake3 sampleChain 7 idleReducer .production = .ok l₀ ∧
      appliedBlocks idleReducer l₀ [sampleBlock] = [sampleBlock] ∧
      ∃ c, (run idleReducer l₀ [sampleBlock]).applyBlock idleReducer sampleBlock =
        (.ok (.alreadyApplied c), run idleReducer l₀ [sampleBlock]) := by
  have hv : validReducerVersion idleReducer.reducerSetVersion = true := by decide
  have hnew : tryNew zeroBlake3 sampleChain 7 idleReducer .production = .ok _ := dif_pos hv
  refine ⟨_, hnew, rfl, ?_⟩
  obtain ⟨c, -, h⟩ := ((ledger_run_atomic hnew [sampleBlock]).1 sampleBlock).2.2.1
    ⟨7, sampleBlock.canonicalBlockHash⟩ rfl (.inl List.mem_cons_self) rfl rfl
  exact ⟨c, h⟩

end CanonicalLedger

end AlphaDesk
