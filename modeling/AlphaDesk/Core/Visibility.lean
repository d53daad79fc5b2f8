import AlphaDesk.Ledger.History
import AlphaDesk.Store.Commit

/-! # Durable before visible

A block is prepared on the visible ledger, committed to the store and only then made
visible; the store may fail and the process may stop between any two steps. Over every
run a session's ledger is at the durable image or one block behind it. The durable
images are then compared with the states of one ledger in memory that never fails.
-/

namespace AlphaDesk

open StateImage

variable {B : Blake3} {σ : Type}

/-- A store of state images, as the core sees it. -/
structure AtomicStateStore (B : Blake3) (σ : Type) where
  commit : AtomicStateCommit B → σ → Except StateStoreError StateCommitDisposition × σ
  loadLatest : StateImageLimits → σ → Except StateStoreError (Option StateImage) × σ

def StateCommitDisposition.receipt : StateCommitDisposition → StateCommitReceipt
  | committed receipt | alreadyCommitted receipt => receipt

/-- The receipt is for the transition that was to be committed. -/
def StateCommitReceipt.Matches (receipt : StateCommitReceipt) (commit : AtomicStateCommit B) :
    Prop :=
  receipt.blockHeight = commit.blockHeight ∧
    receipt.canonicalBlockHash = commit.canonicalBlockHash ∧
    receipt.stateHash = commit.afterStateHash

instance (receipt : StateCommitReceipt) (commit : AtomicStateCommit B) :
    Decidable (receipt.Matches commit) := inferInstanceAs (Decidable (_ ∧ _ ∧ _))

inductive DurableApplyOutcome
  | applied (delta : StateDelta) (disposition : StateCommitDisposition)
  | alreadyApplied (checkpoint : StateCheckpoint)

inductive DurableApplyError
  | ledger (error : LedgerError)
  | commitContract (error : StateStoreError)
  | store (error : StateStoreError)
  | receiptMismatch
  | postCommitLedger (error : LedgerError)

/-- The reply, with the ledger and the store that the call leaves. -/
def applyBlockDurably (R : EventReducer) (S : AtomicStateStore B σ) (l : CanonicalLedger) (s : σ)
    (block : BlockEnvelope B) :
    Except DurableApplyError DurableApplyOutcome × CanonicalLedger × σ :=
  match l.prepareBlock R block with
  | .error e => (.error (.ledger e), l, s)
  | .ok (.alreadyApplied checkpoint) => (.ok (.alreadyApplied checkpoint), l, s)
  | .ok (.ready prepared) =>
    match AtomicStateCommit.tryNew B prepared.delta prepared.nextState with
    | .error e => (.error (.commitContract e), l, s)
    | .ok commit =>
      match S.commit commit s with
      | (.error e, s') => (.error (.store e), l, s')
      | (.ok disposition, s') =>
        if ¬disposition.receipt.Matches commit then (.error .receiptMismatch, l, s')
        else
          match l.commitPrepared prepared with
          | (.error e, l') => (.error (.postCommitLedger e), l', s')
          | (.ok delta, l') => (.ok (.applied delta disposition), l', s')

inductive LocalReplayError
  | ledger (error : LedgerError)
  | store (error : StateStoreError)

/-- What a session is opened with, whatever the store has. -/
structure SessionConfig where
  chainId : ChainId
  firstHeight : BlockHeight
  limits : LedgerLimits

/-- Open a session: the ledger of the latest image, or an empty one for a new store. -/
def openSession (R : EventReducer) (config : SessionConfig) (S : AtomicStateStore B σ)
    (imageLimits : StateImageLimits) (s : σ) : Except LocalReplayError CanonicalLedger × σ :=
  match S.loadLatest imageLimits s with
  | (.error e, s') => (.error (.store e), s')
  | (.ok (some image), s') =>
    ((CanonicalLedger.tryFromStateImage B image R config.limits).mapError .ledger, s')
  | (.ok none, s') =>
    ((CanonicalLedger.tryNew B config.chainId config.firstHeight R config.limits).mapError .ledger,
      s')

/-- What happens to the process: a block to apply, a block in the middle of which it stops after
the store was called, or a restart. -/
inductive DurableInput (B : Blake3)
  | apply (block : BlockEnvelope B)
  | interrupted (block : BlockEnvelope B)
  | restart (imageLimits : StateImageLimits)

/-- The store and the session, with the durable images in the order in which they came and the
blocks they came from. -/
structure DurableState (B : Blake3) (σ : Type) where
  store : σ
  session : Option CanonicalLedger
  images : List StateImage
  accepted : List (BlockEnvelope B)

namespace DurableState

/-- The image that is durable is remembered when it is another than before. -/
def stored (durable : σ → Option StateImage) (s : DurableState B σ) (block : BlockEnvelope B)
    (store : σ) : DurableState B σ :=
  if durable store = durable s.store then { s with store := store }
  else
    { s with
      store := store
      images := s.images ++ (durable store).toList
      accepted := s.accepted ++ [block] }

def step (R : EventReducer) (config : SessionConfig) (S : AtomicStateStore B σ)
    (durable : σ → Option StateImage) (s : DurableState B σ) : DurableInput B → DurableState B σ
  | .apply block =>
    match s.session with
    | none => s
    | some l =>
      let reply := applyBlockDurably R S l s.store block
      { s.stored durable block reply.2.2 with session := some reply.2.1 }
  | .interrupted block =>
    match s.session with
    | none => s
    | some l =>
      { s.stored durable block (applyBlockDurably R S l s.store block).2.2 with session := none }
  | .restart imageLimits =>
    let reply := openSession R config S imageLimits s.store
    { s with store := reply.2, session := reply.1.toOption }

end DurableState

/-- The contract of a store: a commit that succeeds is what is durable, one that fails may have
taken effect, and what is loaded is what is durable. -/
structure ObeysContract (S : AtomicStateStore B σ) (durable : σ → Option StateImage) : Prop where
  commit_ok : ∀ commit s d, (S.commit commit s).1 = .ok d →
    durable (S.commit commit s).2 = some commit.stateImage
  commit_error : ∀ commit s e, (S.commit commit s).1 = .error e →
    durable (S.commit commit s).2 = durable s ∨
      durable (S.commit commit s).2 = some commit.stateImage
  load_ok : ∀ limits s image, (S.loadLatest limits s).1 = .ok image → image = durable s
  load_durable : ∀ limits s, durable (S.loadLatest limits s).2 = durable s

/-- The store never replaces an image by another of the same height. -/
def NeverReplaces (S : AtomicStateStore B σ) (durable : σ → Option StateImage) : Prop :=
  ∀ commit s image, durable s = some image → image.blockHeight = some commit.blockHeight →
    durable (S.commit commit s).2 = durable s

section Calls

variable {R : EventReducer} {S : AtomicStateStore B σ} {durable : σ → Option StateImage}
  {l : CanonicalLedger} {s : σ} {block : BlockEnvelope B}

open CanonicalLedger

/-- What a call can do: leave the ledger and the store as they are, or call the store with the
next image, which becomes visible behind a success only. -/
theorem applyBlockDurably_cases (R : EventReducer) (S : AtomicStateStore B σ)
    (l : CanonicalLedger) (s : σ) (block : BlockEnvelope B) :
    (applyBlockDurably R S l s block).2 = (l, s) ∨
    ∃ commit : AtomicStateCommit B, applies R l block = true ∧
      commit.stateImage = (l.applyBlock R block).2.state ∧
      commit.blockHeight = block.blockHeight ∧
      (applyBlockDurably R S l s block).2.2 = (S.commit commit s).2 ∧
      ((applyBlockDurably R S l s block).2.1 = l ∨
        (∃ d, (S.commit commit s).1 = .ok d) ∧
          (applyBlockDurably R S l s block).2.1 = (l.applyBlock R block).2) := by
  obtain ⟨e, h⟩ | ⟨c, h, -⟩ | ⟨staged, hh, h, -⟩ := prepareBlock_cases R l block
  · exact .inl (by rw [applyBlockDurably, h])
  · exact .inl (by rw [applyBlockDurably, h])
  · right
    have ha : l.applyBlock R block = (.ok (.applied (l.prepared block staged hh).delta),
        l.advance (l.prepared block staged hh)) := by
      simp only [applyBlock, h, commitPrepared_prepared]
      rfl
    refine ⟨.ofPrepared l block staged hh, by simp [applies, ha], by rw [ha]; rfl, rfl, ?_⟩
    simp only [applyBlockDurably, h, AtomicStateCommit.tryNew_prepared, ha]
    rcases S.commit (.ofPrepared l block staged hh) s with ⟨e | d, s'⟩
    · exact ⟨rfl, .inl rfl⟩
    · dsimp only
      split
      next => exact ⟨rfl, .inl rfl⟩
      next =>
        rw [commitPrepared_prepared]
        exact ⟨rfl, .inr ⟨⟨d, rfl⟩, rfl⟩⟩

/-- The store keeps what it has or takes the next image, and a ledger that moves is behind it. -/
theorem ObeysContract.applyBlockDurably (hS : ObeysContract S durable) (R : EventReducer)
    (l : CanonicalLedger) (s : σ) (block : BlockEnvelope B) :
    (applyBlockDurably R S l s block).2.1 = l ∧
      durable (applyBlockDurably R S l s block).2.2 = durable s ∨
    applies R l block = true ∧
      durable (applyBlockDurably R S l s block).2.2 = some (l.applyBlock R block).2.state ∧
      ((applyBlockDurably R S l s block).2.1 = l ∨
        (applyBlockDurably R S l s block).2.1 = (l.applyBlock R block).2) := by
  obtain h | ⟨commit, happlies, himage, -, hstore, hledger⟩ :=
    applyBlockDurably_cases R S l s block
  · exact .inl ⟨by rw [h], by rw [h]⟩
  · rw [hstore, ← himage]
    rcases hreply : (S.commit commit s).1 with e | d
    · have hl : (AlphaDesk.applyBlockDurably R S l s block).2.1 = l := by
        simpa [hreply] using hledger
      rcases hS.commit_error commit s e hreply with hd | hd
      · exact .inl ⟨hl, hd⟩
      · exact .inr ⟨happlies, hd, .inl hl⟩
    · exact .inr ⟨happlies, hS.commit_ok commit s d hreply, hledger.imp_right And.right⟩

theorem NeverReplaces.applyBlockDurably (hS : NeverReplaces S durable) {image : StateImage}
    (hd : durable s = some image) (hheight : image.blockHeight = some block.blockHeight) :
    durable (applyBlockDurably R S l s block).2.2 = durable s := by
  obtain h | ⟨commit, -, -, hcommit, hstore, -⟩ := applyBlockDurably_cases R S l s block
  · rw [h]
  · rw [hstore]
    exact hS commit s image hd (by rw [hheight, hcommit])

end Calls

namespace DurableState

variable {store : σ}

section Invariant

open CanonicalLedger

variable {R : EventReducer} {config : SessionConfig} {S : AtomicStateStore B σ}
  {durable : σ → Option StateImage} {s : DurableState B σ} {l l' : CanonicalLedger}
  {block : BlockEnvelope B} {image : StateImage}

/-- The image is of a block on the chain of the sessions. -/
structure Genuine (R : EventReducer) (config : SessionConfig) (image : StateImage) : Prop where
  chain : image.chainId = config.chainId
  first : image.firstHeight = config.firstHeight
  version : R.reducerSetVersion = image.reducerSetVersion
  marked : image.watermark ≠ none

/-- A session's ledger against the image that is durable: they agree, or the store is one block
ahead. -/
structure Visible (R : EventReducer) (B : Blake3) (config : SessionConfig)
    (images : List StateImage) (latest : Option StateImage) (l : CanonicalLedger) : Prop where
  sound : l.Sound R B config.chainId config.firstHeight
  limits : l.limits = config.limits
  seen : l.state.watermark ≠ none → l.state ∈ images
  close : latest = l.image ∨
    ∃ block : BlockEnvelope B, applies R l block = true ∧
      latest = some (l.applyBlock R block).2.state

structure Consistent (R : EventReducer) (config : SessionConfig) (durable : σ → Option StateImage)
    (s : DurableState B σ) : Prop where
  latest : durable s.store = s.images.getLast?
  genuine : ∀ image ∈ s.images, Genuine R config image
  visible : ∀ l, s.session = some l → Visible R B config s.images (durable s.store) l

theorem stored_of_eq (h : durable store = durable s.store) :
    s.stored durable block store = { s with store := store } :=
  if_pos h

theorem stored_of_ne (h : durable store ≠ durable s.store) (himage : durable store = some image) :
    s.stored durable block store =
      { s with
        store := store
        images := s.images ++ [image]
        accepted := s.accepted ++ [block] } := by
  rw [DurableState.stored, if_neg h, himage]
  rfl

@[simp] theorem stored_store : (s.stored durable block store).store = store := by
  unfold DurableState.stored
  split <;> rfl

@[simp] theorem stored_session : (s.stored durable block store).session = s.session := by
  unfold DurableState.stored
  split <;> rfl

/-- The store keeps what it has or takes the next image of the session's ledger, and the ledger
is then seen from where it stood. -/
theorem Consistent.stored (hs : Consistent R config durable s) (hl : s.session = some l)
    (hstore : durable store = durable s.store ∨
      applies R l block = true ∧ durable store = some (l.applyBlock R block).2.state) :
    Consistent R config durable (s.stored durable block store) := by
  have hv := hs.visible l hl
  by_cases heq : durable store = durable s.store
  · rw [stored_of_eq heq]
    exact ⟨heq ▸ hs.latest, hs.genuine, fun l' h' => heq ▸ hs.visible l' h'⟩
  · obtain ⟨happlies, himage⟩ := hstore.resolve_left heq
    rw [stored_of_ne heq himage]
    refine ⟨by simp [himage], ?_, ?_⟩
    · intro image hmem
      rcases List.mem_append.mp hmem with hold | hnew
      · exact hs.genuine image hold
      · rw [List.mem_singleton.mp hnew]
        have hsound := hv.sound.applyBlock block
        refine ⟨hsound.chain, hsound.first, hsound.version, fun hw => ?_⟩
        simpa [blockHeight, hw] using (blockHeight_of_applies happlies).1
    · intro l' hl'
      obtain rfl : l = l' := Option.mem_unique hl hl'
      exact ⟨hv.sound, hv.limits, fun hw => List.mem_append_left _ (hv.seen hw),
        .inr ⟨block, happlies, himage⟩⟩

theorem Visible.moved (hs : Consistent R config durable s)
    (hl : l.Sound R B config.chainId config.firstHeight) (hlimits : l.limits = config.limits)
    (himage : durable s.store = l.image) : Visible R B config s.images (durable s.store) l := by
  refine ⟨hl, hlimits, ?_, .inl himage⟩
  intro hw
  apply List.mem_of_getLast?
  rw [← hs.latest, himage, image_of_watermark hw]

theorem Consistent.withSession {session : Option CanonicalLedger}
    (hs : Consistent R config durable s)
    (h : ∀ l, session = some l → Visible R B config s.images (durable s.store) l) :
    Consistent R config durable { s with session := session } :=
  ⟨hs.latest, hs.genuine, h⟩

theorem Consistent.openSession (hs : Consistent R config durable s) (hS : ObeysContract S durable)
    {imageLimits : StateImageLimits} (h : (openSession R config S imageLimits s.store).1 = .ok l) :
    l.Sound R B config.chainId config.firstHeight ∧ l.limits = config.limits ∧
      durable s.store = l.image := by
  unfold AlphaDesk.openSession at h
  split at h
  next => cases h
  next image s' hload =>
    have hdurable : some image = durable s.store := hS.load_ok imageLimits _ _ (by rw [hload])
    obtain ⟨-, h⟩ := Except.of_check (Except.mapError_eq_ok.mp h)
    obtain ⟨hv, h⟩ := Except.of_check h
    obtain rfl := Except.ok.inj h
    have hmem : image ∈ s.images := List.mem_of_getLast? (hs.latest.symm.trans hdurable.symm)
    have hg := hs.genuine image hmem
    refine ⟨⟨hg.chain, hg.first, not_not.mp hv, rfl⟩, rfl, ?_⟩
    rw [← hdurable, image_of_watermark hg.marked]
  next s' hload =>
    have hdurable : none = durable s.store := hS.load_ok imageLimits _ _ (by rw [hload])
    have hnew := Except.mapError_eq_ok.mp h
    obtain ⟨hlimits, hw⟩ := tryNew_eq_ok hnew
    refine ⟨sound_tryNew hnew, hlimits, ?_⟩
    rw [← hdurable, image, hw, Option.map_none]

theorem openSession_durable (hS : ObeysContract S durable) (imageLimits : StateImageLimits)
    (s : σ) : durable (openSession R config S imageLimits s).2 = durable s := by
  rw [← hS.load_durable imageLimits s]
  unfold openSession
  split
  next hload => rw [hload]
  next hload => rw [hload]
  next hload => rw [hload]

theorem Consistent.step (hs : Consistent R config durable s) (hS : ObeysContract S durable)
    (input : DurableInput B) : Consistent R config durable (s.step R config S durable input) := by
  cases input with
  | apply block =>
    rcases hl : s.session with _ | l
    · simpa only [DurableState.step, hl] using hs
    · simp only [DurableState.step, hl]
      have hcall := hS.applyBlockDurably R l s.store block
      have hs' := hs.stored hl (hcall.imp And.right fun h => ⟨h.1, h.2.1⟩)
      refine hs'.withSession ?_
      intro l' hl'
      obtain rfl := Option.some.inj hl'
      have hsame := hs'.visible l (stored_session.trans hl)
      rcases hcall with ⟨hledger, -⟩ | ⟨happlies, himage, hledger | hledger⟩
      · rwa [hledger]
      · rwa [hledger]
      · rw [hledger]
        refine .moved hs' (hsame.sound.applyBlock block)
          ((applyBlock_limits R l block).trans hsame.limits) ?_
        rw [stored_store, himage, image_of_applies happlies]
  | interrupted block =>
    rcases hl : s.session with _ | l
    · simpa only [DurableState.step, hl] using hs
    · simp only [DurableState.step, hl]
      have hcall := hS.applyBlockDurably R l s.store block
      have hs' := hs.stored hl (hcall.imp And.right fun h => ⟨h.1, h.2.1⟩)
      exact hs'.withSession (by simp)
  | restart imageLimits =>
    have hd : durable (AlphaDesk.openSession R config S imageLimits s.store).2 = durable s.store :=
      openSession_durable hS imageLimits s.store
    have hs' : Consistent R config durable
        { s with store := (AlphaDesk.openSession R config S imageLimits s.store).2 } :=
      ⟨hd ▸ hs.latest, hs.genuine, fun l hl => hd ▸ hs.visible l hl⟩
    refine hs'.withSession ?_
    intro l hl
    obtain ⟨hsound, hlimits, himage⟩ := hs.openSession hS (Except.mem_toOption.mp hl)
    exact .moved hs' hsound hlimits (hd.trans himage)

end Invariant

section Refinement

open CanonicalLedger

variable {R : EventReducer} {config : SessionConfig} {S : AtomicStateStore B σ}
  {durable : σ → Option StateImage} {s : DurableState B σ} {l l₀ : CanonicalLedger}

/-- The durable images are those of one ledger in memory that applied every accepted block. -/
structure Mirrors (R : EventReducer) (l₀ : CanonicalLedger) (s : DurableState B σ) : Prop where
  applied : appliedBlocks R l₀ s.accepted = s.accepted
  images : s.images = stateImages R l₀ s.accepted

section Mirrored

variable (hm : Mirrors R l₀ s) (hs : Consistent R config durable s)
  (hnew : tryNew B config.chainId config.firstHeight R config.limits = .ok l₀)
  (hS : ObeysContract S durable) (hN : NeverReplaces S durable)
include hm hs hnew

theorem Mirrors.ledger_eq
    (hl : Visible R B config s.images (durable s.store) l) (himage : durable s.store = l.image) :
    l = run R l₀ s.accepted := by
  obtain ⟨hlimits, hw⟩ := tryNew_eq_ok hnew
  apply hl.sound.eq_of_image_eq ((sound_tryNew hnew).run s.accepted)
  · rw [hl.limits, run_limits, hlimits]
  · have hempty : l₀.image = none := by rw [image, hw, Option.map_none]
    rw [← himage, hs.latest, hm.images, getLast?_stateImages hempty hm.applied]

include hS hN

theorem Mirrors.stored (hl : s.session = some l) (block : BlockEnvelope B) :
    Mirrors R l₀ (s.stored durable block (applyBlockDurably R S l s.store block).2.2) := by
  have hv := hs.visible l hl
  by_cases heq : durable (applyBlockDurably R S l s.store block).2.2 = durable s.store
  · rw [stored_of_eq heq]
    exact ⟨hm.applied, hm.images⟩
  · obtain ⟨-, hd⟩ | ⟨happlies, himage, -⟩ := hS.applyBlockDurably R l s.store block
    · exact absurd hd heq
    rw [stored_of_ne heq himage]
    obtain rfl : l = run R l₀ s.accepted := by
      rcases hv.close with hd | ⟨ahead, hahead, hd⟩
      · exact hm.ledger_eq hs hnew hv hd
      · -- the store is ahead with an image of the height the block has, and keeps it
        have hnext := (blockHeight_of_applies hahead).2
        rw [(blockHeight_of_applies happlies).2] at hnext
        refine absurd (hN.applyBlockDurably hd ?_) heq
        rw [(blockHeight_of_applies hahead).1, Except.ok.inj hnext]
    constructor
    · exact appliedBlocks_concat_eq_iff.mpr ⟨hm.applied, happlies⟩
    · rw [stateImages_concat, ← hm.images]

theorem Mirrors.step (input : DurableInput B) : Mirrors R l₀ (s.step R config S durable input) := by
  cases input with
  | apply block | interrupted block =>
    rcases hl : s.session with _ | l
    · simpa only [DurableState.step, hl] using hm
    · have hm' := hm.stored hs hnew hS hN hl block
      simp only [DurableState.step, hl]
      exact ⟨hm'.applied, hm'.images⟩
  | restart imageLimits => exact ⟨hm.applied, hm.images⟩

end Mirrored

def start (store : σ) : DurableState B σ := ⟨store, none, [], []⟩

theorem consistent_start (h : durable store = none) :
    Consistent R config durable (start store : DurableState B σ) where
  latest := h
  genuine := by simp [start]
  visible := by simp [start]

theorem Visible.seen_or_new (hl : Visible R B config s.images (durable s.store) l) :
    tryNew B config.chainId config.firstHeight R config.limits = .ok l ∨ l.state ∈ s.images := by
  by_cases hw : l.state.watermark = none
  · left
    have hv : validReducerVersion R.reducerSetVersion = true := by
      rw [hl.sound.version]
      exact l.state.version_valid
    have hnew : tryNew B config.chainId config.firstHeight R config.limits = .ok _ := dif_pos hv
    rw [hnew, hl.sound.eq_of_image_eq (sound_tryNew hnew) hl.limits]
    rw [image, hw]
    rfl
  · exact .inr (hl.seen hw)

theorem Visible.blockHeight_close (hl : Visible R B config s.images (durable s.store) l) :
    (durable s.store).bind blockHeight = l.state.blockHeight ∨
      ∃ height, (durable s.store).bind blockHeight = some height ∧
        l.nextHeight = .ok height := by
  rcases hl.close with hd | ⟨block, happlies, hd⟩
  · left
    cases hw : l.state.watermark with
    | none => simp [hd, image, blockHeight, hw]
    | some w => simp [hd, image, blockHeight, hw]
  · obtain ⟨hheight, hnext⟩ := blockHeight_of_applies happlies
    exact .inr ⟨block.blockHeight, by rw [hd, Option.bind_some, hheight], hnext⟩

/-- Over every run with failures and restarts, what is visible is new or durable and the store is
at most one block ahead. Where the store never replaces an image by another of its height, the
durable images are those of one ledger in memory that applies the accepted blocks. -/
theorem durable_before_visible (R : EventReducer) (config : SessionConfig)
    (hS : ObeysContract S durable) (store : σ) (hstore : durable store = none)
    (inputs : List (DurableInput B)) :
    let s := Run.final (DurableState.step R config S durable) (start store) inputs
    durable s.store = s.images.getLast? ∧
    (∀ l, s.session = some l →
      (tryNew B config.chainId config.firstHeight R config.limits = .ok l ∨ l.state ∈ s.images) ∧
      ((durable s.store).bind blockHeight = l.state.blockHeight ∨
        ∃ height, (durable s.store).bind blockHeight = some height ∧
          l.nextHeight = .ok height)) ∧
    (NeverReplaces S durable → ∀ l₀,
      tryNew B config.chainId config.firstHeight R config.limits = .ok l₀ →
      appliedBlocks R l₀ s.accepted = s.accepted ∧ s.images = stateImages R l₀ s.accepted) := by
  intro s
  have hs : Consistent R config durable s :=
    Run.invariant _ (consistent_start hstore) (fun _ input h => h.step hS input) inputs
  refine ⟨hs.latest, ?_, ?_⟩
  · intro l hl
    exact ⟨(hs.visible l hl).seen_or_new, (hs.visible l hl).blockHeight_close⟩
  · intro hN l₀ hnew
    have hboth : Consistent R config durable s ∧ Mirrors R l₀ s :=
      Run.invariant (P := fun s => Consistent R config durable s ∧ Mirrors R l₀ s) _
        ⟨consistent_start hstore, rfl, rfl⟩
        (fun _ input h => ⟨h.1.step hS input, h.2.step h.1 hnew hS hN input⟩) inputs
    exact ⟨hboth.2.applied, hboth.2.images⟩

end Refinement

section Sample

open CanonicalLedger

/-- The latest image, and whether a commit has failed yet: the first one fails with effect. An
overwriting store takes every image, another keeps the image of a height. -/
def flakyStore (overwrites : Bool) : AtomicStateStore sumBlake3 (Option StateImage × Bool) where
  commit c s :=
    if overwrites = false ∧ s.1.bind blockHeight = some c.blockHeight then
      (.error .conflict, s)
    else if s.2 then (.ok (.committed c.receipt), some c.stateImage, true)
    else (.error (.io "synchronizing"), some c.stateImage, true)
  loadLatest _ s := (.ok s.1, s)

theorem flakyStore_obeysContract (overwrites : Bool) :
    ObeysContract (flakyStore overwrites) Prod.fst := by
  constructor
  · intro c s d h
    dsimp only [flakyStore] at h ⊢
    split at h
    next => cases h
    next hfree =>
      rw [if_neg hfree]
      split <;> rfl
  · intro c s e h
    dsimp only [flakyStore]
    split
    next => exact .inl rfl
    next => split <;> exact .inr rfl
  · intro limits s image h
    exact (Except.ok.inj h).symm
  · intro limits s
    rfl

theorem flakyStore_neverReplaces : NeverReplaces (flakyStore false) Prod.fst := by
  intro c s image himage hheight
  dsimp only [flakyStore]
  rw [if_pos ⟨rfl, by rw [himage]; exact hheight⟩]

def sampleConfig : SessionConfig := ⟨sampleChain, 7, .production⟩

/-- A commit that fails with effect, and then another block of the same height. -/
def replacingInputs : List (DurableInput sumBlake3) :=
  [.restart .production, .apply (timedBlock 0), .apply (timedBlock 1)]

def replacedState (overwrites : Bool) : DurableState sumBlake3 (Option StateImage × Bool) :=
  Run.final (DurableState.step idleReducer sampleConfig (flakyStore overwrites) Prod.fst)
    (start (none, false)) replacingInputs

/-- The store that keeps the image of a height has the first block, one ahead of the session. -/
theorem durable_before_visible_keptImage :
    (replacedState false).images.length = 1 ∧
    ∃ l₀, tryNew sumBlake3 sampleChain 7 idleReducer .production = .ok l₀ ∧
      (replacedState false).images = stateImages idleReducer l₀ (replacedState false).accepted := by
  have hv : validReducerVersion idleReducer.reducerSetVersion = true := by decide
  have h := durable_before_visible idleReducer sampleConfig (flakyStore_obeysContract false)
    (none, false) rfl replacingInputs
  exact ⟨by decide +kernel, _, dif_pos hv, (h.2.2 flakyStore_neverReplaces _ (dif_pos hv)).2⟩

/-- An overwriting store keeps the contract, and its two images of one height are not those of a
ledger in memory, whatever the blocks. -/
theorem overwritten_not_mirrored :
    ObeysContract (flakyStore true) Prod.fst ∧
    (replacedState true).images.map StateImage.blockHeight = [some 7, some 7] ∧
    ∃ l₀, tryNew sumBlake3 sampleChain 7 idleReducer .production = .ok l₀ ∧
      ¬∃ blocks : List (BlockEnvelope sumBlake3),
        (replacedState true).images = stateImages idleReducer l₀ blocks := by
  have hheights : (replacedState true).images.map blockHeight = [some 7, some 7] := by
    decide +kernel
  have hdistinct : (replacedState true).images.Nodup := by decide +kernel
  have hv : validReducerVersion idleReducer.reducerSetVersion = true := by decide
  refine ⟨flakyStore_obeysContract true, hheights, _, dif_pos hv, ?_⟩
  rintro ⟨blocks, himages⟩
  rw [himages] at hheights hdistinct
  match blocks with
  | [] | [_] | _ :: _ :: _ :: _ => simp [stateImages, Run.outputs] at hheights
  | [first, second] =>
    simp only [stateImages, Run.outputs, List.map_cons, List.map_nil, List.cons.injEq] at hheights
    simp only [stateImages, Run.outputs, List.nodup_cons, List.mem_singleton] at hdistinct
    apply hdistinct.1
    rw [applyBlock_state_eq (hheights.2.1.trans hheights.1.symm)]

end Sample

end DurableState

end AlphaDesk
