import AlphaDesk.Capture.Recovery

/-! # Repeated steps of the journal

What the journal has recorded it keeps: plans and acknowledgements stay as they are,
and the cursor only moves on. A step that was recorded before is therefore recognised
later. The cursor, however, remembers one height, and to move it to a height behind
itself is refused, although it has been there.
-/

namespace AlphaDesk

open Except Option Std.ExtTreeMap Run

variable {cursor : CaptureCursor}

inductive ProgressStep
  | initializeChain (chainId : ChainId) (firstBlockHeight : BlockHeight)
  | recordArchived (plan : ArchivedBlockPlan)
  | recordAcknowledgement (chainId : ChainId) (blockHeight : BlockHeight)
    (ack : PublicationAcknowledgement)
  | advanceCursor (chainId : ChainId) (blockHeight : BlockHeight)

inductive ProgressReply
  | recorded (disposition : ProgressRecordDisposition)
  | advanced (cursor : CaptureCursor)

namespace ProgressStep

def apply (store : InMemoryProgressStore) :
    ProgressStep → Except ProgressError (ProgressReply × InMemoryProgressStore)
  | initializeChain chainId firstBlockHeight =>
    (store.initializeChain chainId firstBlockHeight).map fun r => (.recorded r.1, r.2)
  | recordArchived plan => (store.recordArchived plan).map fun r => (.recorded r.1, r.2)
  | recordAcknowledgement chainId blockHeight ack =>
    (store.recordAcknowledgement chainId blockHeight ack).map fun r => (.recorded r.1, r.2)
  | advanceCursor chainId blockHeight =>
    (store.advanceCursor chainId blockHeight).map fun r => (.advanced r.1, r.2)

def serve (store : InMemoryProgressStore) (step : ProgressStep) : InMemoryProgressStore :=
  match step.apply store with
  | .ok (_, store') => store'
  | .error _ => store

end ProgressStep

namespace InMemoryProgressStore

theorem ChainGrows.trans {a b c : ChainState} (hab : ChainGrows a b) (hbc : ChainGrows b c) :
    ChainGrows a c where
  first := hbc.first.trans hab.first
  blocks blockHeight block hblock := by
    obtain ⟨later, hlater, hplan, hacks⟩ := hab.blocks blockHeight block hblock
    obtain ⟨latest, hlatest, hplan', hacks'⟩ := hbc.blocks blockHeight later hlater
    exact ⟨latest, hlatest, hplan'.trans hplan,
      fun ordinal ack hack => hacks' ordinal ack (hacks ordinal ack hack)⟩
  cursor cursor hcursor := by
    obtain ⟨later, hlater, hle⟩ := hab.cursor cursor hcursor
    obtain ⟨latest, hlatest, hle'⟩ := hbc.cursor later hlater
    exact ⟨latest, hlatest, hle.trans hle'⟩

theorem Grows.refl (store : InMemoryProgressStore) : Grows store store :=
  fun _ chain hchain => ⟨chain, hchain, .refl chain⟩

theorem Grows.trans {a b c : InMemoryProgressStore} (hab : Grows a b) (hbc : Grows b c) :
    Grows a c := by
  intro chainId chain hchain
  obtain ⟨later, hlater, hgrows⟩ := hab chainId chain hchain
  obtain ⟨latest, hlatest, hgrows'⟩ := hbc chainId later hlater
  exact ⟨latest, hlatest, hgrows.trans hgrows'⟩

def OwnOrdinals (store : InMemoryProgressStore) : Prop :=
  AllAcks (fun ordinal ack => ack.ordinal = ordinal) store

end InMemoryProgressStore

namespace ProgressStep

open InMemoryProgressStore

variable {store store' : InMemoryProgressStore} {step : ProgressStep} {reply : ProgressReply}

inductive Changes (store : InMemoryProgressStore) : ProgressStep → InMemoryProgressStore → Prop
  | nothing (step : ProgressStep) : Changes store step store
  | chain (chainId : ChainId) (firstBlockHeight : BlockHeight)
    (hnone : store.chains[chainId]? = none) :
    Changes store (initializeChain chainId firstBlockHeight)
      (store.putChain chainId ⟨firstBlockHeight, none, ∅⟩)
  | plan (plan : ArchivedBlockPlan) (chain : ChainState)
    (hchain : store.chains[plan.chainId]? = some chain)
    (hnone : chain.blocks[plan.blockHeight]? = none) :
    Changes store (recordArchived plan)
      { store.putChain plan.chainId (chain.addPlan plan) with blockCount := store.blockCount + 1 }
  | ack (chainId : ChainId) (blockHeight : BlockHeight) (ack : PublicationAcknowledgement)
    (chain : ChainState) (block : BlockState) (hchain : store.chains[chainId]? = some chain)
    (hblock : chain.blocks[blockHeight]? = some block)
    (hnone : block.acknowledgements[ack.ordinal]? = none) :
    Changes store (recordAcknowledgement chainId blockHeight ack)
      (store.putChain chainId (chain.addAcknowledgement blockHeight block ack))
  | cursor (chainId : ChainId) (chain : ChainState) (cursor : CaptureCursor)
    (hchain : store.chains[chainId]? = some chain)
    (hnext : chain.nextHeight = .ok cursor.committedBlockHeight) :
    Changes store (advanceCursor chainId cursor.committedBlockHeight)
      (store.putChain chainId { chain with cursor := some cursor })

theorem Changes.grows (h : Changes store step store') : Grows store store' := by
  cases h with
  | nothing => exact .refl store
  | chain chainId firstBlockHeight hnone =>
    intro other chain hchain
    refine ⟨chain, ?_, .refl chain⟩
    rw [chains_putChain, if_neg, hchain]
    rintro rfl
    rw [hnone] at hchain
    cases hchain
  | plan plan chain hchain hnone => exact Grows.putChain hchain (chainGrows_addPlan hnone)
  | ack chainId blockHeight ack chain block hchain hblock hnone =>
    exact Grows.putChain hchain (chainGrows_addAcknowledgement hblock hnone)
  | cursor chainId chain cursor hchain hnext =>
    exact Grows.putChain hchain (chainGrows_cursor hnext)

theorem Changes.ownOrdinals (h : Changes store step store') (hown : OwnOrdinals store) :
    OwnOrdinals store' := by
  cases h with
  | nothing => exact hown
  | chain => exact AllAcks.putChain hown fun _ _ hblock => by simp at hblock
  | plan plan chain hchain => exact AllAcks.addPlan hown hchain
  | ack chainId blockHeight ack chain block hchain hblock =>
    exact AllAcks.addAcknowledgement hown hchain hblock rfl
  | cursor chainId chain cursor hchain => exact AllAcks.cursor hown hchain

variable {chain : ChainState}

/-- The journal shows that a step was made. Of the heights its cursor had, it shows the last. -/
def Known (store : InMemoryProgressStore) : ProgressStep → Prop
  | initializeChain chainId firstBlockHeight => ∃ chain, store.chains[chainId]? = some chain ∧
    chain.firstBlockHeight = firstBlockHeight
  | recordArchived plan => ∃ chain block, store.chains[plan.chainId]? = some chain ∧
    chain.firstBlockHeight ≤ plan.blockHeight ∧
    chain.blocks[plan.blockHeight]? = some block ∧ block.plan = plan
  | recordAcknowledgement chainId blockHeight ack => ∃ chain block publication,
    store.chains[chainId]? = some chain ∧ chain.blocks[blockHeight]? = some block ∧
    block.plan.publications[ack.ordinal.toNat]? = some publication ∧
    ackMatchesPublication ack publication ∧ block.acknowledgements[ack.ordinal]? = some ack
  | advanceCursor chainId blockHeight => ∃ chain cursor, store.chains[chainId]? = some chain ∧
    chain.cursor = some cursor ∧ blockHeight.toNat ≤ cursor.committedBlockHeight.toNat

theorem Known.mono (h : step.Known store) (hgrows : Grows store store') : step.Known store' := by
  cases step with
  | initializeChain chainId firstBlockHeight =>
    obtain ⟨chain, hchain, hfirst⟩ := h
    obtain ⟨later, hlater, hg⟩ := hgrows _ _ hchain
    exact ⟨later, hlater, hg.first.trans hfirst⟩
  | recordArchived plan =>
    obtain ⟨chain, block, hchain, hfirst, hblock, hplan⟩ := h
    obtain ⟨later, hlater, hg⟩ := hgrows _ _ hchain
    obtain ⟨block', hblock', hplan', -⟩ := hg.blocks _ _ hblock
    exact ⟨later, block', hlater, hg.first ▸ hfirst, hblock', hplan'.trans hplan⟩
  | recordAcknowledgement chainId blockHeight ack =>
    obtain ⟨chain, block, publication, hchain, hblock, hpub, hmatch, hack⟩ := h
    obtain ⟨later, hlater, hg⟩ := hgrows _ _ hchain
    obtain ⟨block', hblock', hplan', hacks⟩ := hg.blocks _ _ hblock
    exact ⟨later, block', publication, hlater, hblock', hplan' ▸ hpub, hmatch, hacks _ _ hack⟩
  | advanceCursor chainId blockHeight =>
    obtain ⟨chain, cursor, hchain, hcursor, hle⟩ := h
    obtain ⟨later, hlater, hg⟩ := hgrows _ _ hchain
    obtain ⟨cursor', hcursor', hle'⟩ := hg.cursor _ hcursor
    exact ⟨later, cursor', hlater, hcursor', hle.trans hle'⟩

theorem first_le_of_recordArchived {plan : ArchivedBlockPlan} {d : ProgressRecordDisposition}
    (h : store.recordArchived plan = .ok (d, store'))
    (hchain : store.chains[plan.chainId]? = some chain) :
    chain.firstBlockHeight ≤ plan.blockHeight := by
  obtain ⟨chain', hchain', h⟩ := of_bind h
  obtain ⟨hnot, -⟩ := of_check h
  obtain rfl := some.inj (hchain.symm.trans (chain_eq_ok.mp hchain'))
  exact UInt64.not_lt.mp hnot

/-- What a step that succeeds does to the journal, which shows it then. -/
theorem changes_and_known_of_apply (h : step.apply store = .ok (reply, store')) :
    Changes store step store' ∧ step.Known store' := by
  cases step with
  | initializeChain chainId firstBlockHeight =>
    obtain ⟨⟨d, store''⟩, hinit, heq⟩ := map_eq_ok.mp h
    obtain ⟨-, rfl⟩ := Prod.mk.inj heq
    unfold InMemoryProgressStore.initializeChain at hinit
    split at hinit
    next hnone =>
      obtain ⟨-, rfl⟩ := Prod.mk.inj (ok.inj hinit)
      exact ⟨.chain chainId firstBlockHeight hnone, ⟨firstBlockHeight, none, ∅⟩,
        getElem?_insert_self, rfl⟩
    next chain hchain =>
      obtain ⟨hfirst, hinit⟩ := ite_else_error_eq_ok.mp hinit
      obtain ⟨-, rfl⟩ := Prod.mk.inj (ok.inj hinit)
      exact ⟨.nothing _, chain, hchain, hfirst⟩
  | recordArchived plan =>
    obtain ⟨⟨d, store''⟩, hrecord, heq⟩ := map_eq_ok.mp h
    obtain ⟨-, rfl⟩ := Prod.mk.inj heq
    obtain ⟨chain, hchain, hcases⟩ := recordArchived_eq_ok hrecord
    have hfirst := first_le_of_recordArchived hrecord hchain
    obtain ⟨rfl, block, hblock, hplan⟩ | ⟨hnone, -, rfl⟩ := hcases
    · exact ⟨.nothing _, chain, block, hchain, hfirst, hblock, hplan⟩
    · exact ⟨.plan plan chain hchain hnone, chain.addPlan plan, ⟨plan, ∅⟩,
        getElem?_insert_self, hfirst, getElem?_insert_self, rfl⟩
  | recordAcknowledgement chainId blockHeight ack =>
    obtain ⟨⟨d, store''⟩, hrecord, heq⟩ := map_eq_ok.mp h
    obtain ⟨-, rfl⟩ := Prod.mk.inj heq
    obtain ⟨chain, block, publication, hchain, hblock, hpub, hmatch, hcases⟩ :=
      recordAcknowledgement_eq_ok hrecord
    obtain ⟨rfl, hack⟩ | ⟨hnone, rfl⟩ := hcases
    · exact ⟨.nothing _, chain, block, publication, hchain, hblock, hpub, hmatch, hack⟩
    · exact ⟨.ack chainId blockHeight ack chain block hchain hblock hnone,
        chain.addAcknowledgement blockHeight block ack,
        ⟨block.plan, block.acknowledgements.insert ack.ordinal ack⟩, publication,
        getElem?_insert_self, getElem?_insert_self, hpub, hmatch,
        getElem?_insert_self⟩
  | advanceCursor chainId blockHeight =>
    obtain ⟨⟨cursor, store''⟩, hadvance, heq⟩ := map_eq_ok.mp h
    obtain ⟨-, rfl⟩ := Prod.mk.inj heq
    obtain ⟨chain, hchain, rfl, hcases⟩ := advanceCursor_eq_ok hadvance
    obtain ⟨rfl, hcursor⟩ | ⟨hnext, -, -, -, -, -, -, -, -, rfl⟩ := hcases
    · exact ⟨.nothing _, chain, cursor, hchain, hcursor, le_rfl⟩
    · exact ⟨.cursor chainId chain cursor hchain hnext, { chain with cursor := some cursor },
        cursor, getElem?_insert_self, rfl, le_rfl⟩

theorem changes_of_apply (h : step.apply store = .ok (reply, store')) :
    Changes store step store' :=
  (changes_and_known_of_apply h).1

theorem known_of_apply (h : step.apply store = .ok (reply, store')) : step.Known store' :=
  (changes_and_known_of_apply h).2

theorem changes_serve (store : InMemoryProgressStore) (step : ProgressStep) :
    Changes store step (step.serve store) := by
  unfold serve
  split
  next h => exact changes_of_apply h
  next => exact .nothing step

/-- A later journal keeps what an earlier one has recorded. -/
structure Follows (store store' : InMemoryProgressStore) : Prop where
  grows : Grows store store'
  own : OwnOrdinals store → OwnOrdinals store'

theorem Follows.trans {store'' : InMemoryProgressStore} (h : Follows store store')
    (h' : Follows store' store'') : Follows store store'' :=
  ⟨h.grows.trans h'.grows, h'.own ∘ h.own⟩

theorem Changes.follows (h : Changes store step store') : Follows store store' :=
  ⟨h.grows, h.ownOrdinals⟩

theorem follows_run (store : InMemoryProgressStore) (steps : List ProgressStep) :
    Follows store (final serve store steps) :=
  invariant serve (P := Follows store) ⟨.refl store, id⟩
    (fun store step h => h.trans (changes_serve store step).follows) steps

def CursorAt (store : InMemoryProgressStore) (chainId : ChainId) (blockHeight : BlockHeight) :
    Prop :=
  ∃ chain cursor, store.chains[chainId]? = some chain ∧ chain.cursor = some cursor ∧
    cursor.committedBlockHeight = blockHeight

/-- The cursor is still where the step has put it, if it has. -/
def Current (store : InMemoryProgressStore) : ProgressStep → Prop
  | advanceCursor chainId blockHeight => CursorAt store chainId blockHeight
  | _ => True

/-- To move the cursor where it is, or has been, succeeds if it is there. -/
theorem advanceCursor_passed {chainId : ChainId} {blockHeight : BlockHeight}
    (hchain : store.chains[chainId]? = some chain) (hcursor : chain.cursor = some cursor)
    (hle : blockHeight.toNat ≤ cursor.committedBlockHeight.toNat) :
    (cursor.committedBlockHeight = blockHeight ∧
      store.advanceCursor chainId blockHeight = .ok (cursor, store)) ∨
    (cursor.committedBlockHeight ≠ blockHeight ∧
      ∃ e, store.advanceCursor chainId blockHeight = .error e) := by
  unfold InMemoryProgressStore.advanceCursor
  rw [chain_eq_ok.mpr hchain, ok_bind, hcursor]
  by_cases heq : cursor.committedBlockHeight = blockHeight
  · refine .inl ⟨heq, ?_⟩
    rw [filter_some, if_pos (decide_eq_true heq)]
    rfl
  · refine .inr ⟨heq, ?_⟩
    rw [filter_some, if_neg (by simpa using heq)]
    dsimp only
    cases hnext : chain.nextHeight with
    | error e => exact ⟨e, rfl⟩
    | ok expected =>
      have hne : blockHeight ≠ expected := by
        rintro rfl
        exact (ChainState.lt_of_nextHeight hnext hcursor).not_ge hle
      rw [ok_bind, if_pos hne]
      exact ⟨_, rfl⟩

/-- A step that the journal shows succeeds again and changes nothing, unless the cursor has moved
on from where it has put it. -/
theorem Known.apply_iff (h : step.Known store) :
    (∃ reply, step.apply store = .ok (reply, store)) ↔ step.Current store := by
  cases step with
  | initializeChain chainId firstBlockHeight =>
    obtain ⟨chain, hchain, hfirst⟩ := h
    refine iff_of_true ⟨.recorded .identicalDuplicate, ?_⟩ trivial
    simp only [apply, InMemoryProgressStore.initializeChain, hchain, if_pos hfirst]
    rfl
  | recordArchived plan =>
    obtain ⟨chain, block, hchain, hfirst, hblock, hplan⟩ := h
    refine iff_of_true ⟨.recorded .identicalDuplicate, ?_⟩ trivial
    rw [apply, InMemoryProgressStore.recordArchived, chain_eq_ok.mpr hchain, ok_bind,
      if_neg (UInt64.not_lt.mpr hfirst)]
    simp only [hblock, if_pos hplan]
    rfl
  | recordAcknowledgement chainId blockHeight ack =>
    obtain ⟨chain, block, publication, hchain, hblock, hpub, hmatch, hack⟩ := h
    refine iff_of_true ⟨.recorded .identicalDuplicate, ?_⟩ trivial
    rw [apply, InMemoryProgressStore.recordAcknowledgement, chain_eq_ok.mpr hchain, ok_bind,
      hblock, ofOption_some, ok_bind, hpub, ofOption_some, ok_bind,
      if_neg (not_not.mpr hmatch)]
    simp only [hack, if_true]
    rfl
  | advanceCursor chainId blockHeight =>
    obtain ⟨chain, cursor, hchain, hcursor, hle⟩ := h
    obtain ⟨heq, hadvance⟩ | ⟨hne, e, hadvance⟩ := advanceCursor_passed hchain hcursor hle
    · refine iff_of_true ⟨.advanced cursor, ?_⟩ ⟨chain, cursor, hchain, hcursor, heq⟩
      rw [apply, hadvance]
      rfl
    · refine iff_of_false ?_ ?_
      · rintro ⟨reply, happly⟩
        rw [apply, hadvance] at happly
        cases happly
      · rintro ⟨chain', cursor', hchain', hcursor', heq⟩
        obtain rfl := mem_unique hchain hchain'
        obtain rfl := mem_unique hcursor hcursor'
        exact hne heq

end ProgressStep

namespace Coordinator

open Effect InMemoryProgressStore ProgressStep

variable {acknowledged : Std.ExtTreeMap UInt32 PublicationAcknowledgement}
  {messages : List PublicationMessage} {index : ℕ}

section Completed

variable {B : Blake3} {ω α : Type} {K : EnvelopeCodec} {ports : CapturePorts B ω}
  {faults : FaultInjector ω} {plan : ArchivedBlockPlan} {batch : CommittedPublicationBatch}
  {s t : CaptureState ω} {progress' progress : InMemoryProgressStore} {message : PublicationMessage}
  {ordinal : UInt32}

/-- The journal has an acknowledgement that is the one of a message. -/
def AckedAs (progress : InMemoryProgressStore) (plan : ArchivedBlockPlan) (ordinal : UInt32)
    (message : PublicationMessage) : Prop :=
  ∃ chain block ack, progress.chains[plan.chainId]? = some chain ∧
    chain.blocks[plan.blockHeight]? = some block ∧ block.acknowledgements[ordinal]? = some ack ∧
    verifyAcknowledgement message ordinal ack = .ok ()

theorem AckedAs.mono (h : AckedAs progress plan ordinal message)
    (hgrows : Grows progress progress') :
    AckedAs progress' plan ordinal message := by
  obtain ⟨chain, block, ack, hchain, hblock, hack, hverify⟩ := h
  obtain ⟨later, hlater, hg⟩ := hgrows _ _ hchain
  obtain ⟨block', hblock', -, hacks⟩ := hg.blocks _ _ hblock
  exact ⟨later, block', ack, hlater, hblock', hacks _ _ hack, hverify⟩

theorem exec_port_eq_ok {ε : Type} {call : ω → Except ε α × ω} {error : ε → CoordinatorError}
    {a : α} :
    (port call error).exec s = (.ok a, t) ↔
      (call s.world).1 = .ok a ∧ t = { s with world := (call s.world).2 } := by
  rw [port, exec_mk, Prod.mk.injEq, mapError_eq_ok, eq_comm (a := t)]

theorem exec_port_bind_eq_ok {ε β : Type} {call : ω → Except ε α × ω}
    {error : ε → CoordinatorError} {f : α → Coordinator ω β} {b : β} :
    (port call error >>= f).exec s = (.ok b, t) ↔ ∃ a, (call s.world).1 = .ok a ∧
      (f a).exec { s with world := (call s.world).2 } = (.ok b, t) := by
  simp [exec_bind_eq_ok, exec_port_eq_ok, and_assoc]

theorem exec_read_eq_ok {load : InMemoryProgressStore → Except ProgressError α} {a : α} :
    (read load).exec s = (.ok a, t) ↔ load s.progress = .ok a ∧ t = s := by
  rw [read, exec_mk, Prod.mk.injEq, mapError_eq_ok, eq_comm (a := t)]

theorem exec_write_eq_ok
    {change : InMemoryProgressStore → Except ProgressError (α × InMemoryProgressStore)}
    {more : α → InMemoryProgressStore → List CaptureCall} {a : α} :
    (write change more).exec s = (.ok a, t) ↔ change s.progress = .ok (a, t.progress) ∧
      t = { s with progress := t.progress, calls := s.calls ++ more a s.progress } := by
  rw [write, exec_mk]
  split
  next e h => simp [h]
  next b progress h =>
    rw [h]
    constructor
    · intro heq
      obtain ⟨hb, rfl⟩ := Prod.mk.inj heq
      obtain rfl := ok.inj hb
      exact ⟨rfl, rfl⟩
    · rintro ⟨hok, ht⟩
      obtain ⟨rfl, rfl⟩ := Prod.mk.inj (ok.inj hok)
      rw [ht]

/-- A block is completed: its plan is recorded, its messages are acknowledged and the cursor has
been at its height. -/
structure Completed (progress : InMemoryProgressStore) (plan : ArchivedBlockPlan)
    (batch : CommittedPublicationBatch) : Prop where
  verified : verifyPlanMatchesBatch plan batch = .ok ()
  archived : (ProgressStep.recordArchived plan).Known progress
  passed : (ProgressStep.advanceCursor plan.chainId plan.blockHeight).Known progress
  acked : ∀ (ordinal : UInt32) (message : PublicationMessage),
    batch.messages[ordinal.toNat]? = some message → AckedAs progress plan ordinal message

theorem Completed.mono (h : Completed progress plan batch) (hgrows : Grows progress progress') :
    Completed progress' plan batch where
  verified := h.verified
  archived := h.archived.mono hgrows
  passed := h.passed.mono hgrows
  acked ordinal message hmessage := (h.acked ordinal message hmessage).mono hgrows

variable (hstream : ∀ message w reply, (ports.publish message w).1 = .ok reply →
  reply.stream = message.stream)
include hstream

theorem exec_publishMessage {planned : PlannedPublication}
    (hplanned : plan.publications[ordinal.toNat]? = some planned)
    (hid : planned.messageId = message.messageId)
    (hsha : planned.publicationSha256 = message.publicationSha256)
    (hrecorded : Recorded s.progress plan)
    (h : (publishMessage ports faults plan ordinal message).exec s = (.ok (), t)) :
    Follows s.progress t.progress ∧ AckedAs t.progress plan ordinal message := by
  obtain ⟨reply, s₁, hpublish, h⟩ := exec_bind_eq_ok.mp h
  obtain ⟨⟨⟩, -, h⟩ := exec_port_bind_eq_ok.mp h
  obtain ⟨time, -, h⟩ := exec_port_bind_eq_ok.mp h
  obtain ⟨ack, hmade, h⟩ := exec_ofExcept_bind_eq_ok.mp h
  obtain ⟨d, s₅, hrecord, h⟩ := exec_bind_eq_ok.mp h
  obtain ⟨-, rfl⟩ := exec_port_eq_ok.mp h
  obtain ⟨hrecord, -⟩ := exec_write_eq_ok.mp hrecord
  have hreply : (ports.publish message s.world).1 = .ok reply :=
    mapError_eq_ok.mp (congrArg Prod.fst hpublish)
  have hprogress : s₁.progress = s.progress :=
    (congrArg (fun r => r.2.progress) hpublish).symm
  dsimp only at hrecord
  rw [hprogress] at hrecord
  have happly : apply s.progress (.recordAcknowledgement plan.chainId plan.blockHeight ack) =
      .ok (.recorded d, s₅.progress) := map_eq_ok.mpr ⟨_, hrecord, rfl⟩
  have hfields := PublicationAcknowledgement.fields_of_tryNew (mapError_eq_ok.mp hmade)
  have hfollows := (changes_of_apply happly).follows
  obtain ⟨chain, block, publication, hchain, hblock, hpub, hmatch, hfound⟩ := known_of_apply happly
  have hplan : block.plan = plan := by
    obtain ⟨chain', block', hchain', hblock', hplan'⟩ := hrecorded.mono hfollows.grows
    obtain rfl := mem_unique hchain hchain'
    obtain rfl := mem_unique hblock hblock'
    exact hplan'
  have hordinal : ack.ordinal = ordinal := congrArg (·.ordinal) hfields
  rw [hplan, hordinal] at hpub
  rw [hordinal] at hfound
  obtain rfl := mem_unique hplanned hpub
  obtain ⟨-, hmid, -, hmsha⟩ := hmatch
  refine ⟨hfollows, chain, block, ack, hchain, hblock, hfound, ?_⟩
  rw [verifyAcknowledgement, if_neg]
  simp only [not_or, not_not]
  exact ⟨hordinal, hmid.trans hid, congrArg (·.subject) hfields, hmsha.trans hsha,
    (congrArg (·.stream) hfields).trans (hstream _ _ _ hreply)⟩

theorem exec_publishFrom (hmatch : PlannedFrom plan index messages)
    (hrecorded : Recorded s.progress plan)
    (hloaded : ∀ (ordinal : UInt32) (message : PublicationMessage), ∀ ack ∈ acknowledged[ordinal]?,
      verifyAcknowledgement message ordinal ack = .ok () → AckedAs s.progress plan ordinal message)
    (h : (publishFrom ports faults plan acknowledged index messages).exec s = (.ok (), t)) :
    Follows s.progress t.progress ∧
    ∀ (ordinal : UInt32) (message : PublicationMessage), index ≤ ordinal.toNat →
      messages[ordinal.toNat - index]? = some message →
      AckedAs t.progress plan ordinal message := by
  induction messages generalizing index s with
  | nil =>
    obtain ⟨-, rfl⟩ := Prod.mk.inj h
    exact ⟨⟨.refl _, id⟩, fun ordinal message _ hmem => by simp at hmem⟩
  | cons message rest ih =>
    rw [publishFrom] at h
    obtain ⟨ordinal, hplace, h⟩ := exec_ofExcept_bind_eq_ok.mp h
    obtain ⟨⟨⟩, s₂, hsettle, htail⟩ := exec_bind_eq_ok.mp h
    obtain rfl := ordinalOf_eq_ok.mp hplace
    obtain ⟨hfollows, hacked⟩ : Follows s.progress s₂.progress ∧
        AckedAs s₂.progress plan ordinal message := by
      unfold settleMessage at hsettle
      split at hsettle
      next ack hack =>
        obtain ⟨hverify, rfl⟩ := exec_ofExcept_eq_ok.mp hsettle
        exact ⟨⟨.refl _, id⟩, hloaded ordinal message ack hack hverify⟩
      next =>
        obtain ⟨planned, hplanned, hid, hsha⟩ := hmatch 0 (by simp)
        exact exec_publishMessage hstream hplanned hid hsha hrecorded hsettle
    obtain ⟨hfollows', hrest⟩ := ih hmatch.tail (hrecorded.mono hfollows.grows)
      (fun ordinal message ack hack hverify =>
        (hloaded ordinal message ack hack hverify).mono hfollows.grows) htail
    refine ⟨hfollows.trans hfollows', ?_⟩
    intro other message' hle hmem
    rcases Nat.eq_or_lt_of_le hle with heq | hlt
    · obtain rfl := UInt32.toNat_inj.mp heq
      rw [Nat.sub_self, List.getElem?_cons_zero] at hmem
      obtain rfl := some.inj hmem
      exact hacked.mono hfollows'.grows
    · refine hrest other message' hlt ?_
      rw [show other.toNat - ordinal.toNat = other.toNat - (ordinal.toNat + 1) + 1 by omega,
        List.getElem?_cons_succ] at hmem
      exact hmem

theorem exec_completeBatch (h : (completeBatch ports faults plan batch).exec s = (.ok cursor, t))
    (hown : OwnOrdinals s.progress) (hknown : (ProgressStep.recordArchived plan).Known s.progress) :
    Follows s.progress t.progress ∧ Completed t.progress plan batch := by
  unfold completeBatch at h
  obtain ⟨⟨⟩, hverify', h⟩ := exec_ofExcept_bind_eq_ok.mp h
  obtain ⟨acks, s₂, hload, h⟩ := exec_bind_eq_ok.mp h
  obtain ⟨acknowledged, hacknowledged', h⟩ := exec_ofExcept_bind_eq_ok.mp h
  obtain ⟨⟨⟩, s₄, hpublish, h⟩ := exec_bind_eq_ok.mp h
  obtain ⟨cursor', s₅, hadvance, h⟩ := exec_bind_eq_ok.mp h
  obtain ⟨⟨⟩, -, h⟩ := exec_port_bind_eq_ok.mp h
  obtain ⟨-, rfl⟩ := Prod.mk.inj h
  obtain ⟨hload', rfl⟩ := exec_read_eq_ok.mp hload
  obtain ⟨hadvance', -⟩ := exec_write_eq_ok.mp hadvance
  obtain ⟨chain, block, hchain, -, hblock, hplan⟩ := id hknown
  have hloaded : acknowledged = block.acknowledgements := by
    obtain rfl := ok_unique hload' (loadAcknowledgements_eq hchain hblock)
    refine ok.inj (hacknowledged'.symm.trans (acknowledgedByOrdinal_values ?_))
    exact fun ordinal ack hack => hown _ _ _ _ _ _ hchain hblock hack
  subst hloaded
  obtain ⟨hfollows, hacked⟩ := exec_publishFrom hstream (plannedFrom_zero hverify')
    ⟨chain, block, hchain, hblock, hplan⟩
    (fun _ _ ack hack hverify => ⟨chain, block, ack, hchain, hblock, hack, hverify⟩) hpublish
  have happly : apply s₄.progress (.advanceCursor plan.chainId plan.blockHeight) =
      .ok (.advanced cursor', s₅.progress) := map_eq_ok.mpr ⟨_, hadvance', rfl⟩
  have hmoved := (changes_of_apply happly).follows
  have hall := hfollows.trans hmoved
  refine ⟨hall, hverify', hknown.mono hall.grows, known_of_apply happly, ?_⟩
  intro ordinal message hmessage
  exact (hacked ordinal message (Nat.zero_le _) hmessage).mono hmoved.grows

theorem exec_processBlock {block : BlockEnvelope B} (hown : OwnOrdinals s.progress)
    (h : (processBlock K ports faults block).exec s = (.ok cursor, t)) :
    ∃ receipt batch plan, (ports.appendBlock block s.world).1 = .ok receipt ∧
      CommittedPublicationBatch.tryNew K block receipt = .ok batch ∧
      buildPlan block receipt batch = .ok plan ∧
      Follows s.progress t.progress ∧ Completed t.progress plan batch := by
  unfold processBlock at h
  obtain ⟨receipt, happend, h⟩ := exec_port_bind_eq_ok.mp h
  obtain ⟨⟨⟩, -, h⟩ := exec_port_bind_eq_ok.mp h
  obtain ⟨batch, hbatch, h⟩ := exec_ofExcept_bind_eq_ok.mp h
  obtain ⟨plan, hplan, h⟩ := exec_ofExcept_bind_eq_ok.mp h
  obtain ⟨d, s₅, hrecord, h⟩ := exec_bind_eq_ok.mp h
  obtain ⟨hrecord, -⟩ := exec_write_eq_ok.mp hrecord
  obtain ⟨⟨⟩, -, h⟩ := exec_port_bind_eq_ok.mp h
  have happly : apply s.progress (.recordArchived plan) = .ok (.recorded d, s₅.progress) :=
    map_eq_ok.mpr ⟨_, hrecord, rfl⟩
  have hrecorded := (changes_of_apply happly).follows
  obtain ⟨hfollows, hcompleted⟩ :=
    exec_completeBatch hstream h (hrecorded.own hown) (known_of_apply happly)
  exact ⟨receipt, batch, plan, happend, mapError_eq_ok.mp hbatch, hplan,
    hrecorded.trans hfollows, hcompleted⟩

end Completed

section Again

variable {B : Blake3} {ω : Type} {K : EnvelopeCodec} {ports : CapturePorts B ω}
  {faults : FaultInjector ω} {plan : ArchivedBlockPlan} {batch : CommittedPublicationBatch}
  {s : CaptureState ω}

theorem exec_publishFrom_acked
    (hacked : ∀ i (h : i < messages.length), ∃ (ordinal : UInt32)
      (ack : PublicationAcknowledgement), ordinal.toNat = index + i ∧
        acknowledged[ordinal]? = some ack ∧
        verifyAcknowledgement messages[i] ordinal ack = .ok ()) :
    (publishFrom ports faults plan acknowledged index messages).exec s = (.ok (), s) := by
  induction messages generalizing index with
  | nil => rfl
  | cons message rest ih =>
    obtain ⟨ordinal, ack, hordinal, hack, hverify⟩ := hacked 0 (by simp)
    rw [publishFrom, ordinalOf_eq_ok.mpr (by simpa using hordinal), exec_ofExcept_ok_bind]
    have hsettle : (settleMessage ports faults plan acknowledged ordinal message).exec s =
        (.ok (), s) := by
      unfold settleMessage
      rw [hack]
      exact exec_ofExcept_eq_ok.mpr ⟨hverify, rfl⟩
    rw [exec_bind_of_eq_ok hsettle]
    refine ih fun i hi => ?_
    obtain ⟨ordinal', ack', hordinal', hrest⟩ := hacked (i + 1) (by simpa using hi)
    exact ⟨ordinal', ack', by omega, hrest⟩

variable (hquiet : ∀ point w, (faults point w).1 = .ok ())
include hquiet

theorem exec_check (point : CoordinatorFaultPoint) :
    (check faults point).exec s = (.ok (), { s with world := (faults point s.world).2 }) :=
  exec_port_eq_ok.mpr ⟨hquiet point s.world, rfl⟩

theorem exec_completeBatch_again
    (hown : OwnOrdinals s.progress) (h : Completed s.progress plan batch) :
    ((completeBatch ports faults plan batch).exec s).2.progress = s.progress ∧
    ((completeBatch ports faults plan batch).exec s).2.calls = s.calls ∧
    ((∃ cursor, ((completeBatch ports faults plan batch).exec s).1 = .ok cursor) ↔
      CursorAt s.progress plan.chainId plan.blockHeight) := by
  obtain ⟨chain, block, hchain, -, hblock, hplan⟩ := h.archived
  obtain ⟨hlen, hmatch⟩ := verifyPlanMatchesBatch_eq_ok.mp h.verified
  have hread : (read (·.loadAcknowledgements plan.chainId plan.blockHeight)).exec s =
      (.ok block.values, s) :=
    exec_read_eq_ok.mpr ⟨loadAcknowledgements_eq hchain hblock, rfl⟩
  have hacks : acknowledgedByOrdinal block.values = .ok block.acknowledgements :=
    acknowledgedByOrdinal_values fun ordinal ack hack => hown _ _ _ _ _ _ hchain hblock hack
  have hpublish : (publishFrom ports faults plan block.acknowledgements 0 batch.messages).exec s =
      (.ok (), s) := by
    refine exec_publishFrom_acked fun i hi => ?_
    obtain ⟨ordinal, rfl, -⟩ := hmatch i (hlen ▸ hi) hi
    obtain ⟨chain', block', ack, hchain', hblock', hack, hverify⟩ :=
      h.acked ordinal _ (List.getElem?_eq_getElem hi)
    obtain rfl := mem_unique hchain hchain'
    obtain rfl := mem_unique hblock hblock'
    exact ⟨ordinal, ack, (Nat.zero_add _).symm, hack, hverify⟩
  have hexec : (completeBatch ports faults plan batch).exec s = (do
      let cursor ← advanceCursor plan
      check faults .afterCursor
      return cursor : Coordinator ω CaptureCursor).exec s := by
    unfold completeBatch
    rw [h.verified, exec_ofExcept_ok_bind, exec_bind_of_eq_ok hread, hacks, exec_ofExcept_ok_bind,
      exec_bind_of_eq_ok hpublish]
  obtain ⟨chain', cursor, hchain', hcursor, hle⟩ := h.passed
  obtain rfl := mem_unique hchain hchain'
  rw [hexec]
  obtain ⟨heq, hadvance⟩ | ⟨hne, e, hadvance⟩ := advanceCursor_passed hchain hcursor hle
  · have hmoved : moved plan.chainId cursor s.progress = [] := by
      refine if_pos ?_
      rw [InMemoryProgressStore.loadCursor, chain_eq_ok.mpr hchain, ok_bind, hcursor]
      rfl
    have hwrite : (advanceCursor plan).exec s = (.ok cursor, s) := by
      refine exec_write_eq_ok.mpr ⟨hadvance, ?_⟩
      rw [hmoved, List.append_nil]
    rw [exec_bind_of_eq_ok hwrite, exec_bind_of_eq_ok (exec_check hquiet _)]
    exact ⟨rfl, rfl, iff_of_true ⟨cursor, rfl⟩ ⟨chain, cursor, hchain, hcursor, heq⟩⟩
  · have hwrite : (advanceCursor plan).exec s = (.error .progress, s) := by
      rw [advanceCursor, write, exec_mk, hadvance]
    rw [exec_bind_of_eq_error hwrite]
    refine ⟨rfl, rfl, iff_of_false ?_ ?_⟩
    · rintro ⟨cursor', hok⟩
      cases hok
    · rintro ⟨chain', cursor', hchain', hcursor', heq⟩
      obtain rfl := mem_unique hchain hchain'
      obtain rfl := mem_unique hcursor hcursor'
      exact hne heq

theorem exec_processBlock_again {block : BlockEnvelope B} {receipt : ArchiveReceipt}
    (happend : (ports.appendBlock block s.world).1 = .ok receipt)
    (hbatch : CommittedPublicationBatch.tryNew K block receipt = .ok batch)
    (hplan : buildPlan block receipt batch = .ok plan) (hown : OwnOrdinals s.progress)
    (h : Completed s.progress plan batch) :
    ((processBlock K ports faults block).exec s).2.progress = s.progress ∧
    ((processBlock K ports faults block).exec s).2.calls = s.calls ∧
    ((∃ cursor, ((processBlock K ports faults block).exec s).1 = .ok cursor) ↔
      CursorAt s.progress block.chainId block.blockHeight) := by
  have hplans := plans_of_buildPlan hplan
  obtain ⟨reply, hreply⟩ := h.archived.apply_iff.mpr trivial
  obtain ⟨⟨d, store⟩, hrecord, heq⟩ := map_eq_ok.mp hreply
  obtain ⟨-, rfl⟩ := Prod.mk.inj heq
  have hstart : (appendBlock ports block).exec s =
      (.ok receipt, { s with world := (ports.appendBlock block s.world).2 }) :=
    exec_port_eq_ok.mpr ⟨happend, rfl⟩
  have hrecorded : ∀ w : ω, (recordArchived plan).exec { s with world := w } =
      (.ok d, { s with world := w }) := by
    intro w
    refine exec_write_eq_ok.mpr ⟨hrecord, ?_⟩
    rw [List.append_nil]
  have hexec : ∃ w, (processBlock K ports faults block).exec s =
      (completeBatch ports faults plan batch).exec { s with world := w } := by
    unfold processBlock
    rw [exec_bind_of_eq_ok hstart, exec_bind_of_eq_ok (exec_check hquiet _),
      mapError_eq_ok.mpr hbatch, exec_ofExcept_ok_bind, hplan, exec_ofExcept_ok_bind,
      exec_bind_of_eq_ok (hrecorded _), exec_bind_of_eq_ok (exec_check hquiet _)]
    exact ⟨_, rfl⟩
  obtain ⟨w, hexec⟩ := hexec
  rw [hexec, ← hplans.chainId, ← hplans.blockHeight]
  exact exec_completeBatch_again hquiet hown h

omit hquiet in
/-- A repeated step of the journal succeeds and changes nothing if and only if it does not ask
for a cursor that has moved on. The same holds of the call for a block that was completed, which
publishes nothing again in either case. -/
theorem repeated_iff_current {capacity : UInt64} {fresh : InMemoryProgressStore}
    (hfresh : InMemoryProgressStore.new capacity = .ok fresh) (before later : List ProgressStep) :
    (∀ step reply store', apply (Run.final serve fresh before) step = .ok (reply, store') →
      ((∃ reply', apply (Run.final serve store' later) step =
          .ok (reply', Run.final serve store' later)) ↔
        step.Current (Run.final serve store' later))) ∧
    ∀ (s₀ s₁ s : CaptureState ω) (block : BlockEnvelope B) (cursor : CaptureCursor),
      s₀.progress = Run.final serve fresh before →
      (processBlock K ports faults block).exec s₀ = (.ok cursor, s₁) →
      s.progress = Run.final serve s₁.progress later →
      (ports.appendBlock block s.world).1 = (ports.appendBlock block s₀.world).1 →
      (∀ message w reply, (ports.publish message w).1 = .ok reply →
        reply.stream = message.stream) →
      (∀ point w, (faults point w).1 = .ok ()) →
      ((processBlock K ports faults block).exec s).2.progress = s.progress ∧
      ((processBlock K ports faults block).exec s).2.calls = s.calls ∧
      ((∃ cursor', ((processBlock K ports faults block).exec s).1 = .ok cursor') ↔
        CursorAt s.progress block.chainId block.blockHeight) := by
  have hempty : OwnOrdinals fresh := by
    obtain ⟨-, hnew⟩ := of_check hfresh
    obtain rfl := ok.inj hnew
    intro chainId chain blockHeight block ordinal ack hchain
    rw [getElem?_empty] at hchain
    cases hchain
  constructor
  · intro step reply store' happly
    exact ((known_of_apply happly).mono (follows_run store' later).grows).apply_iff
  · intro s₀ s₁ s block cursor hs₀ hdone hs happend hstream hquiet
    have hown : OwnOrdinals s₀.progress := hs₀ ▸ (follows_run fresh before).own hempty
    obtain ⟨receipt, batch, plan, hreceipt, hbatch, hplan, hfollows, hcompleted⟩ :=
      exec_processBlock hstream hown hdone
    have hlater : Follows s₁.progress s.progress := hs ▸ follows_run s₁.progress later
    exact exec_processBlock_again hquiet (happend.trans hreceipt) hbatch hplan
      (hlater.own (hfollows.own hown)) (hcompleted.mono hlater.grows)

end Again

section Sample

open CanonicalLedger BlockSeries

abbrev processSample (block : BlockEnvelope sumBlake3) :
    Coordinator (List (BlockEnvelope sumBlake3)) CaptureCursor :=
  processBlock byteCodec samplePorts noCoordinatorFaults block

def sampleAfter (blocks : List (BlockEnvelope sumBlake3)) :
    CaptureState (List (BlockEnvelope sumBlake3)) :=
  final (CaptureRequest.serve byteCodec samplePorts noCoordinatorFaults)
    ⟨[], sampleProgress, []⟩ (blocks.map .processBlock)

theorem sampleAfter_concat (blocks : List (BlockEnvelope sumBlake3))
    (block : BlockEnvelope sumBlake3) :
    sampleAfter (blocks ++ [block]) = ((processSample block).exec (sampleAfter blocks)).2 := by
  rw [sampleAfter, List.map_append, final_append]
  rfl

/-- The first block was processed, and behind the second, whose successor is expected now, it is
refused. -/
theorem passedBlock_refused :
    ((processSample changedMode).exec (sampleAfter [])).1.toOption.isSome = true ∧
    ((processSample changedMode).exec (sampleAfter [changedMode, changedBack])).1 =
      .error .progress ∧
    ((sampleAfter [changedMode, changedBack]).progress.advanceCursor sampleChain 7).map (·.1) =
      .error (.nonContiguousAdvance 9 7) := by
  decide +kernel

/-- The chain is initialized again and the last block is processed again. -/
theorem repeated_iff_current_changedMode :
    (∃ reply, apply sampleProgress (.initializeChain sampleChain 7) =
      .ok (reply, sampleProgress)) ∧
    (∃ cursor, ((processSample changedMode).exec (sampleAfter [changedMode])).1 = .ok cursor) ∧
    ((processSample changedMode).exec (sampleAfter [changedMode])).2.calls =
      (sampleAfter [changedMode]).calls := by
  have hinit : apply ⟨4, ∅, 0⟩ (.initializeChain sampleChain 7) =
      .ok (.recorded .new, sampleProgress) := by
    rw [apply, initializeChain_sampleProgress]
    rfl
  have hstart : (sampleAfter []).progress =
      final serve ⟨4, ∅, 0⟩ [.initializeChain sampleChain 7] := by
    rw [final_cons, final_nil, serve, hinit]
    rfl
  obtain ⟨hprocessed, hcursor, happend⟩ :
      ((processSample changedMode).exec (sampleAfter [])).1.toOption.isSome = true ∧
      ((sampleAfter [changedMode]).progress.chains[sampleChain]?.bind
        (·.cursor)).map (·.committedBlockHeight) = some 7 ∧
      (samplePorts.appendBlock changedMode (sampleAfter [changedMode]).world).1 =
        (samplePorts.appendBlock changedMode (sampleAfter []).world).1 := by
    decide +kernel
  obtain ⟨cursor, hok⟩ := isSome_iff_exists.mp hprocessed
  have hexec : (processSample changedMode).exec (sampleAfter []) =
      (.ok cursor, sampleAfter [changedMode]) := by
    rw [← mem_toOption.mp hok, ← List.nil_append [changedMode], sampleAfter_concat,
      Prod.mk.eta]
  obtain ⟨found, hfound, hheight⟩ := map_eq_some_iff.mp hcursor
  obtain ⟨chain, hchain, hfound⟩ := bind_eq_some_iff.mp hfound
  have hstream : ∀ message w reply, (samplePorts.publish message w).1 = .ok reply →
      reply.stream = message.stream := by
    intro message w reply hreply
    obtain rfl := ok.inj hreply
    rfl
  have hrepeated := fun before => @repeated_iff_current _ _ byteCodec samplePorts
    noCoordinatorFaults _ _ new_sampleProgress before []
  obtain ⟨-, hcalls, hagain⟩ := (hrepeated [.initializeChain sampleChain 7]).2 (sampleAfter [])
    (sampleAfter [changedMode]) (sampleAfter [changedMode]) changedMode cursor hstart hexec
    (final_nil _ _).symm happend hstream fun _ _ => rfl
  have hplace : changedMode.chainId = sampleChain ∧ changedMode.blockHeight = 7 := by decide
  rw [hplace.1, hplace.2] at hagain
  refine ⟨?_, ?_, ?_⟩
  · exact ((hrepeated []).1 _ _ _ hinit).mpr trivial
  · exact hagain.mpr ⟨chain, found, hchain, hfound, hheight⟩
  · unfold processSample
    exact hcalls

end Sample

end Coordinator

end AlphaDesk
