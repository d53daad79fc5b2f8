import AlphaDesk.Capture.Extent

/-! # Recovery

With ports that do their work, a call is stopped by an injected fault only, and leaves
the run at an extent from which recovery goes on. A run along a series that was stopped,
recovered and resumed ends at the extent of the run that was not stopped.
-/

namespace AlphaDesk

open Except List Nat

namespace BlockSeries

open Coordinator Effect

variable {B : Blake3} {ω : Type} {K : EnvelopeCodec} {series : BlockSeries B K}
  {capacity : UInt64} {held : ω → Held B} {ports : CapturePorts B ω} {faults : FaultInjector ω}
  {E : CoordinatorError → CaptureState ω → Prop} {i archived : ℕ}

section Publishing

variable {batch : CommittedPublicationBatch} {plan : ArchivedBlockPlan}
  {acknowledged : Std.ExtTreeMap UInt32 PublicationAcknowledgement}

/-- The messages before a place are acknowledged, and behind it those that were before. -/
structure Settling (plan : ArchivedBlockPlan)
    (acknowledged : Std.ExtTreeMap UInt32 PublicationAcknowledgement) (index : ℕ)
    (progress : InMemoryProgressStore) : Prop where
  acked : ∀ ordinal : UInt32, ordinal.toNat < index ∨ ordinal ∈ acknowledged →
    Acked progress plan.chainId plan.blockHeight ordinal
  untouched : Open plan acknowledged index progress

/-- The run is at a block whose messages are settled up to a place. -/
abbrev SettledTo (series : BlockSeries B K) (capacity : UInt64) (i archived : ℕ)
    (plan : ArchivedBlockPlan)
    (acknowledged : Std.ExtTreeMap UInt32 PublicationAcknowledgement) (index : ℕ) : View B :=
  fun v progress calls => series.Reached capacity i (i + 1) archived v progress calls ∧
    Settling plan acknowledged index progress

/-- The publisher's reply to a message of the plan. -/
structure Sent (plan : ArchivedBlockPlan) (ordinal : UInt32) (message : PublicationMessage)
    (reply : PublicationAck) (calls : List CaptureCall) : Prop where
  published : .published plan.chainId plan.blockHeight ordinal message (.ok reply) ∈ calls
  messageId : reply.messageId = message.messageId
  stream : reply.stream = message.stream
  publicationSha256 : reply.publicationSha256 = message.publicationSha256

theorem Settling.acknowledge {progress progress' : InMemoryProgressStore}
    {ack : PublicationAcknowledgement} {d : ProgressRecordDisposition}
    (h : Settling plan acknowledged ack.ordinal.toNat progress)
    (hstep : progress.recordAcknowledgement plan.chainId plan.blockHeight ack =
      .ok (d, progress')) :
    Settling plan acknowledged (ack.ordinal.toNat + 1) progress' := by
  constructor
  · rintro ordinal (hlt | hmem)
    · rcases (Nat.lt_succ_iff_lt_or_eq.mp hlt) with hlt | heq
      · exact (acked_recordAcknowledgement hstep).mpr (.inl (h.acked ordinal (.inl hlt)))
      · exact (acked_recordAcknowledgement hstep).mpr (.inr (UInt32.toNat.inj heq))
    · exact (acked_recordAcknowledgement hstep).mpr (.inl (h.acked ordinal (.inr hmem)))
  · intro ordinal hle hacked
    rcases (acked_recordAcknowledgement hstep).mp hacked with hacked | rfl
    · exact h.untouched ordinal (le_of_succ_le hle) hacked
    · exact absurd hle (not_succ_le_self _)

variable (hports : Dependable ports held series.receiptOf) (hinert : Inert faults held)
  (hi : i < series.blocks.length) (hp : series.PlannedAs series.blocks[i] batch plan)
  (hE : ∀ e s, ¬Quiet faults → OnView held (series.Reached capacity i (i + 1) archived) s → E e s)
include hports hinert hi hp hE

theorem publishMessage_view {ordinal : UInt32} {message : PublicationMessage}
    (hmessage : batch.messages[ordinal.toNat]? = some message) (hfree : ordinal ∉ acknowledged) :
    Triple (OnView held (series.SettledTo capacity i archived plan acknowledged ordinal.toNat))
      (publishMessage ports faults plan ordinal message) (fun _ => OnView held
        (series.SettledTo capacity i archived plan acknowledged (ordinal.toNat + 1))) E := by
  have hmem := mem_of_getElem? hmessage
  refine Triple.bind (Q := fun reply => OnView held fun v progress calls =>
    series.SettledTo capacity i archived plan acknowledged ordinal.toNat v progress calls ∧
      Sent plan ordinal message reply calls) (.of_exec_ok ?_) fun reply => ?_
  · rintro s ⟨hreached, hsettling⟩
    obtain ⟨⟨reply, hreply, hsent⟩, hheld⟩ := hports.publish message s.world
    have hopen := fun hacked => hfree (hsettling.untouched ordinal le_rfl hacked)
    refine ⟨reply, mapError_eq_ok.mpr hreply, ⟨?_, hsettling⟩, ?_, hsent.1, hsent.2.1, hsent.2.2⟩
    · rw [← hheld] at hreached
      exact hreached.publish hi hp (lt_succ_self i) hmem hopen _
    · rw [← hreply]
      exact mem_append_right _ (mem_singleton_self _)
  refine (check_view hinert fun e s hquiet hs => hE e s hquiet hs.1.1).bind fun _ => ?_
  refine (clock_view hports).bind fun time => ?_
  refine Triple.bind_ofExcept ?_ fun ack hack => ?_
  · rintro s ⟨-, hsent⟩
    have hid : validIdentity reply.messageId = true := hsent.messageId ▸ message.messageId_valid
    have hstream : validStream reply.stream = true := hsent.stream ▸ Subject.validStream_stream _
    rw [PublicationAcknowledgement.tryNew, validateIdentity_eq_ok.mpr hid, ok_bind,
      validateSubject_eq_ok.mpr (hp.plans.subjects message hmem), ok_bind,
      validateStream_eq_ok.mpr hstream, ok_bind, if_neg reply.streamSequence_ne]
    exact ⟨_, rfl⟩
  have hfields := PublicationAcknowledgement.fields_of_tryNew (mapError_eq_ok.mp hack)
  obtain rfl : ack.ordinal = ordinal := congrArg (·.ordinal) hfields
  refine (write_view (Q := fun _ => series.SettledTo capacity i archived plan acknowledged
    (ack.ordinal.toNat + 1)) ?_).bind fun _ =>
      check_view hinert fun e s hquiet hs => hE e s hquiet hs.1
  rintro v progress calls ⟨⟨hreached, hsettling⟩, hsent⟩
  have hopen := fun hacked => hfree (hsettling.untouched ack.ordinal le_rfl hacked)
  obtain ⟨progress', hstep, hreached'⟩ := hreached.acknowledge hi hp (lt_succ_self i) hmessage
    ((congrArg (·.messageId) hfields).trans hsent.messageId) (congrArg (·.subject) hfields)
    ((congrArg (·.publicationSha256) hfields).trans hsent.publicationSha256)
    ((congrArg (·.stream) hfields).trans hsent.stream) hopen hsent.published
  exact ⟨_, progress', hstep, hreached', hsettling.acknowledge hstep⟩

theorem publishFrom_view {messages : List PublicationMessage} {index : ℕ}
    (hdrop : batch.messages.drop index = messages)
    (hverified : ∀ (ordinal : UInt32) ack message, acknowledged[ordinal]? = some ack →
      batch.messages[ordinal.toNat]? = some message →
      verifyAcknowledgement message ordinal ack = .ok ()) :
    Triple (OnView held (series.SettledTo capacity i archived plan acknowledged index))
      (publishFrom ports faults plan acknowledged index messages) (fun _ => OnView held
        (series.SettledTo capacity i archived plan acknowledged (index + messages.length))) E := by
  induction messages generalizing index with
  | nil => exact Triple.pure fun _ h => h
  | cons message rest ih =>
    have hmessage : batch.messages[index]? = some message := by
      rw [← head?_drop, hdrop]
      rfl
    have hrest : batch.messages.drop (index + 1) = rest := by
      rw [← List.tail_drop, hdrop]
      rfl
    obtain ⟨publication, hplanned, -⟩ := hp.planned hmessage
    obtain ⟨ordinal, rfl, -⟩ := plan.exists_ordinal hplanned
    refine Triple.bind_ok (ordinalOf_eq_ok.mpr rfl) ?_
    refine Triple.bind (Q := fun _ => OnView held
      (series.SettledTo capacity i archived plan acknowledged (ordinal.toNat + 1))) ?_ fun _ => ?_
    · unfold settleMessage
      split
      next ack hack =>
        refine Triple.ofExcept ?_ fun e he => ?_
        · rintro _ - s ⟨hreached, hsettling⟩
          refine ⟨hreached, fun other hother => ?_, fun other hle => ?_⟩
          · refine hsettling.acked other ?_
            rcases hother with hlt | hmem
            · rcases Nat.lt_succ_iff_lt_or_eq.mp hlt with hlt | heq
              · exact .inl hlt
              · refine .inr (UInt32.toNat.inj heq ▸ ?_)
                exact Std.ExtTreeMap.mem_iff_getElem?.mpr ⟨ack, hack⟩
            · exact .inr hmem
          · exact hsettling.untouched other (le_of_succ_le hle)
        · rw [hverified ordinal ack message hack hmessage] at he
          cases he
      next hnone =>
        exact publishMessage_view hports hinert hi hp hE hmessage
          (Std.ExtTreeMap.getElem?_eq_none_iff_notMem.mp hnone)
    · rw [length_cons, add_comm rest.length, ← add_assoc]
      exact ih hrest

end Publishing

section Batches

variable {batch : CommittedPublicationBatch} {plan : ArchivedBlockPlan}

section Archiving

variable (hports : Dependable ports held series.receiptOf) (hinert : Inert faults held)
  (hi : i < series.blocks.length) {count before : ℕ} (hbefore : i ≤ before)
  (harchived : max before (i + 1) = archived) {Q : CaptureCursor → CaptureState ω → Prop}
include hports hinert hi hbefore harchived

theorem processBlock_of_archived (hp : series.PlannedAs series.blocks[i] batch plan)
    (hE : ∀ e s, ¬Quiet faults → OnView held (series.Reached capacity count count archived) s →
      E e s)
    (hrest : Triple (OnView held (series.Reached capacity count count archived)) (do
      let _ ← recordArchived plan
      check faults .afterJournal
      completeBatch ports faults plan batch) Q E) :
    Triple (OnView held (series.Reached capacity count count before))
      (processBlock K ports faults series.blocks[i]) Q E := by
  refine Triple.bind (Q := fun receipt s => receipt = series.receiptOf series.blocks[i] ∧
    OnView held (series.Reached capacity count count archived) s) (.of_exec_ok fun s hreached => ?_)
    fun receipt => ?_
  · obtain ⟨hreply, hheld⟩ := hports.append series.blocks[i] s.world fun found hfound => by
      rw [series.chainId_eq _ (getElem_mem hi), hreached.archive, upTo_getElem hi] at hfound
      exact (Option.some.inj (Option.ite_none_right_eq_some.mp hfound).2).symm
    exact ⟨_, mapError_eq_ok.mpr hreply, rfl, harchived ▸ hreached.append hi hbefore hheld⟩
  rintro s ⟨rfl, hs⟩
  refine ((check_view hinert hE).bind fun _ => ?_) s hs
  exact Triple.bind_ok (mapError_eq_ok.mpr hp.batch_eq) (Triple.bind_ok hp.plan_eq hrest)

theorem processBlock_full (hfull : capacity.toNat ≤ count) (hcount : count ≤ i)
    (hE : ∀ e s, OnView held (series.Reached capacity count count archived) s → E e s) :
    Triple (OnView held (series.Reached capacity count count before))
      (processBlock K ports faults series.blocks[i]) Q E := by
  obtain ⟨batch, plan, hp⟩ := series.exists_plannedAs (getElem_mem hi)
  refine processBlock_of_archived hports hinert hi hbefore harchived hp (fun e s _ => hE e s) ?_
  refine Triple.bind (Q := fun _ _ => False) (fun s hs => ?_) fun _ s hs => hs.elim
  obtain ⟨e, hfails⟩ := hs.full hi hp hcount hfull
  rw [recordArchived, write, exec_mk, hfails]
  exact ⟨by simp, fun e' _ => hE e' s hs⟩

end Archiving

/-- The cursor is on the block, and nothing of it is left. -/
abbrev Passed (series : BlockSeries B K) (capacity : UInt64) (archived : ℕ)
    (hi : i < series.blocks.length) (cursor : CaptureCursor) : View B :=
  fun v progress calls => series.Reached capacity (i + 1) (i + 1) archived v progress calls ∧
    cursor.committedBlockHeight = series.blocks[i].blockHeight

variable (hports : Dependable ports held series.receiptOf) (hinert : Inert faults held)
  (hi : i < series.blocks.length) (hroom : i < capacity.toNat)
  (hE : ∀ behind journalled e s, ¬Quiet faults → i ≤ behind → behind ≤ journalled →
    journalled ≤ i + 1 → OnView held (series.Reached capacity behind journalled archived) s → E e s)
include hports hinert hi hroom hE

theorem completeBatch_view (hp : series.PlannedAs series.blocks[i] batch plan) :
    Triple (OnView held (series.Reached capacity i (i + 1) archived))
      (completeBatch ports faults plan batch)
      (fun cursor => OnView held (series.Passed capacity archived hi cursor)) E := by
  refine Triple.bind_ok hp.verified ?_
  refine (read_view (Q := fun acks v progress calls =>
    series.Reached capacity i (i + 1) archived v progress calls ∧
      progress.loadAcknowledgements plan.chainId plan.blockHeight = .ok acks) ?_).bind
    fun acks => ?_
  · intro v progress calls hreached
    obtain ⟨chain, block, hchain, hblock, -⟩ := hreached.recorded hi hp (lt_succ_self i)
    have hload := InMemoryProgressStore.loadAcknowledgements_eq hchain hblock
    exact ⟨block.values, hload, hreached, hload⟩
  refine Triple.bind_ofExcept ?_ fun acknowledged hacks => ?_
  · rintro s ⟨hreached, hload⟩
    obtain ⟨chain, block, -, -, hloaded⟩ := hreached.sound.loaded hload
    exact ⟨_, hloaded⟩
  rintro s ⟨hreached, hload⟩
  obtain ⟨chain, block, hchain, hblock, hloaded⟩ := hreached.sound.loaded hload
  obtain rfl := ok_unique hacks hloaded
  obtain ⟨chain', block', hchain', hblock', hplan⟩ := hreached.recorded hi hp (lt_succ_self i)
  obtain rfl := Option.mem_unique hchain hchain'
  obtain rfl := Option.mem_unique hblock hblock'
  refine ((publishFrom_view hports hinert hi hp ?_ drop_zero ?_).bind fun _ => ?_) s
    ⟨hreached, ?_, hreached.sound.open hload hacks 0⟩
  rotate_left
  · intro ordinal ack message hack hmessage
    have hb := (hreached.sound.tracked.chain _ _ hchain).blocks _ _ hblock
    obtain ⟨publication, hplanned, hmatch⟩ := hb.planned ordinal ack hack
    obtain ⟨publication', hplanned', h1, h2, h3⟩ := hp.planned hmessage
    rw [hplan] at hplanned
    obtain rfl := Option.mem_unique hplanned hplanned'
    obtain ⟨-, hid, hsubject, hsha⟩ := hmatch
    obtain ⟨subject, hs, hstream⟩ := hreached.streamed _ _ _ _ _ _ hchain hblock hack
    have hsame : subject = message.subject :=
      Subject.asStr_injective (hs.symm.trans (hsubject.trans h2))
    rw [verifyAcknowledgement, if_neg]
    simp only [not_or, not_not]
    exact ⟨hb.ordinal_eq hack, hid.trans h1, hsubject.trans h2, hsha.trans h3,
      by rw [hstream, hsame, PublicationMessage.stream]⟩
  rotate_left
  · rintro ordinal (hlt | hmem)
    · exact absurd hlt (not_lt_zero _)
    · exact ⟨chain, block, hchain, hblock, hmem⟩
  · exact fun e s hquiet => hE i (i + 1) e s hquiet le_rfl (le_succ i) le_rfl
  refine (write_view (Q := series.Passed capacity archived hi) ?_).bind fun cursor => ?_
  · rintro v progress calls ⟨hreached, hsettling⟩
    have hacked : ∀ ordinal : UInt32, ordinal.toNat < plan.publications.length →
        Acked progress plan.chainId plan.blockHeight ordinal := by
      intro ordinal hlt
      refine hsettling.acked ordinal (.inl ?_)
      rw [zero_add, ← hp.plans.publications.length_eq]
      exact hlt
    obtain ⟨cursor, progress', hstep, hheight, hreached'⟩ := hreached.advance hi hp hroom hacked
    exact ⟨cursor, progress', hstep, hreached', hheight.trans hp.plans.blockHeight⟩
  · refine (check_view hinert ?_).bind fun _ => Triple.pure fun _ h => h
    exact fun e s hquiet hs => hE (i + 1) (i + 1) e s hquiet (le_succ i) le_rfl le_rfl hs.1

theorem processBlock_view {before : ℕ} (hbefore : i ≤ before)
    (harchived : max before (i + 1) = archived) :
    Triple (OnView held (series.Reached capacity i i before))
      (processBlock K ports faults series.blocks[i])
      (fun cursor => OnView held (series.Passed capacity archived hi cursor)) E := by
  obtain ⟨batch, plan, hp⟩ := series.exists_plannedAs (getElem_mem hi)
  refine processBlock_of_archived hports hinert hi hbefore harchived hp ?_ ?_
  · exact fun e s hquiet => hE i i e s hquiet le_rfl le_rfl (le_succ i)
  refine (write_view (Q := fun _ => series.Reached capacity i (i + 1) archived) ?_).bind
    fun _ => ?_
  · intro v progress calls hreached
    obtain ⟨progress', hstep, hreached'⟩ := hreached.journal hi hp hroom
    rw [append_nil]
    exact ⟨_, progress', hstep, hreached'⟩
  refine (check_view hinert ?_).bind fun _ => completeBatch_view hports hinert hi hroom hE hp
  exact fun e s hquiet => hE i (i + 1) e s hquiet le_rfl (le_succ i) le_rfl

theorem resumePlan_view (harchived : i < archived) {plan : ArchivedBlockPlan}
    (hplan : planOf K series.receiptOf series.blocks[i] = .ok plan) :
    Triple (OnView held (series.Reached capacity i (i + 1) archived))
      (resumePlan K ports faults series.chainId series.blocks[i].blockHeight plan)
      (fun cursor => OnView held (series.Passed capacity archived hi cursor)) E := by
  obtain ⟨batch, found, hp⟩ := series.exists_plannedAs (getElem_mem hi)
  obtain rfl := ok.inj (hp.planOf_eq.symm.trans hplan)
  have hfound : ∀ v progress calls, series.Reached capacity i (i + 1) archived v progress calls →
      v series.chainId series.blocks[i].blockHeight = some series.blocks[i] := by
    intro v progress calls hreached
    rw [hreached.archive, upTo_getElem hi, if_pos harchived]
  refine (load_view hports hfound).bind fun block => ?_
  rintro s ⟨rfl, hs⟩
  refine Triple.bind_ok hp.receiptFromPlan_eq ?_ s hs
  refine Triple.bind_ok (mapError_eq_ok.mpr hp.batch_eq) ?_
  exact Triple.bind_ok hp.verified (completeBatch_view hports hinert hi hroom hE hp)

end Batches

section Rounds

/-- Nothing is left that recovery could take up: the cursor has passed every archived block that
the journal has room for. -/
abbrev Recovered (series : BlockSeries B K) (capacity : UInt64) (archived : ℕ) : View B :=
  series.Reached capacity (min archived capacity.toNat) (min archived capacity.toNat) archived

/-- The run is at an extent that recovery starts from. -/
def Resumable (series : BlockSeries B K) (capacity : UInt64) (held : ω → Held B) (archived : ℕ)
    (s : CaptureState ω) : Prop :=
  ∃ behind journalled, behind ≤ journalled ∧ journalled ≤ behind + 1 ∧
    journalled ≤ min archived capacity.toNat ∧
    OnView held (series.Reached capacity behind journalled archived) s

/-- Nothing is left to take up, unless a fault has stopped the call. -/
def Stopped (series : BlockSeries B K) (capacity : UInt64) (held : ω → Held B)
    (faults : FaultInjector ω) (archived : ℕ) (s : CaptureState ω) : Prop :=
  OnView held (series.Recovered capacity archived) s ∨
    ¬Quiet faults ∧ series.Resumable capacity held archived s

theorem Stopped.resumable {s : CaptureState ω}
    (h : series.Stopped capacity held faults archived s) :
    series.Resumable capacity held archived s :=
  h.elim (fun h => ⟨_, _, le_rfl, le_succ _, le_rfl, h⟩) And.right

theorem Reached.recovered {behind journalled : ℕ} {v : Held B} {progress : InMemoryProgressStore}
    {calls : List CaptureCall}
    (h : series.Reached capacity behind journalled archived v progress calls)
    (hbehind : behind ≤ journalled) (hjournalled : journalled ≤ min archived capacity.toNat)
    (hle : archived ≤ behind) : series.Recovered capacity archived v progress calls := by
  obtain ⟨harchived, hcapacity⟩ := le_min_iff.mp hjournalled
  obtain rfl : behind = archived := by omega
  obtain rfl : journalled = behind := by omega
  rw [Recovered, min_eq_left hcapacity]
  exact h

/-- What a round of recovery leaves: the cursor one block further, or nothing to take up. -/
def AfterRound (series : BlockSeries B K) (capacity : UInt64) (held : ω → Held B)
    (behind archived : ℕ) (found : Option BlockHeight) (s : CaptureState ω) : Prop :=
  if found.isSome then behind + 1 ≤ min archived capacity.toNat ∧
    OnView held (series.Reached capacity (behind + 1) (behind + 1) archived) s
  else OnView held (series.Recovered capacity archived) s

theorem recovered_view {P : View B} {expected : BlockHeight} {cursor : CaptureCursor} :
    Triple (OnView held fun v progress calls => P v progress calls ∧
        cursor.committedBlockHeight = expected) (recovered expected cursor)
      (fun found s => found = some expected ∧ OnView held P s) E := by
  refine Triple.given (fun _ h => h.2) fun hheight => ?_
  rw [recovered, if_neg (not_not.mpr hheight)]
  exact Triple.pure fun _ h => ⟨rfl, h.1⟩

variable (hports : Dependable ports held series.receiptOf) (hinert : Inert faults held)
  (hquiet : Quiet faults) {behind journalled : ℕ} (hlen : archived ≤ series.blocks.length)
  (hbehind : behind ≤ journalled) (hnext : journalled ≤ behind + 1)
  (hjournalled : journalled ≤ min archived capacity.toNat)
include hports hinert hlen hbehind hnext hjournalled

/-- A round of recovery takes the cursor one block further, or there is nothing left that the
journal has room for, unless a fault stops it. -/
theorem recoverNext_view :
    Triple (OnView held (series.Reached capacity behind journalled archived))
      (recoverNext K ports faults series.chainId)
      (series.AfterRound capacity held behind archived)
      (fun _ => series.Stopped capacity held faults archived) := by
  obtain ⟨harchived, hcapacity⟩ := le_min_iff.mp hjournalled
  refine Triple.bind (Q := fun expected => OnView held fun v progress calls =>
    series.Reached capacity behind journalled archived v progress calls ∧
      expected.toNat = series.first.toNat + behind) ?_ fun expected => ?_
  · refine fun s hs => ⟨fun _ ha => ⟨hs, hs.nextExpectedHeight_iff.mp (mapError_eq_ok.mp ha)⟩, ?_⟩
    -- the journal has no next height only behind the last one
    intro e he
    refine .inl (Reached.recovered hs hbehind hjournalled (not_lt.mp fun hlt => ?_))
    have hok := hs.nextExpectedHeight_iff.mpr (series.toNat_blockHeight (hlt.trans_le hlen))
    obtain ⟨_, he, -⟩ := mapError_eq_error.mp he
    cases hok.symm.trans he
  refine Triple.given (fun _ h => h.2) fun hnat => ?_
  refine (read_view (Q := fun planned v progress calls =>
    series.Reached capacity behind journalled archived v progress calls ∧
      planned = (series.upTo journalled expected).bind fun block =>
        (planOf K series.receiptOf block).toOption) ?_).bind fun planned => ?_
  · rintro v progress calls ⟨hreached, -⟩
    exact ⟨_, hreached.loadArchivedBlock_eq _, hreached, rfl⟩
  refine Triple.given (fun _ h => h.2) ?_
  rintro rfl
  rw [upTo_of_toNat hnat]
  have hround : behind + 1 ≤ min archived capacity.toNat → ∀ found s,
      (found = some expected ∧
        OnView held (series.Reached capacity (behind + 1) (behind + 1) archived) s) →
      series.AfterRound capacity held behind archived found s := by
    rintro hle found s ⟨rfl, hs⟩
    exact ⟨hle, hs⟩
  have hstop : behind + 1 ≤ min archived capacity.toNat → ∀ behind' journalled'
      (_ : CoordinatorError) s, ¬Quiet faults → behind ≤ behind' → behind' ≤ journalled' →
      journalled' ≤ behind + 1 → OnView held (series.Reached capacity behind' journalled' archived)
        s → series.Stopped capacity held faults archived s :=
    fun hle behind' journalled' _ s hnot hge hle' hlt hs =>
      .inr ⟨hnot, behind', journalled', hle', by omega, hlt.trans hle, hs⟩
  rcases hbehind.lt_or_eq with hlt | rfl
  · obtain rfl : journalled = behind + 1 := by omega
    have hi : behind < series.blocks.length := by omega
    obtain rfl : expected = series.blocks[behind].blockHeight :=
      UInt64.toNat.inj (hnat.trans (series.toNat_blockHeight hi).symm)
    obtain ⟨batch, plan, hp⟩ := series.exists_plannedAs (getElem_mem hi)
    rw [if_pos hlt, getElem?_eq_getElem hi, Option.bind_some, hp.planOf_eq, Except.toOption]
    refine ((resumePlan_view hports hinert hi hcapacity (hstop hjournalled) harchived
      hp.planOf_eq).pre fun _ h => h.1).bind fun cursor => ?_
    exact recovered_view.post (hround hjournalled)
  rw [if_neg (lt_irrefl behind)]
  refine (find_view hports).bind fun found => ?_
  refine Triple.given (fun _ h => h.2.symm.trans (h.1.1.archive _)) ?_
  rintro rfl
  rw [upTo_of_toNat hnat]
  rcases harchived.eq_or_lt with heq | hlt
  · rw [if_neg heq.ge.not_gt]
    exact Triple.pure fun s h => Reached.recovered h.1.1 le_rfl hjournalled heq.ge
  have hi : behind < series.blocks.length := hlt.trans_le hlen
  obtain rfl : expected = series.blocks[behind].blockHeight :=
    UInt64.toNat.inj (hnat.trans (series.toNat_blockHeight hi).symm)
  rw [if_pos hlt, getElem?_eq_getElem hi]
  rcases hcapacity.eq_or_lt with heq | hroom
  · refine Triple.bind (Q := fun _ _ => False) ?_ fun _ _ h => h.elim
    refine (processBlock_full hports hinert hi hlt.le (max_eq_left hlt) heq.ge le_rfl ?_).pre
      fun _ h => h.1.1
    intro _ s hs
    rw [Stopped, Recovered, ← heq, min_eq_right hlt.le]
    exact .inl hs
  · have hle : behind + 1 ≤ min archived capacity.toNat := le_min hlt hroom
    refine ((processBlock_view hports hinert hi hroom (hstop hle) hlt.le (max_eq_left hlt)).pre
      fun _ h => h.1.1).bind fun cursor => ?_
    exact recovered_view.post (hround hle)

theorem recoverRounds_stopped {limit : ℕ} (hlimit : archived ≤ behind + limit) :
    Triple (OnView held (series.Reached capacity behind journalled archived))
      (recoverRounds K ports faults series.chainId limit)
      (fun _ => series.Stopped capacity held faults archived)
      (fun _ => series.Stopped capacity held faults archived) := by
  induction limit generalizing behind journalled with
  | zero => exact Triple.pure fun s hs => .inl (Reached.recovered hs hbehind hjournalled hlimit)
  | succ limit ih =>
    refine (recoverNext_view hports hinert hlen hbehind hnext hjournalled).bind fun found => ?_
    cases found with
    | none => exact Triple.pure fun _ h => .inl h
    | some height =>
      refine Triple.given (fun _ h => h.1) fun hle => ?_
      refine ((ih (le_refl _) (le_succ _) hle (by omega)).pre fun _ h => h.2).bind
        fun _ => Triple.pure fun _ h => h

include hquiet in
theorem recoverRounds_view {limit : ℕ} (hlimit : archived ≤ behind + limit) :
    Triple (OnView held (series.Reached capacity behind journalled archived))
      (recoverRounds K ports faults series.chainId limit)
      (fun _ => OnView held (series.Recovered capacity archived))
      (fun _ => OnView held (series.Recovered capacity archived)) :=
  (recoverRounds_stopped hports hinert hlen hbehind hnext hjournalled hlimit).conseq (fun _ h => h)
    (fun _ _ h => h.resolve_right fun h => h.1 hquiet)
    fun _ _ h => h.resolve_right fun h => h.1 hquiet

end Rounds

section Runs

/-- The heights of a chain that the archive holds above the cursor. -/
def archivedAbove (held : ω → Held B) (chainId : ChainId) (s : CaptureState ω) :
    Set BlockHeight :=
  {blockHeight | (held s.world chainId blockHeight).isSome ∧
    ∀ chain cursor, s.progress.chains[chainId]? = some chain → chain.cursor = some cursor →
      cursor.committedBlockHeight < blockHeight}

theorem Reached.le_ncard_archivedAbove {behind journalled : ℕ} {s : CaptureState ω}
    (h : OnView held (series.Reached capacity behind journalled archived) s)
    (hlen : archived ≤ series.blocks.length) :
    archived ≤ behind + (archivedAbove held series.chainId s).ncard := by
  have hnat : ∀ j < archived, (UInt64.ofNat (series.first.toNat + j)).toNat =
      series.first.toNat + j := by
    intro j hj
    have hheight := series.toNat_blockHeight (hj.trans_le hlen)
    exact UInt64.toNat_ofNat_of_lt' (hheight ▸ UInt64.toNat_lt _)
  have hsub : ↑((Finset.Ico behind archived).image fun j =>
      UInt64.ofNat (series.first.toNat + j)) ⊆ archivedAbove held series.chainId s := by
    intro blockHeight hmem
    obtain ⟨j, hj, rfl⟩ := Finset.mem_image.mp hmem
    obtain ⟨hle, hlt⟩ := Finset.mem_Ico.mp hj
    refine ⟨?_, fun chain cursor hchain hcursor => ?_⟩
    · rw [h.archive, upTo_of_toNat (hnat j hlt), if_pos hlt,
        getElem?_eq_getElem (hlt.trans_le hlen)]
      rfl
    · have htracked := h.sound.tracked.chain _ _ hchain
      have hlast := last_of_map_eq_range' htracked.heights (htracked.cursor.symm.trans hcursor)
      rw [h.moves] at hlast
      rw [UInt64.lt_iff_toNat_lt, hnat j hlt]
      omega
  have hinj : Set.InjOn (fun j => UInt64.ofNat (series.first.toNat + j))
      ↑(Finset.Ico behind archived) := by
    intro j hj k hk heq
    have hnats := congrArg UInt64.toNat heq
    simp only [hnat j (Finset.mem_Ico.mp hj).2, hnat k (Finset.mem_Ico.mp hk).2] at hnats
    omega
  have hfinite : Finite BlockHeight :=
    Finite.of_injective UInt64.toFin fun _ _ => UInt64.toFin_inj.mp
  have hcard := Set.ncard_le_ncard hsub (Set.toFinite _)
  rw [Set.ncard_coe_finset, Finset.card_image_of_injOn hinj, card_Ico] at hcard
  omega

variable (hports : Dependable ports held series.receiptOf) (hinert : Inert faults held)
  (hquiet : Quiet faults) {s : CaptureState ω}
include hports hinert

/-- Behind a call nothing is left to take up, unless a fault has stopped it. -/
theorem processBlock_stopped (hi : i < series.blocks.length)
    (h : OnView held (series.Recovered capacity i) s) :
    series.Stopped capacity held faults (i + 1)
      (CaptureRequest.serve K ports faults s (.processBlock series.blocks[i])) := by
  have harchived : max i (i + 1) = i + 1 := max_eq_right (le_succ i)
  rcases lt_or_ge i capacity.toNat with hroom | hfull
  · rw [Recovered, min_eq_left hroom.le] at h
    have hbound : min (i + 1) capacity.toNat = i + 1 := min_eq_left hroom
    refine Triple.always (T := series.Stopped capacity held faults (i + 1))
      ((processBlock_view hports hinert hi hroom ?_ le_rfl harchived).post ?_) h
    · intro behind journalled _ t hnot hle hle' hle'' ht
      exact .inr ⟨hnot, behind, journalled, hle', by omega, by omega, ht⟩
    · intro _ t ht
      rw [Stopped, Recovered, hbound]
      exact .inl ht.1
  · rw [Recovered, min_eq_right hfull] at h
    rw [Stopped, Recovered, min_eq_right (hfull.trans (le_succ i))]
    exact .inl ((processBlock_full hports hinert hi le_rfl harchived le_rfl hfull
      (fun _ _ h => h) (Q := fun _ => OnView held (series.Reached capacity _ _ (i + 1)))).always h)

include hquiet

theorem run_steady {rest : List (BlockEnvelope B)}
    (hrest : rest <+: series.blocks.drop i) (h : OnView held (series.Recovered capacity i) s) :
    OnView held (series.Recovered capacity (i + rest.length))
      (Run.final (CaptureRequest.serve K ports faults) s (rest.map .processBlock)) := by
  induction rest generalizing i s with
  | nil => exact h
  | cons block rest ih =>
    obtain ⟨later, hlater⟩ := hrest
    have hblock : series.blocks[i]? = some block := by
      rw [← head?_drop, ← hlater]
      rfl
    obtain ⟨hi, rfl⟩ := List.getElem?_eq_some_iff.mp hblock
    have hdrop : series.blocks.drop (i + 1) = rest ++ later := by
      rw [← List.tail_drop, ← hlater]
      rfl
    rw [map_cons, Run.final_cons, length_cons, add_comm rest.length, ← add_assoc]
    exact ih ⟨later, hdrop.symm⟩
      ((processBlock_stopped hports hinert hi h).resolve_right fun hstop => hstop.1 hquiet)

end Runs

variable {fresh store : InMemoryProgressStore} {d : ProgressRecordDisposition}

theorem recovered_initial (hfresh : InMemoryProgressStore.new capacity = .ok fresh)
    (hinit : fresh.initializeChain series.chainId series.first = .ok (d, store)) {w : ω}
    (hempty : ∀ blockHeight, held w series.chainId blockHeight = none) :
    OnView held (series.Recovered capacity 0) ⟨w, store, []⟩ := by
  have hsound := sound_initial hfresh hinit
  obtain ⟨-, hfresh⟩ := of_check hfresh
  obtain rfl := ok.inj hfresh
  obtain ⟨-, rfl⟩ := Prod.mk.inj (ok.inj hinit)
  have hnone : ∀ blockHeight, series.upTo 0 blockHeight = none := fun blockHeight =>
    if_neg fun hlt => not_lt_zero _ hlt.2
  rw [Recovered, zero_min]
  refine ⟨hsound, rfl, rfl, rfl, ⟨⟨series.first, none, ∅⟩, ?_, ?_⟩, ?_, ?_, ?_⟩
  · rw [InMemoryProgressStore.chains_putChain, if_pos rfl]
  · intro blockHeight
    rw [hnone]
    simp
  · intro blockHeight
    rw [hnone]
    exact hempty blockHeight
  · rintro id ⟨_, _, _, _, _, hmem, -⟩
    cases hmem
  · intro chainId chain blockHeight block ordinal ack hchain hblock
    rw [InMemoryProgressStore.chains_putChain] at hchain
    split at hchain
    next =>
      obtain rfl := Option.some.inj hchain
      simp at hblock
    next => simp at hchain

/-- A run along a series that a fault stops in one of its blocks, that is recovered and then goes
on, ends as the run without the fault does: with the same cursor but for its time, the same plans
and the same messages published, and with nothing published again behind its
acknowledgement. -/
theorem recovered_eq_uninterrupted (hports : Dependable ports held series.receiptOf)
    (hinert : Inert faults held) (hfresh : InMemoryProgressStore.new capacity = .ok fresh)
    (hinit : fresh.initializeChain series.chainId series.first = .ok (d, store)) {w : ω}
    (hempty : ∀ blockHeight, held w series.chainId blockHeight = none)
    {before after : List (BlockEnvelope B)} {block : BlockEnvelope B}
    (hblocks : series.blocks = before ++ block :: after) {stopped resumed whole : CaptureState ω}
    (hstopped : stopped = CaptureRequest.serve K ports faults
      (Run.final (CaptureRequest.serve K ports noCoordinatorFaults) ⟨w, store, []⟩
        (before.map .processBlock)) (.processBlock block))
    {limit : ℕ} (hlimit : (archivedAbove held series.chainId stopped).ncard ≤ limit)
    (hresumed : resumed = Run.final (CaptureRequest.serve K ports noCoordinatorFaults) stopped
      (.recoverStartup series.chainId limit :: after.map .processBlock))
    (hwhole : whole = Run.final (CaptureRequest.serve K ports noCoordinatorFaults) ⟨w, store, []⟩
      (series.blocks.map .processBlock)) :
    (∃ chain chain', resumed.progress.chains[series.chainId]? = some chain ∧
      whole.progress.chains[series.chainId]? = some chain' ∧
      chain.cursor.map place = chain'.cursor.map place ∧
      (∀ blockHeight : BlockHeight,
        chain.blocks[blockHeight]?.map (·.plan) = chain'.blocks[blockHeight]?.map (·.plan)) ∧
      publishedIds resumed.calls = publishedIds whole.calls) ∧
      resumed.calls.Pairwise fun earlier later => ¬Repeats earlier later := by
  have hnone := inert_noCoordinatorFaults held
  have hquiet := quiet_noCoordinatorFaults (ω := ω)
  have hstart := recovered_initial hfresh hinit hempty
  -- the run without the fault
  have hfull := run_steady hports hnone hquiet (prefix_refl series.blocks) hstart
  rw [zero_add, ← hwhole] at hfull
  -- the blocks before the fault, then the block it stops in
  have hlen : before.length < series.blocks.length := by
    rw [hblocks, length_append, length_cons]
    omega
  have hbefore := run_steady hports hnone hquiet
    (⟨block :: after, hblocks.symm⟩ : before <+: series.blocks.drop 0) hstart
  rw [zero_add] at hbefore
  have hblock : series.blocks[before.length] = block := by simp [hblocks]
  obtain ⟨behind, journalled, hbehind, hnext, hjournalled, hreached⟩ :
      series.Resumable capacity held (before.length + 1) stopped := by
    have hstop := processBlock_stopped hports hinert hlen hbefore
    rw [hblock, ← hstopped] at hstop
    exact hstop.elim (fun h => ⟨_, _, le_rfl, le_succ _, le_rfl, h⟩) And.right
  -- recovery, then the blocks after the fault
  have hrounds := (Reached.le_ncard_archivedAbove hreached hlen).trans
    (Nat.add_le_add_left hlimit _)
  have hrecovered : OnView held (series.Recovered capacity (before.length + 1))
      (CaptureRequest.serve K ports noCoordinatorFaults stopped
        (.recoverStartup series.chainId limit)) := by
    change OnView held _ (Effect.exec (recoverStartup _ _ _ _ _) stopped).2
    unfold recoverStartup
    split
    next hzero =>
      subst hzero
      exact Reached.recovered hreached hbehind hjournalled hrounds
    next =>
      exact (recoverRounds_view hports hnone hquiet hlen hbehind hnext hjournalled hrounds).always
        hreached
  have hafter : after <+: series.blocks.drop (before.length + 1) := by
    rw [hblocks, ← drop_drop, drop_left, drop_one]
    exact prefix_refl _
  have hend := run_steady hports hnone hquiet hafter hrecovered
  have hcount : before.length + 1 + after.length = series.blocks.length := by
    rw [hblocks, length_append, length_cons]
    omega
  rw [hcount, ← Run.final_cons, ← hresumed] at hend
  exact ⟨Reached.agree hend hfull (min_le_left _ _), hend.sound.unrepeated.pairwise⟩

abbrev InertFaults (held : ω → Held B) := {faults : FaultInjector ω // Inert faults held}

/-- A call for a block, and recoveries behind it until one that no fault stops. -/
def attempt (K : EnvelopeCodec) (ports : CapturePorts B ω) (chainId : ChainId) (limit : ℕ)
    (stops : InertFaults held × List (InertFaults held)) (s : CaptureState ω)
    (block : BlockEnvelope B) : CaptureState ω :=
  Run.final
    (fun s faults => CaptureRequest.serve K ports faults.1 s (.recoverStartup chainId limit))
    (CaptureRequest.serve K ports stops.1.1 s (.processBlock block))
    (stops.2 ++ [⟨noCoordinatorFaults, inert_noCoordinatorFaults held⟩])

section Attempts

variable (hports : Dependable ports held series.receiptOf) {s : CaptureState ω} {limit : ℕ}
include hports

theorem recoverStartup_stopped (hinert : Inert faults held)
    (hlen : archived ≤ series.blocks.length) (hlimit : archived ≤ limit)
    (h : series.Resumable capacity held archived s) :
    series.Stopped capacity held faults archived
      (CaptureRequest.serve K ports faults s (.recoverStartup series.chainId limit)) := by
  obtain ⟨behind, journalled, hbehind, hnext, hjournalled, hreached⟩ := h
  change series.Stopped _ _ _ _ (Effect.exec (recoverStartup _ _ _ _ _) s).2
  unfold recoverStartup
  split
  next => exact .inl (Reached.recovered hreached hbehind hjournalled (by omega))
  next =>
    exact (recoverRounds_stopped hports hinert hlen hbehind hnext hjournalled (by omega)).always
      hreached

theorem recovered_attempt (hi : i < series.blocks.length) (hlimit : series.blocks.length ≤ limit)
    (stops : InertFaults held × List (InertFaults held))
    (h : OnView held (series.Recovered capacity i) s) :
    OnView held (series.Recovered capacity (i + 1))
      (attempt K ports series.chainId limit stops s series.blocks[i]) := by
  rw [attempt, Run.final_concat]
  -- the recoveries that are stopped leave something to resume
  have hstopped := Run.invariant (P := series.Resumable capacity held (i + 1)) _
    (processBlock_stopped hports stops.1.2 hi h).resumable
    (fun s faults hs =>
      (recoverStartup_stopped hports faults.2 hi (hi.trans_le hlimit) hs).resumable)
    stops.2
  exact (recoverStartup_stopped hports (inert_noCoordinatorFaults held) hi (hi.trans_le hlimit)
    hstopped).resolve_right fun hstop => hstop.1 quiet_noCoordinatorFaults

end Attempts

/-- Faults may stop every call of a run along a series, and the recoveries behind it any number of
times. The run ends as the one without faults does, and publishes nothing again behind its
acknowledgement. -/
theorem recovered_from_any_faults (hports : Dependable ports held series.receiptOf)
    (hfresh : InMemoryProgressStore.new capacity = .ok fresh)
    (hinit : fresh.initializeChain series.chainId series.first = .ok (d, store)) {w : ω}
    (hempty : ∀ blockHeight, held w series.chainId blockHeight = none)
    (stops : BlockEnvelope B → InertFaults held × List (InertFaults held)) {limit : ℕ}
    (hlimit : series.blocks.length ≤ limit) :
    let resumed := Run.final (fun s block => attempt K ports series.chainId limit (stops block) s
      block) ⟨w, store, []⟩ series.blocks
    let whole := Run.final (CaptureRequest.serve K ports noCoordinatorFaults) ⟨w, store, []⟩
      (series.blocks.map .processBlock)
    (∃ chain chain', resumed.progress.chains[series.chainId]? = some chain ∧
      whole.progress.chains[series.chainId]? = some chain' ∧
      chain.cursor.map place = chain'.cursor.map place ∧
      (∀ blockHeight : BlockHeight,
        chain.blocks[blockHeight]?.map (·.plan) = chain'.blocks[blockHeight]?.map (·.plan)) ∧
      publishedIds resumed.calls = publishedIds whole.calls) ∧
      resumed.calls.Pairwise fun earlier later => ¬Repeats earlier later := by
  intro resumed whole
  have hstart := recovered_initial hfresh hinit hempty
  have hsteps : ∀ i ≤ series.blocks.length, OnView held (series.Recovered capacity i)
      (Run.final (fun s block => attempt K ports series.chainId limit (stops block) s block)
        ⟨w, store, []⟩ (series.blocks.take i)) := by
    intro i hi
    induction i with
    | zero => exact hstart
    | succ i ih =>
      rw [take_succ_eq_append_getElem hi, Run.final_concat]
      exact recovered_attempt hports hi hlimit _ (ih (le_of_succ_le hi))
  have hresumed := hsteps _ le_rfl
  have hwhole := run_steady hports (inert_noCoordinatorFaults held) quiet_noCoordinatorFaults
    (prefix_refl series.blocks) hstart
  rw [take_length] at hresumed
  rw [zero_add] at hwhole
  exact ⟨Reached.agree hresumed hwhole (min_le_left _ _), hresumed.sound.unrepeated.pairwise⟩

section Sample

open CanonicalLedger

def sampleHeld (w : List (BlockEnvelope sumBlake3)) : Held sumBlake3 := fun chainId blockHeight =>
  w.find? fun b => b.chainId = chainId ∧ b.blockHeight = blockHeight

theorem dependable_samplePorts : Dependable samplePorts sampleHeld sampleReceipt where
  append block w hold := by
    have hcons : ∀ chainId blockHeight, sampleHeld (block :: w) chainId blockHeight =
        if chainId = block.chainId ∧ blockHeight = block.blockHeight then some block
        else sampleHeld w chainId blockHeight := by
      intro chainId blockHeight
      rw [sampleHeld, find?_cons]
      split
      next h =>
        obtain ⟨rfl, rfl⟩ := of_decide_eq_true h
        rw [if_pos ⟨rfl, rfl⟩]
      next h =>
        have hne := of_decide_eq_false h
        rw [if_neg fun heq => hne ⟨heq.1.symm, heq.2.symm⟩, sampleHeld]
    cases hfound : sampleHeld w block.chainId block.blockHeight with
    | none =>
      have hreply : samplePorts.appendBlock block w = (.ok (sampleReceipt block), block :: w) := by
        unfold sampleHeld at hfound
        simp only [samplePorts, hfound]
      rw [hreply]
      exact ⟨rfl, hcons⟩
    | some found =>
      obtain rfl := hold found hfound
      have hreply : samplePorts.appendBlock found w = (.ok (sampleReceipt found), w) := by
        unfold sampleHeld at hfound
        simp only [samplePorts, hfound, if_pos]
      rw [hreply]
      refine ⟨rfl, fun chainId blockHeight => ?_⟩
      split
      next heq => rw [heq.1, heq.2, hfound]
      next => rfl
  load chainId blockHeight w := ⟨rfl, rfl⟩
  publish message w := ⟨⟨_, rfl, rfl, rfl, rfl⟩, rfl⟩
  clock blockHeight ordinal w := ⟨⟨_, rfl⟩, rfl⟩

def changedBack : BlockEnvelope sumBlake3 :=
  sampleEventBlock 8 [] [.replicate 20 1]
    (.accountModeChanged ⟨.replicate 20 1, .unified, .standard⟩) (by decide) (by decide)

def sampleSeries : BlockSeries sumBlake3 byteCodec where
  chainId := sampleChain
  first := 7
  blocks := [changedMode, changedBack]
  receiptOf := sampleReceipt
  chainId_eq := by decide
  heights := by decide
  planned := by
    have hplans : ∀ block ∈ [changedMode, changedBack],
        (planOf byteCodec sampleReceipt block).toOption.isSome = true := by decide +kernel
    intro block hblock
    obtain ⟨plan, hplan⟩ := Option.isSome_iff_exists.mp (hplans block hblock)
    exact ⟨plan, mem_toOption.mp hplan⟩

/-- A fault behind the first publication of a block. -/
def stopAtPublish : FaultInjector (List (BlockEnvelope sumBlake3)) := fun point w =>
  if point = .afterPublish 0 then (.error (.injectedFault point), w) else (.ok (), w)

theorem inert_stopAtPublish : Inert stopAtPublish sampleHeld := by
  intro point w
  unfold stopAtPublish
  split <;> rfl

/-- The second block of the series is stopped behind its first publication. -/
def sampleStopped : CaptureState (List (BlockEnvelope sumBlake3)) :=
  CaptureRequest.serve byteCodec samplePorts stopAtPublish
    (Run.final (CaptureRequest.serve byteCodec samplePorts noCoordinatorFaults)
      ⟨[], sampleProgress, []⟩ ([changedMode].map .processBlock)) (.processBlock changedBack)

theorem recovered_eq_uninterrupted_sampleStopped :
    ∃ limit, publishedIds (Run.final
        (CaptureRequest.serve byteCodec samplePorts noCoordinatorFaults) sampleStopped
        [.recoverStartup sampleChain limit]).calls =
      publishedIds (Run.final (CaptureRequest.serve byteCodec samplePorts noCoordinatorFaults)
        ⟨[], sampleProgress, []⟩ (sampleSeries.blocks.map .processBlock)).calls := by
  refine ⟨(archivedAbove sampleHeld sampleChain sampleStopped).ncard, ?_⟩
  have hports : Dependable samplePorts sampleHeld sampleSeries.receiptOf := dependable_samplePorts
  have hempty : ∀ blockHeight, sampleHeld [] sampleSeries.chainId blockHeight = none :=
    fun _ => rfl
  have hblocks : sampleSeries.blocks = [changedMode] ++ changedBack :: [] := rfl
  obtain ⟨⟨_, _, -, -, -, -, hids⟩, -⟩ := recovered_eq_uninterrupted hports inert_stopAtPublish
    new_sampleProgress initializeChain_sampleProgress hempty hblocks rfl le_rfl rfl rfl
  exact hids

theorem recovered_from_any_faults_sampleSeries :
    let stop : InertFaults sampleHeld := ⟨stopAtPublish, inert_stopAtPublish⟩
    publishedIds (Run.final (attempt byteCodec samplePorts sampleChain 2 (stop, [stop]))
        ⟨[], sampleProgress, []⟩ sampleSeries.blocks).calls =
      publishedIds (Run.final (CaptureRequest.serve byteCodec samplePorts noCoordinatorFaults)
        ⟨[], sampleProgress, []⟩ (sampleSeries.blocks.map .processBlock)).calls := by
  intro stop
  have hports : Dependable samplePorts sampleHeld sampleSeries.receiptOf := dependable_samplePorts
  have hempty : ∀ blockHeight, sampleHeld [] sampleSeries.chainId blockHeight = none :=
    fun _ => rfl
  obtain ⟨⟨_, _, -, -, -, -, hids⟩, -⟩ := recovered_from_any_faults hports new_sampleProgress
    initializeChain_sampleProgress hempty (fun _ => (stop, [stop])) le_rfl
  exact hids

end Sample

end BlockSeries

end AlphaDesk
