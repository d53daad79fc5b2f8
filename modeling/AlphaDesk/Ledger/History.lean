import AlphaDesk.Ledger.Run

/-! # The events behind a state

The entries of a ledger are what the mutations of its committed events have
written, one event after the other. A property of the reducer's answer to one
event therefore carries over to every state a run reaches, together with the
history of the events that led there. A run never has two states of one height.
-/

namespace AlphaDesk

open Except List

def StateMutation.write (entries : Entries) : StateMutation → Entries
  | put key value => entries.insert key value
  | delete key => entries.erase key

def writeAll (entries : Entries) (mutations : List StateMutation) : Entries :=
  mutations.foldl StateMutation.write entries

variable {entries : Entries} {m : StateMutation} {mutations : List StateMutation} {k : StateKey}

theorem StateMutation.getElem?_write :
    (m.write entries)[k]? = if m.key = k then m.value else entries[k]? := by
  cases m with
  | put key value =>
    rw [write, Std.ExtTreeMap.getElem?_insert]
    exact if_congr Std.LawfulEqCmp.compare_eq_iff_eq rfl rfl
  | delete key =>
    rw [write, Std.ExtTreeMap.getElem?_erase]
    exact if_congr Std.LawfulEqCmp.compare_eq_iff_eq rfl rfl

theorem getElem?_writeAll_of_forall_ne (h : ∀ m ∈ mutations, m.key ≠ k) :
    (writeAll entries mutations)[k]? = entries[k]? := by
  induction mutations generalizing entries with
  | nil => rfl
  | cons m rest ih =>
    rw [writeAll, foldl_cons, ← writeAll, ih fun m' hm' => h m' (mem_cons_of_mem _ hm'),
      StateMutation.getElem?_write, if_neg (h m mem_cons_self)]

theorem getElem?_writeAll_of_mem (hn : (mutations.map StateMutation.key).Nodup)
    (hm : m ∈ mutations) : (writeAll entries mutations)[m.key]? = m.value := by
  induction mutations generalizing entries with
  | nil => cases hm
  | cons m' rest ih =>
    rw [map_cons, nodup_cons] at hn
    rw [writeAll, foldl_cons, ← writeAll]
    rcases mem_cons.mp hm with rfl | hm
    · have hne : ∀ m' ∈ rest, m'.key ≠ m.key :=
        fun m' hm' he => hn.1 (he ▸ mem_map_of_mem hm')
      rw [getElem?_writeAll_of_forall_ne hne, StateMutation.getElem?_write, if_pos rfl]
    · exact ih hn.2 hm

variable {R : EventReducer} {limits : LedgerLimits} {context : ApplyContext} {s s' : StagedBlock}
  {event : CanonicalEventEnvelope} {events : List CanonicalEventEnvelope}

/-- One event reduced on the entries and written to them. -/
def EventStep (R : EventReducer) (context : ApplyContext) (s : Entries)
    (event : CanonicalEventEnvelope) (t : Entries) : Prop :=
  R.supports event = true ∧ ∃ mutations, R.reduce s event context = .ok mutations ∧
    (mutations.map StateMutation.key).Nodup ∧ t = writeAll s mutations

theorem nodup_of_validateMutationsFrom {seen : List StateKey} {bytes total : ℕ}
    (h : validateMutationsFrom limits seen bytes mutations = .ok total) :
    (mutations.map StateMutation.key).Nodup ∧ ∀ m ∈ mutations, m.key ∉ seen := by
  fun_induction validateMutationsFrom limits seen bytes mutations with
  | case1 => simp
  | case8 seen bytes m rest hseen _ _ _ _ _ _ _ _ ih =>
    obtain ⟨hn, hm⟩ := ih h
    simp only [mem_cons, not_or] at hm
    constructor
    · rw [map_cons, nodup_cons, mem_map]
      refine ⟨?_, hn⟩
      rintro ⟨m', hm', he⟩
      exact (hm m' hm').1 he
    · intro m' hm'
      rcases mem_cons.mp hm' with rfl | hm'
      · exact hseen
      · exact (hm m' hm').2
  | _ => cases h

theorem candidate_applyMutation {m : StateMutation} (h : applyMutation limits s m = .ok s') :
    s'.candidate = m.write s.candidate := by
  revert h
  fun_cases applyMutation limits s m with
  | case2 => rintro ⟨⟩
  | _ =>
    intro h
    obtain ⟨tracker, -, h⟩ := of_bind h
    rw [← ok.inj h]
    rfl

theorem candidate_applyMutations (h : applyMutations limits s mutations = .ok s') :
    s'.candidate = writeAll s.candidate mutations := by
  induction mutations generalizing s with
  | nil => rw [← ok.inj h]; rfl
  | cons m rest ih =>
    obtain ⟨s₁, h₁, h⟩ := of_bind h
    rw [ih h, candidate_applyMutation h₁]
    rfl

theorem eventStep_of_stageEvent (h : stageEvent R limits context s event = .ok s') :
    EventStep R context s.candidate event s'.candidate := by
  obtain ⟨hs, h⟩ := of_check h
  obtain ⟨mutations, hr, h⟩ := of_bind h
  obtain ⟨bytes, hv, h⟩ := of_bind h
  have hn := (nodup_of_validateMutationsFrom (of_check hv).2).1
  have hc := candidate_applyMutations h
  exact ⟨by simpa using hs, mutations, mapError_eq_ok.mp hr, hn, hc⟩

theorem path_of_foldlM_stageEvent (h : events.foldlM (stageEvent R limits context) s = .ok s') :
    Run.Path (EventStep R context) s.candidate events s'.candidate := by
  induction events generalizing s with
  | nil => rw [← ok.inj h]; exact .nil
  | cons event rest ih =>
    obtain ⟨s₁, h₁, h⟩ := of_bind h
    exact Run.Path.append (.snoc .nil (eventStep_of_stageEvent h₁)) (ih h)

namespace CanonicalLedger

variable {B : Blake3} {l : CanonicalLedger} {block : BlockEnvelope B}

variable (R)

def history (l : CanonicalLedger) (blocks : List (BlockEnvelope B)) :
    List CanonicalEventEnvelope :=
  (appliedBlocks R l blocks).flatMap (·.events)

/-- An event reduced in some block. -/
def Step (s : Entries) (event : CanonicalEventEnvelope) (t : Entries) : Prop :=
  ∃ context, EventStep R context s event t

variable {R}

theorem path_applyBlock (l : CanonicalLedger) (block : BlockEnvelope B) :
    Run.Path (Step R) l.state.entries (if applies R l block then block.events else [])
      (l.applyBlock R block).2.state.entries := by
  obtain ⟨e, ha, -⟩ | ⟨c, ha, -⟩ | ⟨staged, hh, ha, -, -, hr⟩ := applyBlock_cases R l block
  · rw [ha, if_neg (by simp [applies, ha])]
    exact .nil
  · rw [ha, if_neg (by simp [applies, ha])]
    exact .nil
  · rw [ha, if_pos (by simp [applies, ha])]
    obtain ⟨-, hr⟩ := of_check hr
    obtain ⟨_, hs, hr⟩ := of_bind hr
    obtain ⟨_, -, hr⟩ := of_bind hr
    obtain rfl := ok.inj hr
    exact (path_of_foldlM_stageEvent hs).mono fun _ _ _ h => ⟨_, h⟩

theorem run_append (l : CanonicalLedger) (blocks later : List (BlockEnvelope B)) :
    run R l (blocks ++ later) = run R (run R l blocks) later :=
  Run.final_append _ _ _ _

theorem run_concat (l : CanonicalLedger) (blocks : List (BlockEnvelope B))
    (block : BlockEnvelope B) :
    run R l (blocks ++ [block]) = ((run R l blocks).applyBlock R block).2 :=
  Run.final_concat _ _ _ _

theorem path_run (l : CanonicalLedger) (blocks : List (BlockEnvelope B)) :
    Run.Path (Step R) l.state.entries (history R l blocks) (run R l blocks).state.entries := by
  induction blocks using reverseRecOn with
  | nil => exact .nil
  | append_singleton blocks block ih =>
    have hlast : history R l (blocks ++ [block]) = history R l blocks ++
        if applies R (run R l blocks) block then block.events else [] := by
      rw [history, appliedBlocks, Run.effectives_concat, flatMap_append, run]
      split <;> simp [history, appliedBlocks]
    rw [hlast, run_concat]
    exact ih.append (path_applyBlock _ block)

variable {chainId : ChainId} {firstHeight : BlockHeight}

theorem tryNew_eq_ok (h : tryNew B chainId firstHeight R limits = .ok l) :
    l.limits = limits ∧ l.state.watermark = none := by
  obtain ⟨_, h⟩ := dite_else_error_eq_ok.mp h
  obtain rfl := ok.inj h
  exact ⟨rfl, rfl⟩

theorem run_history_invariant {P : List CanonicalEventEnvelope → Entries → Prop}
    (hnew : tryNew B chainId firstHeight R limits = .ok l) (hempty : P [] ∅)
    (hstep : ∀ events s event t, P events s → Step R s event t → P (events ++ [event]) t)
    (blocks : List (BlockEnvelope B)) : P (history R l blocks) (run R l blocks).state.entries := by
  have hs : P [] l.state.entries := by rwa [l.state.entries_empty (tryNew_eq_ok hnew).2]
  exact Run.Path.history_invariant hs hstep (path_run l blocks)

theorem run_related {Q : Entries → Entries → Prop} (hrefl : ∀ s, Q s s)
    (htrans : ∀ s t u, Q s t → Q t u → Q s u) (hstep : ∀ s event t, Step R s event t → Q s t)
    (blocks later : List (BlockEnvelope B)) :
    Q (run R l blocks).state.entries (run R l (blocks ++ later)).state.entries := by
  rw [run_append]
  exact Run.Path.related hrefl htrans hstep (path_run _ later)

def sampleEvidence : SourceEvidence where
  sourceId := sampleChain
  sourceVersion := sampleChain
  sourceOffset := sampleChain
  contentHash := .replicate 32 1
  sourceEventIndex := none

/-- The only event of a block, with the identity that block validation expects. -/
def sampleEvent (height : BlockHeight) (marketIds : List MarketId) (accountIds : List Address)
    (payload : EventPayload) (payload_valid : payload.validate = .ok ())
    (accounts_bound : payload.validateTradeAccountBinding accountIds = .ok ()) :
    CanonicalEventEnvelope where
  schemaVersion := "1.0.0"
  chainId := sampleChain
  blockHeight := height
  blockTime := 0
  transactionId := sampleChain
  transactionIndex := 0
  eventIndex := 0
  eventId := computeEventId sumBlake3 sampleChain height sampleChain 0 payload.kind schemaMajor
  marketIds := marketIds
  accountIds := accountIds
  sourceEvidence := [sampleEvidence]
  confirmationClass := .committedPrimary
  observedAt := 0
  ingestedAt := 0
  canonicalizedAt := 0
  payloadHash := .replicate 32 0
  parserVersion := sampleChain
  payload := payload
  encodedPayload := []
  supersededEventId := none
  evidenced := by simp
  corrects := by simp
  payload_valid := payload_valid
  accounts_bound := accounts_bound

def sampleEventBlock (height : BlockHeight) (marketIds : List MarketId)
    (accountIds : List Address) (payload : EventPayload) (payload_valid : payload.validate = .ok ())
    (accounts_bound : payload.validateTradeAccountBinding accountIds = .ok ()) :
    BlockEnvelope sumBlake3 where
  chainId := sampleChain
  blockHeight := height
  blockTime := 0
  confirmationClass := .committedPrimary
  events := [sampleEvent height marketIds accountIds payload payload_valid accounts_bound]
  sourceBlockHashes := Std.ExtTreeMap.empty.insert sampleChain (.replicate 32 1)
  sourced := by decide
  events_valid := by
    simp [validateEvents, validateEventsFrom, validateOrder, sampleEvent,
      CanonicalEventEnvelope.expectedEventId, CanonicalEventEnvelope.eventKind]

/-- An empty block at the first height, with the given time. -/
def timedBlock (blockTime : ProtocolTime) : BlockEnvelope sumBlake3 :=
  quietBlock sumBlake3 sampleChain 7 blockTime .committedPrimary

def sampleLedger : CanonicalLedger :=
  let state := StateImage.empty sampleChain 7 idleReducer.reducerSetVersion (by decide)
  ⟨.production, state, state.stateHash sumBlake3⟩

end CanonicalLedger

variable {B : Blake3}

namespace CanonicalLedger

variable {l l' : CanonicalLedger} {block : BlockEnvelope B} {chainId : ChainId}
  {firstHeight : BlockHeight} {blocks : List (BlockEnvelope B)}

/-- The image of a ledger that has applied a block. -/
def image (l : CanonicalLedger) : Option StateImage := l.state.watermark.map fun _ => l.state

/-- The states that a ledger in memory takes, one after each block. -/
def stateImages (R : EventReducer) (l : CanonicalLedger) (blocks : List (BlockEnvelope B)) :
    List StateImage :=
  Run.outputs (fun l block => ((l.applyBlock R block).2.state, (l.applyBlock R block).2)) l blocks

theorem stateImages_concat (R : EventReducer) (l : CanonicalLedger)
    (blocks : List (BlockEnvelope B)) (block : BlockEnvelope B) :
    stateImages R l (blocks ++ [block]) =
      stateImages R l blocks ++ [((run R l blocks).applyBlock R block).2.state] :=
  Run.outputs_concat ..

theorem appliedBlocks_concat_eq_iff :
    appliedBlocks R l (blocks ++ [block]) = blocks ++ [block] ↔
      appliedBlocks R l blocks = blocks ∧ applies R (run R l blocks) block = true :=
  Run.effectives_concat_eq_iff

theorem applyBlock_limits (R : EventReducer) (l : CanonicalLedger) (block : BlockEnvelope B) :
    (l.applyBlock R block).2.limits = l.limits := by
  obtain ⟨e, h, -⟩ | ⟨c, h, -⟩ | ⟨staged, hh, h, -⟩ := applyBlock_cases R l block
  · rw [h]
  · rw [h]
  · rw [h]
    rfl

theorem run_limits (R : EventReducer) (l : CanonicalLedger) (blocks : List (BlockEnvelope B)) :
    (run R l blocks).limits = l.limits :=
  Run.invariant (P := fun l' => l'.limits = l.limits) _ rfl
    (fun l' block h => (applyBlock_limits R l' block).trans h) blocks

theorem image_of_watermark (h : l.state.watermark ≠ none) : l.image = some l.state := by
  obtain ⟨w, hw⟩ := Option.ne_none_iff_exists'.mp h
  simp [image, hw]

theorem blockHeight_of_applies (h : applies R l block = true) :
    (l.applyBlock R block).2.state.blockHeight = some block.blockHeight ∧
      l.nextHeight = .ok block.blockHeight := by
  obtain ⟨e, ha, -⟩ | ⟨c, ha, -⟩ | ⟨staged, hh, ha, -, hn, -⟩ := applyBlock_cases R l block
  · simp [applies, ha] at h
  · simp [applies, ha] at h
  · rw [ha]
    exact ⟨rfl, hn⟩

theorem image_of_applies (h : applies R l block = true) :
    (l.applyBlock R block).2.image = some (l.applyBlock R block).2.state := by
  apply image_of_watermark
  intro hw
  simpa [StateImage.blockHeight, hw] using (blockHeight_of_applies h).1

theorem heights_of_applied {first : BlockHeight} (hfirst : l.nextHeight = .ok first)
    (hblocks : appliedBlocks R l blocks = blocks) :
    blocks.map (·.blockHeight.toNat) = range' first.toNat blocks.length ∧
      ∀ height, (run R l blocks).nextHeight = .ok height →
        height.toNat = first.toNat + blocks.length := by
  induction blocks using reverseRecOn with
  | nil =>
    refine ⟨rfl, ?_⟩
    intro height hheight
    have heq : first = height := ok_unique hfirst hheight
    rw [heq]
    rfl
  | append_singleton blocks block ih =>
    obtain ⟨hblocks, happlies⟩ := appliedBlocks_concat_eq_iff.mp hblocks
    obtain ⟨hheights, hnext⟩ := ih hblocks
    obtain ⟨hmarked, hb⟩ := blockHeight_of_applies happlies
    have hblock := hnext _ hb
    constructor
    · rw [map_append, hheights, length_append, length_singleton,
        range'_concat, map_singleton, hblock, Nat.one_mul]
    · intro height hheight
      rw [run_concat] at hheight
      obtain ⟨w, hw, hwh⟩ := Option.map_eq_some_iff.mp hmarked
      have hsucc := (nextHeight_eq_ok hheight).1 w hw
      rw [hwh, hblock] at hsucc
      rw [hsucc, length_append, length_singleton, Nat.add_assoc]

theorem applyBlock_state_eq (h : (l.applyBlock R block).2.state.blockHeight = l.state.blockHeight) :
    (l.applyBlock R block).2.state = l.state := by
  cases happlies : applies R l block with
  | false => rw [applyBlock_of_not_applies happlies]
  | true =>
    obtain ⟨hheight, hnext⟩ := blockHeight_of_applies happlies
    rw [hheight, StateImage.blockHeight] at h
    obtain ⟨w, hw, hwh⟩ := Option.map_eq_some_iff.mp h.symm
    have hsucc := (nextHeight_eq_ok hnext).1 w hw
    rw [hwh] at hsucc
    omega

theorem Sound.state_eq (h : l.Sound R B chainId firstHeight)
    (h' : l'.Sound R B chainId firstHeight) (himage : l.image = l'.image) :
    l.state = l'.state := by
  cases hw : l.state.watermark with
  | some w =>
    cases hw' : l'.state.watermark with
    | some w' => simpa [image, hw, hw'] using himage
    | none => simp [image, hw, hw'] at himage
  | none =>
    cases hw' : l'.state.watermark with
    | some w' => simp [image, hw, hw'] at himage
    | none =>
      ext1
      · rw [h.chain, h'.chain]
      · rw [h.first, h'.first]
      · rw [← h.version, h'.version]
      · rw [hw, hw']
      · rw [l.state.entries_empty hw, l'.state.entries_empty hw']

theorem Sound.eq_of_image_eq (h : l.Sound R B chainId firstHeight)
    (h' : l'.Sound R B chainId firstHeight) (hlimits : l.limits = l'.limits)
    (himage : l.image = l'.image) : l = l' := by
  have hstate := h.state_eq h' himage
  have hhash : l.stateHash = l'.stateHash := by rw [h.hash, h'.hash, hstate]
  cases l
  cases l'
  simp_all

theorem getLast?_stateImages (h : l.image = none) (hblocks : appliedBlocks R l blocks = blocks) :
    (stateImages R l blocks).getLast? = (run R l blocks).image := by
  rcases eq_nil_or_concat blocks with rfl | ⟨blocks, block, rfl⟩
  · exact h.symm
  · rw [concat_eq_append] at hblocks ⊢
    have happlies := (appliedBlocks_concat_eq_iff.mp hblocks).2
    rw [stateImages_concat, getLast?_concat, run_concat, image_of_applies happlies]

end CanonicalLedger

end AlphaDesk
