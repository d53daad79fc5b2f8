import AlphaDesk.Ledger.History

/-! # Deltas as a log

A delta records what each of its mutations replaced, so that it can be replayed on
the entries before the block and taken back from those behind it. Blocks may be
prepared ahead and committed in any order; the ones that are accepted form one chain
of state hashes.
-/

namespace AlphaDesk

open Except List

/-- The entry of a key as it is to be, or none. -/
def setEntry (entries : Entries) (key : StateKey) : Option (List UInt8) → Entries
  | some value => entries.insert key value
  | none => entries.erase key

def AppliedMutation.redo (entries : Entries) (m : AppliedMutation) : Entries :=
  setEntry entries m.key m.current

def AppliedMutation.undo (entries : Entries) (m : AppliedMutation) : Entries :=
  setEntry entries m.key m.previous

def redoAll (entries : Entries) (mutations : List AppliedMutation) : Entries :=
  mutations.foldl AppliedMutation.redo entries

def undoAll (entries : Entries) (mutations : List AppliedMutation) : Entries :=
  mutations.foldl AppliedMutation.undo entries

/-- The mutations lead from the entries before to those after, each with the value that it found,
and back again. -/
structure FaithfulLog (before : Entries) (mutations : List AppliedMutation) (after : Entries) :
    Prop where
  previous : Run.Along (fun earlier m => m.previous = (redoAll before earlier)[m.key]?) mutations
  redo : redoAll before mutations = after
  undo : undoAll after mutations.reverse = before

variable {before entries after : Entries} {m : AppliedMutation} {mutations : List AppliedMutation}
  {key k : StateKey} {value : Option (List UInt8)}

theorem getElem?_setEntry :
    (setEntry entries key value)[k]? = if key = k then value else entries[k]? := by
  cases value with
  | some value => exact StateMutation.getElem?_write (m := .put key value)
  | none => exact StateMutation.getElem?_write (m := .delete key)

theorem undo_redo (h : m.previous = entries[m.key]?) : m.undo (m.redo entries) = entries := by
  apply Std.ExtTreeMap.ext_getElem?
  intro k
  rw [AppliedMutation.undo, AppliedMutation.redo, getElem?_setEntry, getElem?_setEntry]
  split
  next hk => rw [h, hk]
  next => rfl

theorem redoAll_append (entries : Entries) (mutations later : List AppliedMutation) :
    redoAll entries (mutations ++ later) = redoAll (redoAll entries mutations) later :=
  foldl_append

theorem faithfulLog_nil (entries : Entries) : FaithfulLog entries [] entries :=
  ⟨Run.along_nil, rfl, rfl⟩

theorem FaithfulLog.concat (h : FaithfulLog before mutations entries)
    (hm : m.previous = entries[m.key]?) :
    FaithfulLog before (mutations ++ [m]) (m.redo entries) where
  previous := by
    rw [Run.along_concat, h.redo]
    exact ⟨h.previous, hm⟩
  redo := by
    rw [redoAll_append, h.redo]
    rfl
  undo := by
    rw [reverse_append, reverse_singleton, singleton_append, undoAll,
      foldl_cons, undo_redo hm]
    exact h.undo

variable {R : EventReducer} {limits : LedgerLimits} {context : ApplyContext} {s s' : StagedBlock}

theorem FaithfulLog.applyMutation (h : FaithfulLog before s.applied s.candidate)
    {m : StateMutation} (hm : applyMutation limits s m = .ok s') :
    FaithfulLog before s'.applied s'.candidate := by
  revert hm
  fun_cases AlphaDesk.applyMutation limits s m with
  | case1 key value =>
    intro hm
    obtain ⟨tracker, -, hm⟩ := of_bind hm
    obtain rfl := ok.inj hm
    exact h.concat (m := ⟨key, s.candidate[key]?, some value⟩) rfl
  | case2 => rintro ⟨⟩
  | case3 key previous hprevious =>
    intro hm
    obtain ⟨tracker, -, hm⟩ := of_bind hm
    obtain rfl := ok.inj hm
    exact h.concat (m := ⟨key, some previous, none⟩) hprevious.symm

theorem FaithfulLog.stageEvent (h : FaithfulLog before s.applied s.candidate)
    {event : CanonicalEventEnvelope} (hs : stageEvent R limits context s event = .ok s') :
    FaithfulLog before s'.applied s'.candidate := by
  obtain ⟨-, hs⟩ := of_check hs
  obtain ⟨mutations, -, hs⟩ := of_bind hs
  obtain ⟨bytes, -, hs⟩ := of_bind hs
  exact foldlM_invariant (fun s => FaithfulLog before s.applied s.candidate)
    (fun _ _ _ _ h hm => h.applyMutation hm) h hs

namespace CanonicalLedger

variable {B : Blake3} {l : CanonicalLedger} {block : BlockEnvelope B}

theorem faithfulLog_of_ready {p : PreparedBlock} (h : l.prepareBlock R block = .ok (.ready p)) :
    FaithfulLog l.state.entries p.delta.mutations p.nextState.entries ∧
      p.delta.beforeStateHash = l.stateHash ∧
      p.delta.afterStateHash = p.nextState.stateHash B := by
  obtain ⟨e, hp⟩ | ⟨c, hp, -⟩ | ⟨staged, hh, hp, -, -, -, hs⟩ := prepareBlock_cases R l block
  · cases hp.symm.trans h
  · cases hp.symm.trans h
  · obtain rfl : l.prepared block staged hh = p := by simpa [hp] using h
    obtain ⟨-, hs⟩ := of_check hs
    obtain ⟨staged', hstaged, hs⟩ := of_bind hs
    obtain ⟨_, -, hs⟩ := of_bind hs
    obtain rfl := ok.inj hs
    exact ⟨foldlM_invariant (fun s => FaithfulLog l.state.entries s.applied s.candidate)
      (fun _ _ _ _ h hs => h.stageEvent hs) (faithfulLog_nil _) hstaged, rfl, rfl⟩

end CanonicalLedger

/-- What is done with a ledger whose blocks are prepared ahead. -/
inductive LedgerCall (B : Blake3)
  | prepare (block : BlockEnvelope B)
  | commit (index : ℕ)
  | discard (index : ℕ)

/-- A prepared block that is neither committed nor dropped, with the ledger it was made on. -/
structure OutstandingBlock where
  made : CanonicalLedger
  prepared : PreparedBlock

/-- The ledger with the prepared blocks, the deltas it has committed and the states it has had. -/
structure PreparingLedger where
  ledger : CanonicalLedger
  outstanding : List OutstandingBlock
  committed : List StateDelta
  states : List StateImage

namespace PreparingLedger

def start (l : CanonicalLedger) : PreparingLedger := ⟨l, [], [], [l.state]⟩

variable {B : Blake3} (R : EventReducer)

def step (s : PreparingLedger) : LedgerCall B → PreparingLedger
  | .prepare block =>
    match s.ledger.prepareBlock R block with
    | .ok (.ready p) => { s with outstanding := s.outstanding ++ [⟨s.ledger, p⟩] }
    | _ => s
  | .commit index =>
    match s.outstanding[index]? with
    | none => s
    | some o =>
      let reply := s.ledger.commitPrepared o.prepared
      { ledger := reply.2
        outstanding := s.outstanding.eraseIdx index
        committed := s.committed ++ reply.1.toOption.toList
        states := s.states ++ [reply.2.state] }
  | .discard index => { s with outstanding := s.outstanding.eraseIdx index }

end PreparingLedger

/-- Each delta starts at the hash at which the one before it ended. -/
def Chained (start : Hash32) : List StateDelta → Hash32 → Prop
  | [], stop => start = stop
  | d :: deltas, stop => d.beforeStateHash = start ∧ Chained d.afterStateHash deltas stop

theorem Chained.concat {start stop : Hash32} {deltas : List StateDelta} {d : StateDelta}
    (h : Chained start deltas stop) (hd : d.beforeStateHash = stop) :
    Chained start (deltas ++ [d]) d.afterStateHash := by
  induction deltas generalizing start with
  | nil => exact ⟨hd.trans (Eq.symm h), rfl⟩
  | cons d' deltas ih => exact ⟨h.1, ih h.2⟩

/-- Distinct images among the given ones have distinct hashes. -/
def DistinctHashes (B : Blake3) (states : List StateImage) : Prop :=
  ∀ s ∈ states, ∀ t ∈ states, s.stateHash B = t.stateHash B → s = t

namespace PreparingLedger

variable {B : Blake3} {l : CanonicalLedger} {s : PreparingLedger}

/-- An outstanding block against the states the ledger has had. -/
structure Outstanding (B : Blake3) (states : List StateImage) (o : OutstandingBlock) : Prop where
  hash : o.made.stateHash = o.made.state.stateHash B
  seen : o.made.state ∈ states
  log : FaithfulLog o.made.state.entries o.prepared.delta.mutations o.prepared.nextState.entries
  before : o.prepared.delta.beforeStateHash = o.made.stateHash
  after : o.prepared.delta.afterStateHash = o.prepared.nextState.stateHash B

structure Consistent (B : Blake3) (l : CanonicalLedger) (s : PreparingLedger) : Prop where
  hash : s.ledger.stateHash = s.ledger.state.stateHash B
  current : s.ledger.state ∈ s.states
  outstanding : ∀ o ∈ s.outstanding, Outstanding B s.states o
  chained : Chained l.stateHash s.committed s.ledger.stateHash
  replayed : DistinctHashes B s.states →
    redoAll l.state.entries (s.committed.flatMap StateDelta.mutations) = s.ledger.state.entries

theorem Outstanding.mono {states later : List StateImage} {o : OutstandingBlock}
    (h : Outstanding B states o) (hsub : states ⊆ later) : Outstanding B later o :=
  { h with seen := hsub h.seen }

theorem commitPrepared_cases (l : CanonicalLedger) (p : PreparedBlock) :
    (l.stateHash ≠ p.delta.beforeStateHash ∧
      l.commitPrepared p = (.error .preparedStateDrift, l)) ∨
    (l.stateHash = p.delta.beforeStateHash ∧ l.commitPrepared p = (.ok p.delta, l.advance p)) := by
  by_cases h : l.stateHash = p.delta.beforeStateHash
  · exact .inr ⟨h, if_neg (not_not.mpr h)⟩
  · exact .inl ⟨h, if_pos h⟩

theorem consistent_start (h : l.stateHash = l.state.stateHash B) : Consistent B l (start l) where
  hash := h
  current := mem_singleton_self _
  outstanding := by simp [start]
  chained := rfl
  replayed _ := rfl

theorem Consistent.commit (hs : Consistent B l s) {o : OutstandingBlock}
    (ho : Outstanding B s.states o) (hhash : s.ledger.stateHash = o.prepared.delta.beforeStateHash)
    {rest : List OutstandingBlock} (hrest : ∀ o ∈ rest, o ∈ s.outstanding) :
    Consistent B l
      { ledger := s.ledger.advance o.prepared
        outstanding := rest
        committed := s.committed ++ [o.prepared.delta]
        states := s.states ++ [o.prepared.nextState] } where
  hash := ho.after
  current := mem_append_right _ (mem_singleton_self _)
  outstanding o' ho' := (hs.outstanding o' (hrest o' ho')).mono (subset_append_left _ _)
  chained := hs.chained.concat hhash.symm
  replayed hinj := by
    have hinj' : DistinctHashes B s.states := fun s hs t ht =>
      hinj s (mem_append_left _ hs) t (mem_append_left _ ht)
    -- the hash on which the block was prepared is that of the current state
    have hmade : o.made.state = s.ledger.state := by
      apply hinj' _ ho.seen _ hs.current
      rw [← ho.hash, ← ho.before, ← hhash, hs.hash]
    rw [flatMap_append, redoAll_append, hs.replayed hinj', ← hmade, flatMap_singleton]
    exact ho.log.redo

theorem Consistent.step (hs : Consistent B l s) (call : LedgerCall B) :
    Consistent B l (s.step R call) := by
  cases call with
  | prepare block =>
    dsimp only [PreparingLedger.step]
    split
    next p hp =>
      obtain ⟨hlog, hbefore, hafter⟩ := CanonicalLedger.faithfulLog_of_ready hp
      refine { hs with outstanding := ?_ }
      intro o ho
      rcases mem_append.mp ho with ho | ho
      · exact hs.outstanding o ho
      · rw [mem_singleton.mp ho]
        exact ⟨hs.hash, hs.current, hlog, hbefore, hafter⟩
    next => exact hs
  | commit index =>
    dsimp only [PreparingLedger.step]
    split
    next => exact hs
    next o ho =>
      have hmem := mem_of_getElem? ho
      have hrest : ∀ o ∈ s.outstanding.eraseIdx index, o ∈ s.outstanding :=
        fun _ h => mem_of_mem_eraseIdx h
      obtain ⟨hhash, hc⟩ | ⟨hhash, hc⟩ := commitPrepared_cases s.ledger o.prepared
      · rw [hc]
        refine ⟨hs.hash, mem_append_left _ hs.current, ?_, ?_, ?_⟩
        · intro o' ho'
          exact (hs.outstanding o' (hrest o' ho')).mono (subset_append_left _ _)
        · simpa [Except.toOption] using hs.chained
        · intro hinj
          simpa [Except.toOption] using hs.replayed fun s hs t ht =>
            hinj s (mem_append_left _ hs) t (mem_append_left _ ht)
      · rw [hc]
        exact hs.commit (hs.outstanding o hmem) hhash hrest
  | discard index =>
    exact { hs with outstanding := fun o ho => hs.outstanding o (mem_of_mem_eraseIdx ho) }

/-- Every delta is a log of what it replaced, and over any run of prepared blocks the committed
deltas form one chain. A block prepared on another state than the current one is refused, and
the committed deltas replay the run. -/
theorem delta_log (R : EventReducer) :
    (∀ (l : CanonicalLedger) (block : BlockEnvelope B) (p : PreparedBlock),
      l.prepareBlock R block = .ok (.ready p) →
      FaithfulLog l.state.entries p.delta.mutations p.nextState.entries) ∧
    ∀ (l : CanonicalLedger) (calls : List (LedgerCall B)), l.stateHash = l.state.stateHash B →
      let s := Run.final (PreparingLedger.step R) (start l) calls
      Chained l.stateHash s.committed s.ledger.stateHash ∧
      (∀ o ∈ s.outstanding, o.made.stateHash ≠ s.ledger.stateHash →
        s.ledger.commitPrepared o.prepared = (.error .preparedStateDrift, s.ledger)) ∧
      (DistinctHashes B s.states →
        (∀ o ∈ s.outstanding, o.made.state ≠ s.ledger.state →
          s.ledger.commitPrepared o.prepared = (.error .preparedStateDrift, s.ledger)) ∧
        redoAll l.state.entries (s.committed.flatMap StateDelta.mutations) =
          s.ledger.state.entries) := by
  refine ⟨fun l block p h => (CanonicalLedger.faithfulLog_of_ready h).1, ?_⟩
  intro l calls hl s
  have hs : Consistent B l s :=
    Run.invariant _ (consistent_start hl) (fun _ call h => h.step call) calls
  have hrefused : ∀ o ∈ s.outstanding, o.made.stateHash ≠ s.ledger.stateHash →
      s.ledger.commitPrepared o.prepared = (.error .preparedStateDrift, s.ledger) := by
    intro o ho hne
    obtain ⟨-, hc⟩ | ⟨hhash, -⟩ := commitPrepared_cases s.ledger o.prepared
    · exact hc
    · exact absurd (hhash.trans (hs.outstanding o ho).before).symm hne
  refine ⟨hs.chained, hrefused, fun hinj => ⟨?_, hs.replayed hinj⟩⟩
  intro o ho hne
  apply hrefused o ho
  intro hhash
  apply hne
  apply hinj _ (hs.outstanding o ho).seen _ hs.current
  rw [← (hs.outstanding o ho).hash, hhash, hs.hash]

section Sample

open CanonicalLedger

/-- Two blocks prepared on one ledger, of which the first is committed. -/
def sampleCalls : List (LedgerCall sumBlake3) :=
  [.prepare (timedBlock 0), .prepare (timedBlock 1), .commit 0]

theorem delta_log_sampleCalls :
    let s := Run.final (PreparingLedger.step idleReducer) (start sampleLedger) sampleCalls
    s.committed.length = 1 ∧ s.outstanding.length = 1 ∧
      ∀ o ∈ s.outstanding,
        s.ledger.commitPrepared o.prepared = (.error .preparedStateDrift, s.ledger) := by
  intro s
  have hmade : ∀ o ∈ s.outstanding, o.made.stateHash ≠ s.ledger.stateHash := by decide +kernel
  have h := ((delta_log idleReducer).2 sampleLedger sampleCalls rfl).2.1
  exact ⟨by decide +kernel, by decide +kernel, fun o ho => h o ho (hmade o ho)⟩

end Sample

end PreparingLedger

end AlphaDesk
