import AlphaDesk.Store.Recovery

/-! # Runs of the store

A run is a sequence of attempts, each of which may be cut short, with the store
opened again in between. Over every run `HEAD` names the whole image of the last
commit that moved it, and the commits that moved it form a chain.
-/

namespace AlphaDesk

open Bytes Interruptible List

variable {B : Blake3}

/-- The delta was made by a ledger in the given state; nothing else makes one. -/
def StateDelta.PreparedFrom (B : Blake3) (d : StateDelta) (before : StateImage) : Prop :=
  ∃ (R : EventReducer) (l : CanonicalLedger) (block : BlockEnvelope B) (p : PreparedBlock),
    l.state = before ∧ l.stateHash = before.stateHash B ∧
      l.prepareBlock R block = .ok (.ready p) ∧ p.delta = d

theorem StateDelta.PreparedFrom.spec {d : StateDelta} {before : StateImage}
    (h : d.PreparedFrom B before) :
    d.beforeStateHash = before.stateHash B ∧
      ∀ w ∈ before.watermark, d.checkpoint.blockHeight.toNat = w.blockHeight.toNat + 1 := by
  obtain ⟨R, l, block, p, rfl, hhash, hp, rfl⟩ := h
  rcases l.prepareBlock_cases R block with ⟨e, he⟩ | ⟨c, hc, -⟩ | ⟨staged, hh, hr, -, -, hn, -⟩
  · rw [hp] at he
    cases he
  · rw [hp] at hc
    cases hc
  · rw [hp] at hr
    obtain rfl := PrepareOutcome.ready.inj (Except.ok.inj hr)
    exact ⟨hhash, (CanonicalLedger.nextHeight_eq_ok hn).1⟩

/-- One attempt of a run: a commit, with the state it was prepared from. -/
structure StoreCall (B : Blake3) where
  before : StateImage
  commit : AtomicStateCommit B
  prepared : commit.delta.PreparedFrom B before
  env : Environment

namespace StoreCall

variable (limits : StateImageLimits) {k : StoreCall B} {r : Root}

def attempt (r : Root) (k : StoreCall B) : Attempt := AlphaDesk.commit limits k.env r k.commit

def next (r : Root) (k : StoreCall B) : Root := (k.attempt limits r).root

/-- The rename of `HEAD` took effect. -/
def movesHead (r : Root) (k : StoreCall B) : Bool :=
  decide (FileOp.publishHead ∈ (k.attempt limits r).performed)

theorem movesHead_eq_true {limits : StateImageLimits} :
    k.movesHead limits r = true ↔ .publishHead ∈ (k.attempt limits r).performed :=
  decide_eq_true_iff

theorem movesHead_eq_false {limits : StateImageLimits} :
    k.movesHead limits r = false ↔ .publishHead ∉ (k.attempt limits r).performed :=
  decide_eq_false_iff_not

/-- The store after the attempts, taken in order on a new store. -/
def run (calls : List (StoreCall B)) : Root := Run.final (next limits) .empty calls

def moved (calls : List (StoreCall B)) : List (StoreCall B) :=
  Run.effectives (next limits) (movesHead limits) .empty calls

/-- The state of the one is prepared from the state of the other, one block on. -/
def Follows (k k' : StoreCall B) : Prop :=
  k'.commit.blockHeight.toNat = k.commit.blockHeight.toNat + 1 ∧
    k'.commit.beforeStateHash = k.commit.stateImage.stateHash B

/-- No two of the images of a run share a hash. -/
def CollisionFree (calls : List (StoreCall B)) : Prop :=
  ∀ k ∈ calls, ∀ k' ∈ calls,
    k.commit.stateImage.stateHash B = k'.before.stateHash B → k.commit.stateImage = k'.before

end StoreCall

/-- `HEAD` names the image of the commit, or there is no `HEAD` and no commit. -/
def Root.HeadIs (r : Root) : Option (StoreCall B) → Prop
  | none => r.head = none
  | some k => r.Holds B k.commit.stateImage

variable {limits : StateImageLimits} {r s : Root} {last : Option (StoreCall B)} {k : StoreCall B}

theorem Root.HeadIs.extends (h : r.HeadIs last) (he : r.Extends s) : s.HeadIs last := by
  cases last with
  | none => exact he.head.trans h
  | some k =>
    exact ⟨he.head.trans h.head,
      he.directories _ (validGenerationName_generationName _) _ h.files⟩

theorem Root.HeadIs.loadHead_iff (h : r.HeadIs last) {loaded : Option StateImage} :
    loadHead limits r = .ok loaded ↔
      (∀ k ∈ last, k.commit.stateImage.Loadable limits) ∧
        loaded = last.map (·.commit.stateImage) := by
  cases last with
  | none =>
    have hload : loadHead limits r = .ok none := by
      unfold loadHead readHead
      rw [show r.head = none from h]
      rfl
    simp [hload, eq_comm]
  | some k =>
    rw [Root.Holds.loadHead_iff h]
    simp

theorem follows_of_checkCommit (h : r.HeadIs last)
    (ha : checkCommit limits r k.commit = .ok .publish)
    (hcf : ∀ p ∈ last, p.commit.stateImage.stateHash B = k.before.stateHash B →
      p.commit.stateImage = k.before) :
    ∀ p ∈ last, p.Follows k := by
  rintro p rfl
  obtain ⟨-, ⟨hl, -⟩ | ⟨existing, hl, he⟩⟩ := checkCommit_eq_ok ha
  · cases (h.loadHead_iff.mp hl).2
  · obtain rfl : existing = p.commit.stateImage :=
      Option.some.inj ((h.loadHead_iff.mp hl).2)
    obtain ⟨w, hw, hhash, -⟩ := checkExisting_eq_publish he
    obtain ⟨hbefore, hheight⟩ := k.prepared.spec
    have heq : p.commit.stateImage = k.before := hcf p rfl (hhash.trans hbefore)
    refine ⟨hheight ⟨p.commit.blockHeight, p.commit.canonicalBlockHash⟩ ?_, hhash.symm⟩
    rw [← heq, p.commit.watermark_stateImage]
    rfl

theorem StoreCall.next_cases (limits : StateImageLimits) (r : Root) (k : StoreCall B) :
    (k.movesHead limits r = false ∧ r.Extends (k.next limits r)) ∨
    (k.movesHead limits r = true ∧ (k.next limits r).Holds B k.commit.stateImage ∧
      checkCommit limits r k.commit = .ok .publish) := by
  have hsame : r.Extends r := ⟨rfl, fun _ _ _ h => h⟩
  rw [movesHead_eq_false, movesHead_eq_true, next, attempt]
  rcases commit_cases limits k.env r k.commit with
    ⟨e, -, he⟩ | ⟨-, he⟩ | ⟨ha, ⟨e, -, he⟩ | ⟨random, t, -, ht, hp⟩⟩
  · rw [he]
    exact .inl ⟨not_mem_nil, hsame⟩
  · rw [he]
    exact .inl ⟨not_mem_nil, hsame⟩
  · rw [he]
    exact .inl ⟨not_mem_nil, hsame⟩
  · rw [ht, conclude_performed]
    rcases hp with hp | hp | hp
    · exact .inl ⟨hp.not_headed, (hp.conclude _ _).1.extends⟩
    · obtain ⟨op, hend, howns, -⟩ := hp.ending
      rw [(conclude_interrupted hend howns _ _ _).1]
      exact .inl ⟨hp.not_headed, hp.publishes.extends hp.head⟩
    · rw [(hp.conclude _ _).1]
      exact .inr ⟨hp.headed, hp.holds, ha⟩

namespace StoreCall

variable {calls : List (StoreCall B)}

/-- `HEAD` names the last commit that moved it, and those commits form a chain. -/
structure Sound (limits : StateImageLimits) (calls : List (StoreCall B)) : Prop where
  head : (run limits calls).HeadIs (moved limits calls).getLast?
  chain : (moved limits calls).IsChain Follows
  moved_subset : moved limits calls ⊆ calls

theorem sound_concat {k : StoreCall B} (hcf : CollisionFree (calls ++ [k]))
    (h : Sound limits calls) :
    Sound limits (calls ++ [k]) := by
  have hrun : run limits (calls ++ [k]) = k.next limits (run limits calls) := Run.final_concat ..
  have hmoved : moved limits (calls ++ [k]) = moved limits calls ++
      if k.movesHead limits (run limits calls) then [k] else [] := Run.effectives_concat ..
  have hsub : moved limits calls ⊆ calls ++ [k] :=
    fun p hp => mem_append_left _ (h.moved_subset hp)
  rcases k.next_cases limits (run limits calls) with ⟨hm, hext⟩ | ⟨hm, hholds, ha⟩
  · simp only [hm, Bool.false_eq_true, if_false, append_nil] at hmoved
    exact ⟨by rw [hrun, hmoved]; exact h.head.extends hext, hmoved ▸ h.chain, hmoved ▸ hsub⟩
  · simp only [hm, if_true] at hmoved
    have hfollow := follows_of_checkCommit h.head ha fun p hp => by
      have hp' : p ∈ calls ++ [k] := hsub (mem_of_getLast? hp)
      exact hcf p hp' k (mem_append_right _ (mem_singleton_self k))
    refine ⟨?_, ?_, ?_⟩
    · rw [hrun, hmoved, getLast?_concat]
      exact hholds
    · rw [hmoved, isChain_append]
      exact ⟨h.chain, isChain_singleton k, by simpa using hfollow⟩
    · rw [hmoved]
      exact append_subset.mpr ⟨hsub, subset_append_right _ _⟩

theorem sound_run (hcf : CollisionFree calls) : Sound limits calls := by
  induction calls using reverseRecOn with
  | nil => exact ⟨rfl, isChain_nil, List.Subset.refl _⟩
  | append_singleton calls k ih =>
    have hcf' : CollisionFree calls := fun p hp q hq =>
      hcf p (mem_append_left _ hp) q (mem_append_left _ hq)
    exact sound_concat hcf (ih hcf')

/-- After every run, whatever cut its attempts short, the store's own limits load the image of the
last commit whose `HEAD` rename took effect, or nothing before the first one, exactly when the
decoder accepts that image under them; no limits load anything else; and the commits whose rename
took effect form a chain. -/
theorem store_run_atomic (limits : StateImageLimits) {calls : List (StoreCall B)}
    (hcf : CollisionFree calls) :
    (loadLatest limits (run limits calls) limits =
        .ok ((moved limits calls).getLast?.map (·.commit.stateImage)) ↔
      ∀ k ∈ (moved limits calls).getLast?, k.commit.stateImage.Loadable limits) ∧
    (∀ limits' loaded, loadLatest limits (run limits calls) limits' = .ok loaded →
      loaded = (moved limits calls).getLast?.map (·.commit.stateImage)) ∧
    (moved limits calls).IsChain Follows := by
  have h : Sound limits calls := sound_run hcf
  refine ⟨?_, ?_, h.chain⟩
  · rw [loadLatest_self, h.head.loadHead_iff]
    simp
  · intro limits' loaded hl
    unfold loadLatest at hl
    split at hl
    · cases hl
    · exact (h.head.loadHead_iff.mp hl).2

section Sample

open CanonicalLedger

/-- The call that commits block 8 on a ledger of so many entries. -/
def sample (n : ℕ) (env : Environment) : StoreCall sumBlake3 :=
  ⟨(sampleLedger n).state, sampleCommit n,
    ⟨idleReducer, sampleLedger n, emptyBlock 8, _, rfl, rfl, rfl, rfl⟩, env⟩

/-- The call that commits block 9 after it. -/
def sampleNext (env : Environment) : StoreCall sumBlake3 :=
  let l : CanonicalLedger :=
    ⟨.production, (sampleCommit 1).stateImage, (sampleCommit 1).stateImage.stateHash sumBlake3⟩
  ⟨l.state, .ofPrepared l (emptyBlock 9) (.start l.state.entries) (show (7 : UInt64) ≤ 9 by decide),
    ⟨idleReducer, l, emptyBlock 9, _, rfl, rfl, rfl, rfl⟩, env⟩

/-- The first call crashes after its `HEAD` rename, the second is not interrupted. -/
def sampleCalls : List (StoreCall sumBlake3) :=
  [sample 1 (drawing 0 (some ⟨18, .crash⟩)), sampleNext (drawing 1 none)]

theorem store_run_atomic_sampleCalls :
    CollisionFree sampleCalls ∧
    loadLatest oneEntry (run oneEntry sampleCalls) oneEntry =
      .ok (some (sampleNext (drawing 1 none)).commit.stateImage) := by
  have hcf : CollisionFree sampleCalls := by
    unfold CollisionFree
    decide +kernel
  have hload : (sampleNext (drawing 1 none)).commit.stateImage.Loadable oneEntry :=
    ⟨⟨by decide +kernel, by decide +kernel, by decide +kernel⟩, by decide +kernel⟩
  have hmoved : (moved oneEntry sampleCalls).getLast?.map (·.commit.stateImage) =
      some (sampleNext (drawing 1 none)).commit.stateImage := by decide +kernel
  obtain ⟨hiff, -, -⟩ := store_run_atomic oneEntry hcf
  rw [hmoved] at hiff
  refine ⟨hcf, hiff.mpr fun k hk => ?_⟩
  obtain ⟨k', hk', heq⟩ := Option.map_eq_some_iff.mp hmoved
  obtain rfl : k' = k := Option.mem_unique hk' hk
  rw [heq]
  exact hload

/-- One uninterrupted commit of an image of two entries: its `HEAD` rename took effect, yet the
store's own limits load neither nothing nor that image. -/
theorem store_run_unloadable :
    CollisionFree [sample 2 (drawing 0 none)] ∧
    (moved oneEntry [sample 2 (drawing 0 none)]).length = 1 ∧
    loadLatest oneEntry (run oneEntry [sample 2 (drawing 0 none)]) oneEntry =
      .error .resourceLimit := by
  refine ⟨?_, by decide +kernel, by decide +kernel⟩
  unfold CollisionFree
  decide +kernel

end Sample

end StoreCall

end AlphaDesk
