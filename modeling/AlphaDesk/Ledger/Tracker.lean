import Mathlib.Algebra.BigOperators.Group.Finset.Basic
import AlphaDesk.Ledger.History

/-! # What the delta tracker counts

The tracker does not look at the candidate state: a rewrite takes the size of the last value off
and puts that of the new one on. Its entries are still the keys written so far, and its bytes
the sum over them of the key, the value at the start of the block and the value now.
-/

namespace AlphaDesk

open Except List
open Bytes (utf8)

namespace BlockDeltaTracker

variable {limits : LedgerLimits} {start final : Entries} {keys : List StateKey}
  {t : BlockDeltaTracker} {m : StateMutation}

def keyBytes (start final : Entries) (k : StateKey) : ℕ :=
  (utf8 k.ns).length + k.key.length + valueBytes start[k]? + valueBytes final[k]?

/-- The bytes the keys refer to, each key once. -/
def totalBytes (start final : Entries) (keys : List StateKey) : ℕ :=
  ∑ k ∈ keys.toFinset, keyBytes start final k

/-- The last write is one too many to its key, or leaves too many keys or too many bytes. -/
def Exceeds (limits : LedgerLimits) (start final : Entries) (keys : List StateKey)
    (last : StateKey) : Prop :=
  2 ^ 32 ≤ keys.count last ∨ limits.maxBlockDeltaEntries < keys.toFinset.card ∨
    limits.maxBlockDeltaReferencedBytes < totalBytes start final keys

/-- The tracker has seen the writes to the keys that lead from the start to the final entries. -/
structure Tracks (limits : LedgerLimits) (start final : Entries) (keys : List StateKey)
    (t : BlockDeltaTracker) : Prop where
  blockStart : t.blockStart = start
  entries : ∀ k, t.entries[k]? =
    if k ∈ keys then some ⟨keys.count k, valueBytes final[k]?⟩ else none
  referenced : t.referencedBytes = totalBytes start final keys
  within : t.referencedBytes ≤ limits.maxBlockDeltaReferencedBytes
  untouched : ∀ k ∉ keys, final[k]? = start[k]?

theorem totalBytes_write : totalBytes start (m.write final) (keys ++ [m.key]) =
    (utf8 m.key.ns).length + m.key.key.length + valueBytes start[m.key]? + valueBytes m.value +
      ∑ a ∈ keys.toFinset.erase m.key, keyBytes start final a := by
  have hk : (keys ++ [m.key]).toFinset = insert m.key keys.toFinset := by ext; simp
  rw [totalBytes, hk, ← Finset.add_sum_erase _ _ (Finset.mem_insert_self m.key _),
    Finset.erase_insert_eq_erase]
  congr 1
  · rw [keyBytes, m.getElem?_write, if_pos rfl]
  · refine Finset.sum_congr rfl fun a ha => ?_
    rw [keyBytes, m.getElem?_write, if_neg (Finset.ne_of_mem_erase ha).symm, keyBytes]

namespace Tracks

variable (h : Tracks limits start final keys t)

include h

theorem size : t.entries.size = keys.toFinset.card := by
  rw [card_toFinset]
  refine Std.ExtTreeMap.size_eq_length (nodup_dedup _) fun k => ?_
  rw [mem_dedup, Std.ExtTreeMap.mem_iff_getElem?, h.entries]
  split <;> simp [*]

theorem mem_deltaEntries {e : BlockDeltaEntry} :
    e ∈ t.deltaEntries final ↔ e.key ∈ keys ∧ e.blockStartValue = start[e.key]? ∧
      e.blockFinalValue = final[e.key]? ∧ e.writeCount = keys.count e.key := by
  obtain ⟨key, before, after, count⟩ := e
  rw [deltaEntries, mem_map, h.blockStart]
  simp only [Prod.exists, Std.ExtTreeMap.mem_toList_iff_getElem?_eq_some, h.entries,
    Option.ite_none_right_eq_some, BlockDeltaEntry.mk.injEq]
  grind

theorem insert {total : ℕ} (ht : total = totalBytes start (m.write final) (keys ++ [m.key]))
    (hle : total ≤ limits.maxBlockDeltaReferencedBytes) :
    Tracks limits start (m.write final) (keys ++ [m.key]) ⟨t.blockStart,
      t.entries.insert m.key ⟨keys.count m.key + 1, valueBytes m.value⟩, total⟩ where
  blockStart := h.blockStart
  entries a := by
    rw [Std.ExtTreeMap.getElem?_insert_eq_ite, m.getElem?_write, h.entries, count_append]
    by_cases ha : a = m.key
    · simp [ha]
    · simp [ha, Ne.symm ha]
  referenced := ht
  within := hle
  untouched a ha := by
    simp only [mem_append, mem_singleton, not_or] at ha
    rw [m.getElem?_write, if_neg (Ne.symm ha.2), h.untouched a ha.1]

theorem recordWrite (hl : limits.maxBlockDeltaReferencedBytes < UInt64.size) :
    (∃ t', t.recordWrite limits m.key m.value = .ok t' ∧
      Tracks limits start (m.write final) (keys ++ [m.key]) t') ∨
    t.recordWrite limits m.key m.value = .error .mutationLimitExceeded ∧
      Exceeds limits start (m.write final) (keys ++ [m.key]) m.key := by
  have hi := h.insert (m := m) rfl
  have hb := @totalBytes_write start final keys m
  have hr := h.referenced
  unfold Exceeds
  generalize totalBytes start (m.write final) (keys ++ [m.key]) = total at *
  rw [BlockDeltaTracker.recordWrite, h.entries]
  by_cases hk : m.key ∈ keys
  · rw [totalBytes, ← Finset.add_sum_erase _ _ (mem_toFinset.mpr hk), keyBytes] at hr
    have hs : t.referencedBytes - valueBytes final[m.key]? + valueBytes m.value = total := by omega
    simp only [if_pos hk, usizeAdd, hs]
    grind
  · rw [totalBytes, ← Finset.erase_eq_of_notMem (mt mem_toFinset.mp hk)] at hr
    have hcard : (keys ++ [m.key]).toFinset.card = t.entries.size + 1 := by
      rw [h.size, ← Finset.card_insert_of_notMem (mt mem_toFinset.mp hk)]
      congr 1
      ext
      simp
    -- The partial sums are no larger than the total, so that only its overflow matters.
    have hsum : (do
        let keyBytes ← m.key.encodedLen
        let bytes ← usizeAdd t.referencedBytes keyBytes
        let bytes ← usizeAdd bytes (valueBytes t.blockStart[m.key]?)
        usizeAdd bytes (valueBytes m.value)) = usizeAdd 0 total := by
      simp only [StateKey.encodedLen, usizeAdd, h.blockStart]
      grind
    rw [count_eq_zero_of_not_mem hk] at hi
    simp only [if_neg hk, hsum]
    simp only [usizeAdd, Nat.zero_add]
    grind

end Tracks

end BlockDeltaTracker

open BlockDeltaTracker StateMutation

section

variable {limits : LedgerLimits} {start : Entries} {s s' : StagedBlock} {keys : List StateKey}
  {mutations : List StateMutation} {m : StateMutation}
  (hl : limits.maxBlockDeltaReferencedBytes < UInt64.size)

include hl

theorem tracks_applyMutation (h : Tracks limits start s.candidate keys s.tracker) :
    (∃ s', applyMutation limits s m = .ok s' ∧
      Tracks limits start s'.candidate (keys ++ [m.key]) s'.tracker) ∨
    ∃ e, applyMutation limits s m = .error e ∧ (e = .mutationLimitExceeded →
      Exceeds limits start (m.write s.candidate) (keys ++ [m.key]) m.key) := by
  have hr := h.recordWrite hl (m := m)
  fun_cases applyMutation limits s m with
  | case2 => exact .inr ⟨_, rfl, LedgerError.noConfusion⟩
  | _ =>
    rcases hr with ⟨t', ht, htracks⟩ | ⟨hr, hover⟩
    · exact .inl ⟨_, bind_eq_ok.mpr ⟨t', ht, rfl⟩, htracks⟩
    · exact .inr ⟨_, congrArg (Except.bind · _) hr, fun _ => hover⟩

theorem tracks_applyMutations (h : Tracks limits start s.candidate keys s.tracker)
    (hrun : applyMutations limits s mutations = .ok s') :
    Tracks limits start s'.candidate (keys ++ mutations.map key) s'.tracker := by
  induction mutations generalizing s keys with
  | nil =>
    rw [← ok.inj hrun, map_nil, append_nil]
    exact h
  | cons m rest ih =>
    obtain ⟨s₁, hm, hrun⟩ := of_bind hrun
    rcases tracks_applyMutation hl h with ⟨s', hs', hstep⟩ | ⟨e, he, -⟩
    · cases hm.symm.trans hs'
      rw [map_cons, append_cons]
      exact ih hstep hrun
    · cases hm.symm.trans he

/-- The tracker is exact after every sequence of accepted mutations, and refuses the next one for
its size only when a limit would be exceeded. -/
theorem applyMutations_tracker (h : applyMutations limits (.start start) mutations = .ok s) :
    (∀ e, e ∈ s.tracker.deltaEntries s.candidate ↔ e.key ∈ mutations.map key ∧
      e.blockStartValue = start[e.key]? ∧ e.blockFinalValue = s.candidate[e.key]? ∧
      e.writeCount = (mutations.map key).count e.key) ∧
    ((s.tracker.deltaEntries s.candidate).map (·.key)).Nodup ∧
    s.tracker.referencedBytes = totalBytes start s.candidate (mutations.map key) ∧
    s.tracker.referencedBytes ≤ limits.maxBlockDeltaReferencedBytes ∧
    (∀ k ∉ mutations.map key, s.candidate[k]? = start[k]?) ∧
    ∀ m, applyMutation limits s m = .error .mutationLimitExceeded →
      Exceeds limits start (m.write s.candidate) (mutations.map key ++ [m.key]) m.key := by
  have ht := @tracks_applyMutations limits start _ _ [] mutations hl
    ⟨rfl, fun _ => by simp [StagedBlock.start, new], rfl, Nat.zero_le _, fun _ _ => rfl⟩ h
  rw [nil_append] at ht
  refine ⟨fun e => ht.mem_deltaEntries, ?_, ht.referenced, ht.within, ht.untouched, ?_⟩
  · have hk := Std.ExtTreeMap.nodup_keys (t := s.tracker.entries)
    rw [← Std.ExtTreeMap.map_fst_toList_eq_keys] at hk
    rw [deltaEntries, map_map]
    exact hk
  · intro m hm
    rcases tracks_applyMutation hl ht (m := m) with ⟨s', hs', -⟩ | ⟨e, he, hover⟩
    · cases hm.symm.trans hs'
    · exact hover (error.inj (he.symm.trans hm))

end

def sampleStateKey : StateKey where
  ns := "tracked"
  key := [7]
  namespace_valid := by decide
  key_valid := by decide

theorem applyMutations_tracker_rewrite : ∃ s, applyMutations .production (.start ∅)
    [.put sampleStateKey [2, 3], .delete sampleStateKey, .put sampleStateKey [5]] = .ok s ∧
      s.tracker.referencedBytes = 9 := by
  have h : applyMutations .production (.start ∅) [.put sampleStateKey [2, 3],
    .delete sampleStateKey, .put sampleStateKey [5]] = .ok _ := rfl
  exact ⟨_, h, (applyMutations_tracker (by decide) h).2.2.1.trans rfl⟩

end AlphaDesk
