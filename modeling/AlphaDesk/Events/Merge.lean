import AlphaDesk.Events.Block

/-! # Merging evidence

Reports of one event are merged into one that carries the evidence of all. On evidence
in order and without conflict this is a partial join: neither the order nor the
grouping of the reports matters, not even for whether they can be merged.
-/

namespace AlphaDesk

open SortedList Except

namespace CanonicalEventEnvelope

/-- No two pieces of evidence are about one place and differ. -/
def Agrees (l l' : List SourceEvidence) : Prop := ∀ x ∈ l, ∀ y ∈ l', x.conflicts y = false

/-- An event with its evidence in strictly increasing order and without conflict. -/
abbrev Evidenced := { a : CanonicalEventEnvelope //
  Increasing a.sourceEvidence ∧ Agrees a.sourceEvidence a.sourceEvidence }

def evidenceOf (r : Except EvidenceMergeError CanonicalEventEnvelope) :
    Option (List SourceEvidence) :=
  r.toOption.map (·.sourceEvidence)

variable {a b c : CanonicalEventEnvelope} {l l' l'' : List SourceEvidence}
  {r : Except EvidenceMergeError CanonicalEventEnvelope}

theorem evidenceOf_eq_some : evidenceOf r = some l ↔ ∃ m, r = .ok m ∧ m.sourceEvidence = l := by
  cases r <;> simp [evidenceOf, Except.toOption]

theorem Agrees.symm (h : Agrees l l') : Agrees l' l := by
  intro x hx y hy
  have hyx := h y hy x hx
  simp only [SourceEvidence.conflicts, SourceEvidence.sameEvidenceLocator] at hyx ⊢
  grind

theorem agrees_sortDedup :
    Agrees (sortDedup (l ++ l')) l'' ↔ Agrees l l'' ∧ Agrees l' l'' := by
  simp only [Agrees, mem_sortDedup_iff]
  exact List.forall_mem_append

theorem sortDedup_congr (h : ∀ x, x ∈ l ↔ x ∈ l') : sortDedup l = sortDedup l' :=
  (increasing_sortDedup l).eq_of_mem_iff (increasing_sortDedup l') fun x => by
    rw [mem_sortDedup_iff, mem_sortDedup_iff, h]

theorem evidenceOf_merge_comm : evidenceOf (a.mergeMatchingSourceEvidence b) =
    evidenceOf (b.mergeMatchingSourceEvidence a) := by
  have hsub : ∀ a b l, evidenceOf (mergeMatchingSourceEvidence a b) = some l →
      evidenceOf (mergeMatchingSourceEvidence b a) = some l := by
    intro a b l
    simp only [evidenceOf_eq_some, mergeMatchingSourceEvidence_eq_ok_iff]
    rintro ⟨_, ⟨hc, hn, rfl⟩, rfl⟩
    exact ⟨_, ⟨hc.symm, Agrees.symm hn, rfl⟩, sortDedup_congr fun x => by simp [or_comm]⟩
  exact Option.ext fun l => ⟨hsub a b l, hsub b a l⟩

theorem evidenceOf_merge_assoc :
    evidenceOf (a.mergeMatchingSourceEvidence b >>= (·.mergeMatchingSourceEvidence c)) =
      evidenceOf (b.mergeMatchingSourceEvidence c >>= a.mergeMatchingSourceEvidence) := by
  have hsame : sortDedup (sortDedup (a.sourceEvidence ++ b.sourceEvidence) ++ c.sourceEvidence) =
      sortDedup (a.sourceEvidence ++ sortDedup (b.sourceEvidence ++ c.sourceEvidence)) :=
    sortDedup_congr fun x => by simp [mem_sortDedup_iff, or_assoc]
  ext l
  simp only [evidenceOf_eq_some, bind_eq_ok, mergeMatchingSourceEvidence_eq_ok_iff]
  constructor
  · rintro ⟨_, ⟨_, ⟨hab, hn, rfl⟩, hac, hn', rfl⟩, rfl⟩
    obtain ⟨hac', hbc⟩ := agrees_sortDedup.mp hn'
    exact ⟨_, ⟨_, ⟨hab.symm.trans hac, hbc, rfl⟩, hab,
      (agrees_sortDedup.mpr ⟨Agrees.symm hn, hac'.symm⟩).symm, rfl⟩, hsame.symm⟩
  · rintro ⟨_, ⟨_, ⟨hbc, hn, rfl⟩, hab, hn', rfl⟩, rfl⟩
    obtain ⟨hba, hca⟩ := agrees_sortDedup.mp (Agrees.symm hn')
    exact ⟨_, ⟨_, ⟨hab, hba.symm, rfl⟩, hab.trans hbc,
      agrees_sortDedup.mpr ⟨hca.symm, hn⟩, rfl⟩, hsame⟩

/-- Reports merge exactly when they have one content and no conflict, into one with the evidence
of both. For the evidence the merge is commutative, associative and idempotent, failures
included. -/
theorem merge_partial_semilattice (a b c : Evidenced) :
    ((∃ m, a.1.mergeMatchingSourceEvidence b = .ok m) ↔
      a.1.hasSameCanonicalContent b = true ∧ Agrees a.1.sourceEvidence b.1.sourceEvidence) ∧
    (∀ m, a.1.mergeMatchingSourceEvidence b = .ok m → m.content = a.1.content ∧
      (Increasing m.sourceEvidence ∧ Agrees m.sourceEvidence m.sourceEvidence) ∧
      ∀ e, e ∈ m.sourceEvidence ↔ e ∈ a.1.sourceEvidence ∨ e ∈ b.1.sourceEvidence) ∧
    evidenceOf (a.1.mergeMatchingSourceEvidence b) =
      evidenceOf (b.1.mergeMatchingSourceEvidence a) ∧
    evidenceOf (a.1.mergeMatchingSourceEvidence b >>= (·.mergeMatchingSourceEvidence c)) =
      evidenceOf (b.1.mergeMatchingSourceEvidence c >>= a.1.mergeMatchingSourceEvidence) ∧
    evidenceOf (a.1.mergeMatchingSourceEvidence a) = some a.1.sourceEvidence := by
  obtain ⟨a, hsorted, ha⟩ := a
  obtain ⟨b, -, hb⟩ := b
  refine ⟨?_, ?_, evidenceOf_merge_comm, evidenceOf_merge_assoc, ?_⟩
  · rw [hasSameCanonicalContent_iff]
    simp only [mergeMatchingSourceEvidence_eq_ok_iff, exists_and_left, exists_eq, and_true]
    rfl
  · intro m hm
    obtain ⟨-, hn, rfl⟩ := mergeMatchingSourceEvidence_eq_ok_iff.mp hm
    refine ⟨rfl, ⟨increasing_sortDedup _, ?_⟩, fun e => mem_sortDedup_iff.trans List.mem_append⟩
    have hfrom : Agrees a.sourceEvidence _ := (agrees_sortDedup.mpr ⟨ha, Agrees.symm hn⟩).symm
    exact agrees_sortDedup.mpr ⟨hfrom, (agrees_sortDedup.mpr ⟨hn, hb⟩).symm⟩
  · refine evidenceOf_eq_some.mpr
      ⟨_, mergeMatchingSourceEvidence_eq_ok_iff.mpr ⟨rfl, ha, rfl⟩, ?_⟩
    refine (increasing_sortDedup _).eq_of_mem_iff hsorted fun e => ?_
    simp [mem_sortDedup_iff]

end CanonicalEventEnvelope

end AlphaDesk
