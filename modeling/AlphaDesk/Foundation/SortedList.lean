import Mathlib.Data.List.Sort
import Mathlib.Data.List.Destutter
import Mathlib.Tactic

/-! # Sorted lists without repetition

Sorting a list and dropping the repetitions that this brings together leaves the
one strictly increasing list with the same members. Two lists with the same
members are sorted to the same list.
-/

namespace SortedList

section Keys

variable {α γ : Type} {cmp : α → α → Ordering} [Std.TransCmp cmp] {f : γ → α} {l l' : List γ}
  (h : l.Pairwise fun a b => cmp (f a) (f b) = .lt)

include h

theorem nodup_of_increasing : l.Nodup := by
  refine h.imp ?_
  rintro a b hab rfl
  exact Std.OrientedCmp.not_lt_of_lt hab hab

/-- A list in strictly increasing order of a key is determined by its members. -/
theorem eq_of_increasing (h' : l'.Pairwise fun a b => cmp (f a) (f b) = .lt)
    (hm : ∀ a, a ∈ l ↔ a ∈ l') : l = l' := by
  have hp : l.Perm l' :=
    (List.perm_ext_iff_of_nodup (nodup_of_increasing h) (nodup_of_increasing h')).mpr hm
  refine hp.eq_of_pairwise ?_ h h'
  intro a b _ _ hab hba
  exact absurd hba (Std.OrientedCmp.not_lt_of_lt hab)

end Keys

variable {α : Type} [Ord α] [DecidableEq α]

/-- Sort by the order of the type, then drop every element equal to the one before. -/
def sortDedup (l : List α) : List α :=
  (l.insertionSort fun a b => (compare a b).isLE = true).destutter (· ≠ ·)

def Increasing (l : List α) : Prop := l.Pairwise fun a b => compare a b = .lt

section Members

omit [Ord α]

theorem mem_destutter'_iff {a b : α} {l : List α} :
    a ∈ l.destutter' (· ≠ ·) b ↔ a = b ∨ a ∈ l := by
  induction l generalizing b with
  | nil => simp
  | cons c l ih =>
    rw [List.destutter']
    split
    next => rw [List.mem_cons, ih, List.mem_cons]
    next hbc =>
      obtain rfl : b = c := not_not.mp hbc
      rw [ih, List.mem_cons]
      tauto

theorem mem_destutter_iff {a : α} {l : List α} : a ∈ l.destutter (· ≠ ·) ↔ a ∈ l := by
  cases l with
  | nil => simp
  | cons b l => rw [List.destutter, mem_destutter'_iff, List.mem_cons]

end Members

theorem mem_sortDedup_iff {a : α} {l : List α} : a ∈ sortDedup l ↔ a ∈ l := by
  rw [sortDedup, mem_destutter_iff]
  exact (List.perm_insertionSort _ l).mem_iff

variable [Std.TransOrd α] [Std.LawfulEqOrd α]

theorem increasing_sortDedup (l : List α) : Increasing (sortDedup l) := by
  have : Std.Total fun a b : α => (compare a b).isLE = true :=
    ⟨fun a b => by
      rcases h : compare a b with _ | _ | _
      · exact .inl rfl
      · exact .inl rfl
      · exact .inr (by rw [Std.OrientedOrd.eq_swap, h]; rfl)⟩
  have : IsTrans α fun a b : α => (compare a b).isLE = true :=
    ⟨fun _ _ _ => Std.TransOrd.isLE_trans⟩
  -- neighbours differ after the repetitions are dropped, and the whole list is sorted
  have hne : (sortDedup l).IsChain (· ≠ ·) := List.isChain_destutter _ _
  have hle : (sortDedup l).Pairwise fun a b => (compare a b).isLE = true :=
    (List.pairwise_insertionSort _ l).sublist (List.destutter_sublist _ _)
  have hlt : (sortDedup l).IsChain fun a b => compare a b = .lt := by
    rw [List.isChain_iff_getElem] at hne ⊢
    intro i hi
    have h := List.pairwise_iff_getElem.mp hle i (i + 1) (by omega) hi (by omega)
    rcases hc : compare (sortDedup l)[i] (sortDedup l)[i + 1] with _ | _ | _
    · rfl
    · exact absurd (Std.LawfulEqOrd.eq_of_compare hc) (hne i hi)
    · rw [hc] at h
      cases h
  have : IsTrans α fun a b : α => compare a b = .lt := ⟨fun _ _ _ => Std.TransCmp.lt_trans⟩
  exact List.isChain_iff_pairwise.mp hlt

omit [DecidableEq α] [Std.LawfulEqOrd α] in
theorem Increasing.eq_of_mem_iff {l l' : List α} (h : Increasing l) (h' : Increasing l')
    (hm : ∀ a, a ∈ l ↔ a ∈ l') : l = l' :=
  eq_of_increasing (f := id) h h' hm

end SortedList
