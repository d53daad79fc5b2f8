import Mathlib.Data.List.Basic
import Mathlib.Logic.Function.Basic
import Mathlib.Tactic
import Std.Data.ExtTreeMap
import AlphaDesk.Foundation.SortedList

/-! # Ordered maps

Facts about finite maps kept in key order that the library leaves out. An ordered map
may store values under a key computed from each value, as a priority queue does. When
the key determines the identity of its value, such a map stands for a partial function
from identities to values.
-/

namespace Std.ExtTreeMap

open SortedList

variable {α β : Type} {cmp : α → α → Ordering} [TransCmp cmp] {f : α → ℕ}

@[simp] theorem toList_empty : (∅ : ExtTreeMap α β cmp).toList = [] := toList_eq_nil_iff.mpr rfl

/-- Replace the value of a present key. The entry keeps the key it is stored under,
which may differ from the given one where the order identifies distinct keys. -/
def setValue (t : ExtTreeMap α β cmp) (k : α) (v : β) : ExtTreeMap α β cmp :=
  match t.getKey? k with
  | some stored => t.insert stored v
  | none => t

variable {t m : ExtTreeMap α β cmp} {k a : α} {v b : β}

theorem cmp_of_getKey?_eq_some {stored : α} (h : t.getKey? k = some stored) :
    cmp stored k = .eq := by
  simpa [h] using t.compare_getKey?_self (k := k)

theorem getKey?_eq_some_of_mem (h : k ∈ t) : ∃ stored, t.getKey? k = some stored :=
  ⟨_, getKey?_eq_some_getKey h⟩

theorem getElem?_setValue (h : k ∈ t) (a : α) :
    (t.setValue k v)[a]? = if cmp k a = .eq then some v else t[a]? := by
  obtain ⟨stored, hs⟩ := getKey?_eq_some_of_mem h
  have hc := cmp_of_getKey?_eq_some hs
  rw [setValue, hs, getElem?_insert, TransCmp.congr_left hc]

theorem getKey?_setValue (a : α) : (t.setValue k v).getKey? a = t.getKey? a := by
  unfold setValue
  split
  next stored hs =>
    rw [getKey?_insert]
    split
    next ha =>
      -- both are the one stored key that the order identifies with `a`
      have hk : cmp k a = .eq := by rwa [← TransCmp.congr_left (cmp_of_getKey?_eq_some hs)]
      rw [← getKey?_congr hk, hs]
    next => rfl
  next => rfl

theorem size_setValue : (t.setValue k v).size = t.size := by
  unfold setValue
  split
  next stored hs =>
    have hm : stored ∈ t := (mem_congr (cmp_of_getKey?_eq_some hs)).mpr
      (mem_iff_isSome_getKey?.mpr (by simp [hs]))
    rw [size_insert, if_pos (mem_iff_contains.mp hm)]
  next => rfl

theorem getElem?_eq_none_iff_notMem : m[k]? = none ↔ k ∉ m := by
  rw [mem_iff_isSome_getElem?, Bool.not_eq_true, Option.isSome_eq_false_iff,
    Option.isNone_iff_eq_none]

theorem mem_iff_getElem? : k ∈ m ↔ ∃ v, m[k]? = some v := by
  rw [mem_iff_isSome_getElem?, Option.isSome_iff_exists]

theorem getElem?_of_erase (h : (m.erase k)[a]? = some v) : m[a]? = some v := by
  rw [getElem?_erase] at h
  split at h
  next => cases h
  next => exact h

theorem size_erase_of_mem (h : k ∈ m) : (m.erase k).size + 1 = m.size := by
  have hpos : m.size ≠ 0 := fun h0 => by
    rw [eq_empty_iff_size_eq_zero.mpr h0] at h
    exact not_mem_empty h
  rw [size_erase, if_pos (mem_iff_contains.mp h)]
  omega

theorem nodup_map_keys (hf : Function.Injective f) (m : ExtTreeMap α β cmp) :
    (m.keys.map f).Nodup :=
  List.Nodup.map hf nodup_keys

variable [LawfulEqCmp cmp]

theorem size_eq_length {l : List α} (hl : l.Nodup) (h : ∀ k, k ∈ m ↔ k ∈ l) :
    m.size = l.length := by
  rw [← length_keys]
  exact ((List.perm_ext_iff_of_nodup nodup_keys hl).mpr fun k => mem_keys.trans (h k)).length_eq

theorem getElem?_insert_eq_ite [DecidableEq α] (m : ExtTreeMap α β cmp) (k a : α) (v : β) :
    (m.insert k v)[a]? = if a = k then some v else m[a]? := by
  rw [getElem?_insert]
  by_cases h : a = k
  · rw [if_pos h, if_pos (by rw [h]; exact ReflCmp.compare_self)]
  · rw [if_neg h, if_neg fun hc => h (LawfulEqCmp.eq_of_compare hc).symm]

theorem insert_erase [DecidableEq α] (m : ExtTreeMap α β cmp) (k : α) (v : β) :
    (m.erase k).insert k v = m.insert k v := by
  refine ext_getElem? fun a => ?_
  rw [getElem?_insert, getElem?_insert, getElem?_erase]
  split <;> rfl

theorem erase_insert [DecidableEq α] (m : ExtTreeMap α β cmp) (k : α) (v : β) :
    (m.insert k v).erase k = m.erase k := by
  refine ext_getElem? fun a => ?_
  rw [getElem?_erase, getElem?_erase, getElem?_insert]
  split <;> rfl

theorem forall_insert [DecidableEq α] {P : α → β → Prop}
    (h : ∀ a b, m[a]? = some b → P a b) (hnew : P k v) :
    ∀ a b, (m.insert k v)[a]? = some b → P a b := by
  intro a b hab
  rw [getElem?_insert_eq_ite] at hab
  split at hab
  next heq => exact heq ▸ Option.some.inj hab ▸ hnew
  next => exact h a b hab

theorem getElem?_insert_of_absent [DecidableEq α] (hk : m[k]? = none) (ha : m[a]? = some b) :
    (m.insert k v)[a]? = some b := by
  have hne : a ≠ k := by
    rintro rfl
    rw [hk] at ha
    cases ha
  rw [getElem?_insert_eq_ite, if_neg hne, ha]

variable {n : ℕ}

theorem keys_eq_of_pairwise {l : List α} (hl : l.Pairwise fun a b => cmp a b = .lt)
    (h : ∀ k, k ∈ m ↔ k ∈ l) : m.keys = l :=
  eq_of_increasing (f := id) m.ordered_keys hl fun k => mem_keys.trans (h k)

theorem keys_insert_of_mem (v : β) (h : k ∈ m) : (m.insert k v).keys = m.keys := by
  refine keys_eq_of_pairwise m.ordered_keys ?_
  intro a
  rw [mem_insert, mem_keys]
  constructor
  · rintro (ha | ha)
    · rwa [← LawfulEqCmp.eq_of_compare ha]
    · exact ha
  · exact .inr

theorem keys_insert_greatest (v : β) (hk : ∀ a ∈ m, cmp a k = .lt) :
    (m.insert k v).keys = m.keys ++ [k] := by
  refine keys_eq_of_pairwise (List.pairwise_append.mpr ⟨m.ordered_keys, by simp, ?_⟩) ?_
  · intro a ha b hb
    rw [List.mem_singleton.mp hb]
    exact hk a (mem_keys.mp ha)
  · intro a
    rw [mem_insert, List.mem_append, mem_keys, List.mem_singleton, LawfulEqCmp.compare_eq_iff_eq,
      or_comm, eq_comm]

/-- A map with as many keys as there are numbers below a bound has every key that an injective
numbering puts below it. -/
theorem mem_of_size_eq (hf : Function.Injective f) (hlt : ∀ a ∈ m, f a < n) (hsize : m.size = n)
    (hk : f k < n) : k ∈ m := by
  have hsub : (m.keys.map f).toFinset ⊆ Finset.range n := by
    intro i hi
    obtain ⟨a, ha, rfl⟩ := List.mem_map.mp (List.mem_toFinset.mp hi)
    exact Finset.mem_range.mpr (hlt a (mem_keys.mp ha))
  have hcard : (Finset.range n).card ≤ (m.keys.map f).toFinset.card := by
    rw [List.toFinset_card_of_nodup (nodup_map_keys hf m), List.length_map, length_keys, hsize,
      Finset.card_range]
  have hmem : f k ∈ (m.keys.map f).toFinset :=
    Finset.eq_of_subset_of_card_le hsub hcard ▸ Finset.mem_range.mpr hk
  obtain ⟨a, ha, hfa⟩ := List.mem_map.mp (List.mem_toFinset.mp hmem)
  exact hf hfa ▸ mem_keys.mp ha

/-- A map has as many keys as there are numbers below a bound when an injective numbering takes
its keys to those numbers. -/
theorem size_eq_of_forall_mem (hf : Function.Injective f) (hlt : ∀ a ∈ m, f a < n)
    (hmem : ∀ i < n, ∃ a ∈ m, f a = i) : m.size = n := by
  have hkeys : (m.keys.map f).Perm (List.range n) := by
    refine (List.perm_ext_iff_of_nodup (nodup_map_keys hf m) List.nodup_range).mpr fun i => ?_
    rw [List.mem_map, List.mem_range]
    constructor
    · rintro ⟨a, ha, rfl⟩
      exact hlt a (mem_keys.mp ha)
    · intro hi
      obtain ⟨a, ha, hfa⟩ := hmem i hi
      exact ⟨a, mem_keys.mpr ha, hfa⟩
  rw [← length_keys, ← List.length_map f, hkeys.length_eq, List.length_range]

theorem keys_erase_head? (h : m.keys.head? = some k) : (m.erase k).keys = m.keys.tail := by
  have hkeys : m.keys = k :: m.keys.tail := (List.cons_head?_tail h).symm
  have hord := m.ordered_keys
  rw [hkeys, List.pairwise_cons] at hord
  refine keys_eq_of_pairwise hord.2 ?_
  intro a
  rw [mem_erase, ← mem_keys, hkeys, List.mem_cons, List.tail_cons, Ne,
    LawfulEqCmp.compare_eq_iff_eq]
  constructor
  · rintro ⟨hne, rfl | ha⟩
    · exact absurd rfl hne
    · exact ha
  · intro ha
    refine ⟨?_, .inr ha⟩
    rintro rfl
    exact OrientedCmp.not_lt_of_lt (hord.1 k ha) (hord.1 k ha)

theorem notMem_of_forall_lt (hk : ∀ e ∈ m.toList, cmp e.1 k = .lt) : k ∉ m := by
  intro hm
  obtain ⟨v, hv⟩ := mem_iff_getElem?.mp hm
  have hlt := hk _ (mem_toList_iff_getElem?_eq_some.mpr hv)
  exact OrientedCmp.not_lt_of_lt hlt hlt

theorem toList_insert_greatest (v : β) (hk : ∀ e ∈ m.toList, cmp e.1 k = .lt) :
    (m.insert k v).toList = m.toList ++ [(k, v)] := by
  refine eq_of_increasing ordered_keys_toList
    (List.pairwise_append.mpr ⟨ordered_keys_toList, List.pairwise_singleton _ _, ?_⟩) ?_
  · intro a ha b hb
    obtain rfl := List.mem_singleton.mp hb
    exact hk a ha
  rintro ⟨a, b⟩
  rw [mem_toList_iff_getElem?_eq_some, getElem?_insert, List.mem_append, List.mem_singleton,
    mem_toList_iff_getElem?_eq_some]
  by_cases hka : cmp k a = .eq
  · obtain rfl := LawfulEqCmp.eq_of_compare hka
    simp [hka, getElem?_eq_none_iff_notMem.mpr (notMem_of_forall_lt hk), eq_comm]
  · have hne : a ≠ k := by
      rintro rfl
      exact hka ReflCmp.compare_self
    simp [hka, hne]

/-- The next entry of a map that continues another one is new to that one. -/
theorem insert_of_toList_eq {e : α × β} {l : List (α × β)} (h : t.toList = m.toList ++ e :: l) :
    e.1 ∉ m ∧ t.toList = (m.insert e.1 e.2).toList ++ l := by
  have hsorted := h ▸ t.ordered_keys_toList
  have hlt : ∀ e' ∈ m.toList, cmp e'.1 e.1 = .lt := fun e' he' =>
    (List.pairwise_append.mp hsorted).2.2 e' he' e List.mem_cons_self
  refine ⟨notMem_of_forall_lt hlt, ?_⟩
  rw [h, toList_insert_greatest e.2 hlt, List.append_assoc]
  rfl

end Std.ExtTreeMap

open Std ExtTreeMap OrientedCmp

variable {κ ν ι : Type} {cmp : κ → κ → Ordering} [TransCmp cmp]

/-- The map stores exactly the values of `f`, each under its own key. -/
structure Keyed (keyOf : ν → κ) (idOf : κ → ι) (t : ExtTreeMap κ ν cmp) (f : ι → Option ν) :
    Prop where
  entry : ∀ (k : κ) (v : ν), t[k]? = some v ↔ f (idOf k) = some v ∧ cmp k (keyOf v) = .eq
  key : ∀ (k : κ) (v : ν), t[k]? = some v → t.getKey? k = some (keyOf v)

namespace Keyed

variable {keyOf : ν → κ} {idOf : κ → ι} {t : ExtTreeMap κ ν cmp} {f : ι → Option ν} {v v' : ν}
  {k : κ}

theorem empty : Keyed keyOf idOf (∅ : ExtTreeMap κ ν cmp) fun _ => none := by
  constructor <;> simp

variable (h : Keyed keyOf idOf t f)

include h

theorem getElem?_eq_none (hk : f (idOf k) = none) : t[k]? = none := by
  rw [Option.eq_none_iff_forall_ne_some]
  intro v hv
  rw [((h.entry k v).mp hv).1] at hk
  cases hk

theorem getElem?_keyOf (hv : f (idOf (keyOf v)) = some v) :
    t[keyOf v]? = some v :=
  (h.entry _ v).mpr ⟨hv, ReflCmp.compare_self⟩

theorem mem_toList_iff :
    (k, v) ∈ t.toList ↔ k = keyOf v ∧ f (idOf k) = some v := by
  rw [mem_toList_iff_getKey?_eq_some_and_getElem?_eq_some]
  constructor
  · rintro ⟨hk, hv⟩
    have hkey := h.key k v hv
    rw [hk] at hkey
    exact ⟨Option.some.inj hkey, ((h.entry k v).mp hv).1⟩
  · rintro ⟨rfl, hv⟩
    have he := h.getElem?_keyOf hv
    exact ⟨h.key _ v he, he⟩

theorem size_insert (hv : f (idOf (keyOf v)) = none) :
    (t.insert (keyOf v) v).size = t.size + 1 := by
  have hm : keyOf v ∉ t := getElem?_eq_none_iff_notMem.mp (h.getElem?_eq_none hv)
  rw [ExtTreeMap.size_insert, if_neg (mt ExtTreeMap.mem_iff_contains.mpr hm)]

theorem size_erase (hv : f (idOf (keyOf v)) = some v) :
    (t.erase (keyOf v)).size + 1 = t.size :=
  size_erase_of_mem (mem_iff_getElem?.mpr ⟨v, h.getElem?_keyOf hv⟩)

section Updates

variable [DecidableEq ι] (hid : ∀ a b, cmp a b = .eq → idOf a = idOf b)

include hid

/-- A map that differs under one key only, which was that of the identity's value if it had one. -/
theorem update {t' : ExtTreeMap κ ν cmp} {new : Option ν}
    (hget : ∀ a, t'[a]? = if cmp k a = .eq then new else t[a]?)
    (hold : ∀ v, f (idOf k) = some v → keyOf v = k) (hnew : ∀ v, new = some v → keyOf v = k)
    (hsame : ∀ v a, new = some v → cmp k a = .eq → t'.getKey? a = some k)
    (hother : ∀ a, cmp k a ≠ .eq → t'.getKey? a = t.getKey? a) :
    Keyed keyOf idOf t' (Function.update f (idOf k) new) := by
  constructor
  · intro a w
    rw [hget]
    by_cases hk : idOf a = idOf k
    · rw [hk, Function.update_self]
      split
      next hc => exact ⟨fun hw => ⟨hw, hnew w hw ▸ eq_symm hc⟩, And.left⟩
      next hc =>
        constructor
        · intro hw
          obtain ⟨hf, hkw⟩ := (h.entry a w).mp hw
          exact absurd (eq_symm (hold w (hk ▸ hf) ▸ hkw)) hc
        · rintro ⟨hw, hkw⟩
          exact absurd (eq_symm (hnew w hw ▸ hkw)) hc
    · rw [Function.update_of_ne hk, if_neg fun hc => hk (hid _ _ hc).symm, h.entry]
  · intro a w hw
    rw [hget] at hw
    split at hw
    next hc => rw [hsame w a hw hc, hnew w hw]
    next hc => rw [hother a hc, h.key a w hw]

theorem insert (hv : f (idOf (keyOf v)) = none) :
    Keyed keyOf idOf (t.insert (keyOf v) v) (Function.update f (idOf (keyOf v)) (some v)) := by
  refine h.update hid (fun a => getElem?_insert) (by simp [hv]) (by simp) ?_ ?_
  · intro _ a _ hc
    rw [getKey?_insert, if_pos hc]
  · intro a hc
    rw [getKey?_insert, if_neg hc]

theorem erase (hv : f (idOf (keyOf v)) = some v) :
    Keyed keyOf idOf (t.erase (keyOf v)) (Function.update f (idOf (keyOf v)) none) := by
  refine h.update hid (fun a => getElem?_erase) (by simp [hv]) (by simp) (by simp) ?_
  intro a hc
  rw [getKey?_erase, if_neg hc]

theorem setValue (hv : f (idOf (keyOf v)) = some v)
    (hkey : keyOf v' = keyOf v) :
    Keyed keyOf idOf (t.setValue (keyOf v) v') (Function.update f (idOf (keyOf v)) (some v')) := by
  have hm : keyOf v ∈ t := mem_iff_getElem?.mpr ⟨v, h.getElem?_keyOf hv⟩
  refine h.update hid (fun a => getElem?_setValue hm a) (by simp [hv]) (by simpa using hkey) ?_ ?_
  · intro _ a _ hc
    rw [getKey?_setValue]
    exact h.key a v ((h.entry a v).mpr ⟨hid _ _ hc ▸ hv, eq_symm hc⟩)
  · exact fun a _ => getKey?_setValue a

end Updates

end Keyed
