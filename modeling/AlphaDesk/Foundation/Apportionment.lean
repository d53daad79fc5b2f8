import Mathlib.Algebra.BigOperators.Field
import Mathlib.Algebra.Order.BigOperators.Ring.Finset
import Mathlib.Tactic.Linarith

/-! # Largest remainders

Values are split in whole units: every share is rounded down, and the units that are left go to
the largest remainders. No other split in whole units is closer to the exact one.
-/

namespace AlphaDesk.Apportionment

theorem sum_mod_eq {ι : Type} [Fintype ι] {unit left : ℕ} {v : ι → ℕ}
    (h : unit * (∑ i, v i / unit + left) = ∑ i, v i) : ∑ i, v i % unit = unit * left := by
  have hdiv : ∑ i, (unit * (v i / unit) + v i % unit) = ∑ i, v i := by simp only [Nat.div_add_mod]
  rw [Finset.sum_add_distrib, ← Finset.mul_sum] at hdiv
  rw [mul_add] at h
  omega

variable {ι : Type} [DecidableEq ι] {unit : ℕ} {v : ι → ℕ} {chosen : Finset ι} {i j : ι}

def share (unit : ℕ) (v : ι → ℕ) (chosen : Finset ι) (i : ι) : ℕ :=
  v i / unit + if i ∈ chosen then 1 else 0

variable [Fintype ι]

/-- The shares make up the values, and the largest remainders were chosen. -/
structure Largest (unit : ℕ) (v : ι → ℕ) (chosen : Finset ι) : Prop where
  total : unit * ∑ i, share unit v chosen i = ∑ i, v i
  le : ∀ i ∈ chosen, ∀ j ∉ chosen, v j % unit ≤ v i % unit

theorem sum_share : ∑ i, share unit v chosen i = ∑ i, v i / unit + chosen.card := by
  simp [share, Finset.sum_add_distrib]

/-- The first entries in the order of the remainders, as many as there are units left. -/
theorem largest_take {order : List ι} (hn : order.Nodup) (hall : ∀ i, i ∈ order)
    (hsorted : order.Pairwise fun i j => v j % unit ≤ v i % unit) (hu : 0 < unit) {left : ℕ}
    (hl : unit * (∑ i, v i / unit + left) = ∑ i, v i) :
    Largest unit v (order.take left).toFinset where
  total := by
    have hsum := Finset.sum_le_card_nsmul Finset.univ _ unit fun i _ => (Nat.mod_lt (v i) hu).le
    have hcard : Fintype.card ι = order.length := by
      rw [← List.toFinset_card_of_nodup hn, (Finset.eq_univ_iff_forall.mpr (by simpa using hall) :
        order.toFinset = Finset.univ), Finset.card_univ]
    rw [sum_mod_eq hl, Finset.card_univ, hcard, nsmul_eq_mul, Nat.cast_id, mul_comm] at hsum
    rw [sum_share, List.toFinset_card_of_nodup (hn.sublist (List.take_sublist _ _)),
      List.length_take, min_eq_left (Nat.le_of_mul_le_mul_right hsum hu), hl]
  le i hi j hj := by
    rw [List.mem_toFinset] at hi hj
    have hmem := hall j
    rw [← List.take_append_drop left order] at hmem hsorted
    exact (List.pairwise_append.mp hsorted).2.2 _ hi _ ((List.mem_append.mp hmem).resolve_left hj)

/-- At the price of a unit that the threshold sets, an entry takes one unit if its remainder
reaches the threshold and none otherwise. -/
theorem abs_sub_price_le {u r θ c a : ℤ} (hr : 0 ≤ r) (hru : r ≤ u) (hθ : 0 ≤ θ) (hθu : θ ≤ u)
    (hc : c = 0 ∧ r ≤ θ ∨ c = 1 ∧ θ ≤ r) :
    |u * c - r| - (u - 2 * θ) * c ≤ |u * a - r| - (u - 2 * θ) * a := by
  have hleft : |u * c - r| - (u - 2 * θ) * c ≤ min r (2 * θ - r) := by
    obtain ⟨rfl, h⟩ | ⟨rfl, h⟩ := hc
    · simp [abs_of_nonneg hr]
      omega
    · rw [mul_one, mul_one, abs_of_nonneg (by omega)]
      omega
  refine hleft.trans ?_
  obtain ha | ha := Int.lt_or_le 0 a
  · refine (min_le_right _ _).trans ?_
    nlinarith [le_abs_self (u * a - r)]
  · refine (min_le_left _ _).trans ?_
    nlinarith [neg_le_abs (u * a - r)]

theorem abs_sub_div {v : ℕ} (h : 0 < unit) (x : ℤ) : |(x : ℚ) - v / unit| =
    ((|(unit : ℤ) * (x - (v / unit : ℕ)) - (v % unit : ℕ)| : ℤ) : ℚ) / unit := by
  have hu : (0 : ℚ) < unit := by exact_mod_cast h
  have hx : (unit : ℤ) * (x - (v / unit : ℕ)) - (v % unit : ℕ) = x * unit - v := by
    nth_rewrite 3 [← Nat.div_add_mod v unit]
    rw [Nat.cast_add, Nat.cast_mul]
    ring
  rw [eq_div_iff hu.ne', hx]
  nth_rewrite 2 [← abs_of_pos hu]
  rw [← abs_mul, sub_mul, div_mul_cancel₀ _ hu.ne']
  push_cast
  rfl

namespace Largest

variable (h : Largest unit v chosen) (hu : 0 < unit)

include h hu

theorem mod_pos (hi : i ∈ chosen) : 0 < v i % unit := by
  by_contra h0
  have hout : ∀ j ∈ chosenᶜ, v j % unit = 0 := fun j hj => by
    have := h.le i hi j (Finset.mem_compl.mp hj)
    omega
  have hlt : ∑ j ∈ chosen, v j % unit < ∑ j ∈ chosen, unit :=
    Finset.sum_lt_sum_of_nonempty ⟨i, hi⟩ fun j _ => Nat.mod_lt _ hu
  have hsum := h.total
  rw [sum_share] at hsum
  replace hsum := sum_mod_eq hsum
  rw [← Finset.sum_add_sum_compl chosen, Finset.sum_eq_zero hout, add_zero] at hsum
  rw [Finset.sum_const_nat fun _ _ => rfl, hsum, mul_comm] at hlt
  exact lt_irrefl _ hlt

theorem share_cases (i : ι) : share unit v chosen i = v i / unit ∨
    ¬unit ∣ v i ∧ share unit v chosen i = v i / unit + 1 := by
  by_cases hi : i ∈ chosen
  · exact .inr ⟨fun hd => (h.mod_pos hu hi).ne' (Nat.mod_eq_zero_of_dvd hd), by simp [share, hi]⟩
  · exact .inl (by simp [share, hi])

omit hu in
theorem share_le (hij : v i < v j) : share unit v chosen i ≤ share unit v chosen j := by
  have hle := Nat.div_le_div_right (c := unit) hij.le
  have hi := Nat.div_add_mod (v i) unit
  have hj := Nat.div_add_mod (v j) unit
  unfold share
  by_cases hci : i ∈ chosen <;> by_cases hcj : j ∈ chosen <;>
    simp only [hci, hcj, if_true, if_false]
  case neg =>
    have hr := h.le i hci j hcj
    by_contra hlt
    rw [show v j / unit = v i / unit by omega] at hj
    omega
  all_goals omega

/-- No whole numbers with the same sum are closer to the quotients. -/
theorem sum_abs_sub_le {other : ι → ℤ} (ho : ∑ i, other i = ∑ i, (share unit v chosen i : ℤ)) :
    ∑ i, |(share unit v chosen i : ℚ) - v i / unit| ≤ ∑ i, |(other i : ℚ) - v i / unit| := by
  have hle := Finset.sum_le_sum fun i (_ : i ∈ Finset.univ) =>
    abs_sub_price_le (u := unit) (r := (v i % unit : ℕ)) (a := other i - (v i / unit : ℕ))
      (θ := (chosenᶜ.sup fun i => v i % unit : ℕ)) (c := share unit v chosen i - (v i / unit : ℕ))
      (by omega) (by exact_mod_cast (Nat.mod_lt _ hu).le) (by omega)
      (by exact_mod_cast Finset.sup_le fun j _ => (Nat.mod_lt _ hu).le) (by
        by_cases hi : i ∈ chosen
        · refine .inr ⟨by simp [share, hi], ?_⟩
          exact_mod_cast Finset.sup_le fun j hj => h.le i hi j (Finset.mem_compl.mp hj)
        · refine .inl ⟨by simp [share, hi], ?_⟩
          exact_mod_cast Finset.le_sup (f := fun i => v i % unit) (Finset.mem_compl.mpr hi))
  simp only [Finset.sum_sub_distrib, ← Finset.mul_sum, ho] at hle
  simp only [← Int.cast_natCast (R := ℚ) (share _ _ _ _), abs_sub_div hu, ← Finset.sum_div,
    ← Int.cast_sum]
  exact div_le_div_of_nonneg_right (Int.cast_le.mpr (by linarith)) (Nat.cast_nonneg unit)

end Largest

end AlphaDesk.Apportionment
