import Mathlib.Order.Interval.Finset.Defs
import AlphaDesk.Foundation.Apportionment
import AlphaDesk.Wallet.Performance

/-! # Integer arithmetic of the wallet scores

The square root by Newton's iteration, the logistic map from a score to parts per
million, and the split of a million parts over weights by largest remainder.
-/

namespace AlphaDesk

open IntelligenceError (lift)

/-- The iteration of `integerSqrtFrom` in 128-bit arithmetic: a division by zero or a
sum that does not fit stops it. -/
def checkedSqrtFrom (value x0 x1 : ℕ) : Option ℕ :=
  if x1 < x0 then
    if 0 < x1 ∧ x1 + value / x1 < 2 ^ 128 then checkedSqrtFrom value x1 ((x1 + value / x1) / 2)
    else none
  else some x0
  termination_by x0

def checkedSqrt (value : ℕ) : Option ℕ :=
  if value < 2 then some value else checkedSqrtFrom value value ((value + 1) / 2)

theorem sqrt_le_newton {v x : ℕ} (hx : 0 < x) : v.sqrt ≤ (x + v / x) / 2 := by
  have hroot : (2 * v.sqrt - x) * x ≤ v := by
    obtain h | h := Nat.le_total (2 * v.sqrt) x
    · simp [Nat.sub_eq_zero_of_le h]
    · have := v.sqrt_le
      zify [h] at *
      nlinarith [sq_nonneg ((v.sqrt : ℤ) - x)]
  have := (Nat.le_div_iff_mul_le hx).mpr hroot
  omega

theorem newton_sum_lt {v x : ℕ} (hv : v < 2 ^ 128) (hroot : v.sqrt ≤ x) (hx : 0 < x)
    (hxv : x < v) : x + v / x < 2 ^ 128 := by
  obtain rfl | h2 : x = 1 ∨ 2 ≤ x := by omega
  · have := Nat.sqrt_lt.mp (Nat.lt_succ_of_le hroot)
    omega
  · obtain hq | hq := Nat.lt_or_ge (v / x) 2
    · omega
    · have := (Nat.add_le_mul h2 hq).trans (Nat.mul_div_le v x)
      omega

-- Every iterate stays at or above the root, and one that does not fall has reached it.
theorem checkedSqrtFrom_eq {v x : ℕ} (hv : v < 2 ^ 128) (h2 : 2 ≤ v) (hroot : v.sqrt ≤ x)
    (hxv : x ≤ v) : checkedSqrtFrom v x ((x + v / x) / 2) = some v.sqrt ∧
      integerSqrtFrom v x ((x + v / x) / 2) = v.sqrt := by
  induction x using Nat.strong_induction_on with
  | _ x ih =>
    have hx : 0 < x := (Nat.sqrt_pos.mpr (by omega)).trans_le hroot
    have hnext := sqrt_le_newton (v := v) hx
    rw [checkedSqrtFrom, integerSqrtFrom]
    split
    · rename_i hlt
      have hpos := (Nat.sqrt_pos.mpr (by omega : 0 < v)).trans_le hnext
      rw [if_pos ⟨hpos, newton_sum_lt hv hnext hpos (by omega)⟩]
      exact ih _ hlt hnext (by omega)
    · rename_i hle
      have hsq := (Nat.le_div_iff_mul_le hx).mp (by omega : x ≤ v / x)
      simp [hroot.antisymm (Nat.le_sqrt.mpr hsq)]

/-- On every 128-bit value the iteration ends without overflow at the exact root. -/
theorem integerSqrt_exact (v : BitVec 128) :
    ∃ r, checkedSqrt v.toNat = some r ∧ integerSqrt v.toNat = r ∧ r * r ≤ v.toNat ∧
      v.toNat < (r + 1) * (r + 1) := by
  have hv := v.isLt
  generalize v.toNat = v at hv
  refine ⟨v.sqrt, ?_⟩
  rw [checkedSqrt, integerSqrt, ← and_assoc]
  refine ⟨?_, v.sqrt_le, v.lt_succ_sqrt⟩
  split
  · interval_cases v <;> simp
  · rename_i h2
    simpa [Nat.div_self (by omega : 0 < v)] using
      checkedSqrtFrom_eq hv (by omega) v.sqrt_le_self le_rfl

/-- A probability in parts per million. -/
structure ProbabilityPpm where
  ppm : ℕ
  bounded : ppm ≤ 1000000

def ProbabilityPpm.fromPpm (value : ℕ) : Except ValueError ProbabilityPpm :=
  if h : value ≤ 1000000 then .ok ⟨value, h⟩ else .error .outOfRange

def checkedU128 (n : ℕ) : Except IntelligenceError ℕ :=
  if n < 2 ^ 128 then .ok n else .error .overflow

def checkedU32 (n : ℕ) : Except IntelligenceError ℕ :=
  if n < 2 ^ 32 then .ok n else .error .overflow

/-- Eight terms of the series of `exp (milli / 1000)` in millionths, each rounded down. -/
def integerExpNegMilli (milli : ℤ) : Except IntelligenceError ℕ :=
  if 20000 ≤ milli then .ok 0
  else if milli ≤ -20000 then .ok (2 ^ 32 - 1)
  else do
    let (_, sum) ← [1, 2, 3, 4, 5, 6, 7, 8].foldlM (fun (term, sum) k => do
      let term := (← checkedU128 (term * milli.natAbs)) / (1000 * k)
      return (term, ← checkedU128 (sum + term))) (1000000, 1000000)
    checkedU32 (min (if 0 ≤ milli then 1000000 * 1000000 / max sum 1 else sum) (2 ^ 32 - 1))

-- The scaled score is in millionths, and it goes into the series as if it were in thousandths.
def logisticPpm (zMilli : ℤ) : Except IntelligenceError ProbabilityPpm :=
  if -(2 ^ 63) ≤ zMilli * 1700 ∧ zMilli * 1700 < 2 ^ 63 then do
    let denominator ← checkedU128 (1000000 + (← integerExpNegMilli (zMilli * 1700)))
    lift (ProbabilityPpm.fromPpm (← checkedU32 (1000000 * 1000000 / denominator)))
  else .error .overflow

theorem range_of_logisticPpm {z : ℤ} {p : ProbabilityPpm} (h : logisticPpm z = .ok p) :
    -(2 ^ 63) ≤ z * 1700 ∧ z * 1700 < 2 ^ 63 := (Except.ite_else_error_eq_ok.mp h).1

theorem logisticPpm_congr {a b : ℤ} (ha : -(2 ^ 63) ≤ a * 1700 ∧ a * 1700 < 2 ^ 63)
    (hb : -13 ≤ b ∧ b ≤ 13) (h : a = b ∨ 12 ≤ a ∧ 12 ≤ b ∨ a ≤ -12 ∧ b ≤ -12) :
    logisticPpm a = logisticPpm b := by
  have hexp : integerExpNegMilli (a * 1700) = integerExpNegMilli (b * 1700) := by
    obtain rfl | ⟨h₁, h₂⟩ | ⟨h₁, h₂⟩ := h
    · rfl
    · rw [integerExpNegMilli, if_pos (by omega), integerExpNegMilli, if_pos (by omega)]
    · rw [integerExpNegMilli, if_neg (by omega), if_pos (by omega), integerExpNegMilli,
        if_neg (by omega), if_pos (by omega)]
  rw [logisticPpm, if_pos ha, logisticPpm, if_pos (by omega), hexp]

theorem logisticPpm_table : ∀ z ∈ Finset.Icc (-13 : ℤ) 12, ∀ p ∈ (logisticPpm z).toOption,
    ∀ q ∈ (logisticPpm (z + 1)).toOption, ∃ c ∈ (logisticPpm 0).toOption,
      ∃ r ∈ (logisticPpm (-z)).toOption, c.ppm = 500000 ∧ p.ppm ≤ q.ppm ∧
        (q.ppm - p.ppm ≤ 500 ↔ z ≤ -6 ∨ 5 ≤ z) ∧
        (((p.ppm + r.ppm : ℤ) - 1000000).natAbs ≤ 2 ↔ z.natAbs ≤ 5) := by
  decide +kernel

/-- At the score zero the map gives one half, and it is monotone. It rises by at most 500
parts for a thousandth only outside the scores from -5 to 4, and it is symmetric only inside
those from -5 to 5. -/
theorem logisticPpm_slope_iff {z : ℤ} {p q : ProbabilityPpm} (hp : logisticPpm z = .ok p)
    (hq : logisticPpm (z + 1) = .ok q) :
    ∃ c r, logisticPpm 0 = .ok c ∧ logisticPpm (-z) = .ok r ∧
      (c.ppm = 500000 ∧ p.ppm ≤ q.ppm ∧ q.ppm - p.ppm ≤ 500 ∧
        ((p.ppm + r.ppm : ℤ) - 1000000).natAbs ≤ 2 ↔ z = 5) ∧
      c.ppm = 500000 ∧ p.ppm ≤ q.ppm ∧ (q.ppm - p.ppm ≤ 500 ↔ z ≤ -6 ∨ 5 ≤ z) ∧
      (((p.ppm + r.ppm : ℤ) - 1000000).natAbs ≤ 2 ↔ z.natAbs ≤ 5) := by
  have hz := range_of_logisticPpm hp
  have hz1 := range_of_logisticPpm hq
  -- the score is moved to the edge of the table
  obtain ⟨w, hw, hzw⟩ : ∃ w : ℤ, (-13 ≤ w ∧ w ≤ 12) ∧
      (z = w ∨ 12 ≤ z ∧ w = 12 ∨ z ≤ -13 ∧ w = -13) := ⟨max (-13) (min z 12), by omega, by omega⟩
  rw [logisticPpm_congr hz (by omega) (by omega : z = w ∨ _)] at hp
  rw [logisticPpm_congr hz1 (b := w + 1) (by omega) (by omega)] at hq
  rw [logisticPpm_congr (a := -z) (b := -w) (by omega) (by omega) (by omega)]
  simp only [← Except.mem_toOption] at *
  obtain ⟨c, hc, r, hr, hhalf, hle, hstep, hsym⟩ :=
    logisticPpm_table w (Finset.mem_Icc.mpr hw) p hp q hq
  exact ⟨c, r, hc, hr, by omega, hhalf, hle, by omega, by omega⟩

theorem logisticPpm_slope_iff_five : ∃ p q r, logisticPpm 5 = .ok p ∧
    logisticPpm (5 + 1) = .ok q ∧ logisticPpm (-5) = .ok r ∧ p.ppm ≤ q.ppm ∧
      q.ppm - p.ppm ≤ 500 ∧ ((p.ppm + r.ppm : ℤ) - 1000000).natAbs ≤ 2 := by
  obtain ⟨p, hp, -⟩ : ∃ p, logisticPpm 5 = .ok p ∧ True := by decide +kernel
  obtain ⟨q, hq, -⟩ : ∃ q, logisticPpm (5 + 1) = .ok q ∧ True := by decide +kernel
  obtain ⟨_, r, -, hr, hiff, -⟩ := logisticPpm_slope_iff hp hq
  exact ⟨p, q, r, hp, hq, hr, (hiff.mpr rfl).2⟩

theorem logisticPpm_steep_at_zero : ∃ p ∈ (logisticPpm 0).toOption,
    ∃ q ∈ (logisticPpm (0 + 1)).toOption, ¬q.ppm - p.ppm ≤ 500 := by decide +kernel

/-- The body of the loop over the weights: the floors, the remainders with their indices and the
parts that the floors assign. -/
def floorStep (total : ℕ) : List ℕ × List (ℕ × ℕ) × ℕ → ℕ × ℕ →
    Except IntelligenceError (List ℕ × List (ℕ × ℕ) × ℕ)
  | (floors, remainders, assigned), (weight, index) => do
    let scaled ← checkedU128 (weight * 1000000)
    let floor ← checkedU32 (scaled / total)
    let assigned ← checkedU32 (assigned + floor)
    return (floors ++ [floor], remainders ++ [(scaled % total, index)], assigned)

def largerFirst (left right : ℕ × ℕ) : Bool :=
  right.1 < left.1 || left.1 = right.1 && left.2 ≤ right.2

/-- One more part each, in the order of the remainders, while there are parts left. -/
def giveLeftover : List (ℕ × ℕ) → ℕ → List ℕ → Except IntelligenceError (List ℕ)
  | [], _, floors => .ok floors
  | (_, index) :: rest, leftover, floors =>
    if leftover = 0 then .ok floors
    else do
      let share ← checkedU32 (floors.getD index 0 + 1)
      giveLeftover rest (leftover - 1) (floors.set index share)

-- The sum of the weights is not a checked one.
def allocatePpm (weights : List ℕ) : Except IntelligenceError (List ProbabilityPpm) := do
  if weights = [] then throw (.malformed "ppm_allocate" "empty weights")
  let total := weights.sum % 2 ^ 128
  if total = 0 then throw (.malformed "ppm_allocate" "zero weight total")
  let (floors, remainders, assigned) ← weights.zipIdx.foldlM (floorStep total) ([], [], 0)
  if 1000000 < assigned then throw .overflow
  let shares ← giveLeftover (remainders.mergeSort largerFirst) (1000000 - assigned) floors
  shares.mapM fun ppm => lift (ProbabilityPpm.fromPpm ppm)

section Allocation

open List Apportionment

theorem foldlM_floorStep {total k assigned : ℕ} {weights floors : List ℕ}
    {remainders : List (ℕ × ℕ)} (hmul : ∀ w ∈ weights, w * 1000000 < 2 ^ 128)
    (hle : assigned + (weights.map (· * 1000000 / total)).sum ≤ 1000000) :
    (weights.zipIdx k).foldlM (floorStep total) (floors, remainders, assigned) =
      .ok (floors ++ weights.map (· * 1000000 / total),
        remainders ++ (weights.zipIdx k).map fun p => (p.1 * 1000000 % total, p.2),
        assigned + (weights.map (· * 1000000 / total)).sum) := by
  induction weights generalizing k floors remainders assigned with
  | nil => simp
  | cons w rest ih =>
    obtain ⟨hw, hmul⟩ := forall_mem_cons.mp hmul
    rw [map_cons, sum_cons] at hle
    have hstep : floorStep total (floors, remainders, assigned) (w, k) =
        .ok (floors ++ [w * 1000000 / total], remainders ++ [(w * 1000000 % total, k)],
          assigned + w * 1000000 / total) := by
      simp only [floorStep, Except.bind_eq_ok]
      exact ⟨_, if_pos hw, _, if_pos (by omega), _, if_pos (by omega), rfl⟩
    rw [zipIdx_cons, foldlM_cons, hstep]
    exact (ih hmul (by omega)).trans (by simp [Nat.add_assoc])

variable {n leftover : ℕ} {f r : Fin n → ℕ} {order : List (Fin n)}

theorem giveLeftover_eq (hn : order.Nodup) (hf : ∀ i, f i + leftover < 2 ^ 32) :
    giveLeftover (order.map fun i => (r i, i.val)) leftover (ofFn f) =
      .ok (ofFn fun i => f i + if i ∈ (order.take leftover).toFinset then 1 else 0) := by
  induction order generalizing f leftover with
  | nil => simp [giveLeftover]
  | cons i rest ih =>
    obtain ⟨hnot, hn⟩ := nodup_cons.mp hn
    cases leftover with
    | zero => simp [giveLeftover]
    | succ leftover =>
      have hset : (ofFn f).set i (f i + 1) = ofFn (Function.update f i (f i + 1)) :=
        ext_getElem (by simp) fun j _ _ => by
          simp [getElem_set, Function.update_apply, Fin.ext_iff, eq_comm]
      have hget : (ofFn f).getD i 0 = f i := by simp [getD_eq_getElem?_getD]
      have hi := hf i
      rw [map_cons, giveLeftover, if_neg (by omega), hget, checkedU32, if_pos (by omega)]
      refine (congrArg _ hset).trans ((ih hn fun j => ?_).trans ?_)
      · have := hf j
        rw [Function.update_apply]
        split <;> omega
      · congr 2
        funext j
        by_cases hj : j = i
        · simp [hj, mt (fun h => take_subset _ _ h) hnot]
        · simp [hj]

theorem exists_order (r : Fin n → ℕ) : ∃ order : List (Fin n), order.Perm (finRange n) ∧
    order.Pairwise (fun i j => r j ≤ r i) ∧
    (ofFn fun i => (r i, i.val)).mergeSort largerFirst = order.map fun i => (r i, i.val) := by
  refine ⟨(finRange n).mergeSort fun i j => largerFirst (r i, i) (r j, j), mergeSort_perm _ _, ?_,
    ?_⟩
  · refine (pairwise_mergeSort ?_ ?_ _).imp fun h => ?_ <;>
      simp only [largerFirst, Bool.or_eq_true, Bool.and_eq_true, decide_eq_true_eq] at * <;> omega
  · rw [ofFn_eq_map]
    exact (map_mergeSort (s := largerFirst) (f := fun i : Fin n => (r i, i.val))
      fun _ _ _ _ => rfl).symm

theorem mapM_fromPpm (p : Fin n → ProbabilityPpm) : (ofFn fun i => (p i).ppm).mapM
    (fun ppm => lift (ProbabilityPpm.fromPpm ppm)) = .ok (ofFn p) := by
  refine Except.mapM_eq_ok.mpr (forall₂_iff_get.mpr ⟨by simp, fun i hi _ => ?_⟩)
  simp [ProbabilityPpm.fromPpm, ProbabilityPpm.bounded, lift, Except.mapError]

variable {w : Fin n → ℕ} (hpos : 0 < ∑ i, w i) (hsum : ∑ i, w i < 2 ^ 128)
  (hmul : ∀ i, w i * 1000000 < 2 ^ 128)

include hpos hsum hmul

theorem exists_shares : ∃ chosen, Largest (∑ i, w i) (w · * 1000000) chosen ∧
    ∃ p : Fin n → ProbabilityPpm, allocatePpm (ofFn w) = .ok (ofFn p) ∧
      ∀ i, (p i).ppm = share (∑ i, w i) (w · * 1000000) chosen i := by
  generalize htotal : ∑ i, w i = total at hpos hsum
  have hscaled : ∑ i, w i * 1000000 = total * 1000000 := by rw [← Finset.sum_mul, htotal]
  have hfloors : ∑ i, w i * 1000000 / total ≤ 1000000 := by
    have := Finset.sum_le_sum fun i (_ : i ∈ Finset.univ) => Nat.mul_div_le (w i * 1000000) total
    rw [← Finset.mul_sum, hscaled] at this
    exact Nat.le_of_mul_le_mul_left this hpos
  obtain ⟨order, hperm, hsorted, horder⟩ := exists_order fun i => w i * 1000000 % total
  have hnodup : order.Nodup := hperm.nodup_iff.mpr (nodup_finRange n)
  have hlargest := largest_take (v := (w · * 1000000)) hnodup
    (fun i => hperm.mem_iff.mpr (mem_finRange i)) hsorted hpos
    (by rw [Nat.add_sub_cancel' hfloors, hscaled])
  have hshares := Nat.eq_of_mul_eq_mul_left hpos (hlargest.total.trans hscaled)
  have hbound : ∀ i, share total (w · * 1000000) _ i ≤ 1000000 := fun i =>
    hshares ▸ Finset.single_le_sum (fun _ _ => Nat.zero_le _) (Finset.mem_univ i)
  refine ⟨_, hlargest, fun i => ⟨_, hbound i⟩, ?_, fun _ => rfl⟩
  have hsumw : (ofFn w).sum % 2 ^ 128 = total := by
    rw [sum_ofFn, htotal, Nat.mod_eq_of_lt hsum]
  have hne : ofFn w ≠ [] := by
    intro h
    rw [h] at hsumw
    exact hpos.ne hsumw
  have hzip : (ofFn w).zipIdx.map (fun p => (p.1 * 1000000 % total, p.2)) =
      ofFn fun i : Fin n => (w i * 1000000 % total, i.val) :=
    ext_getElem (by simp) fun j _ _ => by simp
  have hsteps := @foldlM_floorStep total 0 0 (ofFn w) [] [] (by simpa using hmul)
  rw [map_ofFn, sum_ofFn, Nat.zero_add, hzip] at hsteps
  have hgive := @giveLeftover_eq n (1000000 - ∑ i, w i * 1000000 / total)
    (w · * 1000000 / total) (w · * 1000000 % total) order hnodup fun i => by
      have : w i * 1000000 / total ≤ 1000000 := (Nat.le_add_right _ _).trans (hbound i)
      omega
  simp only [allocatePpm, if_neg hne, hsumw, if_neg hpos.ne', hsteps hfloors]
  exact Except.bind_eq_ok.mpr ⟨_, rfl, (if_neg (not_lt.mpr hfloors)).trans (Except.bind_eq_ok.mpr
    ⟨_, (congrArg (giveLeftover · _ _) horder).trans hgive, mapM_fromPpm fun i => ⟨_, hbound i⟩⟩)⟩

/-- The shares of a million parts: they add up, each is rounded down or up, a larger weight has no
smaller share, and no other whole shares are closer to the exact ones. -/
theorem allocatePpm_optimal :
    ∃ p : Fin n → ProbabilityPpm, allocatePpm (ofFn w) = .ok (ofFn p) ∧
      ∑ i, (p i).ppm = 1000000 ∧
      (∀ i, (p i).ppm = w i * 1000000 / ∑ j, w j ∨
        ¬(∑ j, w j) ∣ w i * 1000000 ∧ (p i).ppm = w i * 1000000 / (∑ j, w j) + 1) ∧
      (∀ i j, w i < w j → (p i).ppm ≤ (p j).ppm) ∧
      ∀ other : Fin n → ℤ, ∑ i, other i = 1000000 →
        ∑ i, |((p i).ppm : ℚ) - w i * 1000000 / ∑ j, w j| ≤
          ∑ i, |(other i : ℚ) - w i * 1000000 / ∑ j, w j| := by
  obtain ⟨chosen, hlargest, p, hok, hp⟩ := exists_shares hpos hsum hmul
  have hshares : ∑ i, share (∑ i, w i) (w · * 1000000) chosen i = 1000000 :=
    Nat.eq_of_mul_eq_mul_left hpos (hlargest.total.trans (Finset.sum_mul ..).symm)
  refine ⟨p, hok, ?_⟩
  simp only [hp]
  refine ⟨hshares, hlargest.share_cases hpos, fun i j hij => hlargest.share_le (by omega),
    fun other ho => ?_⟩
  have hle := hlargest.sum_abs_sub_le hpos
    (show ∑ i, other i = _ by rw [ho]; exact_mod_cast hshares.symm)
  push_cast at hle ⊢
  exact hle

end Allocation

theorem allocatePpm_optimal_thirds : ∃ p : Fin 3 → ProbabilityPpm,
    allocatePpm (List.ofFn fun _ : Fin 3 => 1) = .ok (List.ofFn p) ∧
      ∑ i, (p i).ppm = 1000000 := by
  obtain ⟨p, hok, hsum, -⟩ :=
    allocatePpm_optimal (w := fun _ : Fin 3 => 1) (by decide) (by decide) (by decide)
  exact ⟨p, hok, hsum⟩

end AlphaDesk
