import Mathlib.Algebra.Order.Floor.Ring
import Mathlib.Data.Rat.Floor
import AlphaDesk.Domain.Decimal

/-! # Rounding

Products, quotients and changes of scale are rounded once, from the exact rational
number. A result is the exact one, rounded to a number of units at the scale of the
output, and an operation fails when that number leaves the 128-bit range.
-/

namespace AlphaDesk

open Int

def RoundingMode.round (mode : RoundingMode) (x : ℚ) : ℤ :=
  match mode with
  | .towardZero => if 0 ≤ x then ⌊x⌋ else ⌈x⌉
  | .floor => ⌊x⌋
  | .ceiling => ⌈x⌉
  | .nearestTiesToEven =>
    if 2 * fract x < 1 ∨ (2 * fract x = 1 ∧ ⌊x⌋ % 2 = 0) then ⌊x⌋ else ⌊x⌋ + 1

variable {mode : RoundingMode} {n d : ℤ} {x f : ℚ}

@[simp] theorem RoundingMode.round_intCast (n : ℤ) : mode.round n = n := by
  cases mode <;> simp [round]

theorem RoundingMode.round_of_nonneg (hx : 0 ≤ x) : towardZero.round x = ⌊x⌋ := if_pos hx

theorem RoundingMode.round_towardZero_le (hq : (0 : ℚ) ≤ f) (hx : x ≤ f) :
    (towardZero.round x : ℚ) ≤ f := by
  rcases le_or_gt 0 x with h | h
  · rw [round_of_nonneg h]
    exact (floor_le x).trans hx
  · refine le_trans ?_ hq
    rw [round, if_neg h.not_ge]
    exact_mod_cast ceil_le.mpr h.le

theorem RoundingMode.round_sub_of_even (hn : n % 2 = 0) :
    nearestTiesToEven.round (x - n) = nearestTiesToEven.round x - n := by
  simp only [round, fract_sub_intCast, floor_sub_intCast]
  have hparity : (⌊x⌋ - n) % 2 = ⌊x⌋ % 2 := by omega
  rw [hparity]
  split <;> ring

theorem RoundingMode.round_div {m : ℕ} (hm : 0 < m) : mode.round (n / m : ℚ) =
    match mode with
    | .towardZero => if 0 ≤ n then n / m else -(-n / m)
    | .floor => n / m
    | .ceiling => -(-n / m)
    | .nearestTiesToEven =>
      if n % m * 2 < m ∨ (n % m * 2 = m ∧ n / m % 2 = 0) then n / m else n / m + 1 := by
  have hmq : (0 : ℚ) < m := Nat.cast_pos.mpr hm
  have hfloor := Rat.floor_intCast_div_natCast n m
  have hceil := Rat.ceil_intCast_div_natCast n m
  cases mode with
  | towardZero =>
    have hsign : (0 : ℚ) ≤ n / m ↔ 0 ≤ n := by rw [le_div_iff₀ hmq, zero_mul, cast_nonneg_iff]
    simp only [round, hsign, hfloor, hceil]
  | floor => exact hfloor
  | ceiling => exact hceil
  | nearestTiesToEven =>
    have hlow : 2 * fract (n / m : ℚ) < 1 ↔ n % m * 2 < m := by
      rw [fract_div_intCast_eq_div_intCast_mod, mul_div, div_lt_one hmq, mul_comm]
      exact_mod_cast Iff.rfl
    have hmid : 2 * fract (n / m : ℚ) = 1 ↔ n % m * 2 = m := by
      rw [fract_div_intCast_eq_div_intCast_mod, mul_div, div_eq_one_iff_eq hmq.ne', mul_comm]
      exact_mod_cast Iff.rfl
    simp only [round, hlow, hmid, hfloor]

theorem divRoundBig_natCast {m : ℕ} (hm : 0 < m) :
    divRoundBig n m mode = .ok (mode.round (n / m : ℚ)) := by
  have hpos : (0 : ℤ) < m := natCast_pos.mpr hm
  have hr := emod_nonneg n hpos.ne'
  have hlt := emod_lt_of_pos n hpos
  have hdvd : (m : ℤ) ∣ n ↔ n % m = 0 := dvd_iff_emod_eq_zero
  have hparity : ∀ q : ℤ, q.tmod 2 = 0 ↔ q % 2 = 0 := fun q => by
    rw [← dvd_iff_tmod_eq_zero, dvd_iff_emod_eq_zero]
  rw [RoundingMode.round_div hm, divRoundBig, if_neg hpos.ne', tdiv_eq_ediv, tmod_eq_emod,
    neg_ediv]
  simp only [hdvd, hparity, hpos.not_gt, sign_eq_one_of_pos hpos, abs_of_pos hpos,
    natAbs_natCast]
  generalize n % m = r at *
  generalize n / m = q at *
  rcases le_or_gt 0 n with hn | hn
  · cases mode <;> simp [hn, hn.not_gt, abs_of_nonneg hr] <;> split_ifs <;> simp <;> omega
  · -- the truncated quotient lies above the exact one, unless nothing remains
    by_cases h0 : r = 0
    · cases mode <;> simp [hn.not_ge, h0, hm.ne']
    · have hne : r - m ≠ 0 := by omega
      have habs : |r - m| = m - r := by rw [abs_of_neg] <;> omega
      cases mode with
      | nearestTiesToEven =>
        simp [hn, hn.not_ge, h0, hne, habs]
        split_ifs <;> simp <;> omega
      | _ => simp [hn, hn.not_ge, h0, hne, add_comm]

theorem divRoundBig_neg (hd : d ≠ 0) : divRoundBig (-n) (-d) mode = divRoundBig n d mode := by
  rcases eq_or_ne n 0 with rfl | hn
  · simp [divRoundBig]
  · have hsign : (decide (-n < 0) == decide (-d < 0)) = (decide (n < 0) == decide (d < 0)) := by
      grind
    simp only [divRoundBig, Int.tdiv_neg, Int.neg_tdiv, neg_neg, Int.tmod_neg, Int.neg_tmod,
      neg_eq_zero, abs_neg, hsign]

theorem divRoundBig_eq (hd : d ≠ 0) :
    divRoundBig n d mode = .ok (mode.round (n / d : ℚ)) := by
  have hm := natAbs_pos.mpr hd
  rcases d.natAbs_eq with h | h
  · rw [h, divRoundBig_natCast hm, cast_natCast]
  · rw [← divRoundBig_neg hd, h, neg_neg, divRoundBig_natCast hm]
    rw [cast_neg, cast_neg, cast_natCast, neg_div, div_neg]
theorem rescaleBig_eq (raw : ℤ) (source target : ℕ) (mode : RoundingMode) :
    rescaleBig raw source target mode = .ok (mode.round (scaled raw source * 10 ^ target)) := by
  unfold rescaleBig
  split
  next h =>
    have hx : scaled raw source * 10 ^ target = (raw : ℚ) := by
      rw [h, scaled, div_mul_cancel₀ _ (by positivity)]
    rw [hx, RoundingMode.round_intCast]
  split
  next h =>
    have hx : scaled raw source * 10 ^ target = ((raw * 10 ^ (target - source) : ℤ) : ℚ) := by
      rw [← Scaled.mul_pow_sub raw h.le, scaled, div_mul_cancel₀ _ (by positivity)]
    rw [hx, RoundingMode.round_intCast]
  next hne h =>
    rw [divRoundBig_eq (by positivity)]
    congr 2
    rw [scaled, div_mul_eq_mul_div, div_eq_div_iff (by positivity) (by positivity)]
    push_cast
    rw [mul_assoc, ← pow_add, Nat.add_sub_cancel' (by omega)]

namespace Decimal

variable {a b c : Decimal} {n : ℕ}

theorem raw_eq (a : Decimal) : (a.raw : ℚ) = a.value * 10 ^ a.scale := by
  rw [value, scaled, div_mul_cancel₀ _ (by positivity)]

theorem rescale_eq_ok_iff : a.rescale n mode = .ok c ↔
    n ≤ maxDecimalScale ∧ c.raw = mode.round (a.value * 10 ^ n) ∧ c.scale = n := by
  unfold rescale
  split
  next h =>
    rw [rescaleBig_eq]
    exact fromBig_eq_ok_iff.trans (and_iff_right h).symm
  next h => simp [h]

/-- A decimal is left as it is by a change to its own scale, and by no other. -/
theorem rescale_eq_ok_self_iff : a.rescale n mode = .ok a ↔ a.scale = n := by
  rw [rescale_eq_ok_iff]
  constructor
  · exact fun h => h.2.2
  · rintro rfl
    exact ⟨a.scale_le, by rw [← raw_eq, RoundingMode.round_intCast], rfl⟩

theorem scaled_mul_raw : scaled (a.raw * b.raw) (a.scale + b.scale) = a.value * b.value := by
  rw [value, value, scaled, scaled, scaled, pow_add]
  push_cast
  rw [div_mul_div_comm]

theorem checkedMul_eq_ok_iff : a.checkedMul b n mode = .ok c ↔
    n ≤ maxDecimalScale ∧ c.raw = mode.round (a.value * b.value * 10 ^ n) ∧ c.scale = n := by
  unfold checkedMul
  split
  next h =>
    rw [rescaleBig_eq, scaled_mul_raw]
    exact fromBig_eq_ok_iff.trans (and_iff_right h).symm
  next h => simp [h]

theorem quotient_eq (hb : b.raw ≠ 0) :
    ((a.raw * 10 ^ (n + b.scale - a.scale) : ℤ) : ℚ) /
        ((b.raw * 10 ^ (a.scale - (n + b.scale)) : ℤ) : ℚ) = a.value / b.value * 10 ^ n := by
  have hpow : (10 : ℚ) ^ (n + b.scale - a.scale) * 10 ^ a.scale =
      10 ^ (n + b.scale) * 10 ^ (a.scale - (n + b.scale)) := by
    rw [← pow_add, ← pow_add]
    congr 1
    omega
  rw [value, value, scaled, scaled]
  push_cast
  rw [div_div_div_eq, div_mul_eq_mul_div, div_eq_div_iff (by positivity) (by positivity)]
  linear_combination (a.raw : ℚ) * b.raw * hpow

theorem checkedDiv_eq_ok_iff : a.checkedDiv b n mode = .ok c ↔
    n ≤ maxDecimalScale ∧ b.raw ≠ 0 ∧ c.raw = mode.round (a.value / b.value * 10 ^ n) ∧
      c.scale = n := by
  unfold checkedDiv
  split
  next h =>
    split
    next hb => simp [hb]
    next hb =>
      dsimp only
      rw [divRoundBig_eq (mul_ne_zero hb (by positivity)), quotient_eq hb]
      exact fromBig_eq_ok_iff.trans
        ((and_iff_right h).trans (and_iff_right hb)).symm
  next h => simp [h]

/-- What rounding to a number of units gives: that number at the scale of the output, or an
overflow when it leaves the range. -/
def Rounds (result : Except ValueError Decimal) (raw : ℤ) (scale : ℕ) : Prop :=
  (InI128 raw → ∃ d, result = .ok d ∧ d.raw = raw ∧ d.scale = scale) ∧
    (¬InI128 raw → result = .error .overflow)

theorem rounds_fromBig (raw : ℤ) (h : n ≤ maxDecimalScale) : Rounds (fromBig raw n h) raw n :=
  ⟨fun hr => ⟨_, dif_pos hr, rfl, rfl⟩, fun hr => dif_neg hr⟩

/-- Changes of scale, products and quotients are rounded correctly, from the exact value. -/
theorem correctly_rounded (x y : Decimal) (mode : RoundingMode) (hn : n ≤ 38) :
    Rounds (x.rescale n mode) (mode.round (x.value * 10 ^ n)) n ∧
    Rounds (x.checkedMul y n mode) (mode.round (x.value * y.value * 10 ^ n)) n ∧
    (y.value ≠ 0 →
      Rounds (x.checkedDiv y n mode) (mode.round (x.value / y.value * 10 ^ n)) n) := by
  change n ≤ maxDecimalScale at hn
  refine ⟨?_, ?_, fun hy => ?_⟩
  · rw [rescale, dif_pos hn, rescaleBig_eq]
    exact rounds_fromBig _ hn
  · rw [checkedMul, dif_pos hn, rescaleBig_eq, scaled_mul_raw]
    exact rounds_fromBig _ hn
  · have hraw : y.raw ≠ 0 := mt value_eq_zero_iff.mpr hy
    rw [checkedDiv, dif_pos hn, if_neg hraw]
    dsimp only
    rw [divRoundBig_eq (mul_ne_zero hraw (by positivity)), quotient_eq hraw]
    exact rounds_fromBig _ hn

theorem correctly_rounded_twoThirds :
    let two : Decimal := ⟨2, 0, by decide, by decide⟩
    let three : Decimal := ⟨3, 0, by decide, by decide⟩
    three.value ≠ 0 ∧ Rounds (two.checkedDiv three 1 .nearestTiesToEven)
      (RoundingMode.round .nearestTiesToEven (two.value / three.value * 10 ^ 1)) 1 := by
  intro two three
  have hthree : three.value ≠ 0 := mt value_eq_zero_iff.mp (by decide)
  exact ⟨hthree, (correctly_rounded two three _ (by decide)).2.2 hthree⟩

end Decimal

end AlphaDesk
