import Mathlib.Data.Rat.Cast.Order
import Mathlib.Tactic

/-! # Scaled integers

The rational number that an integer denotes at a decimal scale. Sums and
comparisons at one scale are those of the integers, moving to a larger scale
keeps the value, and numbers at two scales compare by cross multiplication.
-/

def scaled (raw : ℤ) (scale : ℕ) : ℚ := raw / 10 ^ scale

namespace Scaled

variable {a b : ℤ} {s t : ℕ}

theorem add (a b : ℤ) (s : ℕ) : scaled (a + b) s = scaled a s + scaled b s := by
  simp only [scaled]
  push_cast
  ring

theorem sub (a b : ℤ) (s : ℕ) : scaled (a - b) s = scaled a s - scaled b s := by
  simp only [scaled]
  push_cast
  ring

@[simp] theorem zero (s : ℕ) : scaled 0 s = 0 := by simp [scaled]

theorem mul_pow (a : ℤ) (s k : ℕ) : scaled (a * 10 ^ k) (s + k) = scaled a s := by
  simp only [scaled, pow_add]
  push_cast
  field_simp

theorem mul_pow_sub (a : ℤ) (h : s ≤ t) : scaled (a * 10 ^ (t - s)) t = scaled a s := by
  have := mul_pow a s (t - s)
  rwa [Nat.add_sub_cancel' h] at this

theorem le_iff : scaled a s ≤ scaled b t ↔ a * 10 ^ t ≤ b * 10 ^ s := by
  have hs : (0 : ℚ) < 10 ^ s := by positivity
  have ht : (0 : ℚ) < 10 ^ t := by positivity
  simp only [scaled]
  rw [div_le_div_iff₀ hs ht]
  exact_mod_cast Iff.rfl

theorem lt_iff : scaled a s < scaled b t ↔ a * 10 ^ t < b * 10 ^ s := by
  rw [← not_le, ← not_le, le_iff]

theorem eq_iff : scaled a s = scaled b t ↔ a * 10 ^ t = b * 10 ^ s := by
  rw [le_antisymm_iff, le_antisymm_iff, le_iff, le_iff]

theorem pos_iff : 0 < scaled a s ↔ 0 < a := by
  rw [← zero 0, lt_iff]
  simp

theorem nonneg_iff : 0 ≤ scaled a s ↔ 0 ≤ a := by
  rw [← zero 0, le_iff]
  simp

theorem eq_zero_iff : scaled a s = 0 ↔ a = 0 := by
  rw [← zero 0, eq_iff]
  simp

theorem inj_right (h : scaled a s = scaled b s) : a = b := by
  rw [eq_iff] at h
  exact mul_right_cancel₀ (by positivity) h

end Scaled
