import Mathlib.Data.Nat.Digits.Defs
import Mathlib.Tactic

/-! # Decimal digits

Numbers as decimal digits, at their natural length or padded to a width, and the
number that a run of digits denotes.
-/

namespace Digits

def isDigit (c : Char) : Bool := 48 ≤ c.toNat && c.toNat ≤ 57

/-- The number a run of digits denotes, most significant digit first. -/
def number (cs : List Char) : ℕ := cs.foldl (fun n c => 10 * n + (c.toNat - 48)) 0

theorem number_concat (cs : List Char) (c : Char) :
    number (cs ++ [c]) = 10 * number cs + (c.toNat - 48) := by
  rw [number, List.foldl_append]
  rfl

theorem isDigit_digitChar {n : ℕ} (h : n < 10) : isDigit (Nat.digitChar n) = true := by
  rw [isDigit, Nat.toNat_digitChar_of_lt_ten h]
  simp only [Bool.and_eq_true, decide_eq_true_eq]
  omega

/-- The lowest digits of a number, as many as the width says. -/
def fixed : ℕ → ℕ → List Char
  | 0, _ => []
  | w + 1, n => fixed w (n / 10) ++ [Nat.digitChar (n % 10)]

@[simp] theorem length_fixed (w n : ℕ) : (fixed w n).length = w := by
  induction w generalizing n with
  | zero => rfl
  | succ w ih => simp [fixed, ih]

theorem all_isDigit_fixed (w n : ℕ) : (fixed w n).all isDigit = true := by
  induction w generalizing n with
  | zero => rfl
  | succ w ih =>
    rw [fixed, List.all_append, ih]
    simp [isDigit_digitChar (Nat.mod_lt n (by decide : 10 > 0))]

theorem number_fixed {w n : ℕ} (h : n < 10 ^ w) : number (fixed w n) = n := by
  induction w generalizing n with
  | zero =>
    have hn : n = 0 := by omega
    rw [hn]
    rfl
  | succ w ih =>
    have hdiv : n / 10 < 10 ^ w := by
      rw [pow_succ] at h
      exact Nat.div_lt_of_lt_mul (by linarith)
    rw [fixed, number_concat, ih hdiv, Nat.toNat_digitChar_of_lt_ten (Nat.mod_lt n (by decide))]
    omega

theorem toDigits_ne_nil (n : ℕ) : Nat.toDigits 10 n ≠ [] := by
  rw [Nat.toDigits_eq_if (by decide)]
  split <;> simp

theorem all_isDigit_toDigits (n : ℕ) : (Nat.toDigits 10 n).all isDigit = true := by
  induction n using Nat.strong_induction_on with
  | _ n ih =>
    rw [Nat.toDigits_eq_if (by decide)]
    split
    next h => simp [isDigit_digitChar h]
    next h =>
      rw [List.all_append, ih (n / 10) (by omega)]
      simp [isDigit_digitChar (Nat.mod_lt n (by decide : 10 > 0))]

theorem number_toDigits (n : ℕ) : number (Nat.toDigits 10 n) = n := by
  induction n using Nat.strong_induction_on with
  | _ n ih =>
    rw [Nat.toDigits_eq_if (by decide)]
    split
    next h => simp [number, Nat.toNat_digitChar_of_lt_ten h]
    next h =>
      rw [number_concat, ih (n / 10) (by omega),
        Nat.toNat_digitChar_of_lt_ten (Nat.mod_lt n (by decide))]
      omega

/-- Cutting a run of digits off at a character that is none. -/
theorem span_digits {cs : List Char} (h : cs.all isDigit = true) {c : Char}
    (hc : isDigit c = false) (rest : List Char) :
    (cs ++ c :: rest).takeWhile (· ≠ c) = cs ∧
      (cs ++ c :: rest).dropWhile (· ≠ c) = c :: rest := by
  have hne : ∀ d ∈ cs, (decide (d ≠ c)) = true := by
    intro d hd
    rw [decide_eq_true_iff]
    rintro rfl
    rw [List.all_eq_true.mp h d hd] at hc
    cases hc
  constructor
  · rw [List.takeWhile_append_of_pos hne]
    simp
  · rw [List.dropWhile_append_of_pos hne]
    simp

end Digits
