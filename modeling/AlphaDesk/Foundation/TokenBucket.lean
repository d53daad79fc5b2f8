import Mathlib.Tactic

/-! # Token buckets

A bucket holds tokens up to a cap and gains as many as its cap in each period. The part
of a token that a refill earns is kept for the next one, so that it does not matter in
how many steps the time passes. What is taken over a time is bounded by what the bucket
held at the start and gained since.
-/

/-- A bucket whose content and remainder, in parts of a period, are within their bounds. -/
@[ext]
structure TokenBucket (period : ℕ) where
  cap : ℕ
  available : ℕ
  remainder : ℕ
  available_le : available ≤ cap
  remainder_lt : remainder < period

namespace TokenBucket

variable {period : ℕ}

theorem period_pos (b : TokenBucket period) : 0 < period :=
  (Nat.zero_le b.remainder).trans_lt b.remainder_lt

def level (b : TokenBucket period) : ℕ := b.available * period + b.remainder

/-- What the bucket holds after some time. A full bucket keeps no part of a token. -/
def refill (b : TokenBucket period) (elapsed : ℕ) : TokenBucket period where
  cap := b.cap
  available :=
    if elapsed = 0 ∨ b.cap ≤ b.available then b.available
    else min b.cap (b.available + (b.cap * elapsed + b.remainder) / period)
  remainder :=
    if elapsed = 0 then b.remainder
    else if b.cap ≤ b.available ∨
      b.cap ≤ b.available + (b.cap * elapsed + b.remainder) / period then 0
    else (b.cap * elapsed + b.remainder) % period
  available_le := by
    split
    · exact b.available_le
    · exact min_le_left _ _
  remainder_lt := by
    split
    · exact b.remainder_lt
    · split
      · exact b.period_pos
      · exact Nat.mod_lt _ b.period_pos

def take (b : TokenBucket period) (amount : ℕ) : TokenBucket period :=
  { b with
    available := b.available - amount
    available_le := (Nat.sub_le _ _).trans b.available_le }

/-- Give tokens back; those above the cap are lost. -/
def refund (b : TokenBucket period) (amount : ℕ) : TokenBucket period :=
  { b with
    available := min b.cap (b.available + amount)
    available_le := min_le_left _ _ }

def drain (b : TokenBucket period) : TokenBucket period :=
  { b with
    available := 0
    remainder := 0
    available_le := Nat.zero_le _
    remainder_lt := b.period_pos }

def dropRemainder (b : TokenBucket period) : TokenBucket period :=
  { b with
    remainder := 0
    remainder_lt := b.period_pos }

variable (b : TokenBucket period) (n : ℕ)

@[simp] theorem cap_refill : (b.refill n).cap = b.cap := rfl

@[simp] theorem cap_take : (b.take n).cap = b.cap := rfl

@[simp] theorem cap_refund : (b.refund n).cap = b.cap := rfl

@[simp] theorem cap_drain : b.drain.cap = b.cap := rfl

@[simp] theorem available_take : (b.take n).available = b.available - n := rfl

@[simp] theorem available_refund : (b.refund n).available = min b.cap (b.available + n) := rfl

@[simp] theorem remainder_take : (b.take n).remainder = b.remainder := rfl

@[simp] theorem remainder_refund : (b.refund n).remainder = b.remainder := rfl

@[simp] theorem level_drain : b.drain.level = 0 := by simp [level, drain]

@[simp] theorem refill_zero : b.refill 0 = b := by
  ext <;> simp [refill]

theorem refill_full {e : ℕ} (he : e ≠ 0) (h : b.cap ≤ b.available) :
    (b.refill e).available = b.cap ∧ (b.refill e).remainder = 0 := by
  constructor
  · exact (if_pos (.inr h)).trans (le_antisymm b.available_le h)
  · exact (if_neg he).trans (if_pos (.inl h))

/-- Up to the cap, the content grows by the cap in each period. -/
theorem level_refill {e : ℕ} (he : e ≠ 0) :
    (b.refill e).level = min (b.level + b.cap * e) (b.cap * period) := by
  rcases le_or_gt b.cap b.available with h | h
  · obtain ⟨havailable, hremainder⟩ := b.refill_full he h
    have := Nat.mul_le_mul_right period h
    rw [level, havailable, hremainder, level]
    omega
  · have hdiv := Nat.div_add_mod (b.cap * e + b.remainder) period
    have hlt := Nat.mod_lt (b.cap * e + b.remainder) b.period_pos
    simp only [level, refill, he, h.not_ge, or_self, false_or, if_false]
    split
    next hfull =>
      have := Nat.mul_le_mul_right period hfull
      rw [add_mul, mul_comm (_ / _)] at this
      rw [min_eq_left hfull]
      omega
    next hroom =>
      have := Nat.mul_le_mul_right period (Nat.succ_le_of_lt (not_le.mp hroom))
      rw [Nat.succ_mul, add_mul, mul_comm (_ / _)] at this
      rw [min_eq_right (not_le.mp hroom).le, add_mul, mul_comm (_ / _)]
      omega

theorem level_refill_le (e : ℕ) : (b.refill e).level ≤ b.level + b.cap * e := by
  rcases eq_or_ne e 0 with rfl | he
  · simp
  · exact (b.level_refill he).trans_le (min_le_left _ _)

theorem eq_of_level {a b : TokenBucket period} (hcap : a.cap = b.cap) (h : a.level = b.level) :
    a = b := by
  have hremainder : a.remainder = b.remainder := by
    simpa [level, Nat.mod_eq_of_lt, remainder_lt] using congrArg (· % period) h
  rw [level, level, hremainder, Nat.add_right_cancel_iff] at h
  exact TokenBucket.ext hcap (Nat.eq_of_mul_eq_mul_right a.period_pos h) hremainder

theorem refill_refill (e₁ e₂ : ℕ) : (b.refill e₁).refill e₂ = b.refill (e₁ + e₂) := by
  rcases eq_or_ne e₁ 0 with rfl | h₁
  · simp
  rcases eq_or_ne e₂ 0 with rfl | h₂
  · simp
  refine eq_of_level rfl ?_
  rw [level_refill _ h₂, level_refill _ h₁, level_refill _ (by omega), cap_refill, mul_add]
  omega

end TokenBucket
