import AlphaDesk.Domain.Ids
import AlphaDesk.Foundation.Fallible
import AlphaDesk.Foundation.Scaled

/-! # Fixed-point decimals

A decimal is a 128-bit integer at a scale of at most 38 digits. Equality and
order are those of the rational values, whatever the scales; addition and
subtraction need equal scales and fail on overflow.
-/

namespace AlphaDesk

def maxDecimalScale : ℕ := 38

def InI128 (raw : ℤ) : Prop := -(2 ^ 127) ≤ raw ∧ raw < 2 ^ 127

instance : DecidablePred InI128 := fun _ => inferInstanceAs (Decidable (_ ∧ _))

theorem inI128_zero : InI128 0 := by decide

structure Decimal where
  raw : ℤ
  scale : ℕ
  raw_range : InI128 raw
  scale_le : scale ≤ maxDecimalScale
  deriving DecidableEq

abbrev Price := Decimal
abbrev Quantity := Decimal
abbrev QuoteAmount := Decimal
abbrev UsdAmount := Decimal
abbrev FundingRate := Decimal
abbrev FeeRate := Decimal
abbrev Leverage := Decimal
abbrev PositionQuantity := Decimal
abbrev BasisPoints := Decimal

inductive RoundingMode
  | towardZero
  | floor
  | ceiling
  | nearestTiesToEven

/-- Integer division under a rounding mode; the quotient truncates. -/
def divRoundBig (numerator denominator : ℤ) (mode : RoundingMode) : Except ValueError ℤ :=
  if denominator = 0 then .error .divisionByZero
  else
    let quotient := numerator.tdiv denominator
    let remainder := numerator.tmod denominator
    let sameSign := decide (numerator < 0) == decide (denominator < 0)
    if remainder = 0 then .ok quotient
    else match mode with
      | .towardZero => .ok quotient
      | .floor => .ok (if sameSign then quotient else quotient - 1)
      | .ceiling => .ok (if sameSign then quotient + 1 else quotient)
      | .nearestTiesToEven =>
        let twice := |remainder| * 2
        if twice < |denominator| ∨ (twice = |denominator| ∧ quotient.tmod 2 = 0) then .ok quotient
        else .ok (quotient + if sameSign then 1 else -1)

def rescaleBig (raw : ℤ) (sourceScale targetScale : ℕ) (mode : RoundingMode) :
    Except ValueError ℤ :=
  if targetScale = sourceScale then .ok raw
  else if sourceScale < targetScale then .ok (raw * 10 ^ (targetScale - sourceScale))
  else divRoundBig raw (10 ^ (sourceScale - targetScale)) mode

namespace Decimal

/-- A decimal from an integer that may leave the 128-bit range. -/
def fromBig (raw : ℤ) (scale : ℕ) (hs : scale ≤ maxDecimalScale) : Except ValueError Decimal :=
  if h : InI128 raw then .ok ⟨raw, scale, h, hs⟩ else .error .overflow

def fromRaw (raw : { r : ℤ // InI128 r }) (scale : ℕ) : Except ValueError Decimal :=
  if h : scale ≤ maxDecimalScale then .ok ⟨raw.1, scale, raw.2, h⟩
  else .error (.scaleOutOfRange scale maxDecimalScale)

def zero (scale : ℕ) (h : scale ≤ maxDecimalScale) : Decimal := ⟨0, scale, inI128_zero, h⟩

def checkedAdd (a b : Decimal) : Except ValueError Decimal :=
  if a.scale = b.scale then fromBig (a.raw + b.raw) a.scale a.scale_le
  else .error (.scaleMismatch a.scale b.scale)

def checkedSub (a b : Decimal) : Except ValueError Decimal :=
  if a.scale = b.scale then fromBig (a.raw - b.raw) a.scale a.scale_le
  else .error (.scaleMismatch a.scale b.scale)

def checkedMul (a b : Decimal) (outputScale : ℕ) (mode : RoundingMode) :
    Except ValueError Decimal :=
  if h : outputScale ≤ maxDecimalScale then do
    let raw ← rescaleBig (a.raw * b.raw) (a.scale + b.scale) outputScale mode
    fromBig raw outputScale h
  else .error (.scaleOutOfRange outputScale maxDecimalScale)

/-- The digits that the scales are apart go to the side that lacks them. -/
def checkedDiv (a b : Decimal) (outputScale : ℕ) (mode : RoundingMode) :
    Except ValueError Decimal :=
  if h : outputScale ≤ maxDecimalScale then
    if b.raw = 0 then .error .divisionByZero
    else do
      let numerator := a.raw * 10 ^ (outputScale + b.scale - a.scale)
      let denominator := b.raw * 10 ^ (a.scale - (outputScale + b.scale))
      fromBig (← divRoundBig numerator denominator mode) outputScale h
  else .error (.scaleOutOfRange outputScale maxDecimalScale)

def rescale (d : Decimal) (targetScale : ℕ) (mode : RoundingMode) : Except ValueError Decimal :=
  if h : targetScale ≤ maxDecimalScale then do
    fromBig (← rescaleBig d.raw d.scale targetScale mode) targetScale h
  else .error (.scaleOutOfRange targetScale maxDecimalScale)

def stripZeros : ℤ → ℕ → ℤ × ℕ
  | raw, 0 => (raw, 0)
  | raw, s + 1 => if raw.tmod 10 = 0 then stripZeros (raw.tdiv 10) s else (raw, s + 1)

def canonicalParts (d : Decimal) : ℤ × ℕ := if d.raw = 0 then (0, 0) else stripZeros d.raw d.scale

def numEq (a b : Decimal) : Bool := a.canonicalParts == b.canonicalParts

def numericCmp (a b : Decimal) : Ordering :=
  compare (a.raw * 10 ^ b.scale) (b.raw * 10 ^ a.scale)

instance : Ord Decimal := ⟨numericCmp⟩

def numLe (a b : Decimal) : Bool := (compare a b).isLE

def value (d : Decimal) : ℚ := scaled d.raw d.scale

variable {a b c : Decimal} {mode : RoundingMode} {n : ℕ}

theorem ext_raw (hr : a.raw = b.raw) (hs : a.scale = b.scale) : a = b := by
  cases a
  cases b
  simp_all

theorem fromBig_eq_ok_iff {raw : ℤ} {scale : ℕ} {hs : scale ≤ maxDecimalScale} :
    fromBig raw scale hs = .ok c ↔ c.raw = raw ∧ c.scale = scale := by
  unfold fromBig
  obtain ⟨r, s, hr, hs'⟩ := c
  split
  · simp [eq_comm]
  next h =>
    refine ⟨nofun, ?_⟩
    rintro ⟨rfl, -⟩
    exact absurd hr h

theorem checkedAdd_eq_ok_iff :
    a.checkedAdd b = .ok c ↔ a.scale = b.scale ∧ c.raw = a.raw + b.raw ∧ c.scale = a.scale := by
  unfold checkedAdd
  split
  next h => simp [fromBig_eq_ok_iff, h]
  next h => simp [h]

theorem checkedSub_eq_ok_iff :
    a.checkedSub b = .ok c ↔ a.scale = b.scale ∧ c.raw = a.raw - b.raw ∧ c.scale = a.scale := by
  unfold checkedSub
  split
  next h => simp [fromBig_eq_ok_iff, h]
  next h => simp [h]

theorem value_checkedAdd (h : a.checkedAdd b = .ok c) : c.value = a.value + b.value := by
  obtain ⟨hs, hr, hc⟩ := checkedAdd_eq_ok_iff.mp h
  rw [value, value, value, hr, hc, ← hs, Scaled.add]

theorem value_checkedSub (h : a.checkedSub b = .ok c) : c.value = a.value - b.value := by
  obtain ⟨hs, hr, hc⟩ := checkedSub_eq_ok_iff.mp h
  rw [value, value, value, hr, hc, ← hs, Scaled.sub]

theorem value_rescale (hn : a.scale ≤ n) (h : a.rescale n mode = .ok c) : c.value = a.value := by
  unfold rescale at h
  split at h
  · obtain ⟨r, hr, hc⟩ := Except.of_bind h
    obtain ⟨hcr, hcs⟩ := fromBig_eq_ok_iff.mp hc
    unfold rescaleBig at hr
    split at hr
    next he =>
      obtain rfl := Except.ok.inj hr
      rw [value, value, hcr, hcs, he]
    next hne =>
      rw [if_pos (lt_of_le_of_ne hn (Ne.symm hne))] at hr
      obtain rfl := Except.ok.inj hr
      rw [value, value, hcr, hcs, Scaled.mul_pow_sub _ hn]
  · cases h

theorem numericCmp_eq_compare (a b : Decimal) : numericCmp a b = compare a.value b.value := by
  rcases lt_trichotomy (a.raw * 10 ^ b.scale) (b.raw * 10 ^ a.scale) with h | h | h
  · exact (compare_lt_iff_lt.mpr h).trans (compare_lt_iff_lt.mpr (Scaled.lt_iff.mpr h)).symm
  · exact (compare_eq_iff_eq.mpr h).trans (compare_eq_iff_eq.mpr (Scaled.eq_iff.mpr h)).symm
  · exact (compare_gt_iff_gt.mpr h).trans (compare_gt_iff_gt.mpr (Scaled.lt_iff.mpr h)).symm

theorem compare_eq_compareOn : (compare : Decimal → Decimal → Ordering) = compareOn value := by
  funext a b
  exact numericCmp_eq_compare a b

instance : Std.TransOrd Decimal := by
  rw [Std.TransOrd, compare_eq_compareOn]
  infer_instance

theorem compare_eq_lt_iff : compare a b = .lt ↔ a.value < b.value := by
  rw [compare_eq_compareOn]
  exact compare_lt_iff_lt

theorem compare_eq_eq_iff : compare a b = .eq ↔ a.value = b.value := by
  rw [compare_eq_compareOn]
  exact compare_eq_iff_eq

theorem numLe_iff : a.numLe b = true ↔ a.value ≤ b.value := by
  rw [numLe, compare_eq_compareOn, compareOn, Ordering.isLE_iff_ne_gt]
  exact compare_le_iff_le

theorem value_pos_iff : 0 < a.value ↔ 0 < a.raw := Scaled.pos_iff

theorem value_nonneg_iff : 0 ≤ a.value ↔ 0 ≤ a.raw := Scaled.nonneg_iff

theorem value_eq_zero_iff : a.value = 0 ↔ a.raw = 0 := Scaled.eq_zero_iff

variable {p q : ℤ × ℕ}

theorem scaled_stripZeros (raw : ℤ) (s : ℕ) :
    scaled (stripZeros raw s).1 (stripZeros raw s).2 = scaled raw s := by
  induction s generalizing raw with
  | zero => rfl
  | succ s ih =>
    rw [stripZeros]
    split
    next h =>
      rw [ih]
      have hraw : raw.tdiv 10 * 10 = raw := Int.tdiv_mul_cancel (Int.dvd_of_tmod_eq_zero h)
      conv_rhs => rw [← hraw]
      simpa using (Scaled.mul_pow (raw.tdiv 10) s 1).symm
    next => rfl

/-- A form with no zero left to strip. -/
def Stripped (p : ℤ × ℕ) : Prop := p.2 = 0 ∨ ¬ (10 : ℤ) ∣ p.1

theorem stripped_stripZeros (raw : ℤ) (s : ℕ) : Stripped (stripZeros raw s) := by
  induction s generalizing raw with
  | zero => exact .inl rfl
  | succ s ih =>
    rw [stripZeros]
    split
    · exact ih _
    next h => exact .inr fun hd => h (Int.tmod_eq_zero_of_dvd hd)

theorem Stripped.scale_le (hp : Stripped p) (h : scaled p.1 p.2 = scaled q.1 q.2) : p.2 ≤ q.2 := by
  by_contra hlt
  rw [Scaled.eq_iff] at h
  obtain ⟨k, hk⟩ := Nat.exists_eq_add_of_lt (not_le.mp hlt)
  rcases hp with h0 | h10
  · omega
  · refine h10 ⟨q.1 * 10 ^ k, ?_⟩
    have hq : p.1 * 10 ^ q.2 = (10 * (q.1 * 10 ^ k)) * 10 ^ q.2 := by
      rw [h, hk]
      ring
    exact mul_right_cancel₀ (by positivity) hq

theorem Stripped.eq_of_scaled_eq (hp : Stripped p) (hq : Stripped q)
    (h : scaled p.1 p.2 = scaled q.1 q.2) : p = q := by
  have hs : p.2 = q.2 := le_antisymm (hp.scale_le h) (hq.scale_le h.symm)
  rw [hs] at h
  exact Prod.ext (Scaled.inj_right h) hs

theorem stripped_canonicalParts (d : Decimal) : Stripped d.canonicalParts := by
  unfold canonicalParts
  split
  · exact .inl rfl
  · exact stripped_stripZeros _ _

theorem scaled_canonicalParts (d : Decimal) :
    scaled d.canonicalParts.1 d.canonicalParts.2 = d.value := by
  unfold canonicalParts
  split
  next h => simp [value, h]
  next => exact scaled_stripZeros _ _

theorem numEq_iff {a b : Decimal} : numEq a b = true ↔ a.value = b.value := by
  rw [numEq, beq_iff_eq, ← scaled_canonicalParts, ← scaled_canonicalParts]
  constructor
  · intro h
    rw [h]
  · exact (stripped_canonicalParts a).eq_of_scaled_eq (stripped_canonicalParts b)

end Decimal

inductive OrderSide
  | buy
  | sell
  deriving DecidableEq

inductive FeeTypeV1
  | maker
  | taker
  | makerRebate
  | referralDiscount
  | protocol
  deriving DecidableEq

inductive AccountAbstractionModeV1
  | standard
  | unified
  | portfolio
  | dexAbstraction
  deriving DecidableEq

inductive MarginModeV1
  | cross
  | isolated
  | strictIsolated
  deriving DecidableEq

/-- How firmly a source has confirmed what it reports. -/
inductive ConfirmationClass
  | provisionalSource
  | committedPrimary
  | committedIndependent
  | reconciledSnapshot
  | corrected
  | expired
  deriving DecidableEq

end AlphaDesk
