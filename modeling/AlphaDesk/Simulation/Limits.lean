import AlphaDesk.Domain.Rounding
import AlphaDesk.Simulation.Exits

/-! # The limits of a portfolio

An order is admitted when its size at the price of the last level meets the bankroll.
No fill costs more than that as long as no level that may fill the order is dearer than
the last one of the arrival book. The bids of a book fall, so that a seller is admitted
at the cheapest of them.
-/

namespace AlphaDesk

open Decimal Except Simulation RoundingMode

namespace Simulation

variable {buy : Bool} {limitPrice : Option Price} {ppm : UInt32} {walk walk' : WalkFill}
  {levels : List BookLevel} {price : Price} {quantity total : Quantity} {p : ℚ}

theorem quoteNotional_le {notional : UsdAmount} (h : quoteNotional price quantity = .ok notional)
    (hq : 0 ≤ quantity.value) (hp : 0 ≤ p) (hle : price.value ≤ p) :
    notional.value ≤ p * quantity.value ∧ notional.scale = moneyScale := by
  obtain ⟨-, hraw, hscale⟩ := checkedMul_eq_ok_iff.mp (amount_eq_ok.mp h)
  refine ⟨?_, hscale⟩
  have hround : (notional.raw : ℚ) ≤ p * quantity.value * 10 ^ moneyScale := by
    rw [hraw]
    apply round_towardZero_le
    · positivity
    · gcongr
  rw [raw_eq, hscale] at hround
  exact le_of_mul_le_mul_right hround (by positivity)

theorem scaleQty_nonneg {available : Quantity} (h : scaleQty quantity ppm = .ok available)
    (hq : 0 ≤ quantity.value) : 0 ≤ available.value := by
  unfold scaleQty at h
  split at h
  · rw [← ok.inj h]
    exact value_nonneg_iff.mpr le_rfl
  split at h
  · rwa [← ok.inj h]
  · obtain ⟨-, hraw, -⟩ := checkedMul_eq_ok_iff.mp (amount_eq_ok.mp h)
    have hppm : 0 ≤ (ppmDecimal ppm).value := value_nonneg_iff.mpr (by simp [ppmDecimal])
    rw [value_nonneg_iff, hraw, round_of_nonneg (by positivity)]
    exact Int.floor_nonneg.mpr (by positivity)

/-- The levels that an order may take hold what they say and are not dearer than a price. -/
def NotDearer (buy : Bool) (limitPrice : Option Price) (p : ℚ) (levels : List BookLevel) : Prop :=
  ∀ level ∈ levels, 0 ≤ level.quantity.value ∧
    (crosses buy limitPrice level = true → level.price.value ≤ p)

/-- A fill of at most a quantity, at no more than a price. -/
structure FilledWithin (p : ℚ) (total : Quantity) (filled remaining : Quantity)
    (notional : UsdAmount) : Prop where
  rest_nonneg : 0 ≤ remaining.value
  sum_le : filled.value + remaining.value ≤ total.value
  cost_le : notional.value ≤ p * filled.value
  scale_eq : notional.scale = moneyScale

theorem FilledWithin.walkLevels (hp : 0 ≤ p) (hlevels : NotDearer buy limitPrice p levels)
    (hw : FilledWithin p total walk.filledQuantity walk.remainingQuantity walk.quoteNotional)
    (h : walkLevels buy limitPrice ppm walk levels = .ok walk') :
    FilledWithin p total walk'.filledQuantity walk'.remainingQuantity walk'.quoteNotional := by
  refine walkLevels_invariant (P := fun w =>
    FilledWithin p total w.filledQuantity w.remainingQuantity w.quoteNotional) ?_ hw h
  intro level hmem hcross available walk next htakes hw
  obtain ⟨hquantity, hprice⟩ := hlevels level hmem
  obtain ⟨slice, hslice, hnotional⟩ := htakes.notional
  refine ⟨?_, ?_, ?_, ?_⟩
  · have htake := min_le_left walk.remainingQuantity.value available.value
    rw [value_checkedSub htakes.remaining, value_qtyMin]
    exact sub_nonneg.mpr htake
  · rw [value_checkedAdd htakes.filled, value_checkedSub htakes.remaining]
    linarith [hw.sum_le]
  · have htake : 0 ≤ (qtyMin walk.remainingQuantity available).value := by
      rw [value_qtyMin]
      exact le_min hw.rest_nonneg (scaleQty_nonneg htakes.scaled hquantity)
    obtain ⟨hle, -⟩ := quoteNotional_le hslice htake hp (hprice hcross)
    rw [value_checkedAdd hnotional, value_checkedAdd htakes.filled, mul_add]
    exact add_le_add hw.cost_le hle
  · exact (checkedAdd_eq_ok_iff.mp hnotional).2.2.trans hw.scale_eq

variable {book : BookSnapshot} {requested : Quantity} {fillPpm : Option UInt32}
  {costs : FillCostParams} {fill : CostedFill}

theorem FilledWithin.merge {left right : CostedFill}
    (hl : FilledWithin p total left.filledQuantity left.remainingQuantity left.quoteNotional)
    (hr : FilledWithin p left.remainingQuantity right.filledQuantity right.remainingQuantity
      right.quoteNotional) (h : mergeFills left right = .ok fill) :
    FilledWithin p total fill.filledQuantity fill.remainingQuantity fill.quoteNotional := by
  obtain ⟨hfilled, hremaining, -, hnotional⟩ := mergeFills_eq_ok h
  refine ⟨hremaining ▸ hr.rest_nonneg, ?_, ?_, ?_⟩
  · rw [value_checkedAdd hfilled, hremaining]
    linarith [hl.sum_le, hr.sum_le]
  · rw [value_checkedAdd hfilled, value_checkedAdd hnotional, mul_add]
    exact add_le_add hl.cost_le hr.cost_le
  · exact (checkedAdd_eq_ok_iff.mp hnotional).2.2.trans hl.scale_eq

end Simulation

namespace SimulationRequest

variable {r : SimulationRequest} {B : Blake3} {encode : List SimulationEvent → List UInt8}
  {entry : Entry} {result : SimulationResult}

variable {arrival : ProtocolTime} {arrivalBook : BookSnapshot} {buy : Bool}
  {requested original walkQty depth : Quantity} {p : ℚ} {filling : Filling}

end SimulationRequest

end AlphaDesk
