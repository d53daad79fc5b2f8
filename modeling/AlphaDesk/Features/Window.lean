import AlphaDesk.Domain.Rounding
import AlphaDesk.Foundation.Run
import AlphaDesk.Simulation.Book

/-! # Rolling windows

A window holds the latest samples of a feature and reports a statistic of them, in decimals
rounded to the nearest. An update is checked, stored and then smoothed, so that one refused by
the smoothing stays stored. The score of a window is that of its largest sample, and its
covariance subtracts a product of rounded means.
-/

namespace AlphaDesk

open Except Simulation Decimal RoundingMode

inductive FeatureError
  | malformed (what reason : String)
  | windowCapacityExceeded
  | insufficientHistory

def FeatureError.ofValueError : ValueError → FeatureError
  | .divisionByZero => .malformed "window" "division by zero"
  | .overflow => .malformed "window" "overflow"
  | .scaleMismatch _ _ => .malformed "window" "scale mismatch"
  | _ => .malformed "window" "invalid decimal"

inductive WindowAlgorithm
  | eventCount
  | protocolTime
  | exponentiallyWeighted
  | quantileSketch
  | covariance
  | robustZScore
  deriving DecidableEq

structure WindowUpdate where
  eventId : EventId
  eventTime : ProtocolTime
  sequence : UInt64
  value : Decimal
  pairedValue : Option Decimal

/-- A window with its samples from the oldest. -/
structure RollingWindow where
  algorithm : WindowAlgorithm
  eventCapacity : ℕ
  durationMicros : ℤ
  decayPpm : UInt32
  quantilePpm : UInt32
  seen : Finset EventId
  samples : List WindowUpdate
  ewma : Option Decimal
  duration_range : 0 ≤ durationMicros ∧ durationMicros < 2 ^ 63

structure WindowSnapshot where
  algorithm : WindowAlgorithm
  parameterVersion : ℕ
  count : ℕ
  value : Option Decimal

def WindowUpdate.x (u : WindowUpdate) : ℤ := u.value.raw

def WindowUpdate.y (u : WindowUpdate) : ℤ := (u.pairedValue.map (·.raw)).getD 0

namespace RollingWindow

def valued {α : Type} (x : Except ValueError α) : Except FeatureError α :=
  x.mapError FeatureError.ofValueError

def tryNew (algorithm : WindowAlgorithm) (eventCapacity : ℕ) (durationMicros : ℤ)
    (decayPpm quantilePpm : UInt32) : Except FeatureError RollingWindow :=
  if eventCapacity = 0 then .error (.malformed "window" "capacity must be >= 1")
  else if h : 0 ≤ durationMicros ∧ durationMicros < 2 ^ 63 then
    if 1000000 < decayPpm ∨ 1000000 < quantilePpm then
      .error (.malformed "window" "ppm parameter out of range")
    else if algorithm = .exponentiallyWeighted ∧ (decayPpm = 0 ∨ decayPpm = 1000000) then
      .error (.malformed "window" "ewma decay must be exclusive of 0 and 1")
    else .ok ⟨algorithm, eventCapacity, durationMicros, decayPpm, quantilePpm, ∅, [], none, h⟩
  else .error (.malformed "window" "duration must be non-negative")

def ewmaStep (previous next : Decimal) (decayPpm : UInt32) : Except FeatureError Decimal := do
  let alpha := ppmDecimal decayPpm
  let oneMinus ← valued ((ppmDecimal 1000000).checkedSub alpha)
  let left ← valued (next.checkedMul alpha previous.scale .nearestTiesToEven)
  let right ← valued (previous.checkedMul oneMinus previous.scale .nearestTiesToEven)
  valued (left.checkedAdd right)

/-- The first value is taken as it is. -/
def smooth (decayPpm : UInt32) (ewma : Option Decimal) (next : Decimal) :
    Except FeatureError (Option Decimal) :=
  match ewma with
  | none => .ok (some next)
  | some previous => (ewmaStep previous next decayPpm).map some

/-- Drop expired samples from the front, and their identifiers. -/
def popWhile (expired : List WindowUpdate → Bool) :
    List WindowUpdate → Finset EventId → List WindowUpdate × Finset EventId
  | [], seen => ([], seen)
  | sample :: rest, seen =>
    if expired (sample :: rest) then popWhile expired rest (seen.erase sample.eventId)
    else (sample :: rest, seen)

variable (w : RollingWindow) (update : WindowUpdate)

def pop (expired : List WindowUpdate → Bool) : RollingWindow :=
  { w with
    samples := (popWhile expired w.samples w.seen).1
    seen := (popWhile expired w.samples w.seen).2 }

def evict (now : ProtocolTime) : Except FeatureError RollingWindow :=
  match w.algorithm with
  | .eventCount => .ok (w.pop fun samples => w.eventCapacity < samples.length)
  | .protocolTime =>
    let cutoff := (now.unixMicros : ℤ) - w.durationMicros
    if cutoff < -(2 ^ 63) then .error (.malformed "window" "protocol time underflow")
    else .ok (w.pop fun samples => samples.head?.any (·.eventTime.unixMicros < cutoff))
  | _ => .ok w

/-- The checks of an update, which come before anything is stored. -/
def refusal : Option FeatureError :=
  if w.eventCapacity ≤ w.samples.length ∧ w.algorithm ≠ .eventCount ∧
      w.algorithm ≠ .protocolTime then some .windowCapacityExceeded
  else if w.algorithm = .covariance ∧ update.pairedValue = none then
    some (.malformed "window_update" "covariance requires paired_value")
  else if w.samples.getLast?.any (update.sequence ≤ ·.sequence) then
    some (.malformed "window_update" "sequence must increase")
  else none

def store : RollingWindow :=
  { w with seen := insert update.eventId w.seen, samples := w.samples ++ [update] }

/-- The reply to an update, with the window behind it. -/
def offer : Except FeatureError Bool × RollingWindow :=
  if update.eventId ∈ w.seen then (.ok false, w)
  else match w.refusal update with
    | some e => (.error e, w)
    | none =>
      match (w.store update).evict update.eventTime with
      | .error e => (.error e, w.store update)
      | .ok kept =>
        if w.algorithm = .exponentiallyWeighted then
          match smooth kept.decayPpm kept.ewma update.value with
          | .error e => (.error e, kept)
          | .ok ewma => (.ok true, { kept with ewma })
        else (.ok true, kept)

def count : Except FeatureError Decimal :=
  if h : InI128 w.samples.length then .ok ⟨w.samples.length, 0, h, Nat.zero_le _⟩
  else .error (.malformed "window" "count overflow")

def zeroAt (scale : ℕ) : Except FeatureError Decimal := valued (fromRaw ⟨0, inI128_zero⟩ scale)

def mean : Except FeatureError (Option Decimal) :=
  match w.samples with
  | [] => .ok none
  | first :: _ => do
    let zero ← zeroAt first.value.scale
    let sum ← w.samples.foldlM (fun sum sample => valued (sum.checkedAdd sample.value)) zero
    let count ← w.count
    (valued (sum.checkedDiv count first.value.scale .nearestTiesToEven)).map some

def sorted (values : List Decimal) : List Decimal :=
  values.insertionSort fun a b => a.numLe b = true

def quantile : Except FeatureError (Option Decimal) :=
  let numerator := (w.samples.length - 1) * w.quantilePpm.toNat
  if 2 ^ 64 ≤ numerator then .error (.malformed "window" "quantile overflow")
  else .ok (sorted (w.samples.map (·.value)))[numerator / 1000000]?

/-- The sums of a covariance: of the values, of the paired values and of their products. -/
def addPair (scale : ℕ) (sums : Decimal × Decimal × Decimal) (sample : WindowUpdate) :
    Except FeatureError (Decimal × Decimal × Decimal) := do
  let y ← Except.ofOption (.malformed "window" "missing paired_value") sample.pairedValue
  let sumX ← valued (sums.1.checkedAdd sample.value)
  let sumY ← valued (sums.2.1.checkedAdd y)
  let xy ← valued (sample.value.checkedMul y (2 * scale) .nearestTiesToEven)
  let sumXY ← valued (sums.2.2.checkedAdd xy)
  return (sumX, sumY, sumXY)

def covariance : Except FeatureError (Option Decimal) :=
  match w.samples with
  | first :: _ :: _ => do
    let scale := first.value.scale
    let zero ← zeroAt scale
    let zeroXY ← zeroAt (2 * scale)
    let (sumX, sumY, sumXY) ← w.samples.foldlM (addPair scale) (zero, zero, zeroXY)
    let n ← w.count
    let meanX ← valued (sumX.checkedDiv n scale .nearestTiesToEven)
    let meanY ← valued (sumY.checkedDiv n scale .nearestTiesToEven)
    let meanXY ← valued (meanX.checkedMul meanY (2 * scale) .nearestTiesToEven)
    let second ← valued (sumXY.checkedDiv n (2 * scale) .nearestTiesToEven)
    (valued (second.checkedSub meanXY)).map some
  | _ => .ok none

/-- The middle one of sorted values, or the mean of the two in the middle. -/
def median (values : List Decimal) : Except FeatureError Decimal :=
  match values[values.length / 2]? with
  | none => .error .insufficientHistory
  | some upper =>
    if values.length % 2 = 0 then do
      let sum ← valued ((values.getD (values.length / 2 - 1) upper).checkedAdd upper)
      valued (sum.checkedDiv (integer 2 inI128_two) upper.scale .nearestTiesToEven)
    else .ok upper

def spread (values : List Decimal) : Except FeatureError (Decimal × Decimal) := do
  let location ← median values
  let deviations ← values.mapM fun value =>
    valued (if location.numLe value then value.checkedSub location else location.checkedSub value)
  let mad ← median (sorted deviations)
  if mad.raw = 0 then throw (.malformed "window" "mad is zero")
  return (location, mad)

def robustZ : Except FeatureError (Option Decimal) :=
  if w.samples.length < 3 then .error .insufficientHistory
  else do
    let values := sorted (w.samples.map (·.value))
    let (location, mad) ← spread values
    let last ← Except.ofOption .insufficientHistory values.getLast?
    let lastDev ← valued (last.checkedSub location)
    (valued (lastDev.checkedDiv mad last.scale .nearestTiesToEven)).map some

def statistic : Except FeatureError (Option Decimal) :=
  match w.algorithm with
  | .eventCount | .protocolTime => w.mean
  | .exponentiallyWeighted => .ok w.ewma
  | .quantileSketch => w.quantile
  | .covariance => w.covariance
  | .robustZScore => w.robustZ

def snapshot : Except FeatureError WindowSnapshot :=
  w.statistic.map fun value => ⟨w.algorithm, 1, w.samples.length, value⟩

variable {w update}

/-- The update passes the checks, is stored and is refused by the smoothing. -/
def FailsLate (w : RollingWindow) (update : WindowUpdate) : Prop :=
  update.eventId ∉ w.seen ∧ w.refusal update = none ∧ w.algorithm = .exponentiallyWeighted ∧
    (smooth w.decayPpm w.ewma update.value).toOption = none

theorem offer_weighted (h : w.algorithm = .exponentiallyWeighted) (hseen : update.eventId ∉ w.seen)
    (hrefusal : w.refusal update = none) :
    w.offer update = match smooth w.decayPpm w.ewma update.value with
      | .error e => (.error e, w.store update)
      | .ok ewma => (.ok true, { w.store update with ewma }) := by
  have hkept : (w.store update).evict update.eventTime = .ok (w.store update) := by
    simp only [evict, store, h]
  simp only [offer, if_neg hseen, hrefusal, hkept, if_pos h]
  rfl

/-- The smoothed value of a window is that of its samples. -/
def Smoothed (w : RollingWindow) : Prop :=
  w.algorithm = .exponentiallyWeighted ∧
    (w.samples.map (·.value)).foldlM (smooth w.decayPpm) none = .ok w.ewma

theorem Smoothed.offer (h : w.Smoothed) (hlate : ¬w.FailsLate update) :
    (w.offer update).2.Smoothed := by
  by_cases hseen : update.eventId ∈ w.seen
  · rwa [RollingWindow.offer, if_pos hseen]
  cases hrefusal : w.refusal update with
  | some e => rwa [RollingWindow.offer, if_neg hseen, hrefusal]
  | none =>
    rw [offer_weighted h.1 hseen hrefusal]
    cases hs : smooth w.decayPpm w.ewma update.value with
    | error e => exact absurd ⟨hseen, hrefusal, h.1, by rw [hs]; rfl⟩ hlate
    | ok ewma =>
      refine ⟨h.1, ?_⟩
      simp only [store, List.map_append, List.foldlM_append, h.2, ok_bind]
      simp [hs]

def after (w : RollingWindow) (updates : List WindowUpdate) : RollingWindow :=
  Run.final (fun w update => (w.offer update).2) w updates

open WindowUpdate

end RollingWindow

end AlphaDesk
