import AlphaDesk.Domain.Decimal
import AlphaDesk.Events.Evidence

/-! # Amounts and book snapshots

The simulator keeps prices, quantities and money at a scale of eight digits and rounds
toward zero. A book snapshot has a time at which it took effect and a time at which it
became known. The book for an order is the latest one that took effect and was known
when the order arrived.
-/

namespace AlphaDesk

/-- The failures of a simulation, with `panicked` for a call that panics. -/
inductive SimError
  | unmodeledCost (component : String)
  | futureData (field : String)
  | invalidRequest (field : String)
  | invalidAmount
  | missingArrivalBook
  | staleBook
  | orderRejected (reason : String)
  | unmodeledExit
  | unmodeledFunding
  | tradingSignerForbidden
  | fillsInventedForbidden
  | liveExecutionForbidden
  | venueFillForbidden
  | panicked

def SimError.ofValueError (_ : ValueError) : SimError := .invalidAmount

inductive Direction
  | long
  | short
  | flat
  deriving DecidableEq

namespace Simulation

def moneyScale : ℕ := 8

def priceScale : ℕ := 8

def qtyScale : ℕ := 8

def amount {α : Type} (x : Except ValueError α) : Except SimError α :=
  x.mapError SimError.ofValueError

theorem amount_eq_ok {α : Type} {x : Except ValueError α} {a : α} :
    amount x = .ok a ↔ x = .ok a := Except.mapError_eq_ok

def alignPrice (price : Price) : Except SimError Price :=
  amount (price.rescale priceScale .towardZero)

def alignQty (quantity : Quantity) : Except SimError Quantity :=
  amount (quantity.rescale qtyScale .towardZero)

def zeroUsd : UsdAmount := .zero moneyScale (by decide)

def zeroQty : Quantity := .zero qtyScale (by decide)

def quoteNotional (price : Price) (quantity : Quantity) : Except SimError UsdAmount :=
  amount (price.checkedMul quantity moneyScale .towardZero)

def mulRate (notional : UsdAmount) (rate : Decimal) : Except SimError UsdAmount :=
  amount (notional.checkedMul rate moneyScale .towardZero)

def applyFee (notional : UsdAmount) (rate : FeeRate) : Except SimError UsdAmount :=
  mulRate notional rate

def applyFunding (notional : UsdAmount) (rate : FundingRate) : Except SimError UsdAmount :=
  mulRate notional rate

def integer (n : ℤ) (h : InI128 n) : Decimal := ⟨n, 0, h, Nat.zero_le _⟩

theorem inI128_two : InI128 2 := by decide

def applyBps (notional : UsdAmount) (bps : BasisPoints) : Except SimError UsdAmount := do
  let product ← amount (notional.checkedMul bps (moneyScale + 4) .towardZero)
  amount (product.checkedDiv (integer 10000 (by decide)) moneyScale .towardZero)

def midPrice (bid ask : Price) : Except SimError Price := do
  let sum ← amount (bid.checkedAdd ask)
  amount (sum.checkedDiv (integer 2 inI128_two) priceScale .towardZero)

def absUsdDiff (left right : UsdAmount) : Except SimError UsdAmount :=
  if right.numLe left then amount (left.checkedSub right) else amount (right.checkedSub left)

def qtyMin (left right : Quantity) : Quantity := if left.numLe right then left else right

def qtyIsZero (quantity : Quantity) : Bool := quantity.raw = 0

/-- A share of a million. -/
def ppmDecimal (ppm : UInt32) : Decimal where
  raw := ppm.toNat
  scale := 6
  raw_range := by
    have h := ppm.toNat_lt
    exact ⟨by omega, by omega⟩
  scale_le := by decide

def vwapOf (notional : UsdAmount) (filled : Quantity) : Except SimError (Option Price) :=
  if qtyIsZero filled then .ok none
  else do
    let price ← amount (notional.checkedDiv filled priceScale .towardZero)
    return some price

def addProtocol (time : ProtocolTime) (delayMicros : ℕ) : Except SimError ProtocolTime :=
  if h : time.unixMicros + delayMicros < 2 ^ 63 then .ok ⟨time.unixMicros + delayMicros, h⟩
  else .error .invalidAmount

def addKnown (time : KnownTime) (delayMicros : ℕ) : Except SimError KnownTime :=
  if h : time.unixMicros + delayMicros < 2 ^ 63 then .ok ⟨time.unixMicros + delayMicros, h⟩
  else .error .invalidAmount

theorem addProtocol_eq_ok {time later : ProtocolTime} {delayMicros : ℕ} :
    addProtocol time delayMicros = .ok later ↔
      later.unixMicros = time.unixMicros + delayMicros := by
  unfold addProtocol
  obtain ⟨t, ht⟩ := later
  split
  · simp [eq_comm]
  next h =>
    refine ⟨nofun, ?_⟩
    rintro rfl
    exact absurd ht h

end Simulation

open Simulation

/-- A level as it is read; its quantity is not checked when a request is validated. -/
structure BookLevel where
  price : Price
  quantity : Quantity
  deriving DecidableEq

/-- A snapshot as it is read, before it is validated. -/
structure BookSnapshot where
  effectiveAt : ProtocolTime
  knownAt : KnownTime
  bids : List BookLevel
  asks : List BookLevel
  deriving DecidableEq

structure WalkFill where
  filledQuantity : Quantity
  remainingQuantity : Quantity
  quoteNotional : UsdAmount

namespace BookSnapshot

/-- The first price of a side; a validated book has one on each side. -/
def firstPrice (levels : List BookLevel) : Price :=
  (levels.head?.map (·.price)).getD (.zero priceScale (by decide))

def new (effectiveAt : ProtocolTime) (knownAt : KnownTime) (bids asks : List BookLevel) :
    Except SimError BookSnapshot :=
  if knownAt.unixMicros < effectiveAt.unixMicros then
    .error (.invalidRequest "book.known_before_effective")
  else
    let bids := bids.insertionSort fun a b => b.price.numLe a.price = true
    let asks := asks.insertionSort fun a b => a.price.numLe b.price = true
    if bids = [] ∨ asks = [] then .error (.unmodeledCost "two_sided_spread")
    else if (firstPrice asks).numLe (firstPrice bids) then .error (.invalidRequest "book.crossed")
    else .ok ⟨effectiveAt, knownAt, bids, asks⟩

variable (book : BookSnapshot)

def bestBid : Price := firstPrice book.bids

def bestAsk : Price := firstPrice book.asks

def oppositeLevels (buy : Bool) : List BookLevel := if buy then book.asks else book.bids

def oppositeDepth (buy : Bool) : Except SimError Quantity :=
  (book.oppositeLevels buy).foldlM (fun total level => amount (total.checkedAdd level.quantity))
    zeroQty

end BookSnapshot

namespace Simulation

/-- The share of a level that is available. -/
def scaleQty (quantity : Quantity) (ppm : UInt32) : Except SimError Quantity :=
  if ppm = 0 then .ok zeroQty
  else if ppm = 1000000 then .ok quantity
  else amount (quantity.checkedMul (ppmDecimal ppm) qtyScale .towardZero)

def crosses (buy : Bool) (limitPrice : Option Price) (level : BookLevel) : Bool :=
  match limitPrice with
  | none => true
  | some limit => if buy then level.price.numLe limit else limit.numLe level.price

/-- Take what is left of an order from the levels, up to the first beyond its limit. -/
def walkLevels (buy : Bool) (limitPrice : Option Price) (ppm : UInt32) :
    WalkFill → List BookLevel → Except SimError WalkFill
  | walk, [] => .ok walk
  | walk, level :: levels =>
    if qtyIsZero walk.remainingQuantity then .ok walk
    else if !crosses buy limitPrice level then .ok walk
    else do
      let available ← scaleQty level.quantity ppm
      let take := qtyMin walk.remainingQuantity available
      if qtyIsZero take then walkLevels buy limitPrice ppm walk levels
      else do
        let slice ← Simulation.quoteNotional level.price take
        let notional ← amount (walk.quoteNotional.checkedAdd slice)
        let filled ← amount (walk.filledQuantity.checkedAdd take)
        let remaining ← amount (walk.remainingQuantity.checkedSub take)
        walkLevels buy limitPrice ppm ⟨filled, remaining, notional⟩ levels

end Simulation

namespace BookSnapshot

variable (book : BookSnapshot)

def takeLiquidity (buy : Bool) (requested : Quantity) (limitPrice : Option Price)
    (fillPpm : Option UInt32) : Except SimError WalkFill := do
  let remaining ← alignQty requested
  walkLevels buy limitPrice (fillPpm.getD 1000000) ⟨zeroQty, remaining, zeroUsd⟩
    (book.oppositeLevels buy)

end BookSnapshot

def WalkFill.vwap (walk : WalkFill) : Except SimError (Option Price) :=
  vwapOf walk.quoteNotional walk.filledQuantity

namespace Simulation

/-- A book was in effect and known at a time. -/
def Visible (arrival : ProtocolTime) (book : BookSnapshot) : Prop :=
  book.effectiveAt.unixMicros ≤ arrival.unixMicros ∧ book.knownAt.unixMicros ≤ arrival.unixMicros

instance (arrival : ProtocolTime) : DecidablePred (Visible arrival) :=
  fun _ => inferInstanceAs (Decidable (_ ∧ _))

/-- The later book by the time of its effect and then by the time it was known; of two with
equal times the one behind the other. -/
def laterBook (best : Option BookSnapshot) (book : BookSnapshot) : Option BookSnapshot :=
  match best with
  | none => some book
  | some other =>
    if other.effectiveAt.unixMicros < book.effectiveAt.unixMicros ∨
        (other.effectiveAt.unixMicros = book.effectiveAt.unixMicros ∧
          other.knownAt.unixMicros ≤ book.knownAt.unixMicros) then some book
    else some other

def refuseFutureBooks (books : List BookSnapshot) (evaluationKnownAt : KnownTime) :
    Except SimError Unit :=
  if books.any (evaluationKnownAt.unixMicros < ·.knownAt.unixMicros) then
    .error (.futureData "book.known_at")
  else .ok ()

def selectBook (books : List BookSnapshot) (arrival : ProtocolTime)
    (evaluationKnownAt : KnownTime) : Except SimError BookSnapshot := do
  refuseFutureBooks books evaluationKnownAt
  Except.ofOption .missingArrivalBook ((books.filter (Visible arrival)).foldl laterBook none)

end Simulation

end AlphaDesk
