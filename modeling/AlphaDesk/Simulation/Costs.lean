import AlphaDesk.Simulation.Book

/-! # Costs and policies

What a simulated order costs and how it is placed and closed: fees, slippage and
impact of a fill, funding over a hold, the latency before the order arrives, the
limits of a portfolio, and the policies for the entry and the exit.
-/

namespace AlphaDesk

open Simulation

structure FeeSchedule where
  takerFeeRate : FeeRate
  makerFeeRate : FeeRate
  deriving DecidableEq

structure FundingSchedule where
  intervalMicros : UInt64
  rate : FundingRate
  deriving DecidableEq

structure SlippageModel where
  extraBps : BasisPoints
  deriving DecidableEq

structure ImpactModel where
  bpsAtFullDepth : BasisPoints
  deriving DecidableEq

inductive LatencyModel
  | fixed (delayMicros : UInt64)
  | uniform (minMicros maxMicros : UInt64)
  deriving DecidableEq

structure LatencyAssumptions where
  detection : LatencyModel
  network : LatencyModel
  processing : LatencyModel
  maxBookStalenessMicros : UInt64
  deriving DecidableEq

structure CostModel where
  version : String
  fees : FeeSchedule
  funding : FundingSchedule
  slippage : SlippageModel
  impact : ImpactModel
  latency : LatencyAssumptions
  deriving DecidableEq

def FeeSchedule.new (takerFeeRate makerFeeRate : FeeRate) : Except SimError FeeSchedule :=
  if takerFeeRate.raw < 0 ∨ makerFeeRate.raw < 0 then .error (.unmodeledCost "negative_fee_rate")
  else .ok ⟨takerFeeRate, makerFeeRate⟩

def FundingSchedule.new (intervalMicros : UInt64) (rate : FundingRate) :
    Except SimError FundingSchedule :=
  if intervalMicros = 0 then .error (.unmodeledCost "funding_interval")
  else .ok ⟨intervalMicros, rate⟩

def SlippageModel.new (extraBps : BasisPoints) : Except SimError SlippageModel :=
  if extraBps.raw < 0 then .error (.unmodeledCost "negative_slippage") else .ok ⟨extraBps⟩

def ImpactModel.new (bpsAtFullDepth : BasisPoints) : Except SimError ImpactModel :=
  if bpsAtFullDepth.raw < 0 then .error (.unmodeledCost "negative_impact")
  else .ok ⟨bpsAtFullDepth⟩

/-- A delay in microseconds. The widest span has no number of its delays in 64 bits. -/
def LatencyModel.sample (seed : UInt64) : LatencyModel → Except SimError ℕ
  | .fixed delayMicros => .ok delayMicros.toNat
  | .uniform minMicros maxMicros =>
    if maxMicros < minMicros then .error (.unmodeledCost "latency_uniform_bounds")
    else
      let span := maxMicros.toNat - minMicros.toNat
      if span = 0 then .ok minMicros.toNat
      else if span + 1 = 2 ^ 64 then .error .panicked
      else .ok (minMicros.toNat + seed.toNat % (span + 1))

def LatencyAssumptions.totalDelayMicros (latency : LatencyAssumptions) (seed : UInt64) :
    Except SimError ℕ := do
  let detection ← latency.detection.sample seed
  let network ← latency.network.sample (seed * 0x9E3779B97F4A7C15)
  let processing ← latency.processing.sample (seed * 0xD1B54A32D192ED03)
  if detection + network + processing < 2 ^ 64 then return detection + network + processing
  else throw .invalidAmount

def CostModel.validate (costs : CostModel) : Except SimError Unit :=
  if (trim costs.version).isEmpty then .error (.unmodeledCost "cost_model_version")
  else do
    let _ ← FeeSchedule.new costs.fees.takerFeeRate costs.fees.makerFeeRate
    let _ ← FundingSchedule.new costs.funding.intervalMicros costs.funding.rate
    let _ ← SlippageModel.new costs.slippage.extraBps
    let _ ← ImpactModel.new costs.impact.bpsAtFullDepth
    return ()

/-- Where a simulated fill comes from. -/
inductive FillClass
  | synthetic
  | venue
  deriving DecidableEq

def FillClass.admitSimulated : FillClass → Except SimError Unit
  | .synthetic => .ok ()
  | .venue => .error .venueFillForbidden

structure CostedFill where
  filledQuantity : Quantity
  remainingQuantity : Quantity
  vwap : Option Price
  quoteNotional : UsdAmount
  fee : UsdAmount
  slippage : UsdAmount
  impact : UsdAmount
  spreadCost : UsdAmount
  isTaker : Bool
  fillClass : FillClass
  venueFill : Bool

def CostedFill.admitSynthetic (fill : CostedFill) : Except SimError Unit := do
  fill.fillClass.admitSimulated
  if fill.venueFill then throw .venueFillForbidden else return ()

structure FillCostParams where
  isTaker : Bool
  takerFeeRate : FeeRate
  makerFeeRate : FeeRate
  slippage : SlippageModel
  impact : ImpactModel

namespace Simulation

/-- The impact grows with the share of the depth that was taken. -/
def impactBps (impact : ImpactModel) (filled depth : Quantity) : Except SimError BasisPoints := do
  let participation ← amount (filled.checkedDiv depth 8 .towardZero)
  amount (impact.bpsAtFullDepth.checkedMul participation impact.bpsAtFullDepth.scale .towardZero)

def applyCosts (book : BookSnapshot) (buy : Bool) (walk : WalkFill) (costs : FillCostParams) :
    Except SimError CostedFill := do
  let vwap ← walk.vwap
  if qtyIsZero walk.filledQuantity then
    return ⟨walk.filledQuantity, walk.remainingQuantity, vwap, walk.quoteNotional, zeroUsd, zeroUsd,
      zeroUsd, zeroUsd, costs.isTaker, .synthetic, false⟩
  else do
    let feeRate := if costs.isTaker then costs.takerFeeRate else costs.makerFeeRate
    let fee ← applyFee walk.quoteNotional feeRate
    let slippage ← applyBps walk.quoteNotional costs.slippage.extraBps
    let depth ← book.oppositeDepth buy
    if qtyIsZero depth then throw (.unmodeledCost "impact_depth")
    else do
      let bps ← impactBps costs.impact walk.filledQuantity depth
      let impact ← applyBps walk.quoteNotional bps
      let mid ← midPrice book.bestBid book.bestAsk
      let midNotional ← Simulation.quoteNotional mid walk.filledQuantity
      let spreadCost ← absUsdDiff walk.quoteNotional midNotional
      return ⟨walk.filledQuantity, walk.remainingQuantity, vwap, walk.quoteNotional, fee, slippage,
        impact, spreadCost, costs.isTaker, .synthetic, false⟩

def costedWalk (book : BookSnapshot) (buy : Bool) (requested : Quantity)
    (limitPrice : Option Price) (fillPpm : Option UInt32) (costs : FillCostParams) :
    Except SimError CostedFill := do
  let walk ← book.takeLiquidity buy requested limitPrice fillPpm
  applyCosts book buy walk costs

/-- One payment for every interval that ends within the hold. The rounds bound the loop: the
interval is positive. -/
def fundingPayments (schedule : FundingSchedule) (direction : Direction) (entryNotional : UsdAmount)
    (closedAt : ProtocolTime) : ℕ → ProtocolTime → UsdAmount → Except SimError UsdAmount
  | 0, _, _ => .error .panicked
  | rounds + 1, cursor, total => do
    let next ← addProtocol cursor schedule.intervalMicros.toNat
    if closedAt.unixMicros < next.unixMicros then return total
    else do
      let payment ← applyFunding entryNotional schedule.rate
      let total ← match direction with
        | .long => amount (total.checkedAdd payment)
        | .short => if payment.raw = 0 then .ok total else amount (total.checkedSub payment)
        | .flat => .error (.invalidRequest "funding.flat_position")
      fundingPayments schedule direction entryNotional closedAt rounds next total

def fundingOverHold (schedule : FundingSchedule) (direction : Direction)
    (entryNotional : UsdAmount) (openedAt closedAt : ProtocolTime) : Except SimError UsdAmount :=
  if closedAt.unixMicros < openedAt.unixMicros then
    .error (.invalidRequest "funding.hold_interval")
  else
    let hold := closedAt.unixMicros - openedAt.unixMicros
    if 0 < hold ∧ schedule.intervalMicros = 0 then .error .unmodeledFunding
    else fundingPayments schedule direction entryNotional closedAt (hold + 1) openedAt zeroUsd

end Simulation

inductive OrderType
  | market
  | ioc
  | gtc
  | alo
  deriving DecidableEq

structure OrderPolicy where
  orderType : OrderType
  limitPrice : Option Price
  queueFillMinPpm : Option UInt32
  queueFillMaxPpm : Option UInt32
  deriving DecidableEq

namespace OrderPolicy

def validate (policy : OrderPolicy) : Except SimError Unit :=
  match policy.orderType with
  | .market | .ioc =>
    if policy.queueFillMinPpm.isSome ∨ policy.queueFillMaxPpm.isSome then
      .error (.invalidRequest "order_policy.unexpected_queue")
    else .ok ()
  | .gtc =>
    if policy.limitPrice = none ∨ policy.queueFillMinPpm = none ∨ policy.queueFillMaxPpm = none then
      .error (.unmodeledCost "gtc_queue_or_limit")
    else .ok ()
  | .alo => if policy.limitPrice = none then .error (.unmodeledCost "alo_limit") else .ok ()

/-- The share of a level that the queue leaves to the order. -/
def queueFillPpm (policy : OrderPolicy) (seed : UInt64) : Except SimError (Option UInt32) :=
  match policy.queueFillMinPpm, policy.queueFillMaxPpm with
  | none, none => .ok none
  | some min, some max =>
    if max < min ∨ 1000000 < max then .error (.unmodeledCost "gtc_queue_model")
    else if min = max then .ok (some min)
    else
      let span := max.toNat - min.toNat
      .ok (some (min + UInt32.ofNat (seed.toNat % (span + 1))))
  | _, _ => .error (.unmodeledCost "gtc_queue_model")

end OrderPolicy

def Simulation.entryIsBuy : Direction → Bool
  | .long => true
  | .short | .flat => false

structure ExitPolicy where
  timeHoldMicros : UInt64
  takeProfit : Option Price
  stop : Option Price
  deriving DecidableEq

namespace ExitPolicy

variable (policy : ExitPolicy)

def takesProfit (long : Bool) (book : BookSnapshot) : Bool :=
  policy.takeProfit.any fun takeProfit =>
    if long then takeProfit.numLe book.bestBid else book.bestAsk.numLe takeProfit

def stops (long : Bool) (book : BookSnapshot) : Bool :=
  policy.stop.any fun stop => if long then book.bestBid.numLe stop else stop.numLe book.bestAsk

def earlier (hit : Bool) (book : BookSnapshot) (reason : String) (chosen : ProtocolTime × String) :
    ProtocolTime × String :=
  if hit ∧ book.effectiveAt.unixMicros < chosen.1.unixMicros then (book.effectiveAt, reason)
  else chosen

/-- What a book makes of the exit that was chosen before it. -/
def scanExit (openedAt timeExit : ProtocolTime) (long : Bool) (chosen : ProtocolTime × String)
    (book : BookSnapshot) : ProtocolTime × String :=
  if book.effectiveAt.unixMicros ≤ openedAt.unixMicros ∨
      timeExit.unixMicros < book.effectiveAt.unixMicros then chosen
  else
    earlier (policy.stops long book) book "stop"
      (earlier (policy.takesProfit long book) book "take_profit" chosen)

/-- The exit without any book: at the end of the hold, or when the evidence is invalidated. -/
def plannedExit (openedAt timeExit : ProtocolTime) (invalidateAt : Option ProtocolTime) :
    ProtocolTime × String :=
  match invalidateAt with
  | none => (timeExit, "time")
  | some invalidAt =>
    if openedAt.unixMicros < invalidAt.unixMicros ∧ invalidAt.unixMicros ≤ timeExit.unixMicros then
      (invalidAt, "evidence_invalidation")
    else (timeExit, "time")

def chooseExit (books : List BookSnapshot) (openedAt : ProtocolTime) (evaluationKnownAt : KnownTime)
    (long : Bool) (invalidateAt : Option ProtocolTime) :
    Except SimError (ProtocolTime × String) := do
  let timeExit ← addProtocol openedAt policy.timeHoldMicros.toNat
  refuseFutureBooks books evaluationKnownAt
  let chosen := books.foldl (policy.scanExit openedAt timeExit long)
    (plannedExit openedAt timeExit invalidateAt)
  let _ ← selectBook books chosen.1 evaluationKnownAt
  return chosen

end ExitPolicy

structure PortfolioLimits where
  bankroll : UsdAmount
  participationLimitPpm : UInt32
  deriving DecidableEq

namespace PortfolioLimits

variable (limits : PortfolioLimits)

def capQuantity (requested oppositeDepth : Quantity) : Except SimError Quantity :=
  if qtyIsZero oppositeDepth then .error (.orderRejected "empty_book")
  else do
    let allowed ← amount (oppositeDepth.checkedMul (ppmDecimal limits.participationLimitPpm)
      oppositeDepth.scale .towardZero)
    let capped := qtyMin requested allowed
    if qtyIsZero capped then throw (.orderRejected "participation_limit") else return capped

def admitNotional (notional : UsdAmount) : Except SimError Unit :=
  if notional.numLe limits.bankroll then .ok () else .error (.orderRejected "bankroll")

end PortfolioLimits

inductive FailureInjection
  | none
  | rejectOrder
  | delaySubmission (extraMicros : UInt64)
  | markBookStale
  | removeBookLiquidity
  deriving DecidableEq

namespace FailureInjection

def extraDelayMicros : FailureInjection → ℕ
  | .delaySubmission extraMicros => extraMicros.toNat
  | .none | .rejectOrder | .markBookStale | .removeBookLiquidity => 0

/-- What an injected failure makes of a submitted order. -/
def inject : FailureInjection → Except SimError Unit
  | .rejectOrder => .error (.orderRejected "injected_reject")
  | .markBookStale => .error .staleBook
  | .removeBookLiquidity => .error (.orderRejected "injected_empty_book")
  | .none | .delaySubmission _ => .ok ()

end FailureInjection

structure SignalSnapshot where
  signalId : StringId
  marketId : MarketId
  direction : Direction
  detectedAt : ProtocolTime
  knownAt : KnownTime
  requestedQuantity : Quantity
  deriving DecidableEq

def SignalSnapshot.refuseFuture (signal : SignalSnapshot) (evaluationKnownAt : KnownTime) :
    Except SimError Unit :=
  if evaluationKnownAt.unixMicros < signal.knownAt.unixMicros then
    .error (.futureData "signal.known_at")
  else .ok ()

end AlphaDesk
