import AlphaDesk.Simulation.Costs

/-! # The simulator

A request is validated and run: the order arrives behind its latency, takes what the
arrival book offers and may rest for the time of the hold, and the position is closed
where the exit policy says. A run leaves the list of its events and what it earned.
-/

namespace AlphaDesk

open Bytes Simulation

structure SimulationRequest where
  evaluationKnownAt : KnownTime
  signal : SignalSnapshot
  books : List BookSnapshot
  costModel : CostModel
  orderPolicy : OrderPolicy
  exitPolicy : ExitPolicy
  portfolio : PortfolioLimits
  failure : FailureInjection
  invalidateAt : Option ProtocolTime
  seed : UInt64
  deriving DecidableEq

/-- What a run reports. A rejected order ends the run with an error, so that its event is in no
report. -/
inductive SimulationEvent
  | signalObserved (time : ProtocolTime) (signalId : StringId)
  | orderSubmitted (time : ProtocolTime) (orderType : OrderType)
  | orderRested (time : ProtocolTime)
  | partialFill (time : ProtocolTime) (quantity : Quantity) (price : Price) (fillClass : FillClass)
    (venueFill : Bool)
  | fill (time : ProtocolTime) (quantity : Quantity) (price : Price) (fillClass : FillClass)
    (venueFill : Bool)
  | cancelled (time : ProtocolTime)
  | fundingApplied (time : ProtocolTime) (amount : UsdAmount)
  | exitSubmitted (time : ProtocolTime) (reason : String)
  | positionClosed (time : ProtocolTime)
  deriving DecidableEq

namespace SimulationEvent

def time : SimulationEvent → ProtocolTime
  | signalObserved time _ | orderSubmitted time _ | orderRested time | partialFill time _ _ _ _
  | fill time _ _ _ _ | cancelled time | fundingApplied time _ | exitSubmitted time _
  | positionClosed time => time

/-- No event of a report may claim a fill of a venue. -/
def refuse : SimulationEvent → Except SimError Unit
  | partialFill _ _ _ fillClass venueFill | fill _ _ _ fillClass venueFill => do
    fillClass.admitSimulated
    if venueFill then throw .venueFillForbidden else return ()
  | _ => .ok ()

end SimulationEvent

structure SimulationResult where
  fillClass : FillClass
  fillsInvented : Bool
  liveExecution : Bool
  venueFill : Bool
  events : List SimulationEvent
  filledQuantity : Quantity
  missedQuantity : Quantity
  entryVwap : Option Price
  exitVwap : Option Price
  entryFees : UsdAmount
  exitFees : UsdAmount
  funding : UsdAmount
  slippage : UsdAmount
  impact : UsdAmount
  spreadCost : UsdAmount
  netPnl : UsdAmount
  traceHash : Hash32

def SimulationResult.refuseInventedOrLive (result : SimulationResult) : Except SimError Unit :=
  if result.fillsInvented then .error .fillsInventedForbidden
  else if result.liveExecution then .error .liveExecutionForbidden
  else if result.venueFill then .error .venueFillForbidden
  else do
    result.fillClass.admitSimulated
    result.events.forM SimulationEvent.refuse

namespace SimulationRequest

variable (r : SimulationRequest)

def validateBook (book : BookSnapshot) : Except SimError Unit := do
  let _ ← BookSnapshot.new book.effectiveAt book.knownAt book.bids book.asks
  if r.evaluationKnownAt.unixMicros < book.knownAt.unixMicros then
    throw (.futureData "book.known_at")
  else return ()

def validate : Except SimError Unit := do
  r.costModel.validate
  r.orderPolicy.validate
  r.signal.refuseFuture r.evaluationKnownAt
  if r.books = [] then throw (.unmodeledCost "arrival_book") else r.books.forM r.validateBook

def fillCosts (isTaker : Bool) : FillCostParams :=
  ⟨isTaker, r.costModel.fees.takerFeeRate, r.costModel.fees.makerFeeRate, r.costModel.slippage,
    r.costModel.impact⟩

/-- The time at which the order arrives. The clock carries the time at which the signal was known
with it. -/
def arrive : Except SimError ProtocolTime :=
  if r.signal.knownAt.unixMicros < r.signal.detectedAt.unixMicros then
    .error (.invalidRequest "clock.known_before_protocol")
  else do
    let latency ← r.costModel.latency.totalDelayMicros r.seed
    let delay := latency + r.failure.extraDelayMicros
    if 2 ^ 64 ≤ delay then throw .invalidAmount
    else do
      let arrival ← addProtocol r.signal.detectedAt delay
      let _ ← addKnown r.signal.knownAt delay
      return arrival

/-- The book that an order meets at a time, unless it is stale. -/
def freshBook (time : ProtocolTime) : Except SimError BookSnapshot := do
  let book ← selectBook r.books time r.evaluationKnownAt
  if r.costModel.latency.maxBookStalenessMicros.toNat <
      time.unixMicros - book.effectiveAt.unixMicros then throw .staleBook
  else return book

/-- An order that must not take is rejected when it would. -/
def refuseTaking (book : BookSnapshot) (buy : Bool) : Except SimError Unit :=
  match r.orderPolicy.orderType with
  | .alo => do
    let limit ← Except.ofOption (.unmodeledCost "alo_limit") r.orderPolicy.limitPrice
    if if buy then book.bestAsk.numLe limit else limit.numLe book.bestBid then
      throw (.orderRejected "alo_would_take")
    else return ()
  | .market | .ioc | .gtc => .ok ()

/-- The size of the order within the limits of the portfolio, which its notional at the last level
has to meet. -/
def admitSize (book : BookSnapshot) (buy : Bool) (original : Quantity) :
    Except SimError Quantity := do
  let depth ← book.oppositeDepth buy
  let walkQty ← r.portfolio.capQuantity original depth
  let level ← Except.ofOption .missingArrivalBook (book.oppositeLevels buy).getLast?
  let worstNotional ← Simulation.quoteNotional level.price walkQty
  r.portfolio.admitNotional worstNotional
  return walkQty

end SimulationRequest

namespace Simulation

def fillEvents (time : ProtocolTime) (fill : CostedFill) (originalRequest : Quantity) :
    Except SimError (List SimulationEvent) := do
  fill.admitSynthetic
  if qtyIsZero fill.filledQuantity then return []
  else
    match fill.vwap with
    | none => return []
    | some price =>
      if originalRequest.numLe fill.filledQuantity then
        return [.fill time fill.filledQuantity price .synthetic false]
      else return [.partialFill time fill.filledQuantity price .synthetic false]

def mergeFills (left right : CostedFill) : Except SimError CostedFill := do
  left.admitSynthetic
  right.admitSynthetic
  let filled ← amount (left.filledQuantity.checkedAdd right.filledQuantity)
  let notional ← amount (left.quoteNotional.checkedAdd right.quoteNotional)
  let vwap ← vwapOf notional filled
  let fee ← amount (left.fee.checkedAdd right.fee)
  let slippage ← amount (left.slippage.checkedAdd right.slippage)
  let impact ← amount (left.impact.checkedAdd right.impact)
  let spreadCost ← amount (left.spreadCost.checkedAdd right.spreadCost)
  return ⟨filled, right.remainingQuantity, vwap, notional, fee, slippage, impact, spreadCost,
    left.isTaker || right.isTaker, .synthetic, false⟩

end Simulation

structure Filling where
  fill : CostedFill
  events : List SimulationEvent

namespace SimulationRequest

variable (r : SimulationRequest)

def WhileResting (arrival timeExit : ProtocolTime) (book : BookSnapshot) : Prop :=
  arrival.unixMicros < book.effectiveAt.unixMicros ∧
    book.effectiveAt.unixMicros ≤ timeExit.unixMicros

instance (arrival timeExit : ProtocolTime) : DecidablePred (WhileResting arrival timeExit) :=
  fun _ => inferInstanceAs (Decidable (_ ∧ _))

def restOnBook (buy : Bool) (ppm : Option UInt32) (original : Quantity)
    (arrival timeExit : ProtocolTime) (s : Filling) (book : BookSnapshot) :
    Except SimError Filling :=
  if qtyIsZero s.fill.remainingQuantity then .ok s
  else if ¬WhileResting arrival timeExit book then .ok s
  else do
    let extra ← costedWalk book buy s.fill.remainingQuantity r.orderPolicy.limitPrice ppm
      (r.fillCosts false)
    if qtyIsZero extra.filledQuantity then return s
    else do
      let events ← fillEvents book.effectiveAt extra original
      let fill ← mergeFills s.fill extra
      return ⟨fill, s.events ++ events⟩

/-- What a resting order ends with: the rest of it is cancelled at the end of the hold. -/
def cancelRest (timeExit : ProtocolTime) (s : Filling) : Filling :=
  if qtyIsZero s.fill.remainingQuantity then s
  else { s with events := s.events ++ [.cancelled timeExit] }

def restGtc (buy : Bool) (s : Filling) (original : Quantity) (arrival : ProtocolTime) :
    Except SimError Filling := do
  let ppm ← r.orderPolicy.queueFillPpm (r.seed + 1)
  let timeExit ← addProtocol arrival r.exitPolicy.timeHoldMicros.toNat
  let s ← r.books.foldlM (r.restOnBook buy ppm original arrival timeExit) s
  return cancelRest timeExit s

def entryPpm : Except SimError (Option UInt32) :=
  match r.orderPolicy.orderType with
  | .gtc => r.orderPolicy.queueFillPpm r.seed
  | .market | .ioc | .alo => .ok none

def fillOnArrival (book : BookSnapshot) (buy : Bool) (requested original : Quantity)
    (arrival : ProtocolTime) : Except SimError Filling := do
  let ppm ← r.entryPpm
  let immediate ← costedWalk book buy requested r.orderPolicy.limitPrice ppm (r.fillCosts true)
  let events ← fillEvents arrival immediate original
  return ⟨immediate, events⟩

/-- Only an order that is good till cancelled rests with what it lacks. -/
def rests (immediate : CostedFill) : Bool :=
  r.orderPolicy.orderType = .gtc ∧ !qtyIsZero immediate.remainingQuantity

def executeEntry (book : BookSnapshot) (buy : Bool) (requested original : Quantity)
    (arrival : ProtocolTime) : Except SimError Filling := do
  let s ← r.fillOnArrival book buy requested original arrival
  if r.rests s.fill then
    r.restGtc buy { s with events := s.events ++ [.orderRested arrival] } original arrival
  else return s

end SimulationRequest

/-- A position, as far as it was entered. -/
@[ext]
structure Entry where
  arrival : ProtocolTime
  filling : Filling
  missed : Quantity

namespace SimulationRequest

variable (r : SimulationRequest)

/-- The first part of a run: the order is submitted and filled. -/
def enter : Except SimError Entry := do
  r.validate
  let arrival ← r.arrive
  r.failure.inject
  let book ← r.freshBook arrival
  let buy := entryIsBuy r.signal.direction
  if r.signal.direction = .flat then throw (.invalidRequest "signal.flat_direction")
  else do
    r.refuseTaking book buy
    let original ← alignQty r.signal.requestedQuantity
    let walkQty ← r.admitSize book buy original
    let filling ← r.executeEntry book buy walkQty original arrival
    let missed ← amount (original.checkedSub filling.fill.filledQuantity)
    return ⟨arrival, filling, missed⟩

def entryEvents (entry : Entry) : List SimulationEvent :=
  [.signalObserved r.signal.detectedAt r.signal.signalId,
    .orderSubmitted entry.arrival r.orderPolicy.orderType] ++ entry.filling.events

end SimulationRequest

namespace Simulation

/-- The trace is hashed in its JSON form. -/
def hashEvents (B : Blake3) (encode : List SimulationEvent → List UInt8)
    (events : List SimulationEvent) : Hash32 :=
  B.hash (utf8 "hl.execution-sim.trace.v1" ++ encode events)

/-- What a position earned before its costs. -/
def grossPnl (entry : CostedFill) (exitVwap : Option Price) (exitNotional : UsdAmount)
    (direction : Direction) : Except SimError UsdAmount :=
  match entry.vwap, exitVwap, direction with
  | some _, some _, .long => amount (exitNotional.checkedSub entry.quoteNotional)
  | some _, some _, .short => amount (entry.quoteNotional.checkedSub exitNotional)
  | some _, some _, .flat => .error (.invalidRequest "result.flat")
  | _, _, _ => .ok zeroUsd

end Simulation

namespace SimulationRequest

variable (r : SimulationRequest)

def fundingOf (entry : Entry) (closedAt : ProtocolTime) : Except SimError UsdAmount :=
  if qtyIsZero entry.filling.fill.filledQuantity then .ok zeroUsd
  else fundingOverHold r.costModel.funding r.signal.direction entry.filling.fill.quoteNotional
    entry.arrival closedAt

variable (B : Blake3) (encode : List SimulationEvent → List UInt8)

/-- The report of a run. A position that was not entered has no exit. -/
def finish (entry : Entry) (events : List SimulationEvent) (exit : Option CostedFill)
    (closedAt : ProtocolTime) : Except SimError SimulationResult := do
  let fill := entry.filling.fill
  fill.admitSynthetic
  exit.forM CostedFill.admitSynthetic
  let exitFees := exit.elim zeroUsd (·.fee)
  let exitNotional := exit.elim zeroUsd (·.quoteNotional)
  let exitVwap := exit.bind (·.vwap)
  let funding ← r.fundingOf entry closedAt
  let events := events ++ if funding.raw = 0 then [] else [.fundingApplied closedAt funding]
  let slippage ← amount (fill.slippage.checkedAdd (exit.elim zeroUsd (·.slippage)))
  let impact ← amount (fill.impact.checkedAdd (exit.elim zeroUsd (·.impact)))
  let spreadCost ← amount (fill.spreadCost.checkedAdd (exit.elim zeroUsd (·.spreadCost)))
  let gross ← grossPnl fill exitVwap exitNotional r.signal.direction
  let fees ← amount (fill.fee.checkedAdd exitFees)
  let costs ← amount (fees.checkedAdd slippage)
  let costs ← amount (costs.checkedAdd impact)
  let net ← amount (gross.checkedSub costs)
  let netPnl ← amount (net.checkedSub funding)
  let result : SimulationResult := ⟨.synthetic, false, false, false, events, fill.filledQuantity,
    entry.missed, fill.vwap, exitVwap, fill.fee, exitFees, funding, slippage, impact, spreadCost,
    netPnl, hashEvents B encode events⟩
  result.refuseInventedOrLive
  return result

/-- The fill that closes a position at a time. -/
def closeAt (entry : Entry) (exitAt : ProtocolTime) : Except SimError CostedFill := do
  let book ← r.freshBook exitAt
  costedWalk book (!entryIsBuy r.signal.direction) entry.filling.fill.filledQuantity none none
    (r.fillCosts true)

/-- The second part of a run: the position is closed where the exit policy says. -/
def leave (entry : Entry) : Except SimError SimulationResult :=
  if qtyIsZero entry.filling.fill.filledQuantity then
    r.finish B encode entry (r.entryEvents entry ++ [.cancelled entry.arrival]) none entry.arrival
  else do
    let (exitAt, reason) ← r.exitPolicy.chooseExit r.books entry.arrival r.evaluationKnownAt
      (entryIsBuy r.signal.direction) r.invalidateAt
    let exit ← r.closeAt entry exitAt
    let events ← fillEvents exitAt exit entry.filling.fill.filledQuantity
    if qtyIsZero exit.filledQuantity then throw .unmodeledExit
    else
      r.finish B encode entry (r.entryEvents entry ++ [.exitSubmitted exitAt reason] ++ events ++
        [.positionClosed exitAt]) (some exit) exitAt

def run : Except SimError SimulationResult := do
  let entry ← r.enter
  r.leave B encode entry

end SimulationRequest

end AlphaDesk
