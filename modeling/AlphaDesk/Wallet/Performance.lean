import Mathlib.Data.List.Sort
import AlphaDesk.Domain.Rounding
import AlphaDesk.Events.Evidence

/-! # The performance ledger

A ledger takes equity observations and external cash flows in the order of their
times. A snapshot replays them: a reduced fraction carries the growth of the closed
sub-periods, and the wealth seen at every observation is held against its peak.
-/

namespace AlphaDesk

inductive IntelligenceError
  | malformed (what reason : String)
  | insufficientHistory (what : String)
  | scaleMismatch
  | overflow
  | divisionByZero
  | outOfRange

def IntelligenceError.ofValueError : ValueError → IntelligenceError
  | .divisionByZero => .divisionByZero
  | .overflow => .overflow
  | .scaleMismatch _ _ => .scaleMismatch
  | .outOfRange => .outOfRange
  | _ => .malformed "decimal" "invalid exact value"

def IntelligenceError.lift {α : Type} (x : Except ValueError α) : Except IntelligenceError α :=
  x.mapError .ofValueError

open IntelligenceError (lift)

structure EquityObservation where
  protocolTime : ProtocolTime
  equity : UsdAmount
  realizedPnl : UsdAmount
  unrealizedPnl : UsdAmount
  fees : UsdAmount
  funding : UsdAmount
  grossExposure : UsdAmount
  capitalAtRisk : UsdAmount

inductive CashFlowKind
  | deposit
  | withdrawal

structure ExternalCashFlow where
  protocolTime : ProtocolTime
  kind : CashFlowKind
  amount : UsdAmount

def checkedI128 (n : ℤ) : Except IntelligenceError ℤ := if InI128 n then .ok n else .error .overflow

/-- `Decimal::from_raw` of a 128-bit integer that is held as an integer. -/
def fromI128 (raw : ℤ) (scale : ℕ) : Except IntelligenceError Decimal :=
  if h : InI128 raw then lift (Decimal.fromRaw ⟨raw, h⟩ scale) else .error .overflow

def ExternalCashFlow.signedAmount (f : ExternalCashFlow) : Except IntelligenceError UsdAmount :=
  match f.kind with
  | .deposit => .ok f.amount
  | .withdrawal => fromI128 (-f.amount.raw) f.amount.scale

inductive LedgerEvent
  | observation (o : EquityObservation)
  | cashFlow (f : ExternalCashFlow)

namespace LedgerEvent

def time : LedgerEvent → ProtocolTime
  | observation o => o.protocolTime
  | cashFlow f => f.protocolTime

/-- At one time observations come before cash flows. -/
def rank : LedgerEvent → ℕ
  | observation _ => 0
  | cashFlow _ => 1

def observation? : LedgerEvent → Option EquityObservation
  | observation o => some o
  | cashFlow _ => none

def before (p q : LedgerEvent) : Bool :=
  p.time.unixMicros < q.time.unixMicros ||
    (p.time.unixMicros == q.time.unixMicros && p.rank ≤ q.rank)

end LedgerEvent

structure PerformanceLedger (S : Type) where
  subject : S
  usdScale : ℕ
  returnScale : ℕ
  events : List LedgerEvent

structure PerformanceSnapshot (S V : Type) where
  subject : S
  featureSetVersion : V
  effectiveAt : ProtocolTime
  knownAt : KnownTime
  inputWatermark : BlockHeight
  startingEquity : UsdAmount
  endingEquity : UsdAmount
  netExternalCashFlow : UsdAmount
  tradingGain : UsdAmount
  realizedPnl : UsdAmount
  unrealizedPnl : UsdAmount
  fees : UsdAmount
  funding : UsdAmount
  timeWeightedReturn : Decimal
  moneyWeightedReturn : Option Decimal
  maxDrawdown : Decimal
  recoveryDurationMicros : Option ℤ
  expectedShortfall : Option Decimal
  downsideDeviation : Option Decimal
  turnover : Decimal
  utilization : Decimal
  observationCount : ℕ

def one (scale : ℕ) : Except IntelligenceError Decimal := fromI128 (10 ^ scale) scale

/-- Also `ratio`, whose check for a zero denominator the division makes again. -/
def usdDiv (numerator denominator : UsdAmount) (scale : ℕ) : Except IntelligenceError Decimal :=
  lift (numerator.checkedDiv denominator scale .nearestTiesToEven)

/-- A divisor that does not fit 128 bits leaves the fraction as it is. -/
def reduceRatio (numerator denominator : ℤ) : ℤ × ℤ :=
  let divisor := Nat.gcd numerator.natAbs denominator.natAbs
  if divisor < 2 ^ 127 ∧ 1 < divisor then (numerator.tdiv divisor, denominator.tdiv divisor)
  else (numerator, denominator)

def mulRatio (fraction : ℤ × ℤ) (factorNum factorDen : ℤ) : Except IntelligenceError (ℤ × ℤ) :=
  if factorDen = 0 then .error .divisionByZero
  else do
    let numerator ← checkedI128 (fraction.1 * factorNum)
    let denominator ← checkedI128 (fraction.2 * factorDen)
    .ok (reduceRatio numerator denominator)

def fractionToDecimal (fraction : ℤ × ℤ) (scale : ℕ) : Except IntelligenceError Decimal := do
  let numerator ← fromI128 fraction.1 0
  let denominator ← fromI128 fraction.2 0
  usdDiv numerator denominator scale

def wealthDecimal (wealth : ℤ × ℤ) (currentEquity subperiodStart : UsdAmount) (scale : ℕ) :
    Except IntelligenceError Decimal := do
  fractionToDecimal (← mulRatio wealth currentEquity.raw subperiodStart.raw) scale

def absDiff (left right : UsdAmount) : Except IntelligenceError UsdAmount :=
  if right.numLe left then lift (left.checkedSub right) else lift (right.checkedSub left)

def expectedShortfall (returns : List Decimal) (scale : ℕ) :
    Except IntelligenceError (Option Decimal) :=
  if returns.length < 5 then .ok none
  else do
    let ordered := returns.insertionSort (fun a b => a.numLe b = true)
    let tail := max ((ordered.length + 19) / 20) 1
    let sum ← (ordered.take tail).foldlM (fun sum value => lift (sum.checkedAdd value))
      (← fromI128 0 scale)
    some <$> usdDiv sum (← fromI128 tail 0) scale

/-- Newton's iteration from above, while it falls. -/
def integerSqrtFrom (value x0 x1 : ℕ) : ℕ :=
  if x1 < x0 then integerSqrtFrom value x1 ((x1 + value / x1) / 2) else x0
  termination_by x0

def integerSqrt (value : ℕ) : ℕ :=
  if value < 2 then value else integerSqrtFrom value value ((value + 1) / 2)

def downsideDeviation (returns : List Decimal) (scale : ℕ) :
    Except IntelligenceError (Option Decimal) :=
  if returns.isEmpty then .ok none
  else do
    let zero ← fromI128 0 scale
    let losses := returns.filter (fun value => !zero.numLe value)
    let sumSq ← losses.foldlM (fun sum value => do
      checkedI128 (sum + (← checkedI128 (value.raw * value.raw)))) 0
    if losses.isEmpty then .ok (some zero)
    else some <$> fromI128 (integerSqrt (max (sumSq.tdiv losses.length) 0).toNat) scale

/-- What `note_drawdown` keeps of the wealth it has seen. -/
structure Drawdown where
  peakWealth : Decimal
  maxDrawdown : Decimal
  peakTime : ProtocolTime
  recovery : Option ℤ
  inDrawdown : Bool

/-- Wealth that only meets its peak counts as a drawdown too. -/
def Drawdown.noteDrawdown (d : Drawdown) (currentWealth : Decimal) (time : ProtocolTime)
    (scale : ℕ) : Except IntelligenceError Drawdown :=
  if !currentWealth.numLe d.peakWealth then
    .ok { d with
      recovery := if d.inDrawdown then some (time.unixMicros - d.peakTime.unixMicros)
        else d.recovery
      peakWealth := currentWealth
      peakTime := time
      inDrawdown := false }
  else if d.peakWealth.raw = 0 then .ok d
  else do
    let fall ← lift (d.peakWealth.checkedSub currentWealth)
    let drawdown ← usdDiv fall d.peakWealth scale
    .ok { d with
      maxDrawdown := if drawdown.numLe d.maxDrawdown then d.maxDrawdown else drawdown
      inDrawdown := true }

structure ReplayState where
  currentEquity : UsdAmount
  subperiodStart : UsdAmount
  wealth : ℤ × ℤ
  drawdown : Drawdown
  netCf : UsdAmount
  lastObs : EquityObservation
  intervalReturns : List Decimal
  absExposureDelta : UsdAmount
  utilizationNum : ℤ
  lastExposure : UsdAmount
  weightedCf : ℤ
  observationCount : ℕ

namespace PerformanceLedger

variable {S V : Type}

def tryNew (subject : S) (usdScale returnScale : ℕ) :
    Except IntelligenceError (PerformanceLedger S) :=
  if usdScale = 0 ∨ returnScale = 0 then
    .error (.malformed "performance_ledger" "scales must be positive")
  else .ok ⟨subject, usdScale, returnScale, []⟩

/-- Both kinds of event are checked for their scale and for their time. -/
def push (l : PerformanceLedger S) (amount : UsdAmount) (event : LedgerEvent) :
    Except IntelligenceError (PerformanceLedger S) :=
  if amount.scale ≠ l.usdScale then .error .scaleMismatch
  else if l.events.getLast?.any (event.time.unixMicros < ·.time.unixMicros) then
    .error (.malformed "performance_ledger" "events must be non-decreasing in protocol time")
  else .ok { l with events := l.events ++ [event] }

def observe (l : PerformanceLedger S) (observation : EquityObservation) :
    Except IntelligenceError (PerformanceLedger S) :=
  l.push observation.equity (.observation observation)

def applyCashFlow (l : PerformanceLedger S) (flow : ExternalCashFlow) :
    Except IntelligenceError (PerformanceLedger S) :=
  l.push flow.amount (.cashFlow flow)

/-- The events up to a time, in the order of the replay. -/
def points (l : PerformanceLedger S) (asOf : Option ProtocolTime) : List LedgerEvent :=
  (l.events.filter fun event => asOf.all (event.time.unixMicros ≤ ·.unixMicros)).insertionSort
    (fun p q => p.before q = true)

/-- The return since the equity before, from the second observation on. -/
def intervalReturn (l : PerformanceLedger S) (s : ReplayState) (o : EquityObservation) :
    Except IntelligenceError (List Decimal) :=
  if 0 < s.observationCount ∧ s.currentEquity.raw ≠ 0 then do
    let interval ← usdDiv o.equity s.currentEquity l.returnScale
    let gain ← lift (interval.checkedSub (← one l.returnScale))
    .ok (s.intervalReturns ++ [gain])
  else .ok s.intervalReturns

def replayObservation (l : PerformanceLedger S) (s : ReplayState) (o : EquityObservation) :
    Except IntelligenceError ReplayState :=
  if s.observationCount + 1 = 2 ^ 64 then .error .overflow
  else do
    let intervalReturns ← l.intervalReturn s o
    let absExposureDelta ← lift (s.absExposureDelta.checkedAdd
      (← absDiff o.grossExposure s.lastExposure))
    let utilizationNum ← checkedI128
      (if 0 < s.observationCount then s.utilizationNum + o.capitalAtRisk.raw else s.utilizationNum)
    let wealth ← wealthDecimal s.wealth o.equity s.subperiodStart l.returnScale
    let drawdown ← s.drawdown.noteDrawdown wealth o.protocolTime l.returnScale
    .ok { s with
      currentEquity := o.equity, drawdown, lastObs := o, intervalReturns, absExposureDelta,
      utilizationNum, lastExposure := o.grossExposure,
      observationCount := s.observationCount + 1 }

/-- A flow's share of the weighted capital: it counts from its time to the end. -/
def weigh (endTime span : ℤ) (flow : ExternalCashFlow) (signed : UsdAmount) (weightedCf : ℤ) :
    Except IntelligenceError ℤ :=
  if 0 < span then do
    let product ← checkedI128 (signed.raw * (endTime - flow.protocolTime.unixMicros))
    checkedI128 (weightedCf + product.tdiv span)
  else .ok weightedCf

def replayCashFlow (endTime span : ℤ) (s : ReplayState) (flow : ExternalCashFlow) :
    Except IntelligenceError ReplayState :=
  if s.currentEquity.raw ≤ 0 then
    .error (.malformed "performance_ledger" "cash flow against non-positive equity")
  else do
    let wealth ← mulRatio s.wealth s.currentEquity.raw s.subperiodStart.raw
    let signed ← flow.signedAmount
    let netCf ← lift (s.netCf.checkedAdd signed)
    let currentEquity ← lift (s.currentEquity.checkedAdd signed)
    let weightedCf ← weigh endTime span flow signed s.weightedCf
    .ok { s with currentEquity, subperiodStart := currentEquity, wealth, netCf, weightedCf }

def replayPoint (l : PerformanceLedger S) (endTime span : ℤ) (s : ReplayState) :
    LedgerEvent → Except IntelligenceError ReplayState
  | .observation o => l.replayObservation s o
  | .cashFlow flow => replayCashFlow endTime span s flow

def startReplay (l : PerformanceLedger S) (first : EquityObservation) :
    Except IntelligenceError ReplayState := do
  let peakWealth ← one l.returnScale
  let maxDrawdown ← fromI128 0 l.returnScale
  let zero ← fromI128 0 l.usdScale
  .ok {
    currentEquity := first.equity, subperiodStart := first.equity, wealth := (1, 1),
    drawdown := ⟨peakWealth, maxDrawdown, first.protocolTime, none, false⟩,
    netCf := zero, lastObs := first, intervalReturns := [], absExposureDelta := zero,
    utilizationNum := first.capitalAtRisk.raw, lastExposure := first.grossExposure,
    weightedCf := 0, observationCount := 0 }

def moneyWeightedReturn (l : PerformanceLedger S) (first : EquityObservation) (s : ReplayState)
    (tradingGain : UsdAmount) : Except IntelligenceError (Option Decimal) := do
  let capital ← lift (first.equity.checkedAdd (← fromI128 s.weightedCf l.usdScale))
  if capital.raw ≤ 0 then .ok none else some <$> usdDiv tradingGain capital l.returnScale

def utilization (l : PerformanceLedger S) (s : ReplayState) : Except IntelligenceError Decimal := do
  let used ← fromI128 s.utilizationNum l.usdScale
  let equity ← checkedI128 (s.lastObs.equity.raw * max s.observationCount 1)
  usdDiv used (← fromI128 equity l.usdScale) l.returnScale

def finish (l : PerformanceLedger S) (featureSetVersion : V) (knownAt : KnownTime)
    (inputWatermark : BlockHeight) (first : EquityObservation) (endTime : ProtocolTime)
    (s : ReplayState) : Except IntelligenceError (PerformanceSnapshot S V) := do
  let wealth ← wealthDecimal s.wealth s.currentEquity s.subperiodStart l.returnScale
  let drawdown ← s.drawdown.noteDrawdown wealth endTime l.returnScale
  let gain ← lift (s.currentEquity.checkedSub first.equity)
  let tradingGain ← lift (gain.checkedSub s.netCf)
  let timeWeightedReturn ← lift (wealth.checkedSub (← one l.returnScale))
  let moneyWeightedReturn ← l.moneyWeightedReturn first s tradingGain
  let turnover ← usdDiv s.absExposureDelta first.equity l.returnScale
  let utilization ← l.utilization s
  let expectedShortfall ← expectedShortfall s.intervalReturns l.returnScale
  let downsideDeviation ← downsideDeviation s.intervalReturns l.returnScale
  .ok {
    subject := l.subject, featureSetVersion, effectiveAt := endTime, knownAt, inputWatermark,
    startingEquity := first.equity, endingEquity := s.currentEquity,
    netExternalCashFlow := s.netCf, tradingGain, realizedPnl := s.lastObs.realizedPnl,
    unrealizedPnl := s.lastObs.unrealizedPnl, fees := s.lastObs.fees,
    funding := s.lastObs.funding, timeWeightedReturn, moneyWeightedReturn,
    maxDrawdown := drawdown.maxDrawdown, recoveryDurationMicros := drawdown.recovery,
    expectedShortfall, downsideDeviation, turnover, utilization,
    observationCount := s.observationCount }

def replay (l : PerformanceLedger S) (featureSetVersion : V) (knownAt : KnownTime)
    (inputWatermark : BlockHeight) :
    List LedgerEvent → Except IntelligenceError (PerformanceSnapshot S V)
  | .observation first :: rest => do
    let endTime := (rest.getLast?.map (·.time)).getD first.protocolTime
    let span : ℤ := endTime.unixMicros - first.protocolTime.unixMicros
    let s ← (.observation first :: rest).foldlM (l.replayPoint endTime.unixMicros span)
      (← l.startReplay first)
    l.finish featureSetVersion knownAt inputWatermark first endTime s
  | points =>
    if (points.findSome? LedgerEvent.observation?).isNone then
      .error (.insufficientHistory "performance_ledger")
    else .error (.malformed "performance_ledger" "cash flow before opening equity observation")

def snapshot (l : PerformanceLedger S) (featureSetVersion : V) (knownAt : KnownTime)
    (inputWatermark : BlockHeight) (asOf : Option ProtocolTime) :
    Except IntelligenceError (PerformanceSnapshot S V) :=
  l.replay featureSetVersion knownAt inputWatermark (l.points asOf)

/-- The ledgers that calls build; a call that is refused leaves its ledger as it is. -/
inductive Built : PerformanceLedger S → Prop
  | new {subject : S} {usdScale returnScale : ℕ} {l : PerformanceLedger S}
      (h : tryNew subject usdScale returnScale = .ok l) : Built l
  | observe {l l' : PerformanceLedger S} {o : EquityObservation} (hl : Built l)
      (h : l.observe o = .ok l') : Built l'
  | applyCashFlow {l l' : PerformanceLedger S} {flow : ExternalCashFlow} (hl : Built l)
      (h : l.applyCashFlow flow = .ok l') : Built l'

end PerformanceLedger

end AlphaDesk
