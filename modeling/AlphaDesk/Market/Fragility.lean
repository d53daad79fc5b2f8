import AlphaDesk.Simulation.Book

/-! # Liquidation cascades

A shock moves the price against some accounts. Those that fall below their maintenance
margin are liquidated in a wave, which moves the price again and draws on the accounts
that share collateral, until a wave is empty or a limit is reached. Integers of 64 bits
are kept in range by checks; an operation without one panics beyond it.
-/

namespace AlphaDesk

/-- The failures of a market computation, with `panicked` for a call that panics. -/
inductive MarketError
  | malformed (what reason : String)
  | insufficientHistory (what : String)
  | emptyDenominator
  | missingInput (name : String)
  | scaleMismatch
  | overflow
  | divisionByZero
  | outOfRange
  | feature (text : String)
  | panicked

def MarketError.ofValueError : ValueError → MarketError
  | .divisionByZero => .divisionByZero
  | .overflow => .overflow
  | .scaleMismatch _ _ => .scaleMismatch
  | .outOfRange => .outOfRange
  | .empty | .invalid | .excessPrecision _ | .scaleOutOfRange _ _ | .downwardExactRescale _ _ =>
    .malformed "decimal" "invalid exact value"

inductive HealthState
  | green
  | amber
  | red
  deriving DecidableEq

structure HealthAssessment where
  scope : String
  state : HealthState
  reasonCode : String
  deriving DecidableEq

def HealthAssessment.tryNew (scope : String) (state : HealthState) (reasonCode : String) :
    Except MarketError HealthAssessment :=
  if (trim scope).isEmpty then .error (.feature "empty identifier scope")
  else if (trim reasonCode).isEmpty then .error (.feature "empty identifier reason_code")
  else if trim scope ≠ scope ∨ trim reasonCode ≠ reasonCode then
    .error (.feature "malformed health_assessment: surrounding whitespace")
  else .ok ⟨scope, state, reasonCode⟩

inductive MissingReason
  | notObserved
  | insufficientHistory
  | unsupported
  | notApplicable
  | redDataHealth
  deriving DecidableEq

inductive FeatureValue
  | decimal (raw : { r : ℤ // InI128 r }) (scale : UInt32)
  | signedInteger (value : ℤ)
  | unsignedInteger (value : ℕ)
  | probabilityPpm (ppm : UInt32)
  | category (value : String)
  | boolean (value : Bool)
  | missing (reason : MissingReason)

inductive ObservationStatus
  | observed
  | missing (reason : MissingReason)
  deriving DecidableEq

inductive SimulatedMarginMode
  | isolatedExact
  | portfolioUncertain (bandBps : UInt32)
  | unsupported
  deriving DecidableEq

structure SimulatedAccount where
  accountId : StringId
  marketId : StringId
  side : Direction
  notional : UsdAmount
  distanceToMaintenanceBps : ℤ
  marginMode : SimulatedMarginMode
  collateralGroup : Option String

structure SimulatedBook where
  executableDepth : UsdAmount
  health : HealthAssessment
  observation : ObservationStatus

/-- The part of a scenario that a path reads. -/
structure FragilityScenario where
  maxIterations : UInt32
  maxTotalImpactBps : ℤ
  liquidationParticipation : UInt32
  bookStressMultiplier : UInt32

structure LiquidationWave where
  iteration : ℕ
  liquidatedAccounts : List StringId
  forcedNotional : UsdAmount
  estimatedImpactBps : ℤ

structure ScenarioPathResult where
  terminalPriceChangeBps : ℤ
  waves : List LiquidationWave
  totalForcedNotional : UsdAmount
  absorbedNotional : UsdAmount
  vulnerableNotionalRemaining : UsdAmount
  iterationLimitReached : Bool
  health : HealthAssessment

/-- What was observed of the market, as a proof that a book and accounts have to match. -/
structure ObservedBookAndFills where
  health : HealthAssessment
  book : FeatureValue
  inventory : FeatureValue

namespace Fragility

def money {α : Type} (x : Except ValueError α) : Except MarketError α :=
  x.mapError MarketError.ofValueError

theorem money_eq_ok {α : Type} {x : Except ValueError α} {a : α} :
    money x = .ok a ↔ x = .ok a := Except.mapError_eq_ok

def InI64 (n : ℤ) : Prop := -(2 ^ 63) ≤ n ∧ n < 2 ^ 63

instance : DecidablePred InI64 := fun _ => inferInstanceAs (Decidable (_ ∧ _))

def checked (n : ℤ) : Except MarketError ℤ := if InI64 n then .ok n else .error .overflow

/-- The result of an operation on 64 bits that is not checked. -/
def unchecked (n : ℤ) : Except MarketError ℤ := if InI64 n then .ok n else .error .panicked

theorem checked_eq_ok {n m : ℤ} (h : checked n = .ok m) : m = n := by
  unfold checked at h
  split at h
  · exact (Except.ok.inj h).symm
  · cases h

theorem unchecked_eq_ok {n m : ℤ} (h : unchecked n = .ok m) : m = n := by
  unfold unchecked at h
  split at h
  · exact (Except.ok.inj h).symm
  · cases h

def checked128 (n : ℤ) : Except MarketError ℤ := if InI128 n then .ok n else .error .overflow

def observedUsdAmount (value : FeatureValue) (name reason : String) :
    Except MarketError UsdAmount :=
  match value with
  | .decimal raw scale =>
    if 255 < scale.toNat then .error .outOfRange else money (Decimal.fromRaw raw scale.toNat)
  | .missing _ => .error (.missingInput name)
  | .signedInteger _ | .unsignedInteger _ | .probabilityPpm _ | .category _ | .boolean _ =>
    .error (.malformed name reason)

/-- What the bound of a path adds to the distance of an account within a band. -/
def boundDelta (boundSign : ℤ) (bandBps : UInt32) : Except MarketError ℤ :=
  if boundSign = -1 then .ok bandBps.toNat
  else if boundSign = 0 then .ok 0
  else if boundSign = 1 then .ok (-bandBps.toNat)
  else .error (.malformed "fragility_bounds" "bound sign must be -1, 0, or 1")

def pathVariant (boundSign : ℤ) (account : SimulatedAccount) :
    Except MarketError SimulatedAccount :=
  match account.marginMode with
  | .isolatedExact | .unsupported => .ok account
  | .portfolioUncertain bandBps => do
    let delta ← boundDelta boundSign bandBps
    let distance ← checked (account.distanceToMaintenanceBps + delta)
    return { account with distanceToMaintenanceBps := distance }

/-- A move of the price as it draws on an account. -/
def against (side : Direction) (deltaBps : ℤ) : Except MarketError ℤ :=
  match side with
  | .long => unchecked (-deltaBps)
  | .short => .ok deltaBps
  | .flat => .error (.malformed "fragility" "flat accounts are not simulated")

def movePrice (deltaBps : ℤ) (account : SimulatedAccount) :
    Except MarketError SimulatedAccount := do
  let against ← against account.side deltaBps
  let distance ← checked (account.distanceToMaintenanceBps - against)
  return { account with distanceToMaintenanceBps := distance }

def applyPriceMove (accounts : List SimulatedAccount) (deltaBps : ℤ) :
    Except MarketError (List SimulatedAccount) :=
  accounts.mapM (movePrice deltaBps)

def drawOnCollateral (extraBps : ℤ) (account : SimulatedAccount) :
    Except MarketError SimulatedAccount :=
  if account.collateralGroup.isSome then do
    let distance ← checked (account.distanceToMaintenanceBps - extraBps)
    return { account with distanceToMaintenanceBps := distance }
  else .ok account

def applyCollateralContagion (accounts : List SimulatedAccount) (extraBps : ℤ) :
    Except MarketError (List SimulatedAccount) :=
  if extraBps < 0 then
    .error (.malformed "contagion" "extra distance reduction must be non-negative")
  else if accounts.all (·.collateralGroup.isNone) then .ok accounts
  else accounts.mapM (drawOnCollateral extraBps)

/-- The accounts at or below their maintenance margin, by their identifiers, and the others. -/
def liquidateAccounts (accounts : List SimulatedAccount) :
    Except MarketError (List SimulatedAccount × List SimulatedAccount) :=
  if accounts.any (·.notional.raw < 0) then
    .error (.malformed "liquidation" "notional must be non-negative")
  else
    .ok ((accounts.filter (·.distanceToMaintenanceBps ≤ 0)).insertionSort
        fun a b => (compare a.accountId b.accountId).isLE = true,
      accounts.filter (0 < ·.distanceToMaintenanceBps))

def zeroAt (scale : ℕ) : Except MarketError UsdAmount :=
  money (Decimal.fromRaw ⟨0, inI128_zero⟩ scale)

/-- The scale of the first account, which the callers require to exist. -/
def firstScale (accounts : List SimulatedAccount) : ℕ :=
  (accounts.head?.map (·.notional.scale)).getD 0

def addNotional (total : UsdAmount) (account : SimulatedAccount) : Except MarketError UsdAmount :=
  money (total.checkedAdd account.notional)

def forcedImpactBps (forced depth : UsdAmount) (participation stress : UInt32) :
    Except MarketError ℤ :=
  if depth.raw ≤ 0 then .error .emptyDenominator
  else if forced.scale ≠ depth.scale then .error .scaleMismatch
  else do
    let numerator ← checked128 (forced.raw * participation.toNat)
    let numerator ← checked128 (numerator * stress.toNat)
    let numerator ← checked128 (numerator * 10000)
    let denominator ← checked128 (depth.raw * 1000000)
    let denominator ← checked128 (denominator * 1000000)
    checked (numerator.tdiv denominator)

def addSide (totals : UsdAmount × UsdAmount) (account : SimulatedAccount) :
    Except MarketError (UsdAmount × UsdAmount) :=
  match account.side with
  | .long => do
    let long ← addNotional totals.1 account
    return (long, totals.2)
  | .short => do
    let short ← addNotional totals.2 account
    return (totals.1, short)
  | .flat => .error (.malformed "fragility" "flat accounts cannot liquidate")

/-- The impact of a wave: what is sold presses the price down, what is bought up. -/
def waveSignedImpact (liquidated : List SimulatedAccount) (book : SimulatedBook)
    (participation stress : UInt32) : Except MarketError ℤ := do
  let scale := firstScale liquidated
  let zero ← zeroAt scale
  let (long, short) ← liquidated.foldlM addSide (zero, zero)
  let net := long.raw - short.raw
  if h : InI128 net ∧ InI128 |net| then do
    let magnitude ← money (Decimal.fromRaw ⟨|net|, h.2⟩ scale)
    let impact ← forcedImpactBps magnitude book.executableDepth participation stress
    if 0 ≤ net then unchecked (-impact) else return impact
  else throw .panicked

structure Cascade where
  remaining : List SimulatedAccount
  waves : List LiquidationWave
  totalForced : UsdAmount
  cumulative : ℤ
  iterationLimitReached : Bool

variable (scenario : FragilityScenario) (book : SimulatedBook)

/-- What a wave that is not empty does. -/
def wave (scale iteration : ℕ) (s : Cascade) (liquidated survivors : List SimulatedAccount) :
    Except MarketError Cascade := do
  let zero ← zeroAt scale
  let forced ← liquidated.foldlM addNotional zero
  let signedImpact ← waveSignedImpact liquidated book scenario.liquidationParticipation
    scenario.bookStressMultiplier
  let remaining ← applyCollateralContagion survivors 10
  let remaining ← applyPriceMove remaining signedImpact
  let cumulative ← checked (s.cumulative + signedImpact)
  let totalForced ← money (s.totalForced.checkedAdd forced)
  return ⟨remaining, s.waves ++ [⟨iteration, liquidated.map (·.accountId), forced, signedImpact⟩],
    totalForced, cumulative, s.iterationLimitReached⟩

/-- The impact is beyond the limit of the scenario, whose magnitudes are not checked. -/
def beyondLimit (cumulative : ℤ) : Except MarketError Bool := do
  let magnitude ← unchecked |cumulative|
  let limit ← unchecked |scenario.maxTotalImpactBps|
  return decide (limit < magnitude)

/-- The last iteration of a scenario looks whether more accounts would follow. -/
def closeIteration (iteration : ℕ) (s : Cascade) : Except MarketError Cascade :=
  if iteration = scenario.maxIterations.toNat then do
    let (more, _) ← liquidateAccounts s.remaining
    return { s with iterationLimitReached := s.iterationLimitReached || !more.isEmpty }
  else .ok s

/-- The iterations that are left, from one on. -/
def iterate (scale : ℕ) : ℕ → ℕ → Cascade → Except MarketError Cascade
  | 0, _, s => .ok s
  | left + 1, iteration, s => do
    let (liquidated, survivors) ← liquidateAccounts s.remaining
    if liquidated = [] then return { s with remaining := survivors }
    else do
      let s ← wave scenario book scale iteration s liquidated survivors
      if ← beyondLimit scenario s.cumulative then return { s with iterationLimitReached := true }
      else do
        let s ← closeIteration scenario iteration s
        iterate scale left (iteration + 1) s

def addVulnerable (total : UsdAmount) (account : SimulatedAccount) :
    Except MarketError UsdAmount :=
  if account.distanceToMaintenanceBps ≤ 50 then addNotional total account else .ok total

def unrelatedMissingBookProof : MarketError :=
  .malformed "book" "observed book proof is unrelated to missing constructed book"

def unrelatedRedBookProof : MarketError :=
  .malformed "book" "observed book proof is unrelated to red constructed book"

def requireProofMatchesBook (evidence : ObservedBookAndFills) : Except MarketError Unit :=
  match book.observation, book.health.state with
  | .missing _, _ => .error unrelatedMissingBookProof
  | .observed, .red => .error unrelatedRedBookProof
  | .observed, .green | .observed, .amber =>
    if evidence.health ≠ book.health then
      .error (.malformed "book" "observed book proof does not match simulated book health")
    else do
      let observed ← observedUsdAmount evidence.book "book"
        "observed book must be decimal executable depth"
      if observed.numEq book.executableDepth then return ()
      else throw (.malformed "book" "observed book proof does not match caller book depth")

def addInventory (scale : ℕ) (total : UsdAmount) (account : SimulatedAccount) :
    Except MarketError UsdAmount :=
  if account.notional.scale ≠ scale then .error .scaleMismatch else addNotional total account

def requireMatchesInventory (evidence : ObservedBookAndFills) (accounts : List SimulatedAccount) :
    Except MarketError Unit :=
  if accounts = [] then .ok ()
  else do
    let zero ← zeroAt (firstScale accounts)
    let inventory ← accounts.foldlM (addInventory (firstScale accounts)) zero
    let observed ← observedUsdAmount evidence.inventory "inventory"
      "observed inventory must be decimal"
    if observed.numEq inventory then return ()
    else throw (.malformed "inventory" "observed inventory proof does not match caller inventory")

/-- The checks before a path. A missing or red book is refused by the first of them. -/
def requireInputs (accounts : List SimulatedAccount) (evidence : ObservedBookAndFills) :
    Except MarketError Unit :=
  if book.observation ≠ .observed ∧ book.executableDepth.raw ≠ 0 then
    .error (.malformed "book" "missing book cannot carry executable depth")
  else do
    requireProofMatchesBook book evidence
    requireMatchesInventory evidence accounts
    if accounts = [] then throw (.insufficientHistory "fragility") else return ()

/-- The path of a scenario that an account does not support. -/
def redPath (accounts : List SimulatedAccount) : Except MarketError ScenarioPathResult := do
  let zero ← zeroAt (firstScale accounts)
  let health ← HealthAssessment.tryNew book.health.scope .red "unsupported_or_red_dependency"
  return ⟨0, [], zero, zero, zero, false, health⟩

def summarize (scale : ℕ) (s : Cascade) : Except MarketError ScenarioPathResult := do
  let zero ← zeroAt scale
  let vulnerable ← s.remaining.foldlM addVulnerable zero
  let absorbed := if book.executableDepth.raw < s.totalForced.raw then book.executableDepth
    else s.totalForced
  return ⟨s.cumulative, s.waves, s.totalForced, absorbed, vulnerable, s.iterationLimitReached,
    book.health⟩

/-- The waves of a path whose accounts are supported. -/
def cascade (accounts variants : List SimulatedAccount) (shockBps : ℤ) :
    Except MarketError Cascade := do
  let scale := firstScale accounts
  let remaining ← applyPriceMove variants shockBps
  let zero ← zeroAt scale
  iterate scenario book scale scenario.maxIterations.toNat 1 ⟨remaining, [], zero, shockBps, false⟩

def simulatePath (accounts : List SimulatedAccount) (shockBps boundSign : ℤ)
    (evidence : ObservedBookAndFills) : Except MarketError ScenarioPathResult := do
  requireInputs book accounts evidence
  let variants ← accounts.mapM (pathVariant boundSign)
  if variants.any (·.marginMode = .unsupported) then redPath book accounts
  else do
    let s ← cascade scenario book accounts variants shockBps
    summarize book (firstScale accounts) s

end Fragility

end AlphaDesk
