import AlphaDesk.Market.Fragility

/-! # What a cascade liquidates

The distance of an account to its maintenance margin behind some waves follows from the
shock, the impacts and the collateral drawn so far. A wave takes the accounts that have
no distance left and no others, so that the waves and the survivors share the accounts
out, and a cascade that meets no limit leaves no account behind that should have gone.
-/

namespace AlphaDesk

open Except List

namespace Fragility

/-- What the bound of a path adds to the distance of an account. -/
def bandShift (boundSign : ℤ) : SimulatedMarginMode → ℤ
  | .portfolioUncertain bandBps => -boundSign * bandBps.toNat
  | .isolatedExact | .unsupported => 0

/-- A rise of the price is good for a long and bad for a short. -/
def sideSign : Direction → ℤ
  | .long => 1
  | .short => -1
  | .flat => 0

/-- The distance of an account behind the shock and waves with some impacts, each of which draws
ten basis points on collateral that is shared. -/
def distanceAfter (boundSign shockBps : ℤ) (impacts : List ℤ) (a : SimulatedAccount) : ℤ :=
  a.distanceToMaintenanceBps + bandShift boundSign a.marginMode +
    sideSign a.side * (shockBps + impacts.sum) -
    (if a.collateralGroup.isSome then 10 * impacts.length else 0)

def movedBy (boundSign shockBps : ℤ) (impacts : List ℤ) (a : SimulatedAccount) :
    SimulatedAccount :=
  { a with distanceToMaintenanceBps := distanceAfter boundSign shockBps impacts a }

variable {boundSign shockBps delta : ℤ} {a a' : SimulatedAccount}
  {accounts accounts' : List SimulatedAccount}

theorem mapM_eq_map {f : SimulatedAccount → Except MarketError SimulatedAccount}
    {g : SimulatedAccount → SimulatedAccount} (hf : ∀ a a', f a = .ok a' → a' = g a)
    (h : accounts.mapM f = .ok accounts') : accounts' = accounts.map g := by
  have hall := mapM_eq_ok.mp h
  clear h
  induction hall with
  | nil => rfl
  | cons hab _ ih => rw [map_cons, ← hf _ _ hab, ← ih]

theorem pathVariant_eq_ok (h : pathVariant boundSign a = .ok a') : a' =
    { a with
      distanceToMaintenanceBps :=
        a.distanceToMaintenanceBps + bandShift boundSign a.marginMode } := by
  obtain ⟨accountId, marketId, side, notional, distance, mode, collateralGroup⟩ := a
  cases mode with
  | portfolioUncertain bandBps =>
    obtain ⟨delta, hdelta, h⟩ := of_bind h
    obtain ⟨moved, hmoved, h⟩ := of_bind h
    obtain rfl := ok.inj h
    have hshift : delta = bandShift boundSign (.portfolioUncertain bandBps) := by
      unfold bandShift
      unfold boundDelta at hdelta
      split_ifs at hdelta with h₁ h₂ h₃
      · rw [← ok.inj hdelta, h₁]
        ring
      · rw [← ok.inj hdelta, h₂]
        ring
      · rw [← ok.inj hdelta, h₃]
        ring
    rw [checked_eq_ok hmoved, hshift]
  | isolatedExact =>
    rw [← ok.inj h]
    simp [bandShift]
  | unsupported =>
    rw [← ok.inj h]
    simp [bandShift]

theorem movePrice_eq_ok (h : movePrice delta a = .ok a') : a' =
    { a with
      distanceToMaintenanceBps := a.distanceToMaintenanceBps + sideSign a.side * delta } := by
  obtain ⟨drawn, hdrawn, h⟩ := of_bind h
  obtain ⟨distance, hdistance, h⟩ := of_bind h
  obtain rfl := ok.inj h
  rw [checked_eq_ok hdistance]
  have : drawn = -(sideSign a.side * delta) := by
    cases hside : a.side with
    | long =>
      rw [hside] at hdrawn
      rw [unchecked_eq_ok hdrawn, sideSign, one_mul]
    | short =>
      rw [hside] at hdrawn
      rw [← ok.inj hdrawn, sideSign]
      ring
    | flat =>
      rw [hside] at hdrawn
      cases hdrawn
  rw [this, sub_neg_eq_add]

def drawn (a : SimulatedAccount) : SimulatedAccount :=
  { a with
    distanceToMaintenanceBps :=
      a.distanceToMaintenanceBps - if a.collateralGroup.isSome then 10 else 0 }

theorem contagion_eq_ok (h : applyCollateralContagion accounts 10 = .ok accounts') :
    accounts' = accounts.map drawn := by
  rw [applyCollateralContagion, if_neg (by decide)] at h
  split at h
  next hnone =>
    obtain rfl := ok.inj h
    have hsame : ∀ a ∈ accounts, drawn a = id a := by
      intro a ha
      have hgroup := all_eq_true.mp hnone a ha
      rw [drawn, if_neg (by simp [Option.isNone_iff_eq_none.mp hgroup]), sub_zero]
      rfl
    rw [List.map_congr_left hsame, List.map_id]
  next =>
    refine mapM_eq_map (fun a a' ha => ?_) h
    unfold drawOnCollateral at ha
    unfold drawn
    split at ha
    next hsome =>
      obtain ⟨distance, hdistance, ha⟩ := of_bind ha
      rw [← ok.inj ha, checked_eq_ok hdistance, if_pos hsome]
    next hsome => rw [← ok.inj ha, if_neg hsome, sub_zero]

def impactsOf (waves : List LiquidationWave) : List ℤ := waves.map (·.estimatedImpactBps)

/-- A wave liquidates a group of accounts that have no distance left behind the impacts before. -/
structure WaveOf (boundSign shockBps : ℤ) (impacts : List ℤ) (group : List SimulatedAccount)
    (w : LiquidationWave) : Prop where
  accounts : w.liquidatedAccounts.Perm (group.map (·.accountId))
  forced : w.forcedNotional.value = (group.map (·.notional.value)).sum
  due : ∀ a ∈ group, distanceAfter boundSign shockBps impacts a ≤ 0

/-- A cascade that has shared out the accounts between its waves and those that are alive. -/
structure SharedOut (accounts : List SimulatedAccount) (boundSign shockBps : ℤ) (s : Cascade)
    (groups : List (List SimulatedAccount)) (alive : List SimulatedAccount) : Prop where
  perm : (groups.flatten ++ alive).Perm accounts
  length : groups.length = s.waves.length
  waves : ∀ i w group, s.waves[i]? = some w → groups[i]? = some group →
    WaveOf boundSign shockBps ((impactsOf s.waves).take i) group w
  remaining : s.remaining = alive.map (movedBy boundSign shockBps (impactsOf s.waves))
  cumulative : s.cumulative = shockBps + (impactsOf s.waves).sum
  total : s.totalForced.value = (s.waves.map (·.forcedNotional.value)).sum

variable {alive liquidated survivors group : List SimulatedAccount} {s s' : Cascade}
  {groups : List (List SimulatedAccount)} {scenario : FragilityScenario} {book : SimulatedBook}
  {scale iteration : ℕ} {zero : UsdAmount}

theorem value_zeroAt (h : zeroAt scale = .ok zero) : zero.value = 0 := by
  unfold zeroAt at h
  rw [money_eq_ok, Decimal.fromRaw] at h
  split at h
  · rw [← ok.inj h]
    exact Scaled.zero _
  · cases h

theorem value_foldlM_addNotional {total : UsdAmount}
    (h : group.foldlM addNotional zero = .ok total) :
    total.value = zero.value + (group.map (·.notional.value)).sum := by
  induction group generalizing zero with
  | nil =>
    rw [← ok.inj h]
    simp
  | cons a group ih =>
    obtain ⟨next, hnext, h⟩ := of_bind h
    rw [ih h, Decimal.value_checkedAdd (money_eq_ok.mp hnext), map_cons, sum_cons]
    ring

theorem liquidateAccounts_eq_ok (h : liquidateAccounts accounts = .ok (liquidated, survivors)) :
    liquidated.Perm (accounts.filter (·.distanceToMaintenanceBps ≤ 0)) ∧
      survivors = accounts.filter (0 < ·.distanceToMaintenanceBps) := by
  obtain ⟨-, h⟩ := of_check h
  obtain ⟨rfl, rfl⟩ := Prod.mk.inj (ok.inj h)
  exact ⟨perm_insertionSort _ _, rfl⟩

/-- The accounts that a wave takes, and those it leaves, as they were before the path. -/
theorem SharedOut.liquidate (hs : SharedOut accounts boundSign shockBps s groups alive)
    (h : liquidateAccounts s.remaining = .ok (liquidated, survivors)) :
    ∃ group rest : List SimulatedAccount, (group ++ rest).Perm alive ∧
      (∀ a ∈ group, distanceAfter boundSign shockBps (impactsOf s.waves) a ≤ 0) ∧
      (∀ a ∈ rest, 0 < distanceAfter boundSign shockBps (impactsOf s.waves) a) ∧
      liquidated.Perm (group.map (movedBy boundSign shockBps (impactsOf s.waves))) ∧
      survivors = rest.map (movedBy boundSign shockBps (impactsOf s.waves)) := by
  obtain ⟨hliquidated, hsurvivors⟩ := liquidateAccounts_eq_ok h
  rw [hs.remaining, filter_map] at hliquidated hsurvivors
  refine ⟨alive.filter fun a => decide (distanceAfter boundSign shockBps (impactsOf s.waves) a ≤ 0),
    alive.filter fun a => decide (0 < distanceAfter boundSign shockBps (impactsOf s.waves) a), ?_,
    ?_, ?_, hliquidated, hsurvivors⟩
  · have hnot : ∀ a : SimulatedAccount,
        decide (0 < distanceAfter boundSign shockBps (impactsOf s.waves) a) =
          !decide (distanceAfter boundSign shockBps (impactsOf s.waves) a ≤ 0) := by
      intro a
      rw [← decide_not, decide_eq_decide, not_le]
    simp only [hnot]
    exact filter_append_perm _ alive
  · exact fun a ha => of_decide_eq_true (mem_filter.mp ha).2
  · exact fun a ha => of_decide_eq_true (mem_filter.mp ha).2

theorem SharedOut.wave {rest : List SimulatedAccount}
    (hs : SharedOut accounts boundSign shockBps s groups alive) (hperm : (group ++ rest).Perm alive)
    (hdue : ∀ a ∈ group, distanceAfter boundSign shockBps (impactsOf s.waves) a ≤ 0)
    (hliquidated :
      liquidated.Perm (group.map (movedBy boundSign shockBps (impactsOf s.waves))))
    (h : wave scenario book scale iteration s liquidated
      (rest.map (movedBy boundSign shockBps (impactsOf s.waves))) = .ok s') :
    SharedOut accounts boundSign shockBps s' (groups ++ [group]) rest ∧
      s'.waves.length = s.waves.length + 1 ∧
      s'.iterationLimitReached = s.iterationLimitReached := by
  obtain ⟨zero, hzero, h⟩ := of_bind h
  obtain ⟨forced, hforced, h⟩ := of_bind h
  obtain ⟨impact, -, h⟩ := of_bind h
  obtain ⟨drawnAccounts, hdrawn, h⟩ := of_bind h
  obtain ⟨remaining, hremaining, h⟩ := of_bind h
  obtain ⟨cumulative, hcumulative, h⟩ := of_bind h
  obtain ⟨totalForced, htotal, h⟩ := of_bind h
  obtain rfl := ok.inj h
  have hsum : forced.value = (group.map (·.notional.value)).sum := by
    rw [value_foldlM_addNotional hforced, value_zeroAt hzero, zero_add,
      (hliquidated.map (·.notional.value)).sum_eq, map_map]
    rfl
  refine ⟨⟨?_, ?_, ?_, ?_, ?_, ?_⟩, by simp, rfl⟩
  · rw [flatten_append, flatten_singleton, append_assoc]
    exact (hperm.append_left _).trans hs.perm
  · simp [hs.length]
  · intro i w g hw hg
    rcases Nat.lt_trichotomy i s.waves.length with hi | rfl | hi
    · rw [getElem?_append_left hi] at hw
      rw [getElem?_append_left (hs.length ▸ hi)] at hg
      have := hs.waves i w g hw hg
      rwa [impactsOf, map_append, take_append_of_le_length (by simp [hi.le])]
    · rw [getElem?_concat_length] at hw
      rw [← hs.length, getElem?_concat_length] at hg
      obtain rfl := Option.some.inj hw
      obtain rfl := Option.some.inj hg
      have htake : (impactsOf (s.waves ++ [⟨iteration, liquidated.map (·.accountId), forced,
          impact⟩])).take s.waves.length = impactsOf s.waves := by
        rw [impactsOf, map_append, take_append_of_le_length (by simp),
          take_of_length_le (by simp)]
        rfl
      rw [htake]
      refine ⟨?_, hsum, hdue⟩
      have := hliquidated.map (·.accountId)
      rwa [map_map] at this
    · rw [getElem?_eq_none (by simp; omega)] at hw
      cases hw
  · rw [mapM_eq_map (fun _ _ => movePrice_eq_ok) hremaining, contagion_eq_ok hdrawn, map_map,
      map_map]
    refine List.map_congr_left fun a _ => ?_
    simp only [Function.comp_apply, drawn, movedBy, distanceAfter, impactsOf, map_append,
      sum_append, length_append, map_singleton, sum_singleton,
      length_singleton]
    congr 1
    split <;> push_cast <;> ring
  · rw [checked_eq_ok hcumulative, hs.cumulative, impactsOf, impactsOf, map_append,
      sum_append, map_singleton, sum_singleton]
    ring
  · rw [Decimal.value_checkedAdd (money_eq_ok.mp htotal), hs.total, map_append,
      sum_append, map_singleton, sum_singleton]

theorem SharedOut.withFlag (hs : SharedOut accounts boundSign shockBps s groups alive)
    (flag : Bool) :
    SharedOut accounts boundSign shockBps { s with iterationLimitReached := flag } groups alive :=
  ⟨hs.perm, hs.length, hs.waves, hs.remaining, hs.cumulative, hs.total⟩

def NoneDue (boundSign shockBps : ℤ) (s : Cascade) (alive : List SimulatedAccount) : Prop :=
  ∀ a ∈ alive, 0 < distanceAfter boundSign shockBps (impactsOf s.waves) a

theorem iterate_sharedOut {left : ℕ} (hleft : iteration + left = scenario.maxIterations.toNat + 1)
    (hs : SharedOut accounts boundSign shockBps s groups alive)
    (hwaves : s.waves.length + left ≤ scenario.maxIterations.toNat)
    (hflag : if left = 0 then s.iterationLimitReached = false → NoneDue boundSign shockBps s alive
      else s.iterationLimitReached = false)
    (h : iterate scenario book scale left iteration s = .ok s') :
    ∃ groups' alive', SharedOut accounts boundSign shockBps s' groups' alive' ∧
      s'.waves.length ≤ scenario.maxIterations.toNat ∧
      (s'.iterationLimitReached = false → NoneDue boundSign shockBps s' alive') := by
  induction left generalizing iteration s groups alive with
  | zero =>
    obtain rfl := ok.inj h
    exact ⟨groups, alive, hs, hwaves, by simpa using hflag⟩
  | succ left ih =>
    obtain ⟨⟨liquidated, survivors⟩, hliquidate, h⟩ := of_bind h
    obtain ⟨group, rest, hperm, hdue, hrest, hliquidated, rfl⟩ := hs.liquidate hliquidate
    dsimp only at h
    split at h
    next hempty =>
      -- an empty wave ends the cascade
      obtain rfl := ok.inj h
      have hgroup : group = [] := by
        rw [hempty] at hliquidated
        simpa using hliquidated
      subst hgroup
      exact ⟨groups, rest, ⟨(hperm.append_left _).trans hs.perm, hs.length, hs.waves, rfl,
        hs.cumulative, hs.total⟩, by simp; omega, fun _ => hrest⟩
    next =>
      obtain ⟨s₁, hwave, h⟩ := of_bind h
      obtain ⟨hs₁, hlength, hsame⟩ := hs.wave hperm hdue hliquidated hwave
      obtain ⟨beyond, -, h⟩ := of_bind h
      split at h
      next =>
        obtain rfl := ok.inj h
        exact ⟨groups ++ [group], rest, hs₁.withFlag true, by simp; omega, nofun⟩
      next =>
        obtain ⟨s₂, hclose, h⟩ := of_bind h
        unfold closeIteration at hclose
        split at hclose
        next hlast =>
          -- the last iteration looks for accounts that would follow
          obtain ⟨⟨more, others⟩, hmore, hclose⟩ := of_bind hclose
          obtain rfl := ok.inj hclose
          obtain rfl : left = 0 := by omega
          refine ih (by omega) (hs₁.withFlag _) (by simp; omega) ?_ h
          intro hnone a ha
          obtain ⟨group', rest', hperm', -, hrest', hliquidated', -⟩ := hs₁.liquidate hmore
          have hnomore : more = [] := by
            simp only [Bool.or_eq_false_iff, Bool.not_eq_false', List.isEmpty_iff] at hnone
            exact hnone.2
          have hgroup' : group' = [] := by
            rw [hnomore] at hliquidated'
            simpa using hliquidated'
          subst hgroup'
          exact hrest' a (hperm'.mem_iff.mpr ha)
        next hlast =>
          obtain rfl := ok.inj hclose
          refine ih (by omega) hs₁ (by omega) ?_ h
          rw [if_neg (by omega), hsame]
          exact hflag

/-- A path that is not red shares its accounts out between its waves and the survivors. -/
theorem cascade_sound {scenario : FragilityScenario} {book : SimulatedBook}
    {accounts : List SimulatedAccount} {shockBps boundSign : ℤ} {evidence : ObservedBookAndFills}
    {result : ScenarioPathResult}
    (h : simulatePath scenario book accounts shockBps boundSign evidence = .ok result)
    (hiterations : 1 ≤ scenario.maxIterations.toNat) (hred : result.health.state ≠ .red) :
    ∃ (groups : List (List SimulatedAccount)) (survivors : List SimulatedAccount),
      (groups.flatten ++ survivors).Perm accounts ∧ groups.length = result.waves.length ∧
      (∀ i w group, result.waves[i]? = some w → groups[i]? = some group →
        w.liquidatedAccounts.Perm (group.map (·.accountId)) ∧
        w.forcedNotional.value = (group.map (·.notional.value)).sum ∧
        ∀ a ∈ group, distanceAfter boundSign shockBps ((impactsOf result.waves).take i) a ≤ 0) ∧
      result.totalForcedNotional.value = (result.waves.map (·.forcedNotional.value)).sum ∧
      result.terminalPriceChangeBps = shockBps + (impactsOf result.waves).sum ∧
      result.waves.length ≤ scenario.maxIterations.toNat ∧
      (result.iterationLimitReached = false → ∀ a ∈ survivors,
        0 < distanceAfter boundSign shockBps (impactsOf result.waves) a) := by
  obtain ⟨⟨⟩, -, h⟩ := of_bind h
  obtain ⟨variants, hvariants, h⟩ := of_bind h
  split at h
  next =>
    -- the path of an unsupported account is red
    obtain ⟨zero, -, h⟩ := of_bind h
    obtain ⟨health, hhealth, h⟩ := of_bind h
    obtain rfl := ok.inj h
    obtain ⟨-, hhealth⟩ := of_check hhealth
    obtain ⟨-, hhealth⟩ := of_check hhealth
    obtain ⟨-, hhealth⟩ := of_check hhealth
    exact absurd (congrArg HealthAssessment.state (ok.inj hhealth)).symm hred
  next =>
    obtain ⟨s, hcascade, h⟩ := of_bind h
    obtain ⟨remaining, hremaining, hcascade⟩ := of_bind hcascade
    obtain ⟨zero, hzero, hcascade⟩ := of_bind hcascade
    obtain ⟨zero', -, h⟩ := of_bind h
    obtain ⟨vulnerable, -, h⟩ := of_bind h
    obtain rfl := ok.inj h
    have hstart : SharedOut accounts boundSign shockBps ⟨remaining, [], zero, shockBps, false⟩ []
        accounts := by
      refine ⟨.refl _, rfl, by simp, ?_, by simp [impactsOf], by simp [value_zeroAt hzero]⟩
      rw [mapM_eq_map (fun _ _ => movePrice_eq_ok) hremaining,
        mapM_eq_map (fun _ _ => pathVariant_eq_ok) hvariants, map_map]
      refine List.map_congr_left fun a _ => ?_
      simp [movedBy, distanceAfter, impactsOf]
    obtain ⟨groups, survivors, hs, hlength, hnone⟩ := iterate_sharedOut (by omega) hstart
      (by simp) (by rw [if_neg (by omega)]) hcascade
    exact ⟨groups, survivors, hs.perm, hs.length, fun i w group hw hg =>
      ⟨(hs.waves i w group hw hg).accounts, (hs.waves i w group hw hg).forced,
        (hs.waves i w group hw hg).due⟩, hs.total, hs.cumulative, hlength, hnone⟩

def cents (n : ℕ) (h : InI128 n) : UsdAmount := ⟨n, 2, h, by decide⟩

def sampleHealth : HealthAssessment := ⟨"book", .green, "ok"⟩

def sampleAccount (id : StringId) (side : Direction) (distance : ℤ) : SimulatedAccount :=
  ⟨id, ⟨"DOGE", by decide⟩, side, cents 10000 (by decide), distance, .isolatedExact, none⟩

/-- Two longs and a short. The shock takes the first long, its impact the second. -/
def sampleAccounts : List SimulatedAccount :=
  [sampleAccount ⟨"x", by decide⟩ .long 20, sampleAccount ⟨"y", by decide⟩ .long 100,
    sampleAccount ⟨"z", by decide⟩ .short 50]

def sampleScenario : FragilityScenario := ⟨8, 1500, 1000000, 1000000⟩

def sampleDepth : SimulatedBook := ⟨cents 1000000 (by decide), sampleHealth, .observed⟩

def sampleEvidence : ObservedBookAndFills :=
  ⟨sampleHealth, .decimal ⟨1000000, by decide⟩ 2, .decimal ⟨30000, by decide⟩ 2⟩

/-- A shock of twenty-five basis points liquidates both longs, in two waves. -/
theorem cascade_sound_sample : ∃ result : ScenarioPathResult,
    simulatePath sampleScenario sampleDepth sampleAccounts (-25) 0 sampleEvidence = .ok result ∧
      result.waves.length = 2 ∧
      result.terminalPriceChangeBps = -25 + (impactsOf result.waves).sum := by
  obtain ⟨result, hresult, hred, htwo⟩ : ∃ result,
      simulatePath sampleScenario sampleDepth sampleAccounts (-25) 0 sampleEvidence = .ok result ∧
        result.health.state ≠ .red ∧ result.waves.length = 2 := by
    decide +kernel
  obtain ⟨groups, survivors, -, -, -, -, hterminal, -⟩ := cascade_sound hresult (by decide) hred
  exact ⟨result, hresult, htwo, hterminal⟩

end Fragility

end AlphaDesk
