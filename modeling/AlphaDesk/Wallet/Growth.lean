import AlphaDesk.Wallet.Performance

/-! # Growth and drawdown of an account

The growth of a ledger is the product of its sub-periods, each the equity before a flow
over the equity after the flow before it. A drawdown is the fall of the rounded wealth
from its running maximum. The fraction and the notes of the replay carry both.
-/

namespace AlphaDesk

open Decimal List

open IntelligenceError (lift)

/-- A number rounded half-even to a scale. -/
def toScale (s : ℕ) (x : ℚ) : ℚ := scaled (RoundingMode.nearestTiesToEven.round (x * 10 ^ s)) s

def ExternalCashFlow.signedValue (f : ExternalCashFlow) : ℚ :=
  match f.kind with
  | .deposit => f.amount.value
  | .withdrawal => -f.amount.value

/-- The growth of each sub-period, the one that is open at the end included. -/
def subPeriods (equity base : ℚ) : List LedgerEvent → List ℚ
  | [] => [equity / base]
  | .observation o :: ps => subPeriods o.equity.value base ps
  | .cashFlow f :: ps =>
    equity / base :: subPeriods (equity + f.signedValue) (equity + f.signedValue) ps

def growth (opening : ℚ) (ps : List LedgerEvent) : ℚ := (subPeriods opening opening ps).prod

def netFlow (ps : List LedgerEvent) : ℚ :=
  (ps.map fun | .observation _ => 0 | .cashFlow f => f.signedValue).sum

def observed (ps : List LedgerEvent) : List (List LedgerEvent) :=
  ps.inits.filter fun pre => (pre.getLast?.bind LedgerEvent.observation?).isSome

def observedWealths (s : ℕ) (opening : ℚ) (ps : List LedgerEvent) : List ℚ :=
  (observed ps).map fun pre => toScale s (growth opening pre)

/-- The falls of a series from its running maximum, rounded. -/
def drawdowns (s : ℕ) (ws : List ℚ) : Set ℚ :=
  { d | ∃ before w peak, before ++ [w] <+: ws ∧ IsGreatest { x | x ∈ before ++ [w] } peak ∧
    d = toScale s ((peak - w) / peak) }

namespace PerformanceLedger

variable {S V : Type}

def opening (l : PerformanceLedger S) (asOf : Option ProtocolTime) : ℚ :=
  ((l.points asOf).findSome? LedgerEvent.observation?).elim 0 (·.equity.value)

def exactGrowth (l : PerformanceLedger S) (asOf : Option ProtocolTime) : ℚ :=
  growth (l.opening asOf) (l.points asOf)

def wealths (l : PerformanceLedger S) (asOf : Option ProtocolTime) : List ℚ :=
  observedWealths l.returnScale (l.opening asOf) (l.points asOf) ++
    [toScale l.returnScale (l.exactGrowth asOf)]

/-- What a snapshot says of the ledger. -/
structure Exact (l : PerformanceLedger S) (asOf : Option ProtocolTime)
    (r : PerformanceSnapshot S V) : Prop where
  starting : r.startingEquity.value = l.opening asOf
  net : r.netExternalCashFlow.value = netFlow (l.points asOf)
  gain : r.tradingGain.value =
    r.endingEquity.value - r.startingEquity.value - r.netExternalCashFlow.value
  return_scale : r.timeWeightedReturn.scale = l.returnScale
  return_raw : r.timeWeightedReturn.raw =
    RoundingMode.nearestTiesToEven.round ((l.exactGrowth asOf - 1) * 10 ^ l.returnScale)
  maxDrawdown : IsGreatest (drawdowns l.returnScale (l.wealths asOf)) r.maxDrawdown.value

/-- Some fall of the wealth is seen at the scale of the returns. -/
def Falls (l : PerformanceLedger S) (asOf : Option ProtocolTime) : Prop :=
  ∃ d ∈ drawdowns l.returnScale (l.wealths asOf), 0 < d

/-- The wealth is never seen above its opening level. -/
def NeverRises (l : PerformanceLedger S) (asOf : Option ProtocolTime) : Prop :=
  ∀ w ∈ l.wealths asOf, w ≤ 1

end PerformanceLedger

/-- One event is another with its amount scaled. -/
inductive Rescaled (k : ℚ) : LedgerEvent → LedgerEvent → Prop
  | observation {o o' : EquityObservation} (ht : o'.protocolTime = o.protocolTime)
      (he : o'.equity.value = k * o.equity.value) : Rescaled k (.observation o) (.observation o')
  | cashFlow {f f' : ExternalCashFlow} (ht : f'.protocolTime = f.protocolTime)
      (ha : f'.signedValue = k * f.signedValue) : Rescaled k (.cashFlow f) (.cashFlow f')

/-- The running values of an account: the growth of its closed sub-periods, its equity
and the equity its open sub-period began with. -/
structure Account where
  closed : ℚ
  equity : ℚ
  base : ℚ

namespace Account

def step (a : Account) : LedgerEvent → Account
  | .observation o => { a with equity := o.equity.value }
  | .cashFlow f => ⟨a.closed * (a.equity / a.base), a.equity + f.signedValue,
      a.equity + f.signedValue⟩

def wealth (a : Account) : ℚ := a.closed * (a.equity / a.base)

theorem closed_mul_prod (a : Account) (ps : List LedgerEvent) :
    a.closed * (subPeriods a.equity a.base ps).prod = (ps.foldl step a).wealth := by
  induction ps generalizing a with
  | nil => simp [subPeriods, wealth]
  | cons p ps ih =>
    cases p with
    | observation o => exact ih { a with equity := o.equity.value }
    | cashFlow f =>
      rw [subPeriods, prod_cons, ← mul_assoc]
      exact ih (a.step (.cashFlow f))

end Account

def accountAfter (opening : ℚ) (ps : List LedgerEvent) : Account :=
  ps.foldl Account.step ⟨1, opening, opening⟩

theorem growth_eq_wealth (opening : ℚ) (ps : List LedgerEvent) :
    growth opening ps = (accountAfter opening ps).wealth := by
  rw [growth, accountAfter, ← Account.closed_mul_prod, one_mul]

variable {s : ℕ} {opening : ℚ} {pre : List LedgerEvent}

theorem accountAfter_concat (p : LedgerEvent) :
    accountAfter opening (pre ++ [p]) = (accountAfter opening pre).step p := by
  simp [accountAfter]

theorem netFlow_concat (p : LedgerEvent) : netFlow (pre ++ [p]) = netFlow pre + netFlow [p] := by
  simp [netFlow]

theorem observedWealths_observation (o : EquityObservation) :
    observedWealths s opening (pre ++ [.observation o]) = observedWealths s opening pre ++
      [toScale s (growth opening (pre ++ [.observation o]))] := by
  simp [observedWealths, observed, inits_append, LedgerEvent.observation?]

theorem observedWealths_cashFlow (f : ExternalCashFlow) :
    observedWealths s opening (pre ++ [.cashFlow f]) = observedWealths s opening pre := by
  simp [observedWealths, observed, inits_append, LedgerEvent.observation?]

theorem subPeriods_rescaled {k : ℚ} (hk : k ≠ 0) {ps qs : List LedgerEvent}
    (h : List.Forall₂ (Rescaled k) ps qs) (e b : ℚ) :
    subPeriods (k * e) (k * b) qs = subPeriods e b ps := by
  induction h generalizing e b with
  | nil => simp [subPeriods, mul_div_mul_left _ _ hk]
  | cons hp _ ih =>
    cases hp with
    | observation _ he => rw [subPeriods, subPeriods, he, ih]
    | cashFlow _ ha =>
      rw [subPeriods, subPeriods, ha, ← mul_add, ih, mul_div_mul_left _ _ hk]

variable {n : ℤ} {d a b c : Decimal}

theorem lift_eq_ok {α : Type} {x : Except ValueError α} {a : α} : lift x = .ok a ↔ x = .ok a :=
  Except.mapError_eq_ok

theorem checkedI128_eq_ok {m : ℤ} (h : checkedI128 n = .ok m) : m = n := by
  rw [checkedI128] at h
  split at h
  · exact (Except.ok.inj h).symm
  · cases h

theorem fromI128_eq_ok (h : fromI128 n s = .ok d) : d.raw = n ∧ d.scale = s := by
  simp only [fromI128, fromRaw] at h
  split at h
  · rw [lift_eq_ok] at h
    split at h
    · cases h
      exact ⟨rfl, rfl⟩
    · cases h
  · cases h

theorem usdDiv_eq_ok (h : usdDiv a b s = .ok c) :
    b.raw ≠ 0 ∧ c.scale = s ∧
      c.raw = RoundingMode.nearestTiesToEven.round (a.value / b.value * 10 ^ s) ∧
      c.value = toScale s (a.value / b.value) := by
  obtain ⟨-, hb, hraw, hscale⟩ := checkedDiv_eq_ok_iff.mp (lift_eq_ok.mp h)
  exact ⟨hb, hscale, hraw, by rw [value, hscale, hraw, toScale]⟩

theorem value_one (h : one s = .ok d) : d.value = 1 ∧ d.raw = 10 ^ s ∧ d.scale = s := by
  obtain ⟨hraw, hscale⟩ := fromI128_eq_ok h
  refine ⟨?_, hraw, hscale⟩
  rw [value, hraw, hscale, scaled]
  push_cast
  exact div_self (by positivity)

theorem value_div_value (h : a.scale = b.scale) : a.value / b.value = a.raw / b.raw := by
  rw [value, value, h, scaled, scaled, div_div_div_cancel_right₀ (by positivity)]

theorem reduceRatio_spec (n d : ℤ) (hd : d ≠ 0) :
    (reduceRatio n d).2 ≠ 0 ∧
      ((reduceRatio n d).1 / (reduceRatio n d).2 : ℚ) = n / d := by
  simp only [reduceRatio]
  split
  next hg =>
    have hn : (Nat.gcd n.natAbs d.natAbs : ℤ) ∣ n := Int.gcd_dvd_left ..
    have hd' : (Nat.gcd n.natAbs d.natAbs : ℤ) ∣ d := Int.gcd_dvd_right ..
    generalize Nat.gcd n.natAbs d.natAbs = g at hg hn hd'
    have hg0 : (g : ℤ) ≠ 0 := by omega
    obtain ⟨n, rfl⟩ := hn
    obtain ⟨d, rfl⟩ := hd'
    rw [Int.mul_tdiv_cancel_left _ hg0, Int.mul_tdiv_cancel_left _ hg0]
    refine ⟨right_ne_zero_of_mul hd, ?_⟩
    push_cast
    rw [mul_div_mul_left _ _ (by exact_mod_cast hg0)]
  next => exact ⟨hd, rfl⟩

theorem mulRatio_spec {f g : ℤ × ℤ} (hd : f.2 ≠ 0) (hs : a.scale = b.scale)
    (h : mulRatio f a.raw b.raw = .ok g) :
    b.raw ≠ 0 ∧ g.2 ≠ 0 ∧ (g.1 / g.2 : ℚ) = f.1 / f.2 * (a.value / b.value) := by
  obtain ⟨hb, h⟩ := Except.of_check h
  obtain ⟨n, hn, h⟩ := Except.of_bind h
  obtain ⟨d, hd', h⟩ := Except.of_bind h
  cases h
  obtain rfl := checkedI128_eq_ok hn
  obtain rfl := checkedI128_eq_ok hd'
  obtain ⟨hne, hdiv⟩ := reduceRatio_spec (f.1 * a.raw) (f.2 * b.raw) (mul_ne_zero hd hb)
  refine ⟨hb, hne, ?_⟩
  rw [hdiv, value_div_value hs, div_mul_div_comm]
  push_cast
  rfl

theorem wealthDecimal_spec {f : ℤ × ℤ} (hd : f.2 ≠ 0) (hs : a.scale = b.scale)
    (h : wealthDecimal f a b s = .ok c) :
    b.raw ≠ 0 ∧ c.scale = s ∧
      c.raw = RoundingMode.nearestTiesToEven.round (f.1 / f.2 * (a.value / b.value) * 10 ^ s) ∧
      c.value = toScale s (f.1 / f.2 * (a.value / b.value)) := by
  obtain ⟨g, hg, h⟩ := Except.of_bind h
  obtain ⟨hb, -, hdiv⟩ := mulRatio_spec hd hs hg
  obtain ⟨n, hn, h⟩ := Except.of_bind h
  obtain ⟨m, hm, h⟩ := Except.of_bind h
  obtain ⟨hn, hn0⟩ := fromI128_eq_ok hn
  obtain ⟨hm, hm0⟩ := fromI128_eq_ok hm
  obtain ⟨-, hscale, hraw, hvalue⟩ := usdDiv_eq_ok h
  rw [value_div_value (hn0.trans hm0.symm), hn, hm, hdiv] at hraw hvalue
  exact ⟨hb, hscale, hraw, hvalue⟩

theorem signedAmount_spec {f : ExternalCashFlow} (h : f.signedAmount = .ok c) :
    c.scale = f.amount.scale ∧ c.value = f.signedValue := by
  rw [ExternalCashFlow.signedAmount] at h
  rw [ExternalCashFlow.signedValue]
  cases hk : f.kind with
  | deposit =>
    rw [hk] at h
    cases h
    exact ⟨rfl, rfl⟩
  | withdrawal =>
    rw [hk] at h
    obtain ⟨hraw, hscale⟩ := fromI128_eq_ok h
    refine ⟨hscale, ?_⟩
    simp only [value, hraw, hscale, scaled]
    push_cast
    ring

variable {ws : List ℚ} {w : Decimal} {time : ProtocolTime} {d d' : Drawdown}

@[simp] theorem toScale_zero (s : ℕ) : toScale s 0 = 0 := by
  have h := @RoundingMode.round_intCast .nearestTiesToEven 0
  rw [Int.cast_zero] at h
  rw [toScale, zero_mul, h, Scaled.zero]

@[simp] theorem toScale_one (s : ℕ) : toScale s 1 = 1 := by
  have h := @RoundingMode.round_intCast .nearestTiesToEven (10 ^ s)
  push_cast at h
  rw [toScale, one_mul, h, scaled]
  push_cast
  exact div_self (by positivity)

/-- A series that goes on falls as before, or at its new end. -/
theorem mem_drawdowns_concat {w x : ℚ} : x ∈ drawdowns s (ws ++ [w]) ↔ x ∈ drawdowns s ws ∨
    ∃ peak, IsGreatest { x | x ∈ ws ++ [w] } peak ∧ x = toScale s ((peak - w) / peak) := by
  constructor
  · rintro ⟨before, v, peak, hpre, hpeak, hx⟩
    rcases prefix_concat_iff.mp hpre with heq | hpre
    · obtain ⟨rfl, hv⟩ := append_inj' heq rfl
      cases hv
      exact .inr ⟨peak, hpeak, hx⟩
    · exact .inl ⟨before, v, peak, hpre, hpeak, hx⟩
  · rintro (⟨before, v, peak, hpre, hpeak, hx⟩ | ⟨peak, hpeak, hx⟩)
    · exact ⟨before, v, peak, hpre.trans (prefix_append ..), hpeak, hx⟩
    · exact ⟨ws, w, peak, prefix_rfl, hpeak, hx⟩

/-- What is kept of a series of wealth that opens at one. -/
structure Noted (s : ℕ) (ws : List ℚ) (d : Drawdown) : Prop where
  scale_eq : d.peakWealth.scale = s
  one_mem : 1 ∈ ws
  peak : IsGreatest { w | w ∈ ws } d.peakWealth.value
  worst : IsGreatest (drawdowns s ws) d.maxDrawdown.value
  worst_nonneg : 0 ≤ d.maxDrawdown.value
  recovery_eq : d.recovery = none ↔ ∀ w ∈ ws, w ≤ 1
  open_or : d.inDrawdown = true ∨ d.recovery ≠ none

theorem noteDrawdown_cases (hpeak : 0 < d.peakWealth.value)
    (h : d.noteDrawdown w time s = .ok d') :
    (d.peakWealth.value < w.value ∧ d'.peakWealth = w ∧ d'.maxDrawdown = d.maxDrawdown ∧
      (d'.recovery = none ↔ d.inDrawdown = false ∧ d.recovery = none)) ∨
    (w.value ≤ d.peakWealth.value ∧ d'.peakWealth = d.peakWealth ∧
      d'.maxDrawdown.value = max d.maxDrawdown.value
        (toScale s ((d.peakWealth.value - w.value) / d.peakWealth.value)) ∧
      d'.recovery = d.recovery ∧ d'.inDrawdown = true) := by
  rw [Drawdown.noteDrawdown] at h
  split at h
  next hgt =>
    cases h
    have hlt : d.peakWealth.value < w.value := by
      rw [← not_le, ← numLe_iff]
      simpa using hgt
    refine .inl ⟨hlt, rfl, rfl, ?_⟩
    cases d.inDrawdown <;> simp
  next hle =>
    have hle : w.value ≤ d.peakWealth.value := by
      rw [← numLe_iff]
      simpa using hle
    rw [if_neg fun h0 => hpeak.ne' (value_eq_zero_iff.mpr h0)] at h
    obtain ⟨fall, hfall, h⟩ := Except.of_bind h
    obtain ⟨drawdown, hdrawdown, h⟩ := Except.of_bind h
    cases h
    obtain ⟨-, -, -, hvalue⟩ := usdDiv_eq_ok hdrawdown
    rw [value_checkedSub (lift_eq_ok.mp hfall)] at hvalue
    refine .inr ⟨hle, rfl, ?_, rfl, rfl⟩
    rw [← hvalue]
    split
    next hmax => exact (max_eq_left (numLe_iff.mp hmax)).symm
    next hmax => exact (max_eq_right (le_of_not_ge (mt numLe_iff.mpr hmax))).symm

theorem Noted.step (hd : Noted s ws d) (hw : w.scale = s)
    (h : d.noteDrawdown w time s = .ok d') : Noted s (ws ++ [w.value]) d' := by
  have hone : 1 ≤ d.peakWealth.value := hd.peak.2 hd.one_mem
  have hmem : (1 : ℚ) ∈ ws ++ [w.value] := mem_append_left _ hd.one_mem
  rcases noteDrawdown_cases (by linarith) h with
    ⟨hlt, hpeak, hmax, hrec⟩ | ⟨hle, hpeak, hmax, hrec, hin⟩
  · have hgreatest : IsGreatest { x | x ∈ ws ++ [w.value] } w.value := by
      refine ⟨by simp, fun x hx => ?_⟩
      rcases mem_append.mp hx with hx | hx
      · exact (hd.peak.2 hx).trans hlt.le
      · exact (mem_singleton.mp hx).le
    have hsome : d'.recovery ≠ none := fun h0 => by
      obtain ⟨hin, hnone⟩ := hrec.mp h0
      rcases hd.open_or with hopen | hopen
      · rw [hin] at hopen
        cases hopen
      · exact hopen hnone
    refine ⟨hpeak ▸ hw, hmem, hpeak ▸ hgreatest, ?_, hmax ▸ hd.worst_nonneg,
      iff_of_false hsome fun hall => ?_, .inr hsome⟩
    · rw [hmax]
      refine ⟨mem_drawdowns_concat.mpr (.inl hd.worst.1), fun x hx => ?_⟩
      rcases mem_drawdowns_concat.mp hx with hx | ⟨peak, hp, rfl⟩
      · exact hd.worst.2 hx
      · rw [hp.unique hgreatest, sub_self, zero_div, toScale_zero]
        exact hd.worst_nonneg
    · have := hall w.value (by simp)
      linarith
  · have hgreatest : IsGreatest { x | x ∈ ws ++ [w.value] } d.peakWealth.value := by
      refine ⟨mem_append_left _ hd.peak.1, fun x hx => ?_⟩
      rcases mem_append.mp hx with hx | hx
      · exact hd.peak.2 hx
      · exact (mem_singleton.mp hx).trans_le hle
    refine ⟨hpeak ▸ hd.scale_eq, hmem, hpeak ▸ hgreatest, ⟨?_, fun x hx => ?_⟩, ?_, ?_, .inl hin⟩
    · rw [hmax, mem_drawdowns_concat]
      rcases max_choice d.maxDrawdown.value
        (toScale s ((d.peakWealth.value - w.value) / d.peakWealth.value)) with hm | hm
      · rw [hm]
        exact .inl hd.worst.1
      · exact .inr ⟨_, hgreatest, hm⟩
    · rw [hmax]
      rcases mem_drawdowns_concat.mp hx with hx | ⟨peak, hp, rfl⟩
      · exact le_max_of_le_left (hd.worst.2 hx)
      · rw [hp.unique hgreatest]
        exact le_max_right ..
    · rw [hmax]
      exact le_max_of_le_left hd.worst_nonneg
    · rw [hrec, hd.recovery_eq, forall_mem_append]
      refine (and_iff_left_of_imp fun hall v hv => ?_).symm
      rw [mem_singleton.mp hv]
      exact hle.trans (hall _ hd.peak.1)

theorem Noted.first (hw : w.value = 1) (hp : d.peakWealth.value = 1) (hs : d.peakWealth.scale = s)
    (hm : d.maxDrawdown.value = 0) (hr : d.recovery = none)
    (h : d.noteDrawdown w time s = .ok d') : Noted s [1] d' := by
  have hgreatest : IsGreatest { x | x ∈ [(1 : ℚ)] } 1 := by simp [IsGreatest, upperBounds]
  rcases noteDrawdown_cases (by rw [hp]; exact one_pos) h with
    ⟨hlt, -⟩ | ⟨-, hpeak, hmax, hrec, hin⟩
  · rw [hp, hw] at hlt
    exact absurd hlt (lt_irrefl _)
  · rw [hp, hw, hm, sub_self, zero_div, toScale_zero, max_self] at hmax
    refine ⟨hpeak ▸ hs, by simp, by rwa [hpeak, hp], ?_, hmax.ge, by simp [hrec, hr], .inl hin⟩
    rw [hmax]
    have hmem : ∀ x, x ∈ drawdowns s [1] ↔ x = 0 := fun x => by
      rw [← nil_append [(1 : ℚ)], mem_drawdowns_concat]
      constructor
      · rintro (⟨before, v, peak, hpre, -⟩ | ⟨peak, hpk, rfl⟩)
        · simp at hpre
        · rw [hpk.unique hgreatest, sub_self, zero_div, toScale_zero]
      · rintro rfl
        exact .inr ⟨1, hgreatest, by simp⟩
    exact ⟨(hmem 0).mpr rfl, fun x hx => ((hmem x).mp hx).le⟩

end AlphaDesk
