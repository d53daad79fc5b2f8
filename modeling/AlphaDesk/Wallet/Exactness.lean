import AlphaDesk.Wallet.Growth

/-! # The replay of a performance ledger is exact

The replay tracks the account of its points, so that a snapshot reports the exact return,
rounded once, and the greatest drawdown. A recovery is reported as soon as wealth is seen
above its opening level, whether or not it has fallen before.
-/

namespace AlphaDesk

open Except Decimal List

namespace PerformanceLedger

variable {S V : Type} {l : PerformanceLedger S} {opening : ℚ} {pre : List LedgerEvent}
  {st st' : ReplayState} {o : EquityObservation} {endTime span : ℤ}

structure Tracks (l : PerformanceLedger S) (opening : ℚ) (pre : List LedgerEvent)
    (st : ReplayState) : Prop where
  den_ne : st.wealth.2 ≠ 0
  closed : (st.wealth.1 / st.wealth.2 : ℚ) = (accountAfter opening pre).closed
  equity : st.currentEquity.value = (accountAfter opening pre).equity
  base : st.subperiodStart.value = (accountAfter opening pre).base
  equity_scale : st.currentEquity.scale = l.usdScale
  base_scale : st.subperiodStart.scale = l.usdScale
  net : st.netCf.value = netFlow pre
  noted : Noted l.returnScale (observedWealths l.returnScale opening pre) st.drawdown

theorem replayObservation_eq_ok (h : l.replayObservation st o = .ok st') :
    ∃ w, wealthDecimal st.wealth o.equity st.subperiodStart l.returnScale = .ok w ∧
      st.drawdown.noteDrawdown w o.protocolTime l.returnScale = .ok st'.drawdown ∧
      st'.currentEquity = o.equity ∧ st'.subperiodStart = st.subperiodStart ∧
      st'.wealth = st.wealth ∧ st'.netCf = st.netCf := by
  obtain ⟨-, h⟩ := of_check h
  obtain ⟨_, -, h⟩ := of_bind h
  obtain ⟨_, -, h⟩ := of_bind h
  obtain ⟨_, -, h⟩ := of_bind h
  obtain ⟨_, -, h⟩ := of_bind h
  obtain ⟨w, hw, h⟩ := of_bind h
  obtain ⟨drawdown, hd, h⟩ := of_bind h
  cases h
  exact ⟨w, hw, hd, rfl, rfl, rfl, rfl⟩

theorem accountAfter_wealth_observation :
    growth opening (pre ++ [.observation o]) =
      (accountAfter opening pre).closed * (o.equity.value / (accountAfter opening pre).base) := by
  rw [growth_eq_wealth, accountAfter_concat]
  rfl

theorem Tracks.observation (ht : Tracks l opening pre st) (hs : o.equity.scale = l.usdScale)
    (h : l.replayObservation st o = .ok st') : Tracks l opening (pre ++ [.observation o]) st' := by
  obtain ⟨w, hw, hnote, hequity, hbase, hwealth, hnet⟩ := replayObservation_eq_ok h
  obtain ⟨-, hwscale, -, hwvalue⟩ := wealthDecimal_spec ht.den_ne (hs.trans ht.base_scale.symm) hw
  have hnoted := ht.noted.step hwscale hnote
  rw [hwvalue, ht.closed, ht.base, ← accountAfter_wealth_observation,
    ← observedWealths_observation] at hnoted
  refine ⟨hwealth ▸ ht.den_ne, ?_, ?_, ?_, hequity ▸ hs, hbase ▸ ht.base_scale, ?_, hnoted⟩
  · rw [hwealth, accountAfter_concat, ht.closed]
    rfl
  · rw [hequity, accountAfter_concat]
    rfl
  · rw [hbase, accountAfter_concat, ht.base]
    rfl
  · rw [hnet, netFlow_concat, ht.net]
    simp [netFlow]

theorem Tracks.cashFlow {flow : ExternalCashFlow} (ht : Tracks l opening pre st)
    (h : replayCashFlow endTime span st flow = .ok st') :
    Tracks l opening (pre ++ [.cashFlow flow]) st' := by
  obtain ⟨-, h⟩ := of_check h
  obtain ⟨wealth, hwealth, h⟩ := of_bind h
  obtain ⟨signed, hsigned, h⟩ := of_bind h
  obtain ⟨net, hnet, h⟩ := of_bind h
  obtain ⟨equity, hequity, h⟩ := of_bind h
  obtain ⟨weighted, -, h⟩ := of_bind h
  cases h
  rw [lift_eq_ok] at hnet hequity
  obtain ⟨-, hsigned⟩ := signedAmount_spec hsigned
  obtain ⟨-, hden, hclosed⟩ := mulRatio_spec ht.den_ne
    (ht.equity_scale.trans ht.base_scale.symm) hwealth
  have hvalue := value_checkedAdd hequity
  have hscale : equity.scale = l.usdScale :=
    (checkedAdd_eq_ok_iff.mp hequity).2.2.trans ht.equity_scale
  rw [hsigned, ht.equity] at hvalue
  refine ⟨hden, ?_, ?_, ?_, hscale, hscale, ?_, ?_⟩
  · rw [hclosed, ht.closed, ht.equity, ht.base, accountAfter_concat]
    rfl
  · rw [hvalue, accountAfter_concat]
    rfl
  · rw [hvalue, accountAfter_concat]
    rfl
  · rw [value_checkedAdd hnet, ht.net, hsigned, netFlow_concat]
    simp [netFlow]
  · rw [observedWealths_cashFlow]
    exact ht.noted

theorem Tracks.first (hs : o.equity.scale = l.usdScale) (hstart : l.startReplay o = .ok st)
    (h : l.replayObservation st o = .ok st') : Tracks l o.equity.value [.observation o] st' := by
  obtain ⟨peak, hpeak, hstart⟩ := of_bind hstart
  obtain ⟨worst, hworst, hstart⟩ := of_bind hstart
  obtain ⟨net, hnet, hstart⟩ := of_bind hstart
  cases hstart
  obtain ⟨w, hw, hnote, hequity, hbase, hwealth, hnet'⟩ := replayObservation_eq_ok h
  obtain ⟨hne, -, -, hwvalue⟩ := wealthDecimal_spec one_ne_zero rfl hw
  obtain ⟨hpvalue, -, hpscale⟩ := value_one hpeak
  have hself : o.equity.value / o.equity.value = 1 :=
    div_self (mt value_eq_zero_iff.mp hne)
  have hgrowth : growth o.equity.value [.observation o] = 1 := by simp [growth, subPeriods, hself]
  have hnoted := Noted.first (by simpa [hself] using hwvalue) hpvalue hpscale
    (value_eq_zero_iff.mpr (fromI128_eq_ok hworst).1) rfl hnote
  refine ⟨?_, ?_, ?_, ?_, hequity ▸ hs, hbase ▸ hs, ?_, ?_⟩
  · rw [hwealth]
    exact one_ne_zero
  · rw [hwealth]
    simp [accountAfter, Account.step]
  · rw [hequity]
    rfl
  · rw [hbase]
    rfl
  · rw [hnet', value_eq_zero_iff.mpr (fromI128_eq_ok hnet).1]
    simp [netFlow]
  · rw [← nil_append [LedgerEvent.observation o], observedWealths_observation,
      nil_append, hgrowth, toScale_one]
    exact hnoted

theorem Tracks.run {ps : List LedgerEvent}
    (hs : ∀ o, .observation o ∈ ps → o.equity.scale = l.usdScale) (ht : Tracks l opening pre st)
    (h : ps.foldlM (l.replayPoint endTime span) st = .ok st') :
    Tracks l opening (pre ++ ps) st' := by
  induction ps generalizing pre st with
  | nil =>
    obtain rfl := ok.inj h
    rwa [append_nil]
  | cons p ps ih =>
    obtain ⟨st₁, hp, h⟩ := of_bind h
    have ht₁ : Tracks l opening (pre ++ [p]) st₁ := by
      cases p with
      | observation o => exact ht.observation (hs o mem_cons_self) hp
      | cashFlow f => exact ht.cashFlow hp
    simpa using ih (fun o ho => hs o (mem_cons_of_mem _ ho)) ht₁ h

theorem finish_eq_ok {version : V} {known : KnownTime} {watermark : BlockHeight}
    {first : EquityObservation} {endTime : ProtocolTime} {r : PerformanceSnapshot S V}
    (h : l.finish version known watermark first endTime st = .ok r) :
    ∃ w d gain u, wealthDecimal st.wealth st.currentEquity st.subperiodStart l.returnScale = .ok w ∧
      st.drawdown.noteDrawdown w endTime l.returnScale = .ok d ∧
      st.currentEquity.checkedSub first.equity = .ok gain ∧
      gain.checkedSub st.netCf = .ok r.tradingGain ∧ one l.returnScale = .ok u ∧
      w.checkedSub u = .ok r.timeWeightedReturn ∧ r.startingEquity = first.equity ∧
      r.endingEquity = st.currentEquity ∧ r.netExternalCashFlow = st.netCf ∧
      r.maxDrawdown = d.maxDrawdown ∧ r.recoveryDurationMicros = d.recovery := by
  obtain ⟨w, hw, h⟩ := of_bind h
  obtain ⟨d, hd, h⟩ := of_bind h
  obtain ⟨gain, hgain, h⟩ := of_bind h
  obtain ⟨trading, htrading, h⟩ := of_bind h
  obtain ⟨u, hu, h⟩ := of_bind h
  obtain ⟨twr, htwr, h⟩ := of_bind h
  obtain ⟨_, -, h⟩ := of_bind h
  obtain ⟨_, -, h⟩ := of_bind h
  obtain ⟨_, -, h⟩ := of_bind h
  obtain ⟨_, -, h⟩ := of_bind h
  obtain ⟨_, -, h⟩ := of_bind h
  cases h
  exact ⟨w, d, gain, u, hw, hd, lift_eq_ok.mp hgain, lift_eq_ok.mp htrading, hu,
    lift_eq_ok.mp htwr, rfl, rfl, rfl, rfl, rfl⟩

theorem Built.spec (hl : Built l) :
    l.returnScale ≠ 0 ∧ ∀ o, .observation o ∈ l.events → o.equity.scale = l.usdScale := by
  induction hl with
  | new h =>
    obtain ⟨hscales, h⟩ := of_check h
    cases h
    exact ⟨fun h0 => hscales (.inr h0), by simp⟩
  | observe _ h ih =>
    obtain ⟨hscale, h⟩ := of_check h
    obtain ⟨-, h⟩ := of_check h
    cases h
    refine ⟨ih.1, fun o ho => ?_⟩
    rcases mem_append.mp ho with ho | ho
    · exact ih.2 o ho
    · cases mem_singleton.mp ho
      exact not_not.mp hscale
  | applyCashFlow _ h ih =>
    obtain ⟨-, h⟩ := of_check h
    obtain ⟨-, h⟩ := of_check h
    cases h
    refine ⟨ih.1, fun o ho => ?_⟩
    rcases mem_append.mp ho with ho | ho
    · exact ih.2 o ho
    · cases mem_singleton.mp ho

variable {asOf : Option ProtocolTime} {version : V} {known : KnownTime} {watermark : BlockHeight}
  {r : PerformanceSnapshot S V}

theorem tracks_of_snapshot (hl : Built l) (h : l.snapshot version known watermark asOf = .ok r) :
    ∃ first endTime st, first.equity.value = l.opening asOf ∧
      Tracks l (l.opening asOf) (l.points asOf) st ∧
      l.finish version known watermark first endTime st = .ok r := by
  have hscale : ∀ o, .observation o ∈ l.points asOf → o.equity.scale = l.usdScale := fun o ho =>
    hl.spec.2 o (mem_filter.mp ((mem_insertionSort _).mp ho)).1
  rw [snapshot] at h
  rw [opening]
  cases hpoints : l.points asOf with
  | nil => simp [hpoints, replay] at h
  | cons p rest =>
    rw [hpoints] at h hscale
    cases p with
    | observation first =>
      obtain ⟨st, hstart, h⟩ := of_bind h
      obtain ⟨last, hrun, h⟩ := of_bind h
      obtain ⟨st₁, hfirst, hrun⟩ := of_bind hrun
      have ht := Tracks.first (hscale first mem_cons_self) hstart hfirst
      exact ⟨first, _, last, rfl,
        ht.run (fun o ho => hscale o (mem_cons_of_mem _ ho)) hrun, h⟩
    | cashFlow f =>
      simp only [replay] at h
      split at h <;> cases h

/-- A snapshot is exact, and its recovery tells whether wealth was seen above its opening level. -/
theorem exact_of_snapshot (hl : Built l) (h : l.snapshot version known watermark asOf = .ok r) :
    l.Exact asOf r ∧ 0 ≤ r.maxDrawdown.value ∧
      (r.recoveryDurationMicros = none ↔ l.NeverRises asOf) := by
  obtain ⟨first, endTime, st, hopening, ht, h⟩ := tracks_of_snapshot hl h
  obtain ⟨w, d, gain, u, hw, hd, hgain, htrading, hu, htwr, hstarting, hending, hnet, hmax, hrec⟩ :=
    finish_eq_ok h
  obtain ⟨-, hwscale, hwraw, hwvalue⟩ := wealthDecimal_spec ht.den_ne
    (ht.equity_scale.trans ht.base_scale.symm) hw
  obtain ⟨-, huraw, huscale⟩ := value_one hu
  obtain ⟨-, hraw, hscale⟩ := checkedSub_eq_ok_iff.mp htwr
  have hgrowth : (st.wealth.1 / st.wealth.2 : ℚ) *
      (st.currentEquity.value / st.subperiodStart.value) = l.exactGrowth asOf := by
    rw [ht.closed, ht.equity, ht.base, exactGrowth, growth_eq_wealth]
    rfl
  rw [hgrowth] at hwraw hwvalue
  have hnoted := ht.noted.step hwscale hd
  rw [hwvalue] at hnoted
  refine ⟨⟨?_, ?_, ?_, hscale.trans hwscale, ?_, hmax ▸ hnoted.worst⟩,
    hmax ▸ hnoted.worst_nonneg, hrec ▸ hnoted.recovery_eq⟩
  · rw [hstarting, hopening]
  · rw [hnet, ht.net]
  · rw [value_checkedSub htrading, value_checkedSub hgain, hstarting, hending, hnet]
  · have heven : (10 : ℤ) ^ l.returnScale % 2 = 0 :=
      Int.emod_eq_zero_of_dvd (dvd_pow (by decide) hl.spec.1)
    rw [hraw, hwraw, huraw, sub_mul, one_mul, ← RoundingMode.round_sub_of_even heven]
    push_cast
    rfl

end PerformanceLedger

variable {k : ℚ} {p q : LedgerEvent} {ps qs : List LedgerEvent}

theorem Rescaled.time_rank (h : Rescaled k p q) : q.time = p.time ∧ q.rank = p.rank := by
  cases h with
  | observation ht _ => exact ⟨ht, rfl⟩
  | cashFlow ht _ => exact ⟨ht, rfl⟩

theorem Rescaled.orderedInsert (hp : Rescaled k p q) (h : List.Forall₂ (Rescaled k) ps qs) :
    List.Forall₂ (Rescaled k) (ps.orderedInsert (fun p q => p.before q = true) p)
      (qs.orderedInsert (fun p q => p.before q = true) q) := by
  induction h with
  | nil => exact .cons hp .nil
  | @cons p' q' ps' qs' hp' h ih =>
    have hbefore : q.before q' = p.before p' := by
      simp only [LedgerEvent.before, hp.time_rank, hp'.time_rank]
    rw [orderedInsert_cons, orderedInsert_cons, hbefore]
    split
    · exact .cons hp (.cons hp' h)
    · exact .cons hp' ih

theorem Rescaled.insertionSort (h : List.Forall₂ (Rescaled k) ps qs) :
    List.Forall₂ (Rescaled k) (ps.insertionSort fun p q => p.before q = true)
      (qs.insertionSort fun p q => p.before q = true) := by
  induction h with
  | nil => exact .nil
  | cons hp _ ih => exact hp.orderedInsert ih

namespace PerformanceLedger

variable {S V : Type} {l other : PerformanceLedger S} {asOf : Option ProtocolTime}

theorem points_rescaled (h : List.Forall₂ (Rescaled k) l.events other.events) :
    List.Forall₂ (Rescaled k) (l.points asOf) (other.points asOf) := by
  refine Rescaled.insertionSort (rel_filter (fun p q hp => ?_) h)
  simp only [hp.time_rank]

theorem opening_rescaled (h : List.Forall₂ (Rescaled k) l.events other.events) :
    other.opening asOf = k * l.opening asOf := by
  rw [opening, opening]
  have hpoints : List.Forall₂ (Rescaled k) (l.points asOf) (other.points asOf) := points_rescaled h
  generalize l.points asOf = ps at hpoints ⊢
  generalize other.points asOf = qs at hpoints ⊢
  induction hpoints with
  | nil => simp
  | cons hp _ ih =>
    cases hp with
    | observation _ he => exact he
    | cashFlow _ _ => exact ih

theorem exactGrowth_rescaled (hk : k ≠ 0) (h : List.Forall₂ (Rescaled k) l.events other.events) :
    other.exactGrowth asOf = l.exactGrowth asOf := by
  rw [exactGrowth, exactGrowth, growth, growth, opening_rescaled h,
    subPeriods_rescaled hk (points_rescaled h)]

end PerformanceLedger

namespace PerformanceLedger

variable {S V : Type}

def SameReturn (l : PerformanceLedger S) (asOf : Option ProtocolTime)
    (r : PerformanceSnapshot S V) (other : PerformanceLedger S) : Prop :=
  ∀ asOf' version known watermark (r' : PerformanceSnapshot S V), Built other →
    other.snapshot version known watermark asOf' = .ok r' → other.returnScale = l.returnScale →
    (other.exactGrowth asOf' = l.exactGrowth asOf ∨
      asOf' = asOf ∧ ∃ k, k ≠ 0 ∧ List.Forall₂ (Rescaled k) l.events other.events) →
    r'.timeWeightedReturn = r.timeWeightedReturn

/-- A snapshot is exact, and returns depend on the growth alone. That no recovery is
reported without a drawdown holds just when wealth falls, or is never above its opening
level: a rise after an observation at the peak is taken for a recovery. -/
theorem recovers_from_drawdown_iff {l : PerformanceLedger S} (hl : Built l)
    {asOf : Option ProtocolTime} {version : V} {known : KnownTime} {watermark : BlockHeight}
    {r : PerformanceSnapshot S V} (h : l.snapshot version known watermark asOf = .ok r) :
    l.Exact asOf r ∧ (∀ other, l.SameReturn asOf r other) ∧
      ((r.maxDrawdown.value = 0 → r.recoveryDurationMicros = none) ↔
        l.Falls asOf ∨ l.NeverRises asOf) := by
  obtain ⟨hexact, hnonneg, hrec⟩ := exact_of_snapshot hl h
  refine ⟨hexact, fun other asOf' version' known' watermark' r' hother h' hscale hsame => ?_, ?_⟩
  · obtain ⟨hexact', -⟩ := exact_of_snapshot hother h'
    have hgrowth : other.exactGrowth asOf' = l.exactGrowth asOf := by
      rcases hsame with hgrowth | ⟨rfl, k, hk, hscaled⟩
      · exact hgrowth
      · exact exactGrowth_rescaled hk hscaled
    have hraw := hexact'.return_raw
    rw [hgrowth, hscale, ← hexact.return_raw] at hraw
    exact ext_raw hraw (hexact'.return_scale.trans (hscale.trans hexact.return_scale.symm))
  · rw [hrec]
    constructor
    · intro himp
      by_cases h0 : r.maxDrawdown.value = 0
      · exact .inr (himp h0)
      · exact .inl ⟨_, hexact.maxDrawdown.1, lt_of_le_of_ne hnonneg (Ne.symm h0)⟩
    · rintro (⟨d, hd, hpos⟩ | hnever) h0
      · exact absurd (hexact.maxDrawdown.2 hd) (by rw [h0]; exact hpos.not_ge)
      · exact hnever

theorem one_le_maxDecimalScale : 1 ≤ maxDecimalScale := by decide

def sampleObservation (time equity : ℕ) (ht : time < 2 ^ 63) (he : InI128 equity) :
    EquityObservation :=
  let zero : UsdAmount := .zero 1 one_le_maxDecimalScale
  ⟨⟨time, ht⟩, ⟨equity, 1, he, one_le_maxDecimalScale⟩, zero, zero, zero, zero, zero, zero⟩

def sampleOpening : EquityObservation := sampleObservation 0 100 ProtocolTime.zero_lt (by decide)

def sampleRise : EquityObservation := sampleObservation 1 110 (1 : ProtocolTime).lt (by decide)

/-- An opening observation of 10, and one of 11. -/
def risingLedger : PerformanceLedger Unit :=
  ⟨(), 1, 2, [.observation sampleOpening, .observation sampleRise]⟩

theorem built_risingLedger : Built risingLedger := by
  have hnew : Built (⟨(), 1, 2, []⟩ : PerformanceLedger Unit) :=
    .new (show tryNew () 1 2 = .ok _ from rfl)
  have hopened : Built (⟨(), 1, 2, [.observation sampleOpening]⟩ : PerformanceLedger Unit) :=
    hnew.observe (show PerformanceLedger.observe _ sampleOpening = .ok _ from rfl)
  exact hopened.observe (show PerformanceLedger.observe _ sampleRise = .ok _ from rfl)

theorem snapshot_risingLedger :
    ((risingLedger.snapshot () ⟨1, by decide⟩ 0 none).toOption.map
      fun r : PerformanceSnapshot Unit Unit => (r.maxDrawdown.raw, r.recoveryDurationMicros)) =
        some (0, some 1) := by
  decide +kernel

theorem rising_reported_as_recovery : Built risingLedger ∧
    ∃ r : PerformanceSnapshot Unit Unit,
      risingLedger.snapshot () ⟨1, by decide⟩ 0 none = .ok r ∧
        r.maxDrawdown.value = 0 ∧ r.recoveryDurationMicros = some 1 := by
  obtain ⟨r, hr, heq⟩ := Option.map_eq_some_iff.mp snapshot_risingLedger
  obtain ⟨hmax, hrec⟩ := Prod.mk.injEq .. ▸ heq
  exact ⟨built_risingLedger, r, mem_toOption.mp hr, value_eq_zero_iff.mpr hmax, hrec⟩

theorem recovers_from_drawdown_iff_risingLedger :
    ∃ r : PerformanceSnapshot Unit Unit,
      risingLedger.snapshot () ⟨1, by decide⟩ 0 none = .ok r ∧ risingLedger.Exact none r ∧
        ((r.maxDrawdown.value = 0 → r.recoveryDurationMicros = none) ↔
          risingLedger.Falls none ∨ risingLedger.NeverRises none) := by
  obtain ⟨r, hr, -⟩ := Option.map_eq_some_iff.mp snapshot_risingLedger
  have h := mem_toOption.mp hr
  obtain ⟨hexact, -, hiff⟩ := recovers_from_drawdown_iff built_risingLedger h
  exact ⟨r, h, hexact, hiff⟩

end PerformanceLedger

end AlphaDesk
