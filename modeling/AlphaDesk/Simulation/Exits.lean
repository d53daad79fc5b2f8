import AlphaDesk.Simulation.Stages

/-! # Closing a position

An order without a limit is filled from the levels of a book until nothing remains of
it. A position is closed as a whole when the levels of the exit book hold what was
filled at the entry, and only then.
-/

namespace AlphaDesk

open Except Simulation Decimal List

namespace Simulation

variable {buy : Bool} {limitPrice : Option Price} {ppm : UInt32} {walk walk' : WalkFill}
  {level : BookLevel} {levels : List BookLevel}

/-- What an order takes from a level with a quantity available. -/
structure Takes (ppm : UInt32) (level : BookLevel) (available : Quantity) (walk next : WalkFill) :
    Prop where
  scaled : scaleQty level.quantity ppm = .ok available
  filled : walk.filledQuantity.checkedAdd (qtyMin walk.remainingQuantity available) =
    .ok next.filledQuantity
  remaining : walk.remainingQuantity.checkedSub (qtyMin walk.remainingQuantity available) =
    .ok next.remainingQuantity
  notional : ∃ slice, Simulation.quoteNotional level.price
    (qtyMin walk.remainingQuantity available) = .ok slice ∧
      walk.quoteNotional.checkedAdd slice = .ok next.quoteNotional

theorem walkLevels_cons (hzero : qtyIsZero walk.remainingQuantity = false)
    (hcross : crosses buy limitPrice level = true)
    (h : walkLevels buy limitPrice ppm walk (level :: levels) = .ok walk') :
    ∃ available, scaleQty level.quantity ppm = .ok available ∧
      ((qtyIsZero (qtyMin walk.remainingQuantity available) = true ∧
        walkLevels buy limitPrice ppm walk levels = .ok walk') ∨
      ∃ next, Takes ppm level available walk next ∧
        walkLevels buy limitPrice ppm next levels = .ok walk') := by
  rw [walkLevels, hzero, if_neg Bool.false_ne_true, hcross] at h
  obtain ⟨available, havailable, h⟩ := of_bind h
  refine ⟨available, havailable, ?_⟩
  dsimp only at h
  split at h
  next htake => exact .inl ⟨htake, h⟩
  next =>
    obtain ⟨slice, hslice, h⟩ := of_bind h
    obtain ⟨notional, hnotional, h⟩ := of_bind h
    obtain ⟨filled, hfilled, h⟩ := of_bind h
    obtain ⟨remaining, hremaining, h⟩ := of_bind h
    exact .inr ⟨⟨filled, remaining, notional⟩, ⟨havailable, amount_eq_ok.mp hfilled,
      amount_eq_ok.mp hremaining, slice, hslice, amount_eq_ok.mp hnotional⟩, h⟩

theorem walkLevels_of_zero (hzero : qtyIsZero walk.remainingQuantity = true) :
    walkLevels buy limitPrice ppm walk levels = .ok walk := by
  cases levels with
  | nil => rfl
  | cons level levels => rw [walkLevels, if_pos hzero]

theorem walkLevels_invariant {P : WalkFill → Prop}
    (hstep : ∀ level ∈ levels, crosses buy limitPrice level = true → ∀ available walk next,
      Takes ppm level available walk next → P walk → P next)
    (hP : P walk) (h : walkLevels buy limitPrice ppm walk levels = .ok walk') : P walk' := by
  induction levels generalizing walk with
  | nil => rwa [← ok.inj h]
  | cons level levels ih =>
    have hrest := fun l hl => hstep l (mem_cons_of_mem level hl)
    cases hzero : qtyIsZero walk.remainingQuantity with
    | true => rwa [← ok.inj ((walkLevels_of_zero hzero).symm.trans h)]
    | false =>
      cases hcross : crosses buy limitPrice level with
      | false =>
        rw [walkLevels, hzero, hcross] at h
        rwa [← ok.inj h]
      | true =>
        obtain ⟨available, -, ⟨-, h⟩ | ⟨next, htakes, h⟩⟩ := walkLevels_cons hzero hcross h
        · exact ih hrest hP h
        · exact ih hrest (hstep level mem_cons_self hcross available walk next htakes hP) h

theorem value_walkLevels (h : walkLevels buy limitPrice ppm walk levels = .ok walk') :
    walk'.filledQuantity.value + walk'.remainingQuantity.value =
      walk.filledQuantity.value + walk.remainingQuantity.value := by
  refine walkLevels_invariant (P := fun w => w.filledQuantity.value + w.remainingQuantity.value =
    walk.filledQuantity.value + walk.remainingQuantity.value) ?_ rfl h
  intro level _ _ available walk next htakes hw
  rw [← hw, value_checkedAdd htakes.filled, value_checkedSub htakes.remaining]
  ring

theorem qtyIsZero_iff {q : Quantity} : qtyIsZero q = true ↔ q.value = 0 := by
  rw [qtyIsZero, decide_eq_true_eq, value_eq_zero_iff]

theorem value_qtyMin (a b : Quantity) : (qtyMin a b).value = min a.value b.value := by
  unfold qtyMin
  split
  next h => exact (min_eq_left (numLe_iff.mp h)).symm
  next h => exact (min_eq_right (le_of_not_ge fun hle => h (numLe_iff.mpr hle))).symm

def levelSum (levels : List BookLevel) : ℚ := (levels.map (·.quantity.value)).sum

/-- The first levels of a side hold a quantity. -/
def Holds (levels : List BookLevel) (quantity : ℚ) : Prop :=
  ∃ taken, taken <+: levels ∧ taken ≠ [] ∧ quantity ≤ levelSum taken

theorem not_holds_nil (quantity : ℚ) : ¬Holds [] quantity := by
  rintro ⟨taken, hpre, hne, -⟩
  exact hne (prefix_nil.mp hpre)

theorem holds_cons {quantity : ℚ} : Holds (level :: levels) quantity ↔
    quantity ≤ level.quantity.value ∨ Holds levels (quantity - level.quantity.value) := by
  constructor
  · rintro ⟨taken, hpre, hne, hle⟩
    obtain ⟨l, rest, rfl⟩ := exists_cons_of_ne_nil hne
    obtain ⟨rfl, hrest⟩ := cons_prefix_cons.mp hpre
    rw [levelSum, map_cons, sum_cons] at hle
    rcases rest with _ | ⟨l', rest⟩
    · left
      simpa using hle
    · right
      refine ⟨l' :: rest, hrest, cons_ne_nil _ _, ?_⟩
      rw [levelSum]
      linarith
  · rintro (hle | ⟨taken, hpre, hne, hle⟩)
    · exact ⟨[level], by simp, cons_ne_nil _ _, by simpa [levelSum] using hle⟩
    · refine ⟨level :: taken, cons_prefix_cons.mpr ⟨rfl, hpre⟩, cons_ne_nil _ _, ?_⟩
      rw [levelSum, map_cons, sum_cons]
      rw [levelSum] at hle
      linarith

/-- An order without a limit is filled when the levels hold it, and only then. -/
theorem remaining_walkLevels_iff (hne : walk.remainingQuantity.value ≠ 0)
    (h : walkLevels buy none 1000000 walk levels = .ok walk') :
    walk'.remainingQuantity.value = 0 ↔ Holds levels walk.remainingQuantity.value := by
  induction levels generalizing walk with
  | nil =>
    rw [← ok.inj h]
    exact iff_of_false hne (not_holds_nil _)
  | cons level levels ih =>
    have hzero : qtyIsZero walk.remainingQuantity = false :=
      Bool.eq_false_iff.mpr fun hz => hne (qtyIsZero_iff.mp hz)
    obtain ⟨available, havailable, h⟩ := walkLevels_cons hzero rfl h
    obtain rfl : level.quantity = available := ok.inj havailable
    rw [holds_cons]
    rw [qtyIsZero_iff, value_qtyMin] at h
    rcases le_or_gt walk.remainingQuantity.value level.quantity.value with hle | hlt
    · -- the level holds all that is left
      rw [min_eq_left hle] at h
      refine iff_of_true ?_ (.inl hle)
      obtain ⟨hnot, -⟩ | ⟨next, htakes, h⟩ := h
      · exact absurd hnot hne
      · have hnone : next.remainingQuantity.value = 0 := by
          rw [value_checkedSub htakes.remaining, value_qtyMin, min_eq_left hle, sub_self]
        rw [← ok.inj ((walkLevels_of_zero (qtyIsZero_iff.mpr hnone)).symm.trans h)]
        exact hnone
    · rw [min_eq_right hlt.le] at h
      rw [or_iff_right (not_le.mpr hlt)]
      obtain ⟨hnot, h⟩ | ⟨next, htakes, h⟩ := h
      · rw [hnot, sub_zero]
        exact ih hne h
      · have hvalue := value_checkedSub htakes.remaining
        rw [value_qtyMin, min_eq_right hlt.le] at hvalue
        rw [← hvalue]
        refine ih ?_ h
        rw [hvalue]
        exact (sub_pos.mpr hlt).ne'

theorem scale_walkLevels (h : walkLevels buy limitPrice ppm walk levels = .ok walk') :
    walk'.filledQuantity.scale = walk.filledQuantity.scale :=
  walkLevels_invariant (P := fun w => w.filledQuantity.scale = walk.filledQuantity.scale)
    (fun _ _ _ _ _ _ htakes hw => (checkedAdd_eq_ok_iff.mp htakes.filled).2.2.trans hw) rfl h

variable {book : BookSnapshot} {requested : Quantity} {ppm : Option UInt32} {costs : FillCostParams}
  {fill : CostedFill}

theorem scale_costedWalk (h : costedWalk book buy requested limitPrice ppm costs = .ok fill) :
    fill.filledQuantity.scale = qtyScale := by
  obtain ⟨walk, hwalk, hfilled, -⟩ := costedWalk_eq_ok h
  obtain ⟨remaining, -, hwalk⟩ := of_bind hwalk
  rw [hfilled, scale_walkLevels hwalk]
  rfl

/-- An exit closes what it was asked to when the book holds it, and only then. -/
theorem filled_costedWalk_iff (hscale : requested.scale = qtyScale) (hne : requested.value ≠ 0)
    (h : costedWalk book buy requested none none costs = .ok fill) :
    fill.filledQuantity.value = requested.value ↔
      Holds (book.oppositeLevels buy) requested.value := by
  obtain ⟨walk, hwalk, hfilled, -⟩ := costedWalk_eq_ok h
  obtain ⟨remaining, halign, hwalk⟩ := of_bind hwalk
  have hvalue : remaining.value = requested.value :=
    value_rescale hscale.le (amount_eq_ok.mp halign)
  have hsum := value_walkLevels hwalk
  have hzero : zeroQty.value = 0 := value_eq_zero_iff.mpr rfl
  have hiff := remaining_walkLevels_iff (by rw [hvalue]; exact hne) hwalk
  rw [hvalue] at hiff
  rw [hfilled, ← hiff]
  constructor
  · intro heq
    linarith
  · intro heq
    linarith

end Simulation

namespace SimulationRequest

variable {r : SimulationRequest} {B : Blake3} {encode : List SimulationEvent → List UInt8}
  {entry : Entry} {result : SimulationResult}

/-- What holds of every walk of a book and is kept by a merge holds of the entry, whether it rested
or not. -/
theorem enter_invariant {P : CostedFill → Prop} (h : r.enter = .ok entry)
    (hwalk : ∀ {book buy requested limitPrice ppm costs fill},
      costedWalk book buy requested limitPrice ppm costs = .ok fill → P fill)
    (hmerge : ∀ {left right fill}, mergeFills left right = .ok fill → P left → P fill) :
    P entry.filling.fill := by
  obtain ⟨book, original, walkQty, -, hfilling, -⟩ := enter_eq_ok h
  obtain ⟨s, hs, hcases⟩ := executeEntry_cases hfilling
  obtain ⟨⟨ppm, himmediate⟩, -⟩ := fillOnArrival_eq_ok hs
  obtain ⟨-, heq⟩ | ⟨timeExit, ppm', rested, hresting, heq⟩ := hcases
  · rw [heq]
    exact hwalk himmediate
  · rw [heq, fill_cancelRest]
    refine foldlM_invariant (fun s => P s.fill) ?_ (hwalk himmediate) hresting.books
    intro s book s' _ hs hstep
    obtain ⟨rfl, -⟩ | ⟨walk, extra, event, -, -, hmerged, -⟩ := restOnBook_cases hstep
    · exact hs
    · exact hmerge hmerged hs

theorem scale_enter (h : r.enter = .ok entry) :
    entry.filling.fill.filledQuantity.scale = qtyScale :=
  enter_invariant (P := fun fill => fill.filledQuantity.scale = qtyScale) h scale_costedWalk
    fun hmerge hs => (checkedAdd_eq_ok_iff.mp (mergeFills_eq_ok hmerge).1).2.2.trans hs

theorem positionClosed_notMem (h : r.enter = .ok entry) (t : ProtocolTime) :
    .positionClosed t ∉ r.entryEvents entry := by
  intro hmem
  obtain ⟨book, original, walkQty, -, hfilling, -⟩ := enter_eq_ok h
  obtain ⟨s, hs, hcases⟩ := executeEntry_cases hfilling
  have hfirst : .positionClosed t ∉ s.events := fun hin =>
    Bool.false_ne_true ((fillOnArrival_eq_ok hs).2 _ hin).2
  have hrest : .positionClosed t ∈ entry.filling.events := by simpa [entryEvents] using hmem
  obtain ⟨-, heq⟩ | ⟨timeExit, ppm', rested, hresting, heq⟩ := hcases
  · rw [heq] at hrest
    exact hfirst hrest
  · obtain ⟨fills, hevents, hquantity, -⟩ := foldlM_restOnBook hresting.books
    have hrested : .positionClosed t ∈ rested.events := by
      rw [heq] at hrest
      unfold cancelRest at hrest
      split at hrest
      next => exact hrest
      next => simpa using hrest
    rw [hevents] at hrested
    rcases mem_append.mp hrested with hin | hin
    · exact hfirst (by simpa using hin)
    · exact Bool.false_ne_true (hquantity _ hin)

/-- The sign of a profit: a short position earns when the price falls. -/
def signed (direction : Direction) (x : ℚ) : ℚ := if direction = .short then -x else x

theorem grossPnl_eq {entry : CostedFill} {exitPrice : Price} {exitNotional gross : UsdAmount}
    {direction : Direction} (hentry : entry.vwap.isSome = true)
    (h : grossPnl entry (some exitPrice) exitNotional direction = .ok gross) :
    gross.value = signed direction (exitNotional.value - entry.quoteNotional.value) := by
  obtain ⟨price, hprice⟩ := Option.isSome_iff_exists.mp hentry
  unfold grossPnl at h
  rw [hprice] at h
  cases direction with
  | long => exact value_checkedSub (amount_eq_ok.mp h)
  | short =>
    rw [value_checkedSub (amount_eq_ok.mp h), signed, if_pos rfl]
    ring
  | flat => cases h

theorem isSome_vwap_enter (h : r.enter = .ok entry) :
    entry.filling.fill.vwap.isSome = !qtyIsZero entry.filling.fill.filledQuantity :=
  enter_invariant (P := fun fill => fill.vwap.isSome = !qtyIsZero fill.filledQuantity) h
    isSome_vwap_costedWalk fun hmerge _ => isSome_vwapOf (mergeFills_eq_ok hmerge).2.2.1

/-- The quantity of the exit is what was filled at the entry, and the profit is that of the two
notionals, exactly when the exit book holds what was filled. -/
theorem closes_filled_quantity_iff (h : r.run B encode = .ok result)
    (hclosed : ∃ t, .positionClosed t ∈ result.events) :
    ∃ entry exitAt reason book exit event, r.enter = .ok entry ∧
      r.exitPolicy.chooseExit r.books entry.arrival r.evaluationKnownAt
        (entryIsBuy r.signal.direction) r.invalidateAt = .ok (exitAt, reason) ∧
      r.freshBook exitAt = .ok book ∧ r.closeAt entry exitAt = .ok exit ∧
      result.events = r.entryEvents entry ++
        [.exitSubmitted exitAt reason, event, .positionClosed exitAt] ++
        (if result.funding.raw = 0 then [] else [.fundingApplied exitAt result.funding]) ∧
      event.quantity = some exit.filledQuantity ∧
      ((exit.filledQuantity.value = result.filledQuantity.value ∧
        result.netPnl.value + (result.entryFees.value + result.exitFees.value +
            result.slippage.value + result.impact.value) + result.funding.value =
          signed r.signal.direction
            (exit.quoteNotional.value - entry.filling.fill.quoteNotional.value)) ↔
        Holds (book.oppositeLevels (!entryIsBuy r.signal.direction))
          entry.filling.fill.filledQuantity.value) := by
  obtain ⟨entry, henter, ⟨-, hfinish⟩ | ⟨hzero, exitAt, reason, exit, events, hexits, hfinish⟩⟩ :=
    run_cases h
  · -- without a position there is nothing to close
    obtain ⟨t, ht⟩ := hclosed
    obtain ⟨gross, -, -, hevents, -, -⟩ := finish_eq_ok hfinish
    rw [hevents] at ht
    have hin : .positionClosed t ∈ r.entryEvents entry := by
      rcases mem_append.mp ht with ht | ht
      · simpa using ht
      · split at ht <;> simp at ht
    exact absurd hin (positionClosed_notMem henter t)
  · obtain ⟨gross, hgross, -, hevents, hfilled, hpnl⟩ := finish_eq_ok hfinish
    obtain ⟨book, hbook, hclose⟩ := of_bind hexits.close
    have hsome := isSome_vwap_costedWalk hclose
    obtain ⟨htrue, -⟩ | ⟨-, event, rfl, -, hquantity⟩ := fillEvents_eq_ok hexits.events hsome
    · rw [hexits.filled] at htrue
      cases htrue
    · rw [hexits.filled] at hsome
      obtain ⟨price, hprice⟩ := Option.isSome_iff_exists.mp hsome
      have hentry := isSome_vwap_enter henter
      rw [hzero] at hentry
      refine ⟨entry, exitAt, reason, book, exit, event, henter, hexits.chosen, hbook,
        hexits.close, ?_, hquantity, ?_⟩
      · rw [hevents]
        simp
      · rw [Option.bind_some, hprice] at hgross
        rw [hpnl, grossPnl_eq hentry hgross, hfilled, Option.elim_some]
        have hne : entry.filling.fill.filledQuantity.value ≠ 0 := fun hz =>
          Bool.eq_false_iff.mp hzero (qtyIsZero_iff.mpr hz)
        rw [and_iff_left rfl]
        exact filled_costedWalk_iff (scale_enter henter) hne hclose

end SimulationRequest

def whole (n : ℕ) (h : InI128 (n * 100000000)) : Decimal := ⟨n * 100000000, 8, h, by decide⟩

def wholeOne : Decimal := whole 1 (by decide)

def wholeTen : Decimal := whole 10 (by decide)

def wholeHundred : Decimal := whole 100 (by decide)

def wholeHundredOne : Decimal := whole 101 (by decide)

/-- A book with one level on each side, known when it takes effect. -/
def sampleBook (time : ProtocolTime) (bid bidQuantity ask askQuantity : Decimal) : BookSnapshot :=
  ⟨time, ⟨time.unixMicros, time.lt⟩, [⟨bid, bidQuantity⟩], [⟨ask, askQuantity⟩]⟩

def sampleCosts : CostModel where
  version := "synthetic-cost-v1"
  fees := ⟨whole 0 (by decide), whole 0 (by decide)⟩
  funding := ⟨3600000000, whole 0 (by decide)⟩
  slippage := ⟨whole 0 (by decide)⟩
  impact := ⟨whole 0 (by decide)⟩
  latency := ⟨.fixed 0, .fixed 0, .fixed 0, 5000000⟩

def sampleSignal (requestedQuantity : Quantity) : SignalSnapshot where
  signalId := ⟨"sig-synthetic", by decide⟩
  marketId := ⟨"SOL", by decide⟩
  direction := .long
  detectedAt := 0
  knownAt := 0
  requestedQuantity := requestedQuantity

def sampleRequest (books : List BookSnapshot) (orderPolicy : OrderPolicy) (exitPolicy : ExitPolicy)
    (requestedQuantity : Quantity) : SimulationRequest where
  evaluationKnownAt := 10000000000
  signal := sampleSignal requestedQuantity
  books := books
  costModel := sampleCosts
  orderPolicy := orderPolicy
  exitPolicy := exitPolicy
  portfolio := ⟨whole 1000000 (by decide), 1000000⟩
  failure := .none
  invalidateAt := none
  seed := 7

/-- A market order for one unit, held for a second, where the bids of the exit book hold some
hundred millionths of a unit. -/
def sampleExit (exitDepth : ℕ) (h : InI128 exitDepth) : SimulationRequest :=
  sampleRequest
    [sampleBook 0 wholeHundred wholeTen wholeHundredOne wholeTen,
     sampleBook 1000000 wholeHundred ⟨exitDepth, 8, h, by decide⟩ wholeHundredOne wholeTen]
    ⟨.market, none, none, none⟩ ⟨1000000, none, none⟩ wholeOne

def sampleBlake3 : Blake3 := ⟨fun _ => .replicate 32 0, fun _ _ => .replicate 32 0⟩

def sampleRun (r : SimulationRequest) : Except SimError SimulationResult :=
  r.run sampleBlake3 fun _ => []

namespace SimulationRequest

/-- Sixty percent of the position are never sold, and yet it counts as closed. -/
theorem shallowExit_closes_less :
    (sampleRun (sampleExit 40000000 (by decide))).toOption.map
        (fun result => (result.filledQuantity.raw, result.netPnl.raw,
          result.events.drop 3)) =
      some (100000000, -6100000000,
        [.exitSubmitted ⟨1000000, by decide⟩ "time",
          .partialFill ⟨1000000, by decide⟩ ⟨40000000, 8, by decide, by decide⟩
            (whole 100 (by decide)) .synthetic false,
          .positionClosed ⟨1000000, by decide⟩]) := by
  decide +kernel

/-- A book of ten units closes a position of one. -/
theorem closes_filled_quantity_iff_deepExit :
    ∃ (result : SimulationResult) (exit : CostedFill),
      sampleRun (sampleExit 1000000000 (by decide)) = .ok result ∧
      (∃ t, .positionClosed t ∈ result.events) ∧
      exit.filledQuantity.value = result.filledQuantity.value := by
  obtain ⟨result, hresult, hclosed⟩ : ∃ result,
      sampleRun (sampleExit 1000000000 (by decide)) = .ok result ∧
        SimulationEvent.positionClosed ⟨1000000, by decide⟩ ∈ result.events := by
    decide +kernel
  obtain ⟨entry, henter, hfilled⟩ : ∃ entry,
      (sampleExit 1000000000 (by decide)).enter = .ok entry ∧
        entry.filling.fill.filledQuantity = whole 1 (by decide) := by
    decide +kernel
  have hbooks : ∀ book ∈ (sampleExit 1000000000 (by decide)).books,
      (book.oppositeLevels false).map (·.quantity) = [whole 10 (by decide)] := by
    decide +kernel
  have hclosed' : ∃ t, .positionClosed t ∈ result.events := ⟨_, hclosed⟩
  obtain ⟨entry', exitAt, reason, book, exit, event, henter', -, hbook, -, -, -, hiff⟩ :=
    closes_filled_quantity_iff hresult hclosed'
  obtain rfl := ok_unique henter henter'
  refine ⟨result, exit, hresult, hclosed', (hiff.mpr ?_).1⟩
  have hlevels := hbooks book (selectBook_eq_ok (freshBook_eq_ok hbook)).1
  obtain ⟨level, hlevel, hquantity⟩ := map_eq_singleton_iff.mp hlevels
  rw [hfilled]
  refine ⟨[level], ?_, cons_ne_nil _ _, ?_⟩
  · exact hlevel ▸ prefix_rfl
  · rw [levelSum, map_singleton, sum_singleton, hquantity, ← numLe_iff]
    decide +kernel

end SimulationRequest

end AlphaDesk
