import AlphaDesk.Simulation.Simulator

/-! # The stages of a run

What a successful run says about its stages: the order was filled, and the position
was closed or there was none. The events of the entry stand in front of those of the
exit, and what was paid for the funding stands at the end.
-/

namespace AlphaDesk

open Except Simulation

variable {time : ProtocolTime} {events : List SimulationEvent} {books : List BookSnapshot}

def SimulationEvent.quantity : SimulationEvent → Option Quantity
  | partialFill _ quantity _ _ _ | fill _ quantity _ _ _ => some quantity
  | _ => none

namespace Simulation

variable {book : BookSnapshot} {buy : Bool} {requested : Quantity} {limitPrice : Option Price}
  {ppm : Option UInt32} {costs : FillCostParams} {fill : CostedFill}

theorem costedWalk_eq_ok (h : costedWalk book buy requested limitPrice ppm costs = .ok fill) :
    ∃ walk, book.takeLiquidity buy requested limitPrice ppm = .ok walk ∧
      fill.filledQuantity = walk.filledQuantity ∧
      fill.remainingQuantity = walk.remainingQuantity ∧
      fill.quoteNotional = walk.quoteNotional ∧ walk.vwap = .ok fill.vwap ∧
      fill.fillClass = .synthetic ∧ fill.venueFill = false := by
  obtain ⟨walk, hwalk, h⟩ := of_bind h
  obtain ⟨vwap, hvwap, h⟩ := of_bind h
  refine ⟨walk, hwalk, ?_⟩
  split at h
  next =>
    obtain rfl := ok.inj h
    exact ⟨rfl, rfl, rfl, hvwap, rfl, rfl⟩
  next =>
    obtain ⟨fee, -, h⟩ := of_bind h
    obtain ⟨slippage, -, h⟩ := of_bind h
    obtain ⟨depth, -, h⟩ := of_bind h
    obtain ⟨-, h⟩ := of_check h
    obtain ⟨bps, -, h⟩ := of_bind h
    obtain ⟨impact, -, h⟩ := of_bind h
    obtain ⟨mid, -, h⟩ := of_bind h
    obtain ⟨midNotional, -, h⟩ := of_bind h
    obtain ⟨spreadCost, -, h⟩ := of_bind h
    obtain rfl := ok.inj h
    exact ⟨rfl, rfl, rfl, hvwap, rfl, rfl⟩

theorem isSome_vwapOf {notional : UsdAmount} {filled : Quantity} {vwap : Option Price}
    (h : vwapOf notional filled = .ok vwap) : vwap.isSome = !qtyIsZero filled := by
  unfold vwapOf at h
  split at h
  next hzero =>
    obtain rfl := ok.inj h
    rw [hzero]
    rfl
  next hzero =>
    obtain ⟨price, -, h⟩ := of_bind h
    obtain rfl := ok.inj h
    rw [Bool.eq_false_iff.mpr hzero]
    rfl

theorem isSome_vwap_costedWalk
    (h : costedWalk book buy requested limitPrice ppm costs = .ok fill) :
    fill.vwap.isSome = !qtyIsZero fill.filledQuantity := by
  obtain ⟨walk, -, hfilled, -, -, hvwap, -⟩ := costedWalk_eq_ok h
  rw [hfilled]
  exact isSome_vwapOf hvwap

theorem fillEvents_eq_ok {original : Quantity} (h : fillEvents time fill original = .ok events)
    (hvwap : fill.vwap.isSome = !qtyIsZero fill.filledQuantity) :
    (qtyIsZero fill.filledQuantity = true ∧ events = []) ∨
    (qtyIsZero fill.filledQuantity = false ∧ ∃ event, events = [event] ∧ event.time = time ∧
      event.quantity = some fill.filledQuantity) := by
  obtain ⟨-, -, h⟩ := of_bind h
  cases hzero : qtyIsZero fill.filledQuantity with
  | true =>
    rw [hzero, if_pos rfl] at h
    exact .inl ⟨rfl, (ok.inj h).symm⟩
  | false =>
    rw [hzero] at h hvwap
    obtain ⟨price, hprice⟩ := Option.isSome_iff_exists.mp hvwap
    rw [if_neg Bool.false_ne_true, hprice] at h
    refine .inr ⟨rfl, ?_⟩
    dsimp only at h
    split at h
    next => exact ⟨_, (ok.inj h).symm, rfl, rfl⟩
    next => exact ⟨_, (ok.inj h).symm, rfl, rfl⟩

theorem mergeFills_eq_ok {left right : CostedFill} (h : mergeFills left right = .ok fill) :
    left.filledQuantity.checkedAdd right.filledQuantity = .ok fill.filledQuantity ∧
      fill.remainingQuantity = right.remainingQuantity ∧
      vwapOf fill.quoteNotional fill.filledQuantity = .ok fill.vwap ∧
      left.quoteNotional.checkedAdd right.quoteNotional = .ok fill.quoteNotional := by
  obtain ⟨⟨⟩, -, h⟩ := of_bind h
  obtain ⟨⟨⟩, -, h⟩ := of_bind h
  obtain ⟨filled, hfilled, h⟩ := of_bind h
  obtain ⟨notional, hnotional, h⟩ := of_bind h
  obtain ⟨vwap, hvwap, h⟩ := of_bind h
  obtain ⟨fee, -, h⟩ := of_bind h
  obtain ⟨slippage, -, h⟩ := of_bind h
  obtain ⟨impact, -, h⟩ := of_bind h
  obtain ⟨spreadCost, -, h⟩ := of_bind h
  obtain rfl := ok.inj h
  exact ⟨amount_eq_ok.mp hfilled, rfl, hvwap, amount_eq_ok.mp hnotional⟩

theorem selectBook_eq_ok {evaluationKnownAt : KnownTime}
    (h : selectBook books time evaluationKnownAt = .ok book) :
    book ∈ books ∧ Visible time book := by
  obtain ⟨⟨⟩, -, h⟩ := of_bind h
  rw [ofOption_eq_ok] at h
  have hfold : ∀ (candidates : List BookSnapshot) (best : Option BookSnapshot),
      candidates.foldl laterBook best = some book → book ∈ best ∨ book ∈ candidates := by
    intro candidates
    induction candidates with
    | nil => exact fun best hbest => .inl hbest
    | cons candidate candidates ih =>
      intro best hbest
      rcases ih _ hbest with hmem | hmem
      · cases best with
        | none => exact .inr (List.mem_cons.mpr (.inl (Option.some.inj hmem).symm))
        | some other =>
          unfold laterBook at hmem
          dsimp only at hmem
          split at hmem
          next => exact .inr (List.mem_cons.mpr (.inl (Option.some.inj hmem).symm))
          next => exact .inl hmem
      · exact .inr (List.mem_cons_of_mem candidate hmem)
  rcases hfold _ none h with hnone | hmem
  · cases hnone
  · obtain ⟨hin, hvisible⟩ := List.mem_filter.mp hmem
    exact ⟨hin, of_decide_eq_true hvisible⟩

end Simulation

namespace SimulationRequest

variable {r : SimulationRequest} {B : Blake3} {encode : List SimulationEvent → List UInt8}
  {entry : Entry} {result : SimulationResult}

/-- What was decided before the order was filled. -/
structure Arrives (r : SimulationRequest) (arrival : ProtocolTime) (book : BookSnapshot)
    (original walkQty : Quantity) : Prop where
  valid : r.validate = .ok ()
  arrive : r.arrive = .ok arrival
  fresh : r.freshBook arrival = .ok book
  direction : r.signal.direction ≠ .flat
  aligned : alignQty r.signal.requestedQuantity = .ok original
  size : r.admitSize book (entryIsBuy r.signal.direction) original = .ok walkQty

theorem enter_eq_ok (h : r.enter = .ok entry) :
    ∃ book original walkQty, r.Arrives entry.arrival book original walkQty ∧
      r.executeEntry book (entryIsBuy r.signal.direction) walkQty original entry.arrival =
        .ok entry.filling ∧
      original.checkedSub entry.filling.fill.filledQuantity = .ok entry.missed := by
  obtain ⟨⟨⟩, hvalid, h⟩ := of_bind h
  obtain ⟨arrival, harrive, h⟩ := of_bind h
  obtain ⟨⟨⟩, -, h⟩ := of_bind h
  obtain ⟨book, hbook, h⟩ := of_bind h
  obtain ⟨hdirection, h⟩ := of_check h
  obtain ⟨⟨⟩, -, h⟩ := of_bind h
  obtain ⟨original, horiginal, h⟩ := of_bind h
  obtain ⟨walkQty, hsize, h⟩ := of_bind h
  obtain ⟨filling, hfilling, h⟩ := of_bind h
  obtain ⟨missed, hmissed, h⟩ := of_bind h
  obtain rfl := ok.inj h
  exact ⟨book, original, walkQty, ⟨hvalid, harrive, hbook, hdirection, horiginal, hsize⟩, hfilling,
    amount_eq_ok.mp hmissed⟩

theorem freshBook_eq_ok {book : BookSnapshot} (h : r.freshBook time = .ok book) :
    selectBook r.books time r.evaluationKnownAt = .ok book := by
  obtain ⟨book', hselect, h⟩ := of_bind h
  obtain ⟨-, h⟩ := of_check h
  rwa [← ok.inj h]

variable {buy : Bool} {ppm : Option UInt32} {original requested : Quantity}
  {arrival timeExit : ProtocolTime} {s s' : Filling} {book : BookSnapshot}

def offered (r : SimulationRequest) (buy : Bool) (ppm : Option UInt32)
    (arrival timeExit : ProtocolTime) (remaining : Quantity) (book : BookSnapshot) :
    Option WalkFill :=
  if qtyIsZero remaining ∨ ¬WhileResting arrival timeExit book then none
  else (book.takeLiquidity buy remaining r.orderPolicy.limitPrice ppm).toOption.filter
    fun walk => !qtyIsZero walk.filledQuantity

/-- The books that fill a resting order, one behind the other. -/
def restingBooks (r : SimulationRequest) (buy : Bool) (ppm : Option UInt32)
    (arrival timeExit : ProtocolTime) : Quantity → List BookSnapshot → List BookSnapshot
  | _, [] => []
  | remaining, book :: books =>
    match r.offered buy ppm arrival timeExit remaining book with
    | none => r.restingBooks buy ppm arrival timeExit remaining books
    | some walk => book :: r.restingBooks buy ppm arrival timeExit walk.remainingQuantity books

theorem restOnBook_cases (h : r.restOnBook buy ppm original arrival timeExit s book = .ok s') :
    (s' = s ∧ r.offered buy ppm arrival timeExit s.fill.remainingQuantity book = none) ∨
    ∃ walk extra event,
      r.offered buy ppm arrival timeExit s.fill.remainingQuantity book = some walk ∧
      costedWalk book buy s.fill.remainingQuantity r.orderPolicy.limitPrice ppm
        (r.fillCosts false) = .ok extra ∧
      mergeFills s.fill extra = .ok s'.fill ∧
      s'.fill.remainingQuantity = walk.remainingQuantity ∧ s'.events = s.events ++ [event] ∧
      event.time = book.effectiveAt ∧ event.quantity = some extra.filledQuantity := by
  unfold restOnBook at h
  unfold offered
  cases hzero : qtyIsZero s.fill.remainingQuantity with
  | true =>
    rw [hzero, if_pos rfl] at h
    exact .inl ⟨(ok.inj h).symm, if_pos (.inl rfl)⟩
  | false =>
    rw [hzero, if_neg Bool.false_ne_true] at h
    by_cases hrest : WhileResting arrival timeExit book
    · rw [if_neg (not_not.mpr hrest)] at h
      rw [if_neg (by simp [hrest])]
      obtain ⟨extra, hextra, h⟩ := of_bind h
      obtain ⟨walk, hwalk, hfilled, hremaining, -⟩ := costedWalk_eq_ok hextra
      rw [hwalk]
      cases hextraZero : qtyIsZero extra.filledQuantity with
      | true =>
        rw [hextraZero, if_pos rfl] at h
        refine .inl ⟨(ok.inj h).symm, ?_⟩
        rw [hfilled] at hextraZero
        simp [Except.toOption, hextraZero]
      | false =>
        rw [hextraZero, if_neg Bool.false_ne_true] at h
        obtain ⟨events, hevents, h⟩ := of_bind h
        obtain ⟨fill, hmerge, h⟩ := of_bind h
        obtain rfl := ok.inj h
        have hsome := isSome_vwap_costedWalk hextra
        obtain ⟨htrue, -⟩ | ⟨-, event, rfl, htime, hquantity⟩ := fillEvents_eq_ok hevents hsome
        · rw [hextraZero] at htrue
          cases htrue
        · refine .inr ⟨walk, extra, event, ?_, hextra, hmerge,
            (mergeFills_eq_ok hmerge).2.1.trans hremaining, rfl, htime, hquantity⟩
          rw [hfilled] at hextraZero
          simp [Except.toOption, hextraZero]
    · rw [if_pos hrest] at h
      exact .inl ⟨(ok.inj h).symm, if_pos (.inr hrest)⟩

theorem foldlM_restOnBook
    (h : books.foldlM (r.restOnBook buy ppm original arrival timeExit) s = .ok s') :
    ∃ fills, s'.events = s.events ++ fills ∧ (∀ e ∈ fills, e.quantity.isSome = true) ∧
      fills.map (·.time) = (r.restingBooks buy ppm arrival timeExit s.fill.remainingQuantity
        books).map (·.effectiveAt) := by
  induction books generalizing s with
  | nil =>
    obtain rfl := ok.inj h
    exact ⟨[], by simp, by simp, rfl⟩
  | cons book books ih =>
    obtain ⟨s₁, hstep, h⟩ := of_bind h
    obtain ⟨fills, hevents, hquantity, htimes⟩ := ih h
    obtain ⟨rfl, hnone⟩ | ⟨walk, extra, event, hsome, -, -, hremaining, hevent, htime, hq⟩ :=
      restOnBook_cases hstep
    · refine ⟨fills, hevents, hquantity, ?_⟩
      rw [restingBooks, hnone]
      exact htimes
    · refine ⟨event :: fills, ?_, ?_, ?_⟩
      · rw [hevents, hevent, List.append_assoc]
        rfl
      · intro e he
        rcases List.mem_cons.mp he with rfl | he
        · rw [hq]
          rfl
        · exact hquantity e he
      · rw [restingBooks, hsome, List.map_cons, List.map_cons, htimes, htime, hremaining]

theorem fill_cancelRest (timeExit : ProtocolTime) (s : Filling) :
    (cancelRest timeExit s).fill = s.fill := by
  unfold cancelRest
  split <;> rfl

theorem fillOnArrival_eq_ok (h : r.fillOnArrival book buy requested original arrival = .ok s) :
    (∃ ppm, costedWalk book buy requested r.orderPolicy.limitPrice ppm (r.fillCosts true) =
      .ok s.fill) ∧
    ∀ e ∈ s.events, e.time = arrival ∧ e.quantity.isSome = true := by
  obtain ⟨ppm, -, h⟩ := of_bind h
  obtain ⟨immediate, himmediate, h⟩ := of_bind h
  obtain ⟨events, hevents, h⟩ := of_bind h
  obtain rfl := ok.inj h
  refine ⟨⟨ppm, himmediate⟩, ?_⟩
  obtain ⟨-, rfl⟩ | ⟨-, event, rfl, htime, hquantity⟩ :=
    fillEvents_eq_ok hevents (isSome_vwap_costedWalk himmediate)
  · simp
  · intro e he
    rw [List.mem_singleton.mp he, hquantity]
    exact ⟨htime, rfl⟩

/-- An order that rests, with its share of a level, the end of the hold and what was left of it
when it arrived. -/
structure Resting (r : SimulationRequest) (buy : Bool) (original : Quantity)
    (arrival timeExit : ProtocolTime) (ppm : Option UInt32) (s rested : Filling) : Prop where
  rests : r.rests s.fill = true
  share : r.orderPolicy.queueFillPpm (r.seed + 1) = .ok ppm
  hold : addProtocol arrival r.exitPolicy.timeHoldMicros.toNat = .ok timeExit
  books : r.books.foldlM (r.restOnBook buy ppm original arrival timeExit)
    { s with events := s.events ++ [.orderRested arrival] } = .ok rested

theorem executeEntry_cases {filling : Filling}
    (h : r.executeEntry book buy requested original arrival = .ok filling) :
    ∃ s, r.fillOnArrival book buy requested original arrival = .ok s ∧
      ((r.rests s.fill = false ∧ filling = s) ∨ ∃ timeExit ppm rested,
        r.Resting buy original arrival timeExit ppm s rested ∧
        filling = cancelRest timeExit rested) := by
  obtain ⟨s, hs, h⟩ := of_bind h
  refine ⟨s, hs, ?_⟩
  cases hrests : r.rests s.fill with
  | false =>
    rw [hrests, if_neg Bool.false_ne_true] at h
    exact .inl ⟨rfl, (ok.inj h).symm⟩
  | true =>
    rw [hrests, if_pos rfl] at h
    obtain ⟨ppm, hppm, h⟩ := of_bind h
    obtain ⟨timeExit, htime, h⟩ := of_bind h
    obtain ⟨rested, hrested, h⟩ := of_bind h
    exact .inr ⟨timeExit, ppm, rested, ⟨hrests, hppm, htime, hrested⟩, (ok.inj h).symm⟩

theorem finish_eq_ok {exit : Option CostedFill} {closedAt : ProtocolTime}
    (h : r.finish B encode entry events exit closedAt = .ok result) :
    ∃ gross,
      grossPnl entry.filling.fill (exit.bind (·.vwap)) (exit.elim zeroUsd (·.quoteNotional))
        r.signal.direction = .ok gross ∧
      r.fundingOf entry closedAt = .ok result.funding ∧
      result.events = events ++
        (if result.funding.raw = 0 then [] else [.fundingApplied closedAt result.funding]) ∧
      result.filledQuantity = entry.filling.fill.filledQuantity ∧
      result.netPnl.value + (result.entryFees.value + result.exitFees.value +
        result.slippage.value + result.impact.value) + result.funding.value = gross.value := by
  obtain ⟨⟨⟩, -, h⟩ := of_bind h
  obtain ⟨⟨⟩, -, h⟩ := of_bind h
  obtain ⟨funding, hfunding, h⟩ := of_bind h
  obtain ⟨slippage, -, h⟩ := of_bind h
  obtain ⟨impact, -, h⟩ := of_bind h
  obtain ⟨spreadCost, -, h⟩ := of_bind h
  obtain ⟨gross, hgross, h⟩ := of_bind h
  obtain ⟨fees, hfees, h⟩ := of_bind h
  obtain ⟨costs, hcosts, h⟩ := of_bind h
  obtain ⟨costs', hcosts', h⟩ := of_bind h
  obtain ⟨net, hnet, h⟩ := of_bind h
  obtain ⟨netPnl, hnetPnl, h⟩ := of_bind h
  obtain ⟨⟨⟩, -, h⟩ := of_bind h
  obtain rfl := ok.inj h
  refine ⟨gross, hgross, hfunding, rfl, rfl, ?_⟩
  have hf := Decimal.value_checkedAdd (amount_eq_ok.mp hfees)
  have hc := Decimal.value_checkedAdd (amount_eq_ok.mp hcosts)
  have hc' := Decimal.value_checkedAdd (amount_eq_ok.mp hcosts')
  have hn := Decimal.value_checkedSub (amount_eq_ok.mp hnet)
  have hp := Decimal.value_checkedSub (amount_eq_ok.mp hnetPnl)
  rw [hp, hn, hc', hc, hf]
  ring

structure Exits (r : SimulationRequest) (entry : Entry) (exitAt : ProtocolTime) (reason : String)
    (exit : CostedFill) (events : List SimulationEvent) : Prop where
  chosen : r.exitPolicy.chooseExit r.books entry.arrival r.evaluationKnownAt
    (entryIsBuy r.signal.direction) r.invalidateAt = .ok (exitAt, reason)
  close : r.closeAt entry exitAt = .ok exit
  events : fillEvents exitAt exit entry.filling.fill.filledQuantity = .ok events
  filled : qtyIsZero exit.filledQuantity = false

theorem run_cases (h : r.run B encode = .ok result) : ∃ entry, r.enter = .ok entry ∧
    ((qtyIsZero entry.filling.fill.filledQuantity = true ∧
      r.finish B encode entry (r.entryEvents entry ++ [.cancelled entry.arrival]) none
        entry.arrival = .ok result) ∨
    (qtyIsZero entry.filling.fill.filledQuantity = false ∧ ∃ exitAt reason exit events,
      r.Exits entry exitAt reason exit events ∧
      r.finish B encode entry (r.entryEvents entry ++ [.exitSubmitted exitAt reason] ++ events ++
        [.positionClosed exitAt]) (some exit) exitAt = .ok result)) := by
  obtain ⟨entry, henter, h⟩ := of_bind h
  refine ⟨entry, henter, ?_⟩
  unfold leave at h
  cases hzero : qtyIsZero entry.filling.fill.filledQuantity with
  | true =>
    rw [hzero, if_pos rfl] at h
    exact .inl ⟨rfl, h⟩
  | false =>
    rw [hzero, if_neg Bool.false_ne_true] at h
    obtain ⟨⟨exitAt, reason⟩, hchosen, h⟩ := of_bind h
    obtain ⟨exit, hclose, h⟩ := of_bind h
    obtain ⟨events, hevents, h⟩ := of_bind h
    obtain ⟨hfilled, h⟩ := of_check h
    exact .inr ⟨rfl, exitAt, reason, exit, events,
      ⟨hchosen, hclose, hevents, Bool.eq_false_iff.mpr hfilled⟩, h⟩

end SimulationRequest

end AlphaDesk
