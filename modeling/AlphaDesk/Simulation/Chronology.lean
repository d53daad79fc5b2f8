import AlphaDesk.Simulation.Exits

/-! # The order of events

The events of a run stand in the order of their times unless an order rests. A resting
order is filled from the books in the order of the request and cancelled at the end of
the hold, and only then the exit is written down, which may be earlier than both.
-/

namespace AlphaDesk

open Except Simulation List

variable {books : List BookSnapshot}

namespace Simulation

end Simulation

namespace ExitPolicy

theorem scanExit_cases (policy : ExitPolicy) (openedAt timeExit : ProtocolTime) (long : Bool)
    (chosen : ProtocolTime × String) (book : BookSnapshot) :
    policy.scanExit openedAt timeExit long chosen book = chosen ∨
    (openedAt.unixMicros < book.effectiveAt.unixMicros ∧
      book.effectiveAt.unixMicros < chosen.1.unixMicros ∧
      (policy.scanExit openedAt timeExit long chosen book).1 = book.effectiveAt) := by
  unfold scanExit
  split
  next => exact .inl rfl
  next hin =>
    have hopened : openedAt.unixMicros < book.effectiveAt.unixMicros :=
      Nat.lt_of_not_le fun hle => hin (.inl hle)
    unfold earlier
    by_cases hlt : book.effectiveAt.unixMicros < chosen.1.unixMicros
    · by_cases hprofit : policy.takesProfit long book = true
      · simp [hprofit, hlt, hopened]
      · by_cases hstop : policy.stops long book = true
        · simp [hprofit, hstop, hlt, hopened]
        · simp [hprofit, hstop]
    · simp [hlt]

theorem chooseExit_eq_ok {policy : ExitPolicy} {openedAt : ProtocolTime}
    {evaluationKnownAt : KnownTime} {long : Bool} {invalidateAt : Option ProtocolTime}
    {chosen : ProtocolTime × String}
    (h : policy.chooseExit books openedAt evaluationKnownAt long invalidateAt = .ok chosen) :
    ∃ timeExit, addProtocol openedAt policy.timeHoldMicros.toNat = .ok timeExit ∧
      books.foldl (policy.scanExit openedAt timeExit long)
        (plannedExit openedAt timeExit invalidateAt) = chosen ∧
      openedAt.unixMicros ≤ chosen.1.unixMicros ∧
      chosen.1.unixMicros ≤ timeExit.unixMicros := by
  obtain ⟨timeExit, htime, h⟩ := of_bind h
  obtain ⟨⟨⟩, -, h⟩ := of_bind h
  obtain ⟨book, -, h⟩ := of_bind h
  obtain rfl := ok.inj h
  have hhold : openedAt.unixMicros ≤ timeExit.unixMicros := by
    rw [addProtocol_eq_ok.mp htime]
    exact Nat.le_add_right _ _
  refine ⟨timeExit, htime, rfl, ?_⟩
  refine foldlRecOn books (policy.scanExit openedAt timeExit long)
    (motive := fun chosen => openedAt.unixMicros ≤ chosen.1.unixMicros ∧
      chosen.1.unixMicros ≤ timeExit.unixMicros) ?_ ?_
  · unfold plannedExit
    split
    next => exact ⟨hhold, le_rfl⟩
    next =>
      split
      next hin => exact ⟨hin.1.le, hin.2⟩
      next => exact ⟨hhold, le_rfl⟩
  · intro chosen hchosen book _
    obtain heq | ⟨hopened, hlt, heq⟩ := policy.scanExit_cases openedAt timeExit long chosen book
    · rw [heq]
      exact hchosen
    · rw [heq]
      exact ⟨hopened.le, hlt.le.trans hchosen.2⟩

end ExitPolicy

namespace SimulationRequest

variable {r : SimulationRequest} {B : Blake3} {encode : List SimulationEvent → List UInt8}
  {entry : Entry} {result : SimulationResult} {arrival timeExit : ProtocolTime}
  {original' original : Quantity} {ppm : Option UInt32} {book : BookSnapshot} {s' s : Filling}

/-- An order rests from its arrival to the end of the hold, with its share of a level and what it
took when it arrived. -/
structure RestsFor (r : SimulationRequest) (arrival timeExit : ProtocolTime) (ppm : Option UInt32)
    (original : Quantity) (s : Filling) : Prop where
  arrives : ∃ book walkQty, r.Arrives arrival book original walkQty ∧
    r.fillOnArrival book (entryIsBuy r.signal.direction) walkQty original arrival = .ok s
  rests : r.rests s.fill = true
  share : r.orderPolicy.queueFillPpm (r.seed + 1) = .ok ppm
  hold : addProtocol arrival r.exitPolicy.timeHoldMicros.toNat = .ok timeExit

/-- The time at which a run ends: the exit of the position, or the arrival without one. -/
def EndsAt (r : SimulationRequest) (entry : Entry) (time : ProtocolTime) : Prop :=
  (qtyIsZero entry.filling.fill.filledQuantity = true ∧ time = entry.arrival) ∨
  (qtyIsZero entry.filling.fill.filledQuantity = false ∧
    ∃ reason, r.exitPolicy.chooseExit r.books entry.arrival r.evaluationKnownAt
      (entryIsBuy r.signal.direction) r.invalidateAt = .ok (time, reason))

theorem whileResting_of_mem {buy : Bool} {remaining : Quantity}
    (h : book ∈ r.restingBooks buy ppm arrival timeExit remaining books) :
    WhileResting arrival timeExit book := by
  induction books generalizing remaining with
  | nil => cases h
  | cons b books ih =>
    rw [restingBooks] at h
    split at h
    next => exact ih h
    next walk hwalk =>
      rcases mem_cons.mp h with rfl | h
      · unfold offered at hwalk
        split at hwalk
        next => cases hwalk
        next hin => exact not_not.mp fun hnot => hin (.inr hnot)
      · exact ih h

theorem Arrives.unique {book' : BookSnapshot} {walkQty walkQty' : Quantity}
    (h : r.Arrives arrival book original walkQty) (h' : r.Arrives arrival book' original' walkQty')
    (hs : r.fillOnArrival book (entryIsBuy r.signal.direction) walkQty original arrival = .ok s)
    (hs' : r.fillOnArrival book' (entryIsBuy r.signal.direction) walkQty' original' arrival =
      .ok s') : original = original' ∧ s = s' := by
  obtain rfl := ok_unique h.fresh h'.fresh
  obtain rfl := ok_unique h.aligned h'.aligned
  obtain rfl := ok_unique h.size h'.size
  exact ⟨rfl, ok_unique hs hs'⟩

theorem RestsFor.unique {timeExit' : ProtocolTime} {ppm' : Option UInt32}
    (h : r.RestsFor arrival timeExit ppm original s)
    (h' : r.RestsFor arrival timeExit' ppm' original' s') :
    timeExit = timeExit' ∧ ppm = ppm' ∧ original = original' ∧ s = s' := by
  obtain ⟨book, walkQty, ha, hs⟩ := h.arrives
  obtain ⟨book', walkQty', ha', hs'⟩ := h'.arrives
  exact ⟨ok_unique h.hold h'.hold, ok_unique h.share h'.share,
    ha.unique ha' hs hs'⟩

theorem EndsAt.unique {time time' : ProtocolTime} (h : r.EndsAt entry time)
    (h' : r.EndsAt entry time') : time = time' := by
  obtain ⟨hzero, rfl⟩ | ⟨hzero, reason, hchosen⟩ := h
  · obtain ⟨-, rfl⟩ | ⟨hzero', -⟩ := h'
    · rfl
    · rw [hzero] at hzero'
      cases hzero'
  · obtain ⟨hzero', -⟩ | ⟨-, reason', hchosen'⟩ := h'
    · rw [hzero] at hzero'
      cases hzero'
    · exact congrArg Prod.fst (ok_unique hchosen hchosen')

end SimulationRequest

end AlphaDesk
