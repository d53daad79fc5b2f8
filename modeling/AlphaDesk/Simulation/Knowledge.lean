import AlphaDesk.Simulation.Chronology

/-! # What a run knows

Two requests that differ only in books that become known after a time are compared up
to that time. The books at the arrival and at the exit are chosen among those that are
known, but a resting order is filled and the exit is found by books that may become
known only later. A request is causal when those leave no trace.
-/

namespace AlphaDesk

open Except Simulation List

variable {books : List BookSnapshot} {book' book : BookSnapshot}

namespace Simulation

variable {time : ℕ}

def knownBy (time : ℕ) (books : List BookSnapshot) : List BookSnapshot :=
  books.filter (·.knownAt.unixMicros ≤ time)

def upTo (time : ℕ) (events : List SimulationEvent) : List SimulationEvent :=
  events.filter (·.time.unixMicros ≤ time)

theorem upTo_append (time : ℕ) (events later : List SimulationEvent) :
    upTo time (events ++ later) = upTo time events ++ upTo time later := filter_append ..

theorem upTo_eq_nil {events : List SimulationEvent} (h : ∀ e ∈ events, time < e.time.unixMicros) :
    upTo time events = [] := by
  refine filter_eq_nil_iff.mpr fun e he hle => ?_
  exact absurd (of_decide_eq_true hle) (Nat.not_le.mpr (h e he))

theorem filter_visible_knownBy {arrival : ProtocolTime} (h : arrival.unixMicros ≤ time)
    (books : List BookSnapshot) :
    (knownBy time books).filter (Visible arrival) = books.filter (Visible arrival) := by
  rw [knownBy, filter_filter]
  refine filter_congr fun book _ => ?_
  rw [← Bool.decide_and, decide_eq_decide]
  exact and_iff_left_of_imp fun hvisible => hvisible.2.trans h

theorem selectBook_unique {arrival : ProtocolTime} {books' : List BookSnapshot}
    {evaluationKnownAt : KnownTime} (hle : arrival.unixMicros ≤ time)
    (hknown : knownBy time books = knownBy time books')
    (h : selectBook books arrival evaluationKnownAt = .ok book)
    (h' : selectBook books' arrival evaluationKnownAt = .ok book') : book = book' := by
  obtain ⟨⟨⟩, -, h⟩ := of_bind h
  obtain ⟨⟨⟩, -, h'⟩ := of_bind h'
  rw [← filter_visible_knownBy hle, hknown, filter_visible_knownBy hle] at h
  exact ok_unique h h'

end Simulation

namespace ExitPolicy

variable (policy : ExitPolicy) (openedAt timeExit : ProtocolTime) (long : Bool)

/-- A book ends the position when it takes effect. -/
def Hits (book : BookSnapshot) : Prop :=
  openedAt.unixMicros < book.effectiveAt.unixMicros ∧
    book.effectiveAt.unixMicros ≤ timeExit.unixMicros ∧
    (policy.takesProfit long book = true ∨ policy.stops long book = true)

/-- A book that ends the position makes the exit no later than itself, any other leaves it. -/
theorem fst_scanExit (chosen : ProtocolTime × String) (book : BookSnapshot) :
    (policy.Hits openedAt timeExit long book ∧
      (policy.scanExit openedAt timeExit long chosen book).1.unixMicros =
        min book.effectiveAt.unixMicros chosen.1.unixMicros) ∨
    (¬policy.Hits openedAt timeExit long book ∧
      policy.scanExit openedAt timeExit long chosen book = chosen) := by
  unfold scanExit earlier Hits
  by_cases hwindow : book.effectiveAt.unixMicros ≤ openedAt.unixMicros ∨
      timeExit.unixMicros < book.effectiveAt.unixMicros
  · rw [if_pos hwindow]
    exact .inr ⟨by omega, rfl⟩
  · rw [if_neg hwindow]
    have hopened : openedAt.unixMicros < book.effectiveAt.unixMicros := by omega
    have hhold : book.effectiveAt.unixMicros ≤ timeExit.unixMicros := by omega
    by_cases hlt : book.effectiveAt.unixMicros < chosen.1.unixMicros
    · cases policy.takesProfit long book <;> cases policy.stops long book <;>
        simp [hopened, hhold, hlt, hlt.le]
    · cases policy.takesProfit long book <;> cases policy.stops long book <;>
        simp [hopened, hhold, hlt, Nat.le_of_not_lt hlt]

theorem fst_foldl_scanExit_filter (p : BookSnapshot → Bool) (books : List BookSnapshot)
    {chosen chosen' : ProtocolTime × String} (h : chosen.1.unixMicros ≤ chosen'.1.unixMicros) :
    (books.foldl (policy.scanExit openedAt timeExit long) chosen).1.unixMicros ≤
      ((books.filter p).foldl (policy.scanExit openedAt timeExit long) chosen').1.unixMicros := by
  induction books generalizing chosen chosen' with
  | nil => exact h
  | cons book books ih =>
    have hstep := policy.fst_scanExit openedAt timeExit long chosen book
    cases hp : p book with
    | true =>
      rw [filter_cons_of_pos hp, foldl_cons]
      have hstep' := policy.fst_scanExit openedAt timeExit long chosen' book
      refine ih ?_
      rcases hstep with ⟨hhits, hmin⟩ | ⟨hnot, heq⟩
      · rcases hstep' with ⟨-, hmin'⟩ | ⟨hnot, -⟩
        · omega
        · exact absurd hhits hnot
      · rcases hstep' with ⟨hhits, -⟩ | ⟨-, heq'⟩
        · exact absurd hhits hnot
        · rw [heq, heq']
          exact h
    | false =>
      rw [filter_cons_of_neg (by simp [hp])]
      refine ih ?_
      rcases hstep with ⟨-, hmin⟩ | ⟨-, heq⟩
      · omega
      · rw [heq]
        exact h

end ExitPolicy

namespace SimulationRequest

variable {r : SimulationRequest} {B : Blake3} {encode : List SimulationEvent → List UInt8}
  {entry entry' : Entry} {result result' : SimulationResult} {books' late : List BookSnapshot}
  {T : ℕ}

variable {buy : Bool} {ppm : Option UInt32} {original : Quantity} {arrival timeExit : ProtocolTime}
  {s s' : Filling}

/-- The books that leave a resting order alone may be left out. -/
theorem foldlM_restingBooks
    (h : books.foldlM (r.restOnBook buy ppm original arrival timeExit) s = .ok s') :
    (r.restingBooks buy ppm arrival timeExit s.fill.remainingQuantity books).foldlM
      (r.restOnBook buy ppm original arrival timeExit) s = .ok s' := by
  induction books generalizing s with
  | nil => exact h
  | cons book books ih =>
    obtain ⟨s₁, hstep, h⟩ := of_bind h
    have hrest := ih h
    obtain ⟨rfl, hnone⟩ | ⟨walk, extra, event, hsome, -, -, hremaining, -⟩ :=
      restOnBook_cases hstep
    · rw [restingBooks, hnone]
      exact hrest
    · rw [restingBooks, hsome]
      rw [foldlM_cons, hstep, ← hremaining]
      exact hrest

/-- What books fill after a time leaves no trace up to it. -/
theorem upTo_foldlM_restOnBook (h : late.foldlM (r.restOnBook buy ppm original arrival timeExit) s =
      .ok s') (hlate : ∀ book ∈ late, T < book.effectiveAt.unixMicros) :
    upTo T s'.events = upTo T s.events := by
  refine foldlM_invariant (fun t => upTo T t.events = upTo T s.events) ?_ rfl h
  intro t book t' hbook ht hstep
  obtain ⟨rfl, -⟩ | ⟨walk, extra, event, -, -, -, -, hevents, htime, -⟩ := restOnBook_cases hstep
  · exact ht
  · have hnil : upTo T [event] = [] := by
      refine upTo_eq_nil fun e he => ?_
      rw [mem_singleton.mp he, htime]
      exact hlate book hbook
    rw [hevents, upTo_append, hnil, append_nil, ht]

variable {rested : Filling}

def withBooks (r : SimulationRequest) (books : List BookSnapshot) : SimulationRequest :=
  { r with books := books }

def exitAmong (r : SimulationRequest) (arrival timeExit : ProtocolTime)
    (books : List BookSnapshot) : ProtocolTime × String :=
  books.foldl (r.exitPolicy.scanExit arrival timeExit (entryIsBuy r.signal.direction))
    (ExitPolicy.plannedExit arrival timeExit r.invalidateAt)

/-- What some books make of an order that rests, behind what it took when it arrived. -/
def restAmong (r : SimulationRequest) (arrival timeExit : ProtocolTime) (ppm : Option UInt32)
    (original : Quantity) (s : Filling) (books : List BookSnapshot) : Except SimError Filling :=
  books.foldlM (r.restOnBook (entryIsBuy r.signal.direction) ppm original arrival timeExit)
    { s with events := s.events ++ [.orderRested arrival] }

def fillingBooks (r : SimulationRequest) (arrival timeExit : ProtocolTime) (ppm : Option UInt32)
    (s : Filling) (books : List BookSnapshot) : List BookSnapshot :=
  r.restingBooks (entryIsBuy r.signal.direction) ppm arrival timeExit s.fill.remainingQuantity books

def HeldPast (r : SimulationRequest) (T : ℕ) : Prop :=
  ∀ entry, r.enter = .ok entry → qtyIsZero entry.filling.fill.filledQuantity = false ∧
    ∀ time, r.EndsAt entry time → T < time.unixMicros

/-- Up to `T` the books that become known later leave no trace. They fill a resting order behind
all others and take effect after `T`, and if there are any, a position was held without them and
is closed after `T`. An exit up to `T` is the one that the books known by `T` lead to. -/
structure Causal (r : SimulationRequest) (T : ℕ) : Prop where
  rest : ∀ arrival timeExit ppm original s, arrival.unixMicros ≤ T →
    r.RestsFor arrival timeExit ppm original s →
    ∃ late, r.fillingBooks arrival timeExit ppm s r.books =
        r.fillingBooks arrival timeExit ppm s (knownBy T r.books) ++ late ∧
      (∀ book ∈ late, T < book.effectiveAt.unixMicros) ∧
      (late ≠ [] → r.HeldPast T ∧
        ∃ known, r.restAmong arrival timeExit ppm original s
            (r.fillingBooks arrival timeExit ppm s (knownBy T r.books)) = .ok known ∧
          qtyIsZero known.fill.filledQuantity = false)
  exit : ∀ entry timeExit chosen, r.enter = .ok entry →
    qtyIsZero entry.filling.fill.filledQuantity = false →
    addProtocol entry.arrival r.exitPolicy.timeHoldMicros.toNat = .ok timeExit →
    r.exitAmong entry.arrival timeExit r.books = chosen → chosen.1.unixMicros ≤ T →
    r.exitAmong entry.arrival timeExit (knownBy T r.books) = chosen

theorem Causal.chosen {chosen : ProtocolTime × String} (hcausal : r.Causal T)
    (henter : r.enter = .ok entry)
    (hzero : qtyIsZero entry.filling.fill.filledQuantity = false)
    (h : r.exitPolicy.chooseExit r.books entry.arrival r.evaluationKnownAt
      (entryIsBuy r.signal.direction) r.invalidateAt = .ok chosen) :
    ∃ timeExit, addProtocol entry.arrival r.exitPolicy.timeHoldMicros.toNat = .ok timeExit ∧
      chosen.1.unixMicros ≤
        (r.exitAmong entry.arrival timeExit (knownBy T r.books)).1.unixMicros ∧
      (chosen.1.unixMicros ≤ T →
        r.exitAmong entry.arrival timeExit (knownBy T r.books) = chosen) := by
  obtain ⟨timeExit, hhold, hchosen, -⟩ := ExitPolicy.chooseExit_eq_ok h
  refine ⟨timeExit, hhold, ?_, hcausal.exit entry timeExit chosen henter hzero hhold hchosen⟩
  rw [← hchosen]
  exact r.exitPolicy.fst_foldl_scanExit_filter entry.arrival timeExit
    (entryIsBuy r.signal.direction) _ r.books le_rfl

theorem Arrives.known {arrival' : ProtocolTime} {original' walkQty walkQty' : Quantity}
    (hknown : knownBy T r.books = knownBy T books') (hle : arrival.unixMicros ≤ T)
    (h : r.Arrives arrival book original walkQty)
    (h' : (r.withBooks books').Arrives arrival' book' original' walkQty') :
    arrival' = arrival ∧ book' = book ∧ original' = original ∧ walkQty' = walkQty := by
  obtain rfl := ok_unique h'.arrive h.arrive
  obtain rfl := selectBook_unique hle hknown (freshBook_eq_ok h.fresh) (freshBook_eq_ok h'.fresh)
  obtain rfl := ok_unique h'.aligned h.aligned
  exact ⟨rfl, rfl, rfl, ok_unique h'.size h.size⟩

/-- A resting order is filled by the books known by `T`, and by later ones only after `T`. -/
theorem Resting.known (hle : arrival.unixMicros ≤ T) (hcausal : r.Causal T)
    (hfor : r.RestsFor arrival timeExit ppm original s)
    (h : r.Resting (entryIsBuy r.signal.direction) original arrival timeExit ppm s rested) :
    ∃ known, r.restAmong arrival timeExit ppm original s
        (r.fillingBooks arrival timeExit ppm s (knownBy T r.books)) = .ok known ∧
      (rested = known ∨ upTo T rested.events = upTo T known.events ∧ T < timeExit.unixMicros ∧
        r.HeldPast T ∧ qtyIsZero known.fill.filledQuantity = false) := by
  obtain ⟨late, hbooks, hlate, hheld⟩ := hcausal.rest _ _ _ _ _ hle hfor
  have hfold := foldlM_restingBooks h.books
  rw [show r.restingBooks _ ppm arrival timeExit _ r.books = _ from hbooks, foldlM_append] at hfold
  obtain ⟨known, hsome, hrest⟩ := of_bind hfold
  refine ⟨known, hsome, ?_⟩
  cases late with
  | nil => exact .inl (ok.inj hrest).symm
  | cons book late =>
    have hmem : book ∈ r.fillingBooks arrival timeExit ppm s r.books := by
      rw [hbooks]
      exact mem_append_right _ mem_cons_self
    obtain ⟨hpast, known', hsome', hfilled⟩ := hheld (cons_ne_nil _ _)
    obtain rfl := ok_unique hsome' hsome
    exact .inr ⟨upTo_foldlM_restOnBook hrest hlate,
      (hlate book mem_cons_self).trans_le (whileResting_of_mem hmem).2, hpast, hfilled⟩

end SimulationRequest

end AlphaDesk
