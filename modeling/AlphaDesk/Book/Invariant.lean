import AlphaDesk.Book.Levels

/-! # The representation invariant over whole runs

Each call on a healthy book either fails, and the book is cleared, or leaves a
book that again represents a map of positive orders within the bound. The failures
are never those of an inconsistent index, and a book that is healthy after its calls
shows exactly the map of orders that the calls describe.
-/

namespace AlphaDesk

open Std.ExtTreeMap SortedList

namespace OrderBook

/-- A healthy book between its operations, with the map it stands for. -/
structure Good (b : OrderBook) (m : OrderMap) : Prop where
  represents : Represents b m
  positive : ∀ (id : OrderId) (o : RestingOrder), m[id]? = some o →
    0 < o.price.raw ∧ 0 < o.remaining.raw
  bounded : m.size ≤ b.maxOrders
  healthy : b.health = .healthy

/-- The errors that report an inconsistent index. -/
def indexFaults : List String :=
  ["order index is inconsistent", "bid index is inconsistent", "ask index is inconsistent",
    "active index is inconsistent", "l2 level index is inconsistent"]

/-- A call that keeps the bound, and fails for a reason other than its index or leaves a good book
for the map. -/
def SoundCall (bound : ℕ) (m : OrderMap) : Call Unit → Prop
  | (.error reason, b) => b.maxOrders = bound ∧ reason ∉ indexFaults
  | (.ok (), b) => b.maxOrders = bound ∧ Good b m

variable {b : OrderBook} {m : OrderMap} {id : OrderId} {o : RestingOrder} {bound : ℕ}

theorem Good.record (h : Good b m) (orderId : OrderId) (kind : LifecycleKind) :
    Good (b.record orderId kind) m :=
  ⟨h.represents.transfer rfl rfl rfl, h.positive, h.bounded, h.healthy⟩

@[simp] theorem maxOrders_place : (b.place o).maxOrders = b.maxOrders := by simp [place]

@[simp] theorem health_place : (b.place o).health = b.health := by simp [place]

theorem Good.place (h : Good b m) (hfresh : o.orderId ∉ m) (hprice : 0 < o.price.raw)
    (hremaining : 0 < o.remaining.raw) (hroom : m.size < b.maxOrders) :
    Good (b.place o) (m.insert o.orderId o) := by
  refine ⟨h.represents.place hfresh, ?_, ?_, ?_⟩
  · exact forall_insert h.positive ⟨hprice, hremaining⟩
  · have hsize : (m.insert o.orderId o).size = m.size + 1 := by
      simp [size_insert, hfresh]
    rw [maxOrders_place]
    omega
  · rw [health_place, h.healthy]

/-- Taking an order leaves a good book, with room for the order to come back, as soon
as the other orders are positive. -/
theorem Represents.takeActive_good (h : Represents b m) (ho : m[id]? = some o)
    (hpos : ∀ (id' : OrderId) (o' : RestingOrder), id ≠ id' → m[id']? = some o' →
      0 < o'.price.raw ∧ 0 < o'.remaining.raw)
    (hbound : m.size ≤ b.maxOrders) (hhealthy : b.health = .healthy) :
    ∃ b', b.takeActive id (OrderIndex.of o) = (some o, b') ∧ Good b' (m.erase id) ∧
      id ∉ m.erase id ∧ (m.erase id).size < b'.maxOrders ∧ b'.maxOrders = b.maxOrders := by
  obtain ⟨b', ht, hr, hh, hmax⟩ := h.takeActive ho
  have hsize := size_erase_of_mem (mem_iff_getElem?.mpr ⟨o, ho⟩)
  refine ⟨b', ht, ⟨hr, ?_, ?_, hh.trans hhealthy⟩, by simp, ?_, hmax⟩
  · intro id' o' ho'
    rw [getElem?_erase] at ho'
    split at ho'
    next => cases ho'
    next hid =>
      exact hpos id' o' (fun he => hid (Std.LawfulEqOrd.compare_eq_iff_eq.mpr he)) ho'
  · rw [hmax]
    omega
  · rw [hmax]
    omega

theorem Good.takeActive (h : Good b m) (ho : m[id]? = some o) :
    ∃ b', b.takeActive id (OrderIndex.of o) = (some o, b') ∧ Good b' (m.erase id) ∧
      id ∉ m.erase id ∧ (m.erase id).size < b'.maxOrders ∧ b'.maxOrders = b.maxOrders :=
  h.represents.takeActive_good ho (fun id' o' _ => h.positive id' o') h.bounded h.healthy

theorem insertActive_sound (h : Good b m) (order : RestingOrder) (fromSnapshot : Bool) :
    SoundCall b.maxOrders (m.insert order.orderId order) (b.insertActive order fromSnapshot) := by
  fun_cases insertActive b order fromSnapshot with
  | case1 | case2 | case3 => exact ⟨rfl, by decide⟩
  | case4 hsigns hid hroom =>
    rw [h.represents.mem_iff] at hid
    rw [h.represents.index_size, not_le] at hroom
    simp only [not_or, not_le] at hsigns
    have hgood := h.place hid hsigns.2.1 hsigns.1 hroom
    split
    next => exact ⟨maxOrders_place, hgood⟩
    next => exact ⟨maxOrders_place, hgood.record _ _⟩

theorem removeActive_sound (h : Good b m) (orderId : OrderId) (kind : LifecycleKind) :
    SoundCall b.maxOrders (m.erase orderId) (b.removeActive orderId kind) := by
  unfold removeActive
  split
  next => exact ⟨rfl, by decide⟩
  next index hi =>
    obtain ⟨o, ho, -, rfl, -⟩ := h.represents.lookup hi
    obtain ⟨b', ht, hgood, -, -, hmax⟩ := h.takeActive ho
    rw [ht]
    exact ⟨hmax, hgood.record _ _⟩

theorem updateActive_sound (h : Good b m) (orderId : OrderId) (remaining : Quantity)
    (price : Price) : SoundCall b.maxOrders (diffed m (.update orderId remaining price))
      (b.updateActive orderId remaining price) := by
  unfold updateActive
  split
  next => exact ⟨rfl, by decide⟩
  next hsigns =>
    simp only [not_or, not_lt, not_le] at hsigns
    split
    next => exact ⟨rfl, by decide⟩
    next index hi =>
      obtain ⟨o, ho, rfl, rfl, -⟩ := h.represents.lookup hi
      obtain ⟨b', ht, hgood, hfresh, hroom, hmax⟩ := h.takeActive ho
      rw [ht, diffed, ho, Option.elim_some, revise]
      dsimp only
      split
      next => exact ⟨hmax, hgood.record _ _⟩
      next hzero =>
        -- the order keeps its identity, so it is placed where it was taken from the map
        have hpos : 0 < remaining.raw := lt_of_le_of_ne hsigns.1 (Ne.symm hzero)
        have hplaced := Good.place (o := { o with remaining := remaining, price := price }) hgood
          hfresh hsigns.2 hpos hroom
        rw [insert_erase] at hplaced
        exact ⟨maxOrders_setSide.trans hmax, hplaced.record _ _⟩

theorem applyFillQty_error {fillQuantity : Quantity} {reason : String}
    (h : applyFillQty o fillQuantity = .error reason) : reason ∉ indexFaults := by
  revert h
  fun_cases applyFillQty o fillQuantity with
  | case1 | case2 =>
    rintro ⟨⟩
    decide
  | case3 => rintro ⟨⟩

/-- The end of a fill: an emptied order is taken out, any other stays with what remains. -/
theorem fillActive_refilled (h : Good b m) (ho : m[o.orderId]? = some o) {remaining : Quantity}
    (hnonneg : 0 ≤ remaining.raw) :
    let filled := { o with remaining := remaining }
    let b' := b.setSide o.side ((b.side o.side).setValue o.bookKey filled)
    SoundCall b.maxOrders (revise m o.orderId filled)
      (if filled.remaining.raw = 0 then b'.removeActive o.orderId .filled
        else (.ok (), b'.record o.orderId .filled)) := by
  intro filled b'
  have hr : Represents b' (m.insert o.orderId filled) := h.represents.refill ho rfl rfl
  have hget : (m.insert o.orderId filled)[o.orderId]? = some filled :=
    getElem?_insert_self
  have hmem : o.orderId ∈ m := mem_iff_isSome_getElem?.mpr (by simp [ho])
  have hbound : (m.insert o.orderId filled).size ≤ b'.maxOrders := by
    rw [size_insert, if_pos (mem_iff_contains.mp hmem),
      maxOrders_setSide]
    exact h.bounded
  have hothers : ∀ (id : OrderId) (o' : RestingOrder), o.orderId ≠ id →
      (m.insert o.orderId filled)[id]? = some o' → 0 < o'.price.raw ∧ 0 < o'.remaining.raw := by
    intro id o' hid ho'
    rw [getElem?_insert,
      if_neg fun he => hid (Std.LawfulEqOrd.compare_eq_iff_eq.mp he)] at ho'
    exact h.positive id o' ho'
  have hhealthy : b'.health = .healthy := health_setSide.trans h.healthy
  rw [revise]
  split
  next =>
    obtain ⟨b'', ht, hgood, -, -, hmax⟩ := hr.takeActive_good hget hothers hbound hhealthy
    have hindex : b'.byId[o.orderId]? = some (OrderIndex.of filled) := by rw [hr.index, hget]; rfl
    rw [removeActive, hindex]
    simp only [ht]
    rw [erase_insert] at hgood
    exact ⟨hmax.trans maxOrders_setSide, hgood.record _ _⟩
  next hzero =>
    have hgood : Good b' (m.insert o.orderId filled) := by
      refine ⟨hr, ?_, hbound, hhealthy⟩
      intro id o' ho'
      by_cases hid : o.orderId = id
      · subst hid
        obtain rfl := Option.mem_unique hget ho'
        exact ⟨(h.positive _ o ho).1, lt_of_le_of_ne hnonneg (Ne.symm hzero)⟩
      · exact hothers id o' hid ho'
    exact ⟨maxOrders_setSide, hgood.record _ _⟩

theorem fillActive_sound (h : Good b m) (orderId : OrderId) (fillQuantity : Quantity) :
    SoundCall b.maxOrders (diffed m (.fill orderId fillQuantity))
      (b.fillActive orderId fillQuantity) := by
  unfold fillActive
  split
  next => exact ⟨rfl, by decide⟩
  next =>
    split
    next => exact ⟨rfl, by decide⟩
    next index hi =>
      obtain ⟨o, ho, rfl, rfl, hentry⟩ := h.represents.lookup hi
      rw [hentry]
      dsimp only
      cases hf : applyFillQty o fillQuantity with
      | error reason => exact ⟨rfl, applyFillQty_error hf⟩
      | ok filled =>
        revert hf
        fun_cases applyFillQty o fillQuantity with
        | case3 remaining hsub hneg =>
          rintro ⟨⟩
          rw [diffed, ho, Option.elim_some, hsub]
          exact fillActive_refilled h ho (not_lt.mp hneg)
        | _ => rintro ⟨⟩

theorem applyHealthyDiff_sound (h : Good b m) (diff : BookDiff) :
    SoundCall b.maxOrders (diffed m diff) (b.applyHealthyDiff diff) := by
  cases diff with
  | add order => exact insertActive_sound h order false
  | update orderId remaining price => exact updateActive_sound h orderId remaining price
  | cancel orderId => exact removeActive_sound h orderId .cancelled
  | fill orderId fillQuantity => exact fillActive_sound h orderId fillQuantity

theorem insertAll_sound (h : Good b m) (orders : List RestingOrder) :
    SoundCall b.maxOrders (orders.foldl (fun m order => m.insert order.orderId order) m)
      (b.insertAll orders) := by
  induction orders generalizing b m with
  | nil => exact ⟨rfl, h⟩
  | cons order rest ih =>
    have hs := insertActive_sound h order true
    rw [insertAll]
    split
    next reason b' he =>
      rw [he] at hs
      exact hs
    next b' he =>
      rw [he] at hs
      rw [← hs.1]
      exact ih hs.2

/-- What holds of a book before and after every call. -/
structure Consistent (bound : ℕ) (m : OrderMap) (b : OrderBook) : Prop where
  bound : b.maxOrders = bound
  healthy : b.health = .healthy → Good b m ∧ b.assertInvariants = .ok ()
  cleared : b.health ≠ .healthy → b.bids = ∅ ∧ b.asks = ∅ ∧ b.byId = ∅
  fault : ∀ reason, b.health = .red reason → reason ∉ indexFaults

theorem consistent_markRed {reason : String} (hb : b.maxOrders = bound)
    (h : reason ∉ indexFaults) : Consistent bound m (b.markRed reason) := by
  refine ⟨hb, nofun, fun _ => ⟨rfl, rfl, rfl⟩, ?_⟩
  intro reason' he
  obtain rfl : reason = reason' := BookHealth.red.inj he
  exact h

theorem consistent_settle {c : Call Unit} (h : SoundCall bound m c) :
    Consistent bound m (settle c) := by
  obtain ⟨r, b⟩ := c
  cases r with
  | error reason => exact consistent_markRed h.1 h.2
  | ok =>
    obtain ⟨hb, hgood⟩ := h
    simp only [settle]
    split
    next reason he =>
      apply consistent_markRed hb
      rcases hgood.represents.assertInvariants_error he with rfl | rfl | rfl
      all_goals decide
    next hok =>
      refine ⟨hb, fun _ => ⟨hgood, hok⟩, fun hh => absurd hgood.healthy hh, ?_⟩
      intro reason he
      rw [hgood.healthy] at he
      cases he

inductive BookCall
  | snapshot (sequence : UInt64) (asOfBlock : BlockHeight) (orders : List RestingOrder)
  | diff (sequence : UInt64) (asOfBlock : BlockHeight) (diff : BookDiff)

def applyCall (b : OrderBook) : BookCall → OrderBook
  | .snapshot sequence asOfBlock orders => b.applySnapshot sequence asOfBlock orders
  | .diff sequence asOfBlock diff => b.applyDiff sequence asOfBlock diff

/-- What a call does to the abstract book. -/
def called (m : OrderMap) : BookCall → OrderMap
  | .snapshot _ _ orders => orders.foldl (fun m order => m.insert order.orderId order) ∅
  | .diff _ _ diff => diffed m diff

theorem Consistent.applyCall (h : Consistent bound m b) (call : BookCall) :
    Consistent bound (called m call) (b.applyCall call) := by
  cases call with
  | snapshot sequence asOfBlock orders =>
    simp only [OrderBook.applyCall, applySnapshot]
    split
    next => exact consistent_markRed h.bound (by decide)
    next =>
      have hempty : Good { b with
          bids := ∅, asks := ∅, byId := ∅, lifecycle := [], sequence := sequence,
          asOfBlock := asOfBlock, health := .healthy } ∅ :=
        ⟨.empty rfl rfl rfl, by simp, by simp, rfl⟩
      rw [← h.bound]
      exact consistent_settle (insertAll_sound hempty orders)
  | diff sequence asOfBlock diff =>
    simp only [OrderBook.applyCall, applyDiff]
    split
    next => exact consistent_markRed h.bound (by decide)
    next hh =>
      split
      next => exact consistent_markRed h.bound (by decide)
      next =>
        obtain ⟨hgood, -⟩ := h.healthy (not_not.mp hh)
        have hgood' : Good { b with sequence := sequence, asOfBlock := asOfBlock } m :=
          ⟨hgood.represents.transfer rfl rfl rfl, hgood.positive, hgood.bounded, hgood.healthy⟩
        rw [← h.bound]
        exact consistent_settle (applyHealthyDiff_sound hgood' diff)

def run (b : OrderBook) (calls : List BookCall) : OrderBook := Run.final applyCall b calls

theorem consistent_run {marketId : MarketId} {asOfBlock : BlockHeight} {maxOrders : ℕ}
    (calls : List BookCall) : Consistent maxOrders (Run.final called ∅ calls)
      (run (awaitingSnapshotBounded marketId asOfBlock maxOrders) calls) := by
  induction calls using List.reverseRecOn with
  | nil => exact ⟨rfl, nofun, fun _ => ⟨rfl, rfl, rfl⟩, nofun⟩
  | append_singleton calls call ih =>
    rw [run, Run.final_concat, Run.final_concat]
    exact ih.applyCall call

/-- The entries of both sides: the disjoint union of the two maps. -/
def entries (b : OrderBook) : Set (OrderSide × BookKey × RestingOrder) :=
  {e | e.2 ∈ (b.side e.1).toList}

/-- What the index should say of an entry. -/
def indexed (e : OrderSide × BookKey × RestingOrder) : OrderId × OrderIndex :=
  (e.2.1.orderId, ⟨e.1, e.2.1.price, e.2.1.timePriority⟩)

theorem Represents.mem_entries_iff (h : Represents b m) {s : OrderSide} {k : BookKey} :
    (s, k, o) ∈ b.entries ↔ k = o.bookKey ∧ m[o.orderId]? = some o ∧ o.side = s := by
  refine (h.sides s).mem_toList_iff.trans ?_
  constructor
  · rintro ⟨rfl, ho⟩
    exact ⟨rfl, onSide_eq_some_iff.mp ho⟩
  · rintro ⟨rfl, ho⟩
    exact ⟨rfl, onSide_eq_some_iff.mpr ho⟩

theorem Represents.bijOn_indexed (h : Represents b m) :
    Set.BijOn indexed b.entries {p | p ∈ b.byId.toList} := by
  refine ⟨?_, ?_, ?_⟩
  · rintro ⟨s, k, o⟩ he
    obtain ⟨rfl, ho, rfl⟩ := h.mem_entries_iff.mp he
    refine mem_toList_iff_getElem?_eq_some.mpr ?_
    rw [RestingOrder.orderId_bookKey, h.index, ho]
    rfl
  · rintro ⟨s₁, k₁, o₁⟩ h₁ ⟨s₂, k₂, o₂⟩ h₂ heq
    obtain ⟨rfl, ho₁, rfl⟩ := h.mem_entries_iff.mp h₁
    obtain ⟨rfl, ho₂, rfl⟩ := h.mem_entries_iff.mp h₂
    -- the identity alone determines the order, and the order its side and key
    have hid : o₁.orderId = o₂.orderId := congrArg Prod.fst heq
    rw [hid, ho₂] at ho₁
    obtain rfl := Option.some.inj ho₁
    rfl
  · rintro ⟨id, index⟩ hp
    obtain ⟨o, ho, rfl, rfl, -⟩ :=
      h.lookup (mem_toList_iff_getElem?_eq_some.mp hp)
    exact ⟨(o.side, o.bookKey, o), h.mem_entries_iff.mpr ⟨rfl, ho, rfl⟩, rfl⟩

theorem Consistent.exists_represents (h : Consistent bound m b) :
    ∃ m, Represents b m ∧ m.size ≤ bound := by
  by_cases hh : b.health = .healthy
  · obtain ⟨hgood, -⟩ := h.healthy hh
    exact ⟨m, hgood.represents, h.bound ▸ hgood.bounded⟩
  · obtain ⟨hb, ha, hi⟩ := h.cleared hh
    exact ⟨∅, .empty hb ha hi, by simp⟩

/-- The representation invariant. After any calls on a new book, failing ones included:
the index is in bijection with the entries of the two sides, and holds for each the side
and the key it is stored under; the bound on orders holds; a healthy book has positive
prices and quantities and its best levels do not cross; any other book is empty; and no
call has failed for an inconsistent index. -/
theorem order_book_invariant (marketId : MarketId) (asOfBlock : BlockHeight) (maxOrders : ℕ)
    (calls : List BookCall) (b : OrderBook)
    (hb : b = run (awaitingSnapshotBounded marketId asOfBlock maxOrders) calls) :
    Set.BijOn indexed b.entries {p | p ∈ b.byId.toList} ∧
    (∀ e ∈ b.entries, e.2.2.side = e.1 ∧ e.2.2.bookKey = e.2.1) ∧
    b.byId.size ≤ maxOrders ∧ b.bids.size + b.asks.size ≤ maxOrders ∧
    (b.health = .healthy →
      (∀ s, ∀ o ∈ b.orders s, 0 < o.price.value ∧ 0 < o.remaining.value) ∧
      (∀ bid ∈ b.l2Bids.head?, ∀ ask ∈ b.l2Asks.head?, bid.price.value < ask.price.value)) ∧
    (b.health ≠ .healthy → b.bids = ∅ ∧ b.asks = ∅ ∧ b.byId = ∅) ∧
    (∀ reason, b.health = .red reason → reason ∉ indexFaults) := by
  have hc : Consistent maxOrders (Run.final called ∅ calls) b := hb ▸ consistent_run calls
  obtain ⟨m, hr, hbound⟩ := hc.exists_represents
  refine ⟨hr.bijOn_indexed, ?_, ?_, ?_, ?_, hc.cleared, hc.fault⟩
  · rintro ⟨s, k, o⟩ he
    obtain ⟨rfl, -, rfl⟩ := hr.mem_entries_iff.mp he
    exact ⟨rfl, rfl⟩
  · rw [hr.index_size]
    exact hbound
  · rw [hr.sides_size]
    exact hbound
  · intro hh
    obtain ⟨hgood, hok⟩ := hc.healthy hh
    refine ⟨?_, ?_⟩
    · intro s o ho
      obtain ⟨hprice, hremaining⟩ :=
        hgood.positive _ o (hgood.represents.mem_orders_iff.mp ho).1
      exact ⟨Decimal.value_pos_iff.mpr hprice, Decimal.value_pos_iff.mpr hremaining⟩
    · intro bid hbid ask hask
      exact Decimal.compare_eq_lt_iff.mp (hgood.represents.levels_uncrossed hok
        (List.mem_of_head? hbid) (List.mem_of_head? hask))

def sampleOrder (name : String) (hn : validId name = true) (side : OrderSide)
    (price : Price) : RestingOrder where
  orderId := ⟨name, hn⟩
  side := side
  price := price
  remaining := ⟨5, 1, by decide, by decide⟩
  original := ⟨7, 1, by decide, by decide⟩
  sequence := 1
  accountId := none
  clientOrderId := none
  timeMillis := none
  trigger := .none

def sampleBook : OrderBook :=
  run (awaitingSnapshotBounded ⟨"HYPE", by decide⟩ 3 10)
    [.snapshot 1 4 [sampleOrder "a" (by decide) .buy ⟨100, 0, by decide, by decide⟩,
      sampleOrder "b" (by decide) .sell ⟨1015, 1, by decide, by decide⟩]]

theorem order_book_invariant_sampleBook :
    sampleBook.health = .healthy ∧
    (∀ bid ∈ sampleBook.l2Bids.head?, ∀ ask ∈ sampleBook.l2Asks.head?,
      bid.price.value < ask.price.value) := by
  have hh : sampleBook.health = .healthy := by decide
  exact ⟨hh, ((order_book_invariant _ _ _ _ sampleBook rfl).2.2.2.2.1 hh).2⟩

end OrderBook

namespace OrderBook

variable {b : OrderBook} {m : OrderMap} {s : OrderSide} {o : RestingOrder}

def activeOrders (b : OrderBook) : List RestingOrder := b.orders .buy ++ b.orders .sell

def levels (b : OrderBook) : OrderSide → List L2Level
  | .buy => b.l2Bids
  | .sell => b.l2Asks

def best (b : OrderBook) : OrderSide → Option RestingOrder
  | .buy => b.bestBid
  | .sell => b.bestAsk

def sideOrders (m : OrderMap) (s : OrderSide) : List RestingOrder :=
  (m.toList.map Prod.snd).filter fun o => o.side = s

/-- The order rests on L2 and comes before every other that does, by price, time and identity. -/
def First (m : OrderMap) (s : OrderSide) (o : RestingOrder) : Prop :=
  o ∈ sideOrders m s ∧ o.restsOnL2 = true ∧
    ∀ other ∈ sideOrders m s, other.restsOnL2 = true →
      other = o ∨ BookKey.cmp s o.bookKey other.bookKey = .lt

namespace Represents

variable (h : Represents b m)
include h

theorem ident_toList {e : OrderId × RestingOrder} (he : e ∈ m.toList) : e.2.orderId = e.1 :=
  h.ident _ _ (mem_toList_iff_getElem?_eq_some.mp he)

theorem perm_sideOrders : (b.orders s).Perm (sideOrders m s) := by
  have hnodup : (b.orders s).Nodup := nodup_of_increasing (h.pairwise_orders s)
  have hdistinct : (m.toList.map Prod.snd).Nodup := by
    refine (nodup_of_increasing m.ordered_keys_toList).map_on fun e he e' he' heq => Prod.ext ?_ heq
    rw [← h.ident_toList he, ← h.ident_toList he', heq]
  refine (List.perm_ext_iff_of_nodup hnodup (hdistinct.filter _)).mpr fun o => ?_
  rw [h.mem_orders_iff, List.mem_filter, decide_eq_true_eq, List.mem_map]
  refine and_congr_left fun _ => ⟨?_, ?_⟩
  · exact fun ho => ⟨(o.orderId, o), mem_toList_iff_getElem?_eq_some.mpr ho, rfl⟩
  · rintro ⟨e, he, rfl⟩
    rw [h.ident_toList he]
    exact mem_toList_iff_getElem?_eq_some.mp he

theorem perm_activeOrders :
    (b.activeOrders.map fun o => (o.orderId, o)).Perm m.toList := by
  have hsell : sideOrders m .sell =
      (m.toList.map Prod.snd).filter fun o => !decide (o.side = .buy) :=
    List.filter_congr fun o _ => by cases o.side <;> rfl
  have hperm : b.activeOrders.Perm (m.toList.map Prod.snd) := by
    refine (h.perm_sideOrders.append h.perm_sideOrders).trans ?_
    rw [hsell]
    exact List.filter_append_perm _ _
  refine (hperm.map _).trans (.of_eq ?_)
  have hself : ∀ e ∈ m.toList, ((fun o : RestingOrder => (o.orderId, o)) ∘ Prod.snd) e = id e :=
    fun e he => Prod.ext (h.ident_toList he) rfl
  rw [List.map_map, List.map_congr_left hself, List.map_id]

theorem best_iff : o ∈ b.best s ↔ First m s o := by
  have hfind : b.best s = (b.orders s).find? RestingOrder.restsOnL2 := by cases s <;> rfl
  have hmem : ∀ o, o ∈ sideOrders m s ↔ o ∈ b.orders s := fun o => h.perm_sideOrders.mem_iff.symm
  rw [hfind]
  constructor
  · intro ho
    refine ⟨(hmem o).mpr (List.mem_of_find?_eq_some ho), List.find?_some ho, ?_⟩
    exact fun other hother hrest => h.best_precedes ho ((hmem other).mp hother) hrest
  · rintro ⟨ho, hrest, hfirst⟩
    obtain ⟨found, hfound⟩ := Option.isSome_iff_exists.mp
      (List.find?_isSome.mpr ⟨o, (hmem o).mp ho, hrest⟩)
    have hfront := hfirst found ((hmem found).mpr (List.mem_of_find?_eq_some hfound))
      (List.find?_some hfound)
    rcases h.best_precedes hfound ((hmem o).mp ho) hrest with rfl | hlt
    · exact hfound
    · rcases hfront with rfl | hlt'
      · exact hfound
      · exact absurd hlt' (Std.OrientedCmp.not_lt_of_lt hlt)

end Represents

/-- The book that the calls leave healthy shows the map that they describe. -/
theorem order_book_refines (marketId : MarketId) (asOfBlock : BlockHeight) (maxOrders : ℕ)
    (calls : List BookCall) (b : OrderBook) (m : OrderMap)
    (hb : b = run (awaitingSnapshotBounded marketId asOfBlock maxOrders) calls)
    (hm : m = Run.final called ∅ calls) (hh : b.health = .healthy) :
    (b.activeOrders.map fun o => (o.orderId, o)).Perm m.toList ∧
    (∀ s, LevelsOf (sideOrders m s) (b.levels s)) ∧
    b.l2Bids.Pairwise (fun l l' => l'.price.value < l.price.value) ∧
    b.l2Asks.Pairwise (fun l l' => l.price.value < l'.price.value) ∧
    (∀ s o, o ∈ b.best s ↔ First m s o) ∧
    ∀ bid ∈ b.bestBid, ∀ ask ∈ b.bestAsk, bid.price.value < ask.price.value := by
  have hc : Consistent maxOrders m b := hb ▸ hm ▸ consistent_run calls
  obtain ⟨hgood, hok⟩ := hc.healthy hh
  have hr := hgood.represents
  obtain ⟨hcross, hbids, hasks⟩ := assertInvariants_eq_ok hok
  obtain ⟨hbidLevels, hdescending⟩ := aggregateL2_spec hbids
  obtain ⟨haskLevels, hascending⟩ := aggregateL2_spec hasks
  refine ⟨hr.perm_activeOrders, ?_, hdescending, hascending, fun s o => hr.best_iff, ?_⟩
  · intro s
    cases s with
    | buy => exact hbidLevels.perm hr.perm_sideOrders
    | sell => exact haskLevels.perm hr.perm_sideOrders
  · intro bid hbid ask hask
    exact Decimal.compare_eq_lt_iff.mp (hcross bid hbid ask hask)

theorem order_book_refines_sampleBook : sampleBook.health = .healthy ∧
    ∀ bid ∈ sampleBook.bestBid, ∀ ask ∈ sampleBook.bestAsk, bid.price.value < ask.price.value := by
  have hh : sampleBook.health = .healthy := by decide
  exact ⟨hh, (order_book_refines _ _ _ _ sampleBook _ rfl rfl hh).2.2.2.2.2⟩

end OrderBook

end AlphaDesk
