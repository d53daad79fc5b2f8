import AlphaDesk.Book.Model

/-! # The book as a finite map of orders

Abstractly a book is a finite map from identities to orders. A book represents
such a map when its index holds the place of every order and its sides hold
every order at that place and nothing else. Placing, taking and refilling an
order act on the map by insertion, erasure and update.
-/

namespace AlphaDesk

open Std.ExtTreeMap

/-- The abstract book. -/
abbrev OrderMap := Std.ExtTreeMap OrderId RestingOrder

namespace BookKey

variable {s : OrderSide} {a b : BookKey}

theorem cmp_eq_iff :
    cmp s a b = .eq ↔
      compare a.price b.price = .eq ∧ a.timePriority = b.timePriority ∧ a.orderId = b.orderId := by
  have ht : tieCmp a b = .eq ↔ a.timePriority = b.timePriority ∧ a.orderId = b.orderId := by
    rw [tieCmp, compareLex_eq_eq]
    exact and_congr Std.LawfulEqOrd.compare_eq_iff_eq Std.LawfulEqOrd.compare_eq_iff_eq
  cases s with
  | buy => rw [cmp, compareLex_eq_eq, ht, Std.OrientedCmp.eq_comm]
  | sell => rw [cmp, compareLex_eq_eq, ht]

theorem orderId_eq_of_cmp (h : cmp s a b = .eq) : a.orderId = b.orderId :=
  (cmp_eq_iff.mp h).2.2

end BookKey

@[simp] theorem RestingOrder.orderId_bookKey (o : RestingOrder) :
    o.bookKey.orderId = o.orderId := rfl

namespace OrderBook

/-- An order with a new remaining quantity, which leaves the abstract book at zero. -/
def revise (m : OrderMap) (id : OrderId) (o : RestingOrder) : OrderMap :=
  if o.remaining.raw = 0 then m.erase id else m.insert id o

/-- What a diff does to the abstract book. -/
def diffed (m : OrderMap) : BookDiff → OrderMap
  | .add order => m.insert order.orderId order
  | .update id remaining price =>
    m[id]?.elim m fun o => revise m id { o with remaining := remaining, price := price }
  | .cancel id => m.erase id
  | .fill id fillQuantity => m[id]?.elim m fun o =>
    (o.remaining.checkedSub fillQuantity).toOption.elim m fun remaining =>
      revise m id { o with remaining := remaining }

variable {b b' : OrderBook} {m : OrderMap}

variable {s s' : OrderSide} {side : SideMap s} {byId : Std.ExtTreeMap OrderId OrderIndex}

@[simp] theorem side_setSide_self : (b.setSide s side).side s = side := by cases s <;> rfl

theorem side_setSide_of_ne (h : s' ≠ s) : (b.setSide s side).side s' = b.side s' := by
  cases s <;> cases s' <;> first | rfl | exact absurd rfl h

@[simp] theorem side_byId : ({ b with byId := byId } : OrderBook).side s = b.side s := by
  cases s <;> rfl

theorem setSide_byId :
    ({ b with byId := byId } : OrderBook).setSide s side =
      { b.setSide s side with byId := byId } := by
  cases s <;> rfl

@[simp] theorem byId_setSide : (b.setSide s side).byId = b.byId := by cases s <;> rfl

@[simp] theorem maxOrders_setSide : (b.setSide s side).maxOrders = b.maxOrders := by cases s <;> rfl

@[simp] theorem health_setSide : (b.setSide s side).health = b.health := by cases s <;> rfl

theorem size_setSide (b : OrderBook) (side : SideMap s) :
    (b.setSide s side).bids.size + (b.setSide s side).asks.size + (b.side s).size =
      b.bids.size + b.asks.size + side.size := by
  cases s <;> simp only [setSide, OrderBook.side] <;> omega

/-- The orders of one side of the abstract book, by identity. -/
def onSide (m : OrderMap) (s : OrderSide) (id : OrderId) : Option RestingOrder :=
  m[id]?.filter fun o => o.side = s

variable {id : OrderId} {o : RestingOrder}

theorem onSide_eq_some_iff : onSide m s id = some o ↔ m[id]? = some o ∧ o.side = s := by
  simp [onSide]

theorem onSide_eq_none (h : m[id]? = none) : onSide m s id = none := by simp [onSide, h]

theorem onSide_of_ne (h : m[id]? = some o) (hs : s ≠ o.side) : onSide m s id = none := by
  simp [onSide, h, hs.symm]

theorem onSide_insert_self :
    onSide (m.insert id o) o.side = Function.update (onSide m o.side) id (some o) := by
  funext a
  rw [onSide, getElem?_insert]
  by_cases ha : id = a
  · simp [ha]
  · simp [ha, Function.update_of_ne (Ne.symm ha), onSide]

theorem onSide_insert_of_ne (hs : s ≠ o.side) (hid : onSide m s id = none) :
    onSide (m.insert id o) s = onSide m s := by
  funext a
  rw [onSide, getElem?_insert]
  by_cases ha : id = a
  · simp [ha ▸ hid, ha, hs.symm]
  · simp [ha, onSide]

theorem onSide_erase : onSide (m.erase id) s = Function.update (onSide m s) id none := by
  funext a
  rw [onSide, getElem?_erase]
  by_cases ha : id = a
  · simp [ha]
  · simp [ha, Function.update_of_ne (Ne.symm ha), onSide]

structure Represents (b : OrderBook) (m : OrderMap) : Prop where
  ident : ∀ (id : OrderId) (o : RestingOrder), m[id]? = some o → o.orderId = id
  index : ∀ id : OrderId, b.byId[id]? = m[id]?.map OrderIndex.of
  sides : ∀ s, Keyed RestingOrder.bookKey BookKey.orderId (b.side s) (onSide m s)
  index_size : b.byId.size = m.size
  sides_size : b.bids.size + b.asks.size = m.size

namespace Represents

theorem transfer (h : Represents b m) (hb : b'.bids = b.bids) (ha : b'.asks = b.asks)
    (hi : b'.byId = b.byId) : Represents b' m := by
  have hs : ∀ s, b'.side s = b.side s := by
    intro s
    cases s with
    | buy => exact hb
    | sell => exact ha
  refine ⟨h.ident, ?_, ?_, ?_, ?_⟩
  · rw [hi]
    exact h.index
  · intro s
    rw [hs]
    exact h.sides s
  · rw [hi]
    exact h.index_size
  · rw [hb, ha]
    exact h.sides_size

theorem empty (hb : b.bids = ∅) (ha : b.asks = ∅) (hi : b.byId = ∅) : Represents b ∅ := by
  refine ⟨by simp, by simp [hi], ?_, by simp [hi], by simp [hb, ha]⟩
  intro s
  have hnone : onSide ∅ s = fun _ => none := by
    funext id
    exact onSide_eq_none getElem?_empty
  cases s with
  | buy =>
    rw [OrderBook.side, hb]
    exact Keyed.empty
  | sell =>
    rw [OrderBook.side, ha]
    exact Keyed.empty

theorem mem_iff (h : Represents b m) : id ∈ b.byId ↔ id ∈ m := by
  rw [mem_iff_isSome_getElem?, mem_iff_isSome_getElem?, h.index,
    Option.isSome_map]

theorem lookup (h : Represents b m) {index : OrderIndex} (hi : b.byId[id]? = some index) :
    ∃ o, m[id]? = some o ∧ o.orderId = id ∧ index = OrderIndex.of o ∧
      (b.side index.side)[index.key id]? = some o := by
  rw [h.index] at hi
  obtain ⟨o, ho, rfl⟩ := Option.map_eq_some_iff.mp hi
  obtain rfl := h.ident id o ho
  exact ⟨o, ho, rfl, rfl, (h.sides o.side).getElem?_keyOf (onSide_eq_some_iff.mpr ⟨ho, rfl⟩)⟩

/-- Storing a new order on its side and in the index inserts it into the map. -/
theorem place (h : Represents b m) (hfresh : o.orderId ∉ m) :
    Represents (b.place o) (m.insert o.orderId o) := by
  have hnone : m[o.orderId]? = none := getElem?_eq_none hfresh
  have hside : onSide m o.side o.bookKey.orderId = none := onSide_eq_none hnone
  refine ⟨?_, ?_, ?_, ?_, ?_⟩
  · exact forall_insert h.ident rfl
  · intro id
    simp only [OrderBook.place, byId_setSide, getElem?_insert, h.index id]
    split <;> rfl
  · intro s
    simp only [OrderBook.place, side_byId]
    by_cases hs : s = o.side
    · subst hs
      rw [side_setSide_self, onSide_insert_self]
      exact (h.sides o.side).insert (fun _ _ => BookKey.orderId_eq_of_cmp) hside
    · rw [side_setSide_of_ne hs, onSide_insert_of_ne hs (onSide_eq_none hnone)]
      exact h.sides s
  · simp only [OrderBook.place, byId_setSide, size_insert, h.index_size]
    simp [hfresh, h.mem_iff]
  · have hsize := b.size_setSide ((b.side o.side).insert o.bookKey o)
    rw [(h.sides o.side).size_insert hside] at hsize
    have hm : (m.insert o.orderId o).size = m.size + 1 := by
      simp [size_insert, hfresh]
    have hs := h.sides_size
    simp only [OrderBook.place]
    omega

theorem takeActive (h : Represents b m) (ho : m[id]? = some o) :
    ∃ b', b.takeActive id (OrderIndex.of o) = (some o, b') ∧ Represents b' (m.erase id) ∧
      b'.health = b.health ∧ b'.maxOrders = b.maxOrders := by
  obtain rfl := h.ident id o ho
  have hmem : o.orderId ∈ m := mem_iff_getElem?.mpr ⟨o, ho⟩
  have hside : onSide m o.side o.bookKey.orderId = some o := onSide_eq_some_iff.mpr ⟨ho, rfl⟩
  have hget : (b.side o.side)[o.bookKey]? = some o := (h.sides o.side).getElem?_keyOf hside
  have htake : b.takeActive o.orderId (OrderIndex.of o) = ((b.side o.side)[o.bookKey]?,
      { b.setSide o.side ((b.side o.side).erase o.bookKey) with
        byId := b.byId.erase o.orderId }) := by
    rw [OrderBook.takeActive, if_pos (h.mem_iff.mpr hmem)]
    simp only [side_byId, setSide_byId]
    rfl
  rw [hget] at htake
  refine ⟨_, htake, ⟨?_, ?_, ?_, ?_, ?_⟩, health_setSide, maxOrders_setSide⟩
  · exact fun id o' ho' => h.ident id o' (getElem?_of_erase ho')
  · intro id
    simp only [getElem?_erase, h.index id]
    split <;> rfl
  · intro s
    rw [side_byId]
    by_cases hs : s = o.side
    · subst hs
      rw [side_setSide_self, onSide_erase]
      exact (h.sides o.side).erase (fun _ _ => BookKey.orderId_eq_of_cmp) hside
    · have hnone : onSide m s o.orderId = none := onSide_of_ne ho hs
      rw [side_setSide_of_ne hs, onSide_erase, ← hnone, Function.update_eq_self]
      exact h.sides s
  · simp only [size_erase, h.index_size]
    simp [hmem, h.mem_iff]
  · have hsize := b.size_setSide ((b.side o.side).erase o.bookKey)
    have herase := (h.sides o.side).size_erase hside
    have hm := size_erase_of_mem hmem
    have hs := h.sides_size
    simp only
    omega

theorem refill (h : Represents b m) {o' : RestingOrder} (ho : m[id]? = some o)
    (hkey : o'.bookKey = o.bookKey) (hs' : o'.side = o.side) :
    Represents (b.setSide o.side ((b.side o.side).setValue o.bookKey o')) (m.insert id o') := by
  obtain rfl := h.ident id o ho
  have hid : o'.orderId = o.orderId := congrArg BookKey.orderId hkey
  have hmem : o.orderId ∈ m := mem_iff_getElem?.mpr ⟨o, ho⟩
  have hside : onSide m o.side o.bookKey.orderId = some o := onSide_eq_some_iff.mpr ⟨ho, rfl⟩
  refine ⟨?_, ?_, ?_, ?_, ?_⟩
  · exact forall_insert h.ident hid
  · intro id
    rw [byId_setSide, h.index, getElem?_insert]
    split
    next he =>
      -- the place of the order is unchanged
      obtain rfl := Std.LawfulEqOrd.compare_eq_iff_eq.mp he
      have hindex : OrderIndex.of o' = OrderIndex.of o := by
        simp only [RestingOrder.bookKey, BookKey.mk.injEq] at hkey
        simp [OrderIndex.of, hs', hkey.1, hkey.2.1]
      rw [ho, Option.map_some, Option.map_some, hindex]
    next => rfl
  · intro s
    by_cases hs : s = o.side
    · subst hs
      rw [side_setSide_self, ← hs', onSide_insert_self, hs']
      exact (h.sides o.side).setValue (fun _ _ => BookKey.orderId_eq_of_cmp) hside hkey
    · rw [side_setSide_of_ne hs, onSide_insert_of_ne (hs' ▸ hs) (onSide_of_ne ho hs)]
      exact h.sides s
  · rw [byId_setSide, h.index_size, size_insert,
      if_pos (mem_iff_contains.mp hmem)]
  · have hsize := b.size_setSide ((b.side o.side).setValue o.bookKey o')
    rw [size_setValue] at hsize
    rw [size_insert, if_pos (mem_iff_contains.mp hmem),
      ← h.sides_size]
    omega

end Represents

end OrderBook

end AlphaDesk
