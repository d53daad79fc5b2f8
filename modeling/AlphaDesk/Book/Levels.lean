import AlphaDesk.Book.Representation

/-! # Aggregated levels and the best prices

Every aggregated level stands at the price of some order that rests on it, and
the best order of a side is at least as good as every other order of that side.
A book whose best orders do not cross therefore has no crossed levels.
-/

namespace AlphaDesk

open Except List Std.ExtTreeMap Decimal

variable {reason : String}

variable {levels levels' : LevelMap} {order : RestingOrder} {orders : List RestingOrder}
  {out : List L2Level} {bids : Bool}

theorem addToLevel_error (h : addToLevel levels order = .error reason) :
    reason = "l2 aggregation overflow" ∨ reason = "l2 order count overflow" := by
  revert h
  fun_cases addToLevel levels order with
  | case2 _ zero opened hnone =>
    -- the level exists once it has been opened
    have hopen : order.price ∈ opened := by
      unfold opened
      split
      next hm => exact hm
      next => exact mem_insert_self
    rw [mem_iff_isSome_getElem?, hnone] at hopen
    cases hopen
  | case3 =>
    rintro ⟨⟩
    exact .inl rfl
  | case5 =>
    rintro ⟨⟩
    exact .inr rfl
  | _ => rintro ⟨⟩

theorem aggregateL2_error (h : aggregateL2 orders bids = .error reason) :
    reason = "l2 aggregation overflow" ∨ reason = "l2 order count overflow" := by
  unfold aggregateL2 at h
  cases hf : orders.foldlM addToLevel ∅ with
  | error e =>
    rw [hf] at h
    obtain rfl := error.inj h
    obtain ⟨_, _, -, he⟩ := Except.foldlM_error hf
    exact addToLevel_error he
  | ok levels =>
    rw [hf] at h
    cases h

theorem addToLevel_eq_ok (h : addToLevel levels order = .ok levels')
    (hrest : order.restsOnL2 = true) : ∃ total : Quantity × ℕ,
      total.1.value = levels[order.price]?.elim 0 (·.1.value) + order.remaining.value ∧
      total.2 = levels[order.price]?.elim 0 Prod.snd + 1 ∧
      (∀ p, levels'[p]? = if compare order.price p = .eq then some total else levels[p]?) ∧
      ∀ p, levels'.getKey? p = some p → levels.getKey? p = some p ∨ order.price = p := by
  rw [addToLevel, if_neg (by simp [hrest])] at h
  dsimp only at h
  generalize hopened : (if order.price ∈ levels then levels else levels.insert order.price
    (zero order.remaining.scale order.remaining.scale_le, 0)) = opened at h
  have hmem : order.price ∈ opened := by
    rw [← hopened]
    split
    next hm => exact hm
    next => exact mem_insert_self
  split at h
  next => cases h
  next quantity count hold =>
    split at h
    next => cases h
    next total htotal =>
      obtain ⟨-, h⟩ := ite_else_error_eq_ok.mp h
      obtain rfl := ok.inj h
      -- the level is opened with nothing in it
      have hstart : quantity.value = levels[order.price]?.elim 0 (·.1.value) ∧
          count = levels[order.price]?.elim 0 Prod.snd := by
        rw [← hopened] at hold
        split at hold
        next => simp [hold]
        next hnew =>
          rw [getElem?_insert_self] at hold
          obtain ⟨rfl, rfl⟩ := Prod.mk.inj (Option.some.inj hold)
          simp [getElem?_eq_none hnew, value_eq_zero_iff, zero]
      refine ⟨(total, count + 1), ?_, ?_, ?_, ?_⟩
      · rw [value_checkedAdd htotal, hstart.1]
      · rw [hstart.2]
      · intro p
        rw [getElem?_setValue hmem]
        split
        next => rfl
        next hne =>
          rw [← hopened]
          split
          next => rfl
          next => rw [Std.ExtTreeMap.getElem?_insert, if_neg hne]
      · intro p hp
        rw [Std.ExtTreeMap.getKey?_setValue, ← hopened] at hp
        split at hp
        next => exact .inl hp
        next =>
          rw [getKey?_insert] at hp
          split at hp
          next => exact .inr (Option.some.inj hp)
          next => exact .inl hp

def restingAt (orders : List RestingOrder) (p : Price) : List RestingOrder :=
  orders.filter fun o => o.restsOnL2 && decide (o.price.value = p.value)

/-- The levels hold what rests at each price, and each stands at the price of an order. -/
structure Aggregates (orders : List RestingOrder) (levels : LevelMap) : Prop where
  quantity : ∀ p, levels[p]?.elim 0 (·.1.value) = ((restingAt orders p).map (·.remaining.value)).sum
  count : ∀ p, levels[p]?.elim 0 Prod.snd = (restingAt orders p).length
  key : ∀ p, levels.getKey? p = some p → ∃ o ∈ orders, o.restsOnL2 = true ∧ o.price = p

theorem Aggregates.addToLevel (h : Aggregates orders levels)
    (hadd : addToLevel levels order = .ok levels') : Aggregates (orders ++ [order]) levels' := by
  by_cases hrest : order.restsOnL2 = true
  · obtain ⟨total, hquantity, hcount, hget, hkey⟩ := addToLevel_eq_ok hadd hrest
    have hsame : ∀ p, compare order.price p = .eq → restingAt orders p =
        restingAt orders order.price := by
      intro p hp
      rw [restingAt, ← compare_eq_eq_iff.mp hp, restingAt]
    refine ⟨fun p => ?_, fun p => ?_, fun p hp => ?_⟩
    · rw [hget, restingAt, filter_append]
      split
      next hp =>
        change total.1.value = (((restingAt orders p) ++ _).map _).sum
        simp [hsame p hp, hquantity, h.quantity, hrest, compare_eq_eq_iff.mp hp]
      next hp =>
        rw [h.quantity]
        simp [restingAt, mt compare_eq_eq_iff.mpr hp]
    · rw [hget, restingAt, filter_append]
      split
      next hp =>
        change total.2 = ((restingAt orders p) ++ _).length
        simp [hsame p hp, hcount, h.count, hrest, compare_eq_eq_iff.mp hp]
      next hp =>
        rw [h.count]
        simp [restingAt, mt compare_eq_eq_iff.mpr hp]
    · rcases hkey p hp with hold | rfl
      · obtain ⟨o, ho, hr, hprice⟩ := h.key p hold
        exact ⟨o, by simp [ho], hr, hprice⟩
      · exact ⟨order, by simp, hrest, rfl⟩
  · rw [AlphaDesk.addToLevel, if_pos (by simpa using hrest)] at hadd
    obtain rfl := ok.inj hadd
    have hsame : ∀ p, restingAt (orders ++ [order]) p = restingAt orders p := by
      intro p
      simp [restingAt, hrest]
    refine ⟨fun p => ?_, fun p => ?_, fun p hp => ?_⟩
    · rw [hsame, h.quantity]
    · rw [hsame, h.count]
    · obtain ⟨o, ho, hr, hprice⟩ := h.key p hp
      exact ⟨o, by simp [ho], hr, hprice⟩

theorem Aggregates.foldlM {more : List RestingOrder} (h : Aggregates orders levels)
    (hf : more.foldlM AlphaDesk.addToLevel levels = .ok levels') :
    Aggregates (orders ++ more) levels' := by
  induction more generalizing orders levels with
  | nil =>
    obtain rfl := ok.inj hf
    rwa [append_nil]
  | cons order more ih =>
    obtain ⟨levels₁, hadd, hf⟩ := of_bind hf
    rw [append_cons]
    exact ih (h.addToLevel hadd) hf

/-- There is exactly one level for each price at which orders rest, with their number and the sum
of what remains of them. -/
structure LevelsOf (orders : List RestingOrder) (out : List L2Level) : Prop where
  order : ∀ level ∈ out, ∃ o ∈ orders, o.restsOnL2 = true ∧ o.price = level.price
  level : ∀ o ∈ orders, o.restsOnL2 = true → ∃ level ∈ out, level.price.value = o.price.value
  quantity : ∀ level ∈ out, level.quantity.value =
    ((restingAt orders level.price).map (·.remaining.value)).sum
  count : ∀ level ∈ out, level.orderCount = (restingAt orders level.price).length

theorem aggregateL2_spec (h : aggregateL2 orders bids = .ok out) :
    LevelsOf orders out ∧ out.Pairwise fun a b =>
      if bids then b.price.value < a.price.value else a.price.value < b.price.value := by
  obtain ⟨levels, hf, ho⟩ := of_bind h
  have hempty : Aggregates [] ∅ := by constructor <;> simp [restingAt]
  have hagg : Aggregates orders levels := hempty.foldlM hf
  have hmem : ∀ level, level ∈ out ↔ levels.getKey? level.price = some level.price ∧
      levels[level.price]? = some (level.quantity, level.orderCount) := by
    intro level
    rw [← mem_toList_iff_getKey?_eq_some_and_getElem?_eq_some]
    obtain rfl := ok.inj ho
    have hin : level ∈ levels.toList.map (fun e => (⟨e.1, e.2.1, e.2.2⟩ : L2Level)) ↔
        (level.price, level.quantity, level.orderCount) ∈ levels.toList := by
      rw [mem_map]
      constructor
      · rintro ⟨e, he, rfl⟩
        exact he
      · exact fun he => ⟨_, he, rfl⟩
    split
    next => rw [mem_reverse, hin]
    next => exact hin
  refine ⟨⟨fun level hl => ?_, fun o hmo hrest => ?_, fun level hl => ?_, fun level hl => ?_⟩, ?_⟩
  · exact hagg.key _ ((hmem level).mp hl).1
  · have hcount := hagg.count o.price
    have hself : o ∈ restingAt orders o.price := by simp [restingAt, hmo, hrest]
    rcases hget : levels[o.price]? with _ | ⟨quantity, count⟩
    · rw [hget] at hcount
      rw [eq_nil_of_length_eq_zero hcount.symm] at hself
      cases hself
    · obtain ⟨stored, hstored⟩ := getKey?_eq_some_of_mem
        (mem_iff_isSome_getElem?.mpr (by rw [hget]; rfl) : o.price ∈ levels)
      have hcmp := cmp_of_getKey?_eq_some hstored
      refine ⟨⟨stored, quantity, count⟩, (hmem _).mpr ⟨?_, ?_⟩, compare_eq_eq_iff.mp hcmp⟩
      · rw [getKey?_congr hcmp, hstored]
      · rw [getElem?_congr hcmp, hget]
  · rw [← hagg.quantity, ((hmem level).mp hl).2]
    rfl
  · rw [← hagg.count, ((hmem level).mp hl).2]
    rfl
  · obtain rfl := ok.inj ho
    have hsorted : (levels.toList.map fun e => (⟨e.1, e.2.1, e.2.2⟩ : L2Level)).Pairwise
        fun a b => a.price.value < b.price.value := by
      rw [pairwise_map]
      exact levels.ordered_keys_toList.imp compare_eq_lt_iff.mp
    cases bids with
    | true => simpa [pairwise_reverse] using hsorted
    | false => simpa using hsorted

theorem LevelsOf.perm {orders orders' : List RestingOrder} (h : LevelsOf orders out)
    (hp : orders.Perm orders') : LevelsOf orders' out := by
  have hat : ∀ p, (restingAt orders p).Perm (restingAt orders' p) := fun p => hp.filter _
  refine ⟨?_, ?_, ?_, ?_⟩
  · simpa [hp.mem_iff] using h.order
  · simpa [hp.mem_iff] using h.level
  · intro level hl
    rw [h.quantity level hl, ((hat _).map _).sum_eq]
  · intro level hl
    rw [h.count level hl, (hat _).length_eq]

namespace OrderBook

variable {b : OrderBook} {m : OrderMap}

variable {o : RestingOrder} {s : OrderSide} {a k : BookKey}

theorem orders_eq (b : OrderBook) (s : OrderSide) :
    b.orders s = (b.side s).toList.map Prod.snd := by
  cases s <;> rfl

theorem Represents.mem_orders_iff (h : Represents b m) :
    o ∈ b.orders s ↔ m[o.orderId]? = some o ∧ o.side = s := by
  rw [orders_eq, mem_map]
  constructor
  · rintro ⟨⟨k, o'⟩, he, rfl⟩
    obtain ⟨rfl, hm⟩ := (h.sides s).mem_toList_iff.mp he
    exact onSide_eq_some_iff.mp hm
  · intro ho
    exact ⟨(o.bookKey, o), (h.sides s).mem_toList_iff.mpr ⟨rfl, onSide_eq_some_iff.mpr ho⟩, rfl⟩

theorem Represents.pairwise_orders (h : Represents b m) (s : OrderSide) :
    (b.orders s).Pairwise fun o₁ o₂ => BookKey.cmp s o₁.bookKey o₂.bookKey = .lt := by
  rw [orders_eq, pairwise_map]
  refine List.Pairwise.imp_of_mem ?_ (b.side s).ordered_keys_toList
  rintro ⟨k₁, o₁⟩ ⟨k₂, o₂⟩ h₁ h₂ hlt
  obtain ⟨rfl, -⟩ := (h.sides s).mem_toList_iff.mp h₁
  obtain ⟨rfl, -⟩ := (h.sides s).mem_toList_iff.mp h₂
  exact hlt

theorem Represents.best_precedes (h : Represents b m) {best : RestingOrder}
    (hbest : (b.orders s).find? RestingOrder.restsOnL2 = some best) (ho : o ∈ b.orders s)
    (hrest : o.restsOnL2 = true) : o = best ∨ BookKey.cmp s best.bookKey o.bookKey = .lt := by
  obtain ⟨-, before, after, hsplit, hbefore⟩ := find?_eq_some_iff_append.mp hbest
  have hp := h.pairwise_orders s
  rw [hsplit, pairwise_append] at hp
  rw [hsplit, mem_append, mem_cons] at ho
  rcases ho with hfront | rfl | hback
  · have hno := hbefore o hfront
    rw [hrest] at hno
    cases hno
  · exact .inl rfl
  · exact .inr ((pairwise_cons.mp hp.2.1).1 o hback)

theorem isLE_of_cmp_buy (h : BookKey.cmp .buy a k = .lt) :
    (compare k.price a.price).isLE = true := by
  rcases Ordering.then_eq_lt.mp h with hlt | ⟨heq, -⟩
  · simp [hlt]
  · simp [heq]

theorem isLE_of_cmp_sell (h : BookKey.cmp .sell a k = .lt) :
    (compare a.price k.price).isLE = true := by
  rcases Ordering.then_eq_lt.mp h with hlt | ⟨heq, -⟩
  · simp [hlt]
  · simp [heq]

theorem Represents.price_le_bestBid (h : Represents b m) {bid : RestingOrder}
    (hbid : b.bestBid = some bid) (ho : o ∈ b.orders .buy) (hrest : o.restsOnL2 = true) :
    (compare o.price bid.price).isLE = true := by
  rcases h.best_precedes hbid ho hrest with rfl | hlt
  · simp
  · exact isLE_of_cmp_buy hlt

theorem Represents.bestAsk_le_price (h : Represents b m) {ask : RestingOrder}
    (hask : b.bestAsk = some ask) (ho : o ∈ b.orders .sell) (hrest : o.restsOnL2 = true) :
    (compare ask.price o.price).isLE = true := by
  rcases h.best_precedes hask ho hrest with rfl | hlt
  · simp
  · exact isLE_of_cmp_sell hlt

theorem assertInvariants_eq_ok (h : b.assertInvariants = .ok ()) :
    (∀ bid ∈ b.bestBid, ∀ ask ∈ b.bestAsk, compare bid.price ask.price = .lt) ∧
    aggregateL2 (b.orders .buy) true = .ok b.l2Bids ∧
    aggregateL2 (b.orders .sell) false = .ok b.l2Asks := by
  obtain ⟨-, h⟩ := of_check h
  obtain ⟨hcross, h⟩ := of_check h
  obtain ⟨bids, hbids, h⟩ := of_bind h
  obtain ⟨asks, hasks, -⟩ := of_bind h
  refine ⟨?_, ?_, ?_⟩
  · intro bid hbid ask hask
    simpa [crossed, Option.mem_def.mp hbid, Option.mem_def.mp hask] using hcross
  · rw [l2Bids, hbids]
    rfl
  · rw [l2Asks, hasks]
    rfl

/-- No failure of the book's own check is a failure of the index. -/
theorem Represents.assertInvariants_error (h : Represents b m)
    (he : b.assertInvariants = .error reason) :
    reason = "crossed or locked book" ∨ reason = "l2 aggregation overflow" ∨
      reason = "l2 order count overflow" := by
  unfold assertInvariants at he
  rw [if_neg (not_not.mpr (h.index_size.trans h.sides_size.symm))] at he
  split at he
  next => exact .inl (error.inj he).symm
  next =>
    right
    cases hbids : aggregateL2 (b.orders .buy) true with
    | error e =>
      rw [hbids] at he
      obtain rfl := error.inj he
      exact aggregateL2_error hbids
    | ok bids =>
      rw [hbids, ok_bind] at he
      cases hasks : aggregateL2 (b.orders .sell) false with
      | error e =>
        rw [hasks] at he
        obtain rfl := error.inj he
        exact aggregateL2_error hasks
      | ok asks =>
        rw [hasks] at he
        cases he

theorem Represents.levels_uncrossed (h : Represents b m) (hok : b.assertInvariants = .ok ())
    {bid ask : L2Level} (hbid : bid ∈ b.l2Bids) (hask : ask ∈ b.l2Asks) :
    compare bid.price ask.price = .lt := by
  obtain ⟨hcross, hbids, hasks⟩ := assertInvariants_eq_ok hok
  obtain ⟨o₁, ho₁, hr₁, hp₁⟩ := (aggregateL2_spec hbids).1.order bid hbid
  obtain ⟨o₂, ho₂, hr₂, hp₂⟩ := (aggregateL2_spec hasks).1.order ask hask
  obtain ⟨best₁, hbest₁⟩ : ∃ o, b.bestBid = some o :=
    Option.isSome_iff_exists.mp (find?_isSome.mpr ⟨o₁, ho₁, hr₁⟩)
  obtain ⟨best₂, hbest₂⟩ : ∃ o, b.bestAsk = some o :=
    Option.isSome_iff_exists.mp (find?_isSome.mpr ⟨o₂, ho₂, hr₂⟩)
  have hle₁ := h.price_le_bestBid hbest₁ ho₁ hr₁
  have hle₂ := h.bestAsk_le_price hbest₂ ho₂ hr₂
  rw [← hp₁, ← hp₂]
  exact Std.TransCmp.lt_of_lt_of_isLE
    (Std.TransCmp.lt_of_isLE_of_lt hle₁ (hcross best₁ hbest₁ best₂ hbest₂)) hle₂

end OrderBook

end AlphaDesk
