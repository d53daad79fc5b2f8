import AlphaDesk.Domain.Decimal
import AlphaDesk.Foundation.OrderedMap
import AlphaDesk.Foundation.Run

/-! # The L4 order book

Resting orders are kept by side in priority order, together with an index from
order identities to the place of each order. A call may fail after part of its
updates; the book is then cleared and marked red.
-/

namespace AlphaDesk

inductive BookHealth
  | healthy
  | awaitingSnapshot (reason : String)
  | red (reason : String)
  deriving DecidableEq

inductive TriggerKind
  | none
  | untriggered (tpsl : Bool) (triggerPx : Price)
  | activated (triggerPx : Price)

def TriggerKind.isUntriggered : TriggerKind → Bool
  | untriggered _ _ => true
  | _ => false

structure RestingOrder where
  orderId : OrderId
  side : OrderSide
  price : Price
  remaining : Quantity
  original : Quantity
  sequence : UInt64
  accountId : Option Address
  clientOrderId : Option ClientOrderId
  timeMillis : Option UInt64
  trigger : TriggerKind

namespace RestingOrder

def timePriority (o : RestingOrder) : UInt64 := o.timeMillis.getD o.sequence

def restsOnL2 (o : RestingOrder) : Bool := !o.trigger.isUntriggered

end RestingOrder

inductive BookDiff
  | add (order : RestingOrder)
  | update (orderId : OrderId) (remaining : Quantity) (price : Price)
  | cancel (orderId : OrderId)
  | fill (orderId : OrderId) (fillQuantity : Quantity)

structure L2Level where
  price : Price
  quantity : Quantity
  orderCount : ℕ

inductive LifecycleKind
  | added
  | updated
  | filled
  | cancelled

structure LifecycleEvent where
  orderId : OrderId
  kind : LifecycleKind
  sequence : UInt64

structure BookKey where
  price : Price
  timePriority : UInt64
  orderId : OrderId

namespace BookKey

/-- At one price, orders are served by time and then by identity. -/
def tieCmp : BookKey → BookKey → Ordering :=
  compareLex (compareOn BookKey.timePriority) (compareOn BookKey.orderId)

/-- Bids come from the highest price down, asks from the lowest price up. -/
def cmp : OrderSide → BookKey → BookKey → Ordering
  | .buy => compareLex (fun a b => compare b.price a.price) tieCmp
  | .sell => compareLex (fun a b => compare a.price b.price) tieCmp

instance : Std.TransCmp tieCmp :=
  inferInstanceAs (Std.TransCmp (compareLex (compareOn _) (compareOn _)))

instance : Std.TransCmp fun a b : BookKey => compare a.price b.price :=
  inferInstanceAs (Std.TransCmp (compareOn BookKey.price))

instance : Std.TransCmp fun a b : BookKey => compare b.price a.price :=
  Std.TransCmp.opposite (α := BookKey)

instance (side : OrderSide) : Std.TransCmp (cmp side) :=
  match side with
  | .buy => inferInstanceAs (Std.TransCmp (compareLex _ tieCmp))
  | .sell => inferInstanceAs (Std.TransCmp (compareLex _ tieCmp))

end BookKey

def RestingOrder.bookKey (o : RestingOrder) : BookKey := ⟨o.price, o.timePriority, o.orderId⟩

abbrev SideMap (side : OrderSide) := Std.ExtTreeMap BookKey RestingOrder (BookKey.cmp side)

structure OrderIndex where
  side : OrderSide
  price : Price
  timePriority : UInt64

def OrderIndex.of (o : RestingOrder) : OrderIndex := ⟨o.side, o.price, o.timePriority⟩

def OrderIndex.key (i : OrderIndex) (orderId : OrderId) : BookKey :=
  ⟨i.price, i.timePriority, orderId⟩

structure OrderBook where
  marketId : MarketId
  sequence : UInt64
  asOfBlock : BlockHeight
  health : BookHealth
  maxOrders : ℕ
  bids : SideMap .buy
  asks : SideMap .sell
  byId : Std.ExtTreeMap OrderId OrderIndex
  lifecycle : List LifecycleEvent

abbrev LevelMap := Std.ExtTreeMap Price (Quantity × ℕ)

/-- Add one order to its level, opening the level if it is new. -/
def addToLevel (levels : LevelMap) (order : RestingOrder) : Except String LevelMap :=
  if order.restsOnL2 = false then .ok levels
  else
    let zero := Decimal.zero order.remaining.scale order.remaining.scale_le
    let opened := if order.price ∈ levels then levels else levels.insert order.price (zero, 0)
    match opened[order.price]? with
    | none => .error "l2 level index is inconsistent"
    | some (quantity, orderCount) =>
      match quantity.checkedAdd order.remaining with
      | .error _ => .error "l2 aggregation overflow"
      | .ok total =>
        if orderCount + 1 < 2 ^ 32 then .ok (opened.setValue order.price (total, orderCount + 1))
        else .error "l2 order count overflow"

def aggregateL2 (orders : List RestingOrder) (bids : Bool) : Except String (List L2Level) := do
  let levels ← orders.foldlM addToLevel ∅
  let out := levels.toList.map fun e => ⟨e.1, e.2.1, e.2.2⟩
  return if bids then out.reverse else out

namespace OrderBook

def defaultMaxOrders : ℕ := 1048576

def awaitingSnapshotBounded (marketId : MarketId) (asOfBlock : BlockHeight) (maxOrders : ℕ) :
    OrderBook where
  marketId := marketId
  sequence := 0
  asOfBlock := asOfBlock
  health := .awaitingSnapshot "empty book requires a verified snapshot"
  maxOrders := maxOrders
  bids := ∅
  asks := ∅
  byId := ∅
  lifecycle := []

def orders (b : OrderBook) : OrderSide → List RestingOrder
  | .buy => b.bids.toList.map Prod.snd
  | .sell => b.asks.toList.map Prod.snd

def l2Bids (b : OrderBook) : List L2Level := (aggregateL2 (b.orders .buy) true).toOption.getD []

def l2Asks (b : OrderBook) : List L2Level := (aggregateL2 (b.orders .sell) false).toOption.getD []

def bestBid (b : OrderBook) : Option RestingOrder := (b.orders .buy).find? RestingOrder.restsOnL2

def bestAsk (b : OrderBook) : Option RestingOrder := (b.orders .sell).find? RestingOrder.restsOnL2

def side (b : OrderBook) : (s : OrderSide) → SideMap s
  | .buy => b.bids
  | .sell => b.asks

def setSide (b : OrderBook) : (s : OrderSide) → SideMap s → OrderBook
  | .buy, m => { b with bids := m }
  | .sell, m => { b with asks := m }

abbrev Call (α : Type) := Except String α × OrderBook

def record (b : OrderBook) (orderId : OrderId) (kind : LifecycleKind) : OrderBook :=
  { b with lifecycle := b.lifecycle ++ [⟨orderId, kind, b.sequence⟩] }

def place (b : OrderBook) (order : RestingOrder) : OrderBook :=
  let b := b.setSide order.side ((b.side order.side).insert order.bookKey order)
  { b with byId := b.byId.insert order.orderId (OrderIndex.of order) }

def insertActive (b : OrderBook) (order : RestingOrder) (fromSnapshot : Bool) : Call Unit :=
  if order.remaining.raw ≤ 0 ∨ order.price.raw ≤ 0 ∨ order.original.raw ≤ 0 then
    (.error "negative or non-positive order quantity or price", b)
  else if order.orderId ∈ b.byId then (.error "duplicate order id", b)
  else if b.maxOrders ≤ b.byId.size then (.error "order count bound", b)
  else (.ok (), if fromSnapshot then b.place order else (b.place order).record order.orderId .added)

/-- Remove an order from the index and then from the side that the index names. -/
def takeActive (b : OrderBook) (orderId : OrderId) (index : OrderIndex) :
    Option RestingOrder × OrderBook :=
  if orderId ∈ b.byId then
    let b := { b with byId := b.byId.erase orderId }
    let taken := (b.side index.side)[index.key orderId]?
    (taken, b.setSide index.side ((b.side index.side).erase (index.key orderId)))
  else (none, b)

def updateActive (b : OrderBook) (orderId : OrderId) (remaining : Quantity) (price : Price) :
    Call Unit :=
  if remaining.raw < 0 ∨ price.raw ≤ 0 then
    (.error "negative or non-positive order quantity or price", b)
  else match b.byId[orderId]? with
    | none => (.error "order id is not active", b)
    | some index =>
      match b.takeActive orderId index with
      | (none, b) => (.error "order index is inconsistent", b)
      | (some order, b) =>
        let order := { order with remaining := remaining, price := price }
        if remaining.raw = 0 then (.ok (), b.record orderId .filled)
        else
          let b := b.setSide order.side ((b.side order.side).insert order.bookKey order)
          let b := { b with byId := b.byId.insert orderId (OrderIndex.of order) }
          (.ok (), b.record orderId .updated)

def removeActive (b : OrderBook) (orderId : OrderId) (kind : LifecycleKind) : Call Unit :=
  match b.byId[orderId]? with
  | none => (.error "order id is not active", b)
  | some index =>
    match b.takeActive orderId index with
    | (none, b) => (.error "order index is inconsistent", b)
    | (some _, b) => (.ok (), b.record orderId kind)

def applyFillQty (order : RestingOrder) (fillQuantity : Quantity) : Except String RestingOrder :=
  match order.remaining.checkedSub fillQuantity with
  | .error _ => .error "fill exceeds remaining quantity"
  | .ok remaining =>
    if remaining.raw < 0 then .error "negative remaining quantity"
    else .ok { order with remaining := remaining }

def indexFault : OrderSide → String
  | .buy => "bid index is inconsistent"
  | .sell => "ask index is inconsistent"

def fillActive (b : OrderBook) (orderId : OrderId) (fillQuantity : Quantity) : Call Unit :=
  if fillQuantity.raw ≤ 0 then (.error "fill quantity must be positive", b)
  else match b.byId[orderId]? with
    | none => (.error "order id is not active", b)
    | some index =>
      match (b.side index.side)[index.key orderId]? with
      | none => (.error (indexFault index.side), b)
      | some order =>
        match applyFillQty order fillQuantity with
        | .error reason => (.error reason, b)
        | .ok filled =>
          let b := b.setSide index.side ((b.side index.side).setValue (index.key orderId) filled)
          if filled.remaining.raw = 0 then b.removeActive orderId .filled
          else (.ok (), b.record orderId .filled)

def applyHealthyDiff (b : OrderBook) : BookDiff → Call Unit
  | .add order => b.insertActive order false
  | .update orderId remaining price => b.updateActive orderId remaining price
  | .cancel orderId => b.removeActive orderId .cancelled
  | .fill orderId fillQuantity => b.fillActive orderId fillQuantity

def crossed (b : OrderBook) : Bool :=
  match b.bestBid, b.bestAsk with
  | some bid, some ask => compare bid.price ask.price != .lt
  | _, _ => false

def assertInvariants (b : OrderBook) : Except String Unit :=
  if b.byId.size ≠ b.bids.size + b.asks.size then .error "active index is inconsistent"
  else if b.crossed then .error "crossed or locked book"
  else do
    let _ ← aggregateL2 (b.orders .buy) true
    let _ ← aggregateL2 (b.orders .sell) false

def markRed (b : OrderBook) (reason : String) : OrderBook :=
  { b with bids := ∅, asks := ∅, byId := ∅, health := .red reason }

/-- How a call ends: its error, or a failed invariant, turns the book red. -/
def settle : Call Unit → OrderBook
  | (.error reason, b) => b.markRed reason
  | (.ok (), b) =>
    match b.assertInvariants with
    | .error reason => b.markRed reason
    | .ok () => b

def insertAll (b : OrderBook) : List RestingOrder → Call Unit
  | [] => (.ok (), b)
  | order :: rest =>
    match b.insertActive order true with
    | (.error reason, b) => (.error reason, b)
    | (.ok (), b) => b.insertAll rest

def applySnapshot (b : OrderBook) (sequence : UInt64) (asOfBlock : BlockHeight)
    (orders : List RestingOrder) : OrderBook :=
  let b := { b with
    bids := ∅, asks := ∅, byId := ∅, lifecycle := [], sequence := sequence,
    asOfBlock := asOfBlock, health := .healthy }
  if b.maxOrders < orders.length then b.markRed "order count bound"
  else settle (b.insertAll orders)

def nextSequence (sequence : UInt64) : UInt64 :=
  if sequence.toNat + 1 < UInt64.size then sequence + 1 else sequence

def applyDiff (b : OrderBook) (sequence : UInt64) (asOfBlock : BlockHeight) (diff : BookDiff) :
    OrderBook :=
  if b.health ≠ .healthy then b.markRed "diff applied while book is not healthy"
  else if sequence ≠ nextSequence b.sequence then b.markRed "sequence gap"
  else settle ({ b with sequence := sequence, asOfBlock := asOfBlock }.applyHealthyDiff diff)

end OrderBook

end AlphaDesk
