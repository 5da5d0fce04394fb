import MatchingEngine.Common.MemoryPool
import MatchingEngine.Framework.LinkedList
import MatchingEngine.Framework.OrderedMap
import MatchingEngine.Matcher.Messages

/-!
# One symbol's order book

`exchange/matcher/book_order.h`, `order_book.h` and `order_book.cpp`.  The book is modelled
at the level of its memory: orders and price levels are blocks of two memory pools, a
pointer is a block index and a null pointer `none`, the two sides are ordered maps from
prices to level pointers, and `orderIndex` is the hash index from order ids to nodes.

Every function of the source keeps its name.  The source repeats the body of `restOrder`,
`removeOrder` and `matchIncoming` once for `bids_` and once for `asks_`; the copies differ
in the map and in the direction of the price comparison only.  Here they are one definition
with the side as a parameter: `BookSide.before` is the comparator of that side's map
(`std::greater` for bids, `std::less` for asks), and a limit price stops the sweep of the
contra side exactly when it comes strictly before the level's price in that comparator
(`limit_price < level_price` against asks, `limit_price > level_price` against bids).  Any
side other than `BUY` is handled as the ask side, as the source's `else` branches do.

Two fields have no counterpart in the source.  `sent` is the log of everything written to
the two output queues, oldest first; the rings themselves are the subject of
`Common/LockFreeQueue.lean`.  `missedRemovals` counts how often `removeOrder` left through
its defensive early return.

The loops take a step bound: `order_pool_.size()` for the walk along one level, which visits
distinct blocks, and the number of levels plus one for the sweep of a side.
-/

namespace MatchingEngine

open OrderedMaps LinkedLists

/-! ## Orders and levels -/

/-- The fields of `BookOrder` other than its list links. -/
structure OrderRecord where
  orderId : OrderId := invalidOrderId
  clientId : ClientId := invalidClientId
  symbol : Symbol := ""
  orderType : OrderType := .invalid
  side : Side := .invalid
  price : Price := invalidPrice
  /-- Quantity as (re)submitted, unchanged by fills. -/
  originalQty : Qty := invalidQty
  /-- Remaining quantity. -/
  qty : Qty := invalidQty
  priorityTs : Nanos := 0
  deriving DecidableEq, Repr

/-- A resting order, which is also a node of its level's list. -/
structure BookOrder extends OrderRecord where
  prev : Option ℕ := none
  next : Option ℕ := none
  deriving DecidableEq, Repr

instance : Inhabited BookOrder := ⟨{}⟩

/-- One price level: a FIFO list of orders. -/
structure PriceLevel where
  price : Price := invalidPrice
  head : Option ℕ := none
  tail : Option ℕ := none
  orderCount : ℕ := 0
  deriving DecidableEq, Repr

instance : Inhabited PriceLevel := ⟨{}⟩

/-! ## Sides -/

/-- Which of the two maps an order lives in. -/
inductive BookSide
  | bid | ask
  deriving DecidableEq, Repr

/-- `side == BUY` selects `bids_`, anything else `asks_`. -/
def Side.bookSide : Side → BookSide
  | .buy => .bid
  | _ => .ask

namespace BookSide

/-- The other map. -/
def contra : BookSide → BookSide
  | bid => ask
  | ask => bid

@[simp] lemma contra_contra (s : BookSide) : s.contra.contra = s := by cases s <;> rfl

lemma contra_ne (s : BookSide) : s.contra ≠ s := by cases s <;> decide

/-- The comparator of a side's map: best price first. -/
def before : BookSide → Price → Price → Prop
  | bid, p, q => q < p
  | ask, p, q => p < q

instance : (s : BookSide) → DecidableRel s.before
  | bid => fun p q => inferInstanceAs (Decidable (q < p))
  | ask => fun p q => inferInstanceAs (Decidable (p < q))

instance (s : BookSide) : IsStrictTotalOrder Price s.before where
  irrefl p := by cases s <;> simp [before]
  trans p q r := by cases s <;> simp only [before] <;> grind
  trichotomous p q := by cases s <;> simp only [before] <;> grind

end BookSide

/-! ## The book -/

structure SymbolOrderBook where
  symbol : Symbol
  bids : OrderedMap Price ℕ BookSide.bid.before
  asks : OrderedMap Price ℕ BookSide.ask.before
  orderIndex : OrderId → Option ℕ
  orderPool : MemPool BookOrder
  levelPool : MemPool PriceLevel
  /-- Everything written to the response and update queues so far. -/
  sent : List OutMsg
  /-- How often `removeOrder` took its early return. -/
  missedRemovals : ℕ

def maxRestingOrders : ℕ := 128 * 1024
def maxPriceLevels : ℕ := 8 * 1024

namespace SymbolOrderBook

/-- A book with no orders over pools of the given capacities. -/
def ofCapacity (orders levels : ℕ) (symbol : Symbol) : SymbolOrderBook where
  symbol := symbol
  bids := .empty
  asks := .empty
  orderIndex := fun _ => none
  orderPool := .new orders
  levelPool := .new levels
  sent := []
  missedRemovals := 0

/-- The constructor. -/
def new (symbol : Symbol) : SymbolOrderBook :=
  ofCapacity maxRestingOrders maxPriceLevels symbol

/-- The map of one side. -/
def levels (b : SymbolOrderBook) : (s : BookSide) → OrderedMap Price ℕ s.before
  | .bid => b.bids
  | .ask => b.asks

/-- Replace the map of one side. -/
def setLevels (b : SymbolOrderBook) : (s : BookSide) → OrderedMap Price ℕ s.before →
    SymbolOrderBook
  | .bid, m => { b with bids := m }
  | .ask, m => { b with asks := m }

/-- Dereference an order pointer. -/
def order (b : SymbolOrderBook) (p : ℕ) : BookOrder := b.orderPool.get p

/-- Dereference a level pointer. -/
def level (b : SymbolOrderBook) (l : ℕ) : PriceLevel := b.levelPool.get l

/-- Write to the order a pointer designates. -/
def updateOrder (b : SymbolOrderBook) (p : ℕ) (f : BookOrder → BookOrder) : SymbolOrderBook :=
  { b with orderPool := b.orderPool.modify p f }

/-- Write to the level a pointer designates. -/
def updateLevel (b : SymbolOrderBook) (l : ℕ) (f : PriceLevel → PriceLevel) :
    SymbolOrderBook :=
  { b with levelPool := b.levelPool.modify l f }

/-! ### Outgoing events -/

def sendResponse (b : SymbolOrderBook) (r : EngineOrderResponse) : SymbolOrderBook :=
  { b with sent := b.sent ++ [.response r] }

def sendBookUpdate (b : SymbolOrderBook) (type : MarketUpdateType) (orderId : OrderId)
    (side : Side) (price : Price) (qty : Qty) : SymbolOrderBook :=
  { b with sent := b.sent ++ [.update ⟨type, orderId, b.symbol, side, price, qty⟩] }

/-! ### Book maintenance -/

/-- The level of a price, allocated and entered into the map if it is not there yet. -/
def findOrAddLevel (b : SymbolOrderBook) (s : BookSide) (price : Price) :
    Except Fault (ℕ × SymbolOrderBook) :=
  match (b.levels s).find price with
  | some level => .ok (level, b)
  | none => do
    let (level, levelPool) ← b.levelPool.allocate { price := price }
    return (level,
      { b with levelPool := levelPool }.setLevels s ((b.levels s).insert price level))

/-- `if (node) node->next_ = n; else level->head_ = n;` -/
def setNext (b : SymbolOrderBook) (node : Option ℕ) (level : ℕ) (n : Option ℕ) :
    SymbolOrderBook :=
  match node with
  | some p => b.updateOrder p fun x => { x with next := n }
  | none => b.updateLevel level fun l => { l with head := n }

/-- `if (node) node->prev_ = n; else level->tail_ = n;` -/
def setPrev (b : SymbolOrderBook) (node : Option ℕ) (level : ℕ) (n : Option ℕ) :
    SymbolOrderBook :=
  match node with
  | some p => b.updateOrder p fun x => { x with prev := n }
  | none => b.updateLevel level fun l => { l with tail := n }

/-- Append a node at the tail of a level: newest, lowest time priority within it. -/
def link (b : SymbolOrderBook) (order level : ℕ) : SymbolOrderBook :=
  let tail := (b.level level).tail
  let b := b.updateOrder order fun o => { o with prev := tail, next := none }
  let b := b.setNext tail level (some order)
  b.updateLevel level fun l => { l with tail := some order, orderCount := l.orderCount + 1 }

def restOrder (b : SymbolOrderBook) (clientId : ClientId) (orderId : OrderId)
    (orderType : OrderType) (side : Side) (price : Price) (originalQty qty : Qty)
    (priorityTs : Nanos) : Except Fault SymbolOrderBook := do
  let (order, orderPool) ← b.orderPool.allocate
    { orderId, clientId, symbol := b.symbol, orderType, side, price, originalQty, qty,
      priorityTs }
  let (level, b) ← { b with orderPool := orderPool }.findOrAddLevel side.bookSide price
  let b := b.link order level
  return { b with orderIndex := Function.update b.orderIndex orderId (some order) }

/-- Join the neighbours of a node and count it out of its level. -/
def unlink (b : SymbolOrderBook) (order level : ℕ) : SymbolOrderBook :=
  let o := b.order order
  let b := b.setNext o.prev level o.next
  let b := b.setPrev o.next level o.prev
  b.updateLevel level fun l => { l with orderCount := l.orderCount - 1 }

/-- Erase an emptied level from its map and return it to the pool. -/
def dropLevel (b : SymbolOrderBook) (s : BookSide) (price : Price) (level : ℕ) :
    Except Fault SymbolOrderBook := do
  let levelPool ← b.levelPool.deallocate level
  return { b.setLevels s ((b.levels s).erase price) with levelPool := levelPool }

def removeOrder (b : SymbolOrderBook) (order : ℕ) : Except Fault SymbolOrderBook :=
  let o := b.order order
  let s := o.side.bookSide
  match (b.levels s).find o.price with
  | none => .ok { b with missedRemovals := b.missedRemovals + 1 }
  | some level => do
    let b := b.unlink order level
    let b ← if (b.level level).orderCount = 0 then b.dropLevel s o.price level else pure b
    let orderPool ← b.orderPool.deallocate order
    return { b with orderIndex := Function.update b.orderIndex o.orderId none,
                    orderPool := orderPool }

/-! ### Matching -/

/-- Execute `fillQty` between the incoming order, which is left with `leaves`, and a resting
node, and report it on both streams. -/
def executeFill (b : SymbolOrderBook) (clientId : ClientId) (orderId : OrderId) (side : Side)
    (levelPrice : Price) (node : ℕ) (fillQty leaves : Qty) : SymbolOrderBook :=
  let o := b.order node
  let restQty := o.qty - fillQty
  let b := b.updateOrder node fun x => { x with qty := restQty }
  let b := b.sendResponse
    ⟨.filled, clientId, b.symbol, orderId, orderId, side, levelPrice, fillQty, leaves⟩
  let b := b.sendResponse
    ⟨.filled, o.clientId, b.symbol, o.orderId, o.orderId, o.side, levelPrice, fillQty, restQty⟩
  b.sendBookUpdate .trade o.orderId o.side levelPrice fillQty

/-- One fill of the incoming order against a resting one: both quantities shrink by the
smaller of the two, and the resting order leaves the book when nothing of it remains. -/
def fillNode (b : SymbolOrderBook) (clientId : ClientId) (orderId : OrderId) (side : Side)
    (levelPrice : Price) (node : ℕ) (leaves : Qty) : Except Fault (SymbolOrderBook × Qty) := do
  let o := b.order node
  let fillQty := min leaves o.qty
  let leaves := leaves - fillQty
  let restQty := o.qty - fillQty
  let b := b.executeFill clientId orderId side levelPrice node fillQty leaves
  if restQty = 0 then
    let b ← b.removeOrder node
    return (b.sendBookUpdate .cancel o.orderId o.side levelPrice 0, leaves)
  else
    return (b.sendBookUpdate .modify o.orderId o.side levelPrice restQty, leaves)

/-- The inner loop: walk one level from `node`, skipping the client's own orders.  The
successor is read before the node can be removed. -/
def matchLevel (clientId : ClientId) (orderId : OrderId) (side : Side) (levelPrice : Price) :
    ℕ → Option ℕ → SymbolOrderBook → Qty → Except Fault (SymbolOrderBook × Qty)
  | _, none, b, leaves => .ok (b, leaves)
  | 0, some _, _, _ => .error .loopBound
  | fuel + 1, some node, b, leaves => do
    let nextNode := (b.order node).next
    let (b, leaves) ←
      if (b.order node).clientId ≠ clientId ∧ leaves > 0 then
        b.fillNode clientId orderId side levelPrice node leaves
      else pure (b, leaves)
    matchLevel clientId orderId side levelPrice fuel nextNode b leaves

/-- The outer loop: sweep the contra levels from `it` on, best price first, re-finding the
place with `upper_bound` after each level. -/
def matchLevels (clientId : ClientId) (orderId : OrderId) (side : Side) (limitPrice : Price)
    (hasLimitPrice : Bool) :
    ℕ → Option (Price × ℕ) → SymbolOrderBook → Qty → Except Fault (SymbolOrderBook × Qty)
  | 0, _, _, _ => .error .loopBound
  | fuel + 1, it, b, leaves =>
    if leaves > 0 then
      match it with
      | none => .ok (b, leaves)
      | some (levelPrice, level) =>
        if hasLimitPrice ∧ side.bookSide.contra.before limitPrice levelPrice then
          .ok (b, leaves)
        else do
          let (b, leaves) ← matchLevel clientId orderId side levelPrice b.orderPool.size
            (b.level level).head b leaves
          matchLevels clientId orderId side limitPrice hasLimitPrice fuel
            ((b.levels side.bookSide.contra).upperBound levelPrice) b leaves
    else .ok (b, leaves)

/-- Match an incoming order against the contra side; the result carries what is left of it. -/
def matchIncoming (b : SymbolOrderBook) (clientId : ClientId) (orderId : OrderId) (side : Side)
    (limitPrice : Price) (hasLimitPrice : Bool) (leaves : Qty) :
    Except Fault (SymbolOrderBook × Qty) :=
  matchLevels clientId orderId side limitPrice hasLimitPrice
    ((b.levels side.bookSide.contra).entries.length + 1)
    (b.levels side.bookSide.contra).begin b leaves

/-! ### Order entry

`now` is the value `getCurrentNanos()` returns; each operation reads the clock at most once. -/

def addLimitOrder (b : SymbolOrderBook) (clientId : ClientId) (orderId : OrderId) (side : Side)
    (price : Price) (qty : Qty) (now : Nanos) : Except Fault SymbolOrderBook :=
  if (b.orderIndex orderId).isSome then
    .ok (b.sendResponse
      ⟨.rejected, clientId, b.symbol, orderId, invalidOrderId, side, price, 0, qty⟩)
  else do
    let b := b.sendResponse
      ⟨.accepted, clientId, b.symbol, orderId, orderId, side, price, 0, qty⟩
    let (b, leaves) ← b.matchIncoming clientId orderId side price true qty
    if leaves > 0 then
      let b ← b.restOrder clientId orderId .limit side price qty leaves now
      return b.sendBookUpdate .add orderId side price leaves
    else return b

def addMarketOrder (b : SymbolOrderBook) (clientId : ClientId) (orderId : OrderId)
    (side : Side) (qty : Qty) : Except Fault SymbolOrderBook :=
  if (b.orderIndex orderId).isSome then
    .ok (b.sendResponse
      ⟨.rejected, clientId, b.symbol, orderId, invalidOrderId, side, invalidPrice, 0, qty⟩)
  else do
    let b := b.sendResponse
      ⟨.accepted, clientId, b.symbol, orderId, orderId, side, invalidPrice, 0, qty⟩
    let (b, leaves) ← b.matchIncoming clientId orderId side invalidPrice false qty
    if leaves > 0 then
      return b.sendResponse
        ⟨.canceled, clientId, b.symbol, orderId, orderId, side, invalidPrice, qty - leaves,
          leaves⟩
    else return b

def addIOCOrder (b : SymbolOrderBook) (clientId : ClientId) (orderId : OrderId) (side : Side)
    (price : Price) (qty : Qty) : Except Fault SymbolOrderBook :=
  if (b.orderIndex orderId).isSome then
    .ok (b.sendResponse
      ⟨.rejected, clientId, b.symbol, orderId, invalidOrderId, side, price, 0, qty⟩)
  else do
    let b := b.sendResponse
      ⟨.accepted, clientId, b.symbol, orderId, orderId, side, price, 0, qty⟩
    let (b, leaves) ← b.matchIncoming clientId orderId side price true qty
    if leaves > 0 then
      return b.sendResponse
        ⟨.canceled, clientId, b.symbol, orderId, orderId, side, price, qty - leaves, leaves⟩
    else return b

/-- The response to a cancel or modify that names no order of the client. -/
def rejectNamed (b : SymbolOrderBook) (status : ResponseStatus) (clientId : ClientId)
    (orderId : OrderId) : SymbolOrderBook :=
  b.sendResponse ⟨status, clientId, b.symbol, orderId, invalidOrderId, .invalid, invalidPrice,
    invalidQty, invalidQty⟩

def cancelOrder (b : SymbolOrderBook) (clientId : ClientId) (orderId : OrderId) :
    Except Fault SymbolOrderBook :=
  match b.orderIndex orderId with
  | none => .ok (b.rejectNamed .cancelRejected clientId orderId)
  | some order =>
    let o := b.order order
    if o.clientId ≠ clientId then .ok (b.rejectNamed .cancelRejected clientId orderId)
    else do
      let b ← b.removeOrder order
      let b := b.sendResponse
        ⟨.canceled, clientId, b.symbol, orderId, orderId, o.side, o.price, 0, 0⟩
      return b.sendBookUpdate .cancel orderId o.side o.price o.qty

def modifyOrder (b : SymbolOrderBook) (clientId : ClientId) (orderId : OrderId)
    (newPrice : Price) (newQty : Qty) (now : Nanos) : Except Fault SymbolOrderBook :=
  match b.orderIndex orderId with
  | none => .ok (b.rejectNamed .modifyRejected clientId orderId)
  | some order =>
    let o := b.order order
    if o.clientId ≠ clientId then .ok (b.rejectNamed .modifyRejected clientId orderId)
    else if newQty = 0 ∨ newQty = invalidQty ∨ newPrice ≤ 0 then
      .ok (b.rejectNamed .modifyRejected clientId orderId)
    else if newPrice ≠ o.price then do
      -- a price change is treated like a fresh limit order at the new price
      let b ← b.removeOrder order
      let b := b.sendResponse
        ⟨.modified, clientId, b.symbol, orderId, orderId, o.side, newPrice, 0, newQty⟩
      let (b, leaves) ← b.matchIncoming clientId orderId o.side newPrice true newQty
      if leaves > 0 then
        let b ← b.restOrder clientId orderId o.orderType o.side newPrice newQty leaves now
        return b.sendBookUpdate .add orderId o.side newPrice leaves
      else return b
    else if newQty < o.qty then
      -- a quantity decrease keeps its place
      let b := b.updateOrder order fun x => { x with qty := newQty, originalQty := newQty }
      let b := b.sendResponse
        ⟨.modified, clientId, b.symbol, orderId, orderId, o.side, o.price, 0, newQty⟩
      .ok (b.sendBookUpdate .modify orderId o.side o.price newQty)
    else if newQty > o.qty then do
      -- a quantity increase goes to the back of its level
      let b ← b.removeOrder order
      let b ← b.restOrder clientId orderId o.orderType o.side o.price newQty newQty now
      let b := b.sendResponse
        ⟨.modified, clientId, b.symbol, orderId, orderId, o.side, o.price, 0, newQty⟩
      return b.sendBookUpdate .modify orderId o.side o.price newQty
    else
      .ok (b.sendResponse
        ⟨.modified, clientId, b.symbol, orderId, orderId, o.side, o.price, 0, o.qty⟩)

end SymbolOrderBook

end MatchingEngine
