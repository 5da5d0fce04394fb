import MatchingEngine.Matcher.MatchingCore

/-!
# The price ladder

What one symbol's book is for, with the memory taken away: each side is the list of its
price levels, best first, and each level the list of its resting orders, oldest first.  All
operations are structural recursions on these lists.

`Ladder.process` is the whole of `processRequest` on ladders and returns the messages
emitted.  The two ways a live order enters the book are `place` (a limit order, or an order
re-priced by a modify: match, then rest the remainder) and `take` (market and immediate
orders: match, then cancel the remainder); both are built on `sweep`, the matching of one
incoming order against the contra side.

`Matcher/Refinement.lean` shows that the memory-level book computes exactly this.
-/

namespace MatchingEngine

open OrderedMaps

/-- A price level: its price and its orders, oldest first. -/
abbrev Rung := Price × List OrderRecord

/-- Both sides of a book, best level first. -/
abbrev Ladder := BookSide → List Rung

/-- The order being matched, as the matching loop sees it; `limit` is absent for a market
order. -/
structure Incoming where
  symbol : Symbol
  clientId : ClientId
  orderId : OrderId
  side : Side
  limit : Option Price

namespace Incoming

/-- The side the incoming order trades against. -/
def target (i : Incoming) : BookSide := i.side.bookSide.contra

/-- The limit price excludes trading at `price`. -/
def blocked (i : Incoming) (price : Price) : Bool :=
  match i.limit with
  | none => false
  | some l => decide (i.target.before l price)

/-! ## Matching -/

end Incoming

/-- One fill: the level's price, the resting order as it was before the fill, and what the
incoming order had left before the fill. -/
structure Fill where
  price : Price
  order : OrderRecord
  leaves : Qty

namespace Fill

/-- The quantity traded. -/
def qty (f : Fill) : Qty := min f.leaves f.order.qty

/-- What the resting order is left with. -/
def restQty (f : Fill) : Qty := f.order.qty - f.qty

end Fill

namespace Incoming

/-- The messages of one fill. -/
def fillMsgs (i : Incoming) (f : Fill) : List OutMsg :=
  [ .response ⟨.filled, i.clientId, i.symbol, i.orderId, i.orderId, i.side, f.price, f.qty,
      f.leaves - f.qty⟩,
    .response ⟨.filled, f.order.clientId, i.symbol, f.order.orderId, f.order.orderId,
      f.order.side, f.price, f.qty, f.restQty⟩,
    .update ⟨.trade, f.order.orderId, i.symbol, f.order.side, f.price, f.qty⟩,
    .update (if f.restQty = 0 then
        ⟨.cancel, f.order.orderId, i.symbol, f.order.side, f.price, 0⟩
      else ⟨.modify, f.order.orderId, i.symbol, f.order.side, f.price, f.restQty⟩) ]

/-- The messages of a sequence of fills. -/
def msgs (i : Incoming) (fills : List Fill) : List OutMsg := fills.flatMap i.fillMsgs

@[simp] lemma msgs_nil (i : Incoming) : i.msgs [] = [] := rfl

@[simp] lemma msgs_append (i : Incoming) (fs gs : List Fill) :
    i.msgs (fs ++ gs) = i.msgs fs ++ i.msgs gs := by
  simp [msgs]

/-- What a piece of matching produced: what stays on the book, what is left of the incoming
order, and the fills in order. -/
structure Sweep (α : Type) where
  rest : α
  leaves : Qty
  fills : List Fill

/-- Match against the orders of one level, oldest first, passing over the client's own. -/
def sweepLevel (i : Incoming) (price : Price) :
    List OrderRecord → Qty → Sweep (List OrderRecord)
  | [], leaves => ⟨[], leaves, []⟩
  | o :: os, leaves =>
    if o.clientId ≠ i.clientId ∧ leaves > 0 then
      let f : Fill := ⟨price, o, leaves⟩
      let r := sweepLevel i price os (leaves - f.qty)
      ⟨if f.restQty = 0 then r.rest else { o with qty := f.restQty } :: r.rest, r.leaves,
        f :: r.fills⟩
    else
      let r := sweepLevel i price os leaves
      ⟨o :: r.rest, r.leaves, r.fills⟩

/-- Match against the levels of a side, best first, until nothing is left or the limit
excludes the level; an emptied level disappears. -/
def sweep (i : Incoming) : List Rung → Qty → Sweep (List Rung)
  | [], leaves => ⟨[], leaves, []⟩
  | (price, os) :: rungs, leaves =>
    if leaves > 0 ∧ ¬ i.blocked price then
      let r := sweepLevel i price os leaves
      let rs := sweep i rungs r.leaves
      ⟨if r.rest = [] then rs.rest else (price, r.rest) :: rs.rest, rs.leaves,
        r.fills ++ rs.fills⟩
    else ⟨(price, os) :: rungs, leaves, []⟩

end Incoming

/-! ## Ladder operations -/

/-- The orders of the level at `price`, none if there is no such level. -/
def ordersAt (rungs : List Rung) (price : Price) : List OrderRecord :=
  ((rungs.find? (fun r => decide (r.1 = price))).map Prod.snd).getD []

namespace Ladder

/-- No orders. -/
def empty : Ladder := fun _ => []

/-- The orders of one side, in matching order. -/
def orders (L : Ladder) (s : BookSide) : List OrderRecord := (L s).flatMap Prod.snd

/-- All resting orders. -/
def all (L : Ladder) : List OrderRecord := L.orders .bid ++ L.orders .ask

/-- The resting order with a given id. -/
def find (L : Ladder) (id : OrderId) : Option OrderRecord :=
  L.all.find? (fun o => decide (o.orderId = id))

/-- Append an order to its level, which is created if need be. -/
def rest (L : Ladder) (o : OrderRecord) : Ladder :=
  let s := o.side.bookSide
  Function.update L s
    (insertBy s.before Prod.fst (o.price, ordersAt (L s) o.price ++ [o]) (L s))

/-- Take the order with a given id off the book; an emptied level disappears. -/
def remove (L : Ladder) (id : OrderId) : Ladder := fun s =>
  ((L s).map fun r => (r.1, r.2.filter fun o => decide (o.orderId ≠ id))).filter
    fun r => decide (r.2 ≠ [])

/-- Change the order with a given id in place. -/
def modify (L : Ladder) (id : OrderId) (f : OrderRecord → OrderRecord) : Ladder := fun s =>
  (L s).map fun r => (r.1, r.2.map fun o => if o.orderId = id then f o else o)

/-- Match an incoming order: the ladder afterwards, what is left, and the fills. -/
def trade (L : Ladder) (i : Incoming) (qty : Qty) : Incoming.Sweep Ladder :=
  let r := i.sweep (L i.target) qty
  ⟨Function.update L i.target r.rest, r.leaves, r.fills⟩

lemma trade_rest_target (L : Ladder) (i : Incoming) (qty : Qty) :
    (L.trade i qty).rest i.target = (i.sweep (L i.target) qty).rest :=
  Function.update_self ..

lemma trade_rest_of_ne (L : Ladder) (i : Incoming) (qty : Qty) {s : BookSide}
    (h : s ≠ i.target) : (L.trade i qty).rest s = L s :=
  Function.update_of_ne h ..

/-- Match, then rest the remainder at `price`. -/
def place (L : Ladder) (i : Incoming) (orderType : OrderType) (price : Price) (qty : Qty)
    (now : Nanos) : Ladder × List OutMsg :=
  let r := L.trade i qty
  if r.leaves > 0 then
    (r.rest.rest ⟨i.orderId, i.clientId, i.symbol, orderType, i.side, price, qty, r.leaves,
        now⟩,
      i.msgs r.fills ++ [.update ⟨.add, i.orderId, i.symbol, i.side, price, r.leaves⟩])
  else (r.rest, i.msgs r.fills)

/-- Match, then cancel the remainder; `price` is what the responses report. -/
def take (L : Ladder) (i : Incoming) (price : Price) (qty : Qty) : Ladder × List OutMsg :=
  let r := L.trade i qty
  (r.rest, i.msgs r.fills ++
    if r.leaves > 0 then
      [.response ⟨.canceled, i.clientId, i.symbol, i.orderId, i.orderId, i.side, price,
        qty - r.leaves, r.leaves⟩]
    else [])

/-! ## Requests -/

/-- The answer to a request that fails validation. -/
def rejectMsg (req : EngineOrderRequest) : OutMsg :=
  .response ⟨.rejected, req.clientId, req.symbol, req.orderId, invalidOrderId, req.side,
    req.price, 0, req.qty⟩

/-- The answer to a new order whose id is already resting. -/
def duplicateMsg (i : Incoming) (price : Price) (qty : Qty) : OutMsg :=
  .response ⟨.rejected, i.clientId, i.symbol, i.orderId, invalidOrderId, i.side, price, 0, qty⟩

/-- The acknowledgement of an order that is about to be matched or changed. -/
def ackMsg (status : ResponseStatus) (i : Incoming) (price : Price) (qty : Qty) : OutMsg :=
  .response ⟨status, i.clientId, i.symbol, i.orderId, i.orderId, i.side, price, 0, qty⟩

/-- The answer to a cancel or modify that names no order of the client. -/
def unnamedMsg (status : ResponseStatus) (symbol : Symbol) (req : EngineOrderRequest) :
    OutMsg :=
  .response ⟨status, req.clientId, symbol, req.orderId, invalidOrderId, .invalid, invalidPrice,
    invalidQty, invalidQty⟩

/-- The incoming order a new-order request describes. -/
def incomingOf (symbol : Symbol) (req : EngineOrderRequest) : Incoming :=
  ⟨symbol, req.clientId, req.orderId, req.side,
    if req.orderType = .market then none else some req.price⟩

/-- A request that opens an order: limit, market or immediate-or-cancel. -/
def open_ (L : Ladder) (symbol : Symbol) (req : EngineOrderRequest) (now : Nanos) :
    Ladder × List OutMsg :=
  let i := incomingOf symbol req
  let price := if req.orderType = .market then invalidPrice else req.price
  if (L.find req.orderId).isSome then (L, [duplicateMsg i price req.qty])
  else
    let r := if req.orderType = .limit then L.place i .limit req.price req.qty now
      else L.take i price req.qty
    (r.1, ackMsg .accepted i price req.qty :: r.2)

def cancel (L : Ladder) (symbol : Symbol) (req : EngineOrderRequest) : Ladder × List OutMsg :=
  match L.find req.orderId with
  | none => (L, [unnamedMsg .cancelRejected symbol req])
  | some o =>
    if o.clientId ≠ req.clientId then (L, [unnamedMsg .cancelRejected symbol req])
    else
      (L.remove req.orderId,
        [ .response ⟨.canceled, req.clientId, symbol, req.orderId, req.orderId, o.side, o.price,
            0, 0⟩,
          .update ⟨.cancel, req.orderId, symbol, o.side, o.price, o.qty⟩ ])

/-- Apply an accepted modify to the order `o` it names. -/
def amend (L : Ladder) (symbol : Symbol) (o : OrderRecord) (req : EngineOrderRequest)
    (now : Nanos) : Ladder × List OutMsg :=
  let i : Incoming := ⟨symbol, req.clientId, req.orderId, o.side, some req.price⟩
  if req.price ≠ o.price then
    let r := (L.remove req.orderId).place i o.orderType req.price req.qty now
    (r.1, ackMsg .modified i req.price req.qty :: r.2)
  else if req.qty < o.qty then
    (L.modify req.orderId fun x => { x with qty := req.qty, originalQty := req.qty },
      [ ackMsg .modified i o.price req.qty,
        .update ⟨.modify, req.orderId, symbol, o.side, o.price, req.qty⟩ ])
  else if req.qty > o.qty then
    ((L.remove req.orderId).rest
        ⟨req.orderId, req.clientId, symbol, o.orderType, o.side, o.price, req.qty, req.qty, now⟩,
      [ ackMsg .modified i o.price req.qty,
        .update ⟨.modify, req.orderId, symbol, o.side, o.price, req.qty⟩ ])
  else (L, [ackMsg .modified i o.price o.qty])

/-- A modify whose price and quantity have already been validated. -/
def modifyNamed (L : Ladder) (symbol : Symbol) (req : EngineOrderRequest) (now : Nanos) :
    Ladder × List OutMsg :=
  match L.find req.orderId with
  | none => (L, [unnamedMsg .modifyRejected symbol req])
  | some o =>
    if o.clientId ≠ req.clientId then (L, [unnamedMsg .modifyRejected symbol req])
    else L.amend symbol o req now

/-- The request fails the checks `processRequest` makes before it dispatches, or has no valid
type. -/
def invalidReq (req : EngineOrderRequest) : Bool :=
  req.orderType = .invalid ∨
    (req.orderType.needsQty ∧ (req.qty = 0 ∨ req.qty = invalidQty)) ∨
    (req.orderType.needsPrice ∧ req.price ≤ 0)

/-- One request. -/
def process (L : Ladder) (symbol : Symbol) (req : EngineOrderRequest) (now : Nanos) :
    Ladder × List OutMsg :=
  if invalidReq req then (L, [rejectMsg req])
  else match req.orderType with
    | .cancel => L.cancel symbol req
    | .modify => L.modifyNamed symbol req now
    | _ => L.open_ symbol req now

/-- A sequence of requests: the ladder reached and everything emitted. -/
def runAll (L : Ladder) (symbol : Symbol) :
    List (EngineOrderRequest × Nanos) → Ladder × List OutMsg
  | [] => (L, [])
  | (req, now) :: reqs =>
    let r := L.process symbol req now
    let rs := runAll r.1 symbol reqs
    (rs.1, r.2 ++ rs.2)

end Ladder

end MatchingEngine
