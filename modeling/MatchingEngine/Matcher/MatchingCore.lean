import MatchingEngine.Matcher.OrderBook

/-!
# Validation and dispatch

`MatchingCore::processRequest` (`exchange/matcher/matching_core.h`): a request is validated,
then dispatched by order type to the symbol's book.  A request that fails validation is
answered by `publishReject` on the symbol's response queue.

`run` processes a finite sequence of requests.  Each request comes with the value the clock
would return while it is processed; the operations read the clock at most once per request.
A run ends in `.error` when an assertion stops the process.
-/

namespace MatchingEngine

/-- The response `publishReject` writes. -/
def rejection (req : EngineOrderRequest) : EngineOrderResponse :=
  ⟨.rejected, req.clientId, req.symbol, req.orderId, invalidOrderId, req.side, req.price, 0,
    req.qty⟩

/-- `publishReject`, onto the book's own response queue. -/
def publishReject (b : SymbolOrderBook) (req : EngineOrderRequest) : SymbolOrderBook :=
  { b with sent := b.sent ++ [.response (rejection req)] }

/-- Types whose price is checked. -/
def OrderType.needsPrice (t : OrderType) : Bool := t = .limit ∨ t = .ioc ∨ t = .modify

/-- Types whose quantity is checked. -/
def OrderType.needsQty (t : OrderType) : Bool :=
  t = .limit ∨ t = .market ∨ t = .ioc ∨ t = .modify

def processRequest (b : SymbolOrderBook) (req : EngineOrderRequest) (now : Nanos) :
    Except Fault SymbolOrderBook :=
  if req.orderType.needsQty ∧ (req.qty = 0 ∨ req.qty = invalidQty) then
    .ok (publishReject b req)
  else if req.orderType.needsPrice ∧ req.price ≤ 0 then .ok (publishReject b req)
  else
    match req.orderType with
    | .limit => b.addLimitOrder req.clientId req.orderId req.side req.price req.qty now
    | .market => b.addMarketOrder req.clientId req.orderId req.side req.qty
    | .ioc => b.addIOCOrder req.clientId req.orderId req.side req.price req.qty
    | .cancel => b.cancelOrder req.clientId req.orderId
    | .modify => b.modifyOrder req.clientId req.orderId req.price req.qty now
    | .invalid => .ok (publishReject b req)

/-- Process requests in order, each with its clock reading. -/
def run : SymbolOrderBook → List (EngineOrderRequest × Nanos) → Except Fault SymbolOrderBook
  | b, [] => .ok b
  | b, (req, now) :: reqs => do
    let b ← processRequest b req now
    run b reqs

end MatchingEngine
