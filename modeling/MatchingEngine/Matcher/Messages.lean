import MatchingEngine.Common.Types

/-!
# Requests, responses and book updates

The three message structs that cross the matching engine's boundary: `EngineOrderRequest`
(`exchange/order_server/order_request.h`) comes in, `EngineOrderResponse`
(`exchange/order_server/order_response.h`) and `BookUpdate`
(`exchange/matcher/market_update.h`) go out.  `OutMsg` tags an outgoing message with the
queue it is written to, so that the log of a book records the order in which its two output
queues were fed.
-/

namespace MatchingEngine

structure EngineOrderRequest where
  orderType : OrderType := .invalid
  clientId : ClientId := invalidClientId
  symbol : Symbol := ""
  orderId : OrderId := invalidOrderId
  side : Side := .invalid
  price : Price := invalidPrice
  qty : Qty := invalidQty
  /-- Stamped by the gateway's sequencer, not by the caller. -/
  recvTime : Nanos := 0
  deriving DecidableEq, Repr

inductive ResponseStatus
  | invalid | accepted | rejected | filled | canceled | cancelRejected | modified
  | modifyRejected
  deriving DecidableEq, Repr

structure EngineOrderResponse where
  status : ResponseStatus := .invalid
  clientId : ClientId := invalidClientId
  symbol : Symbol := ""
  /-- Id as submitted by the client. -/
  clientOrderId : OrderId := invalidOrderId
  /-- Id assigned by the book. -/
  marketOrderId : OrderId := invalidOrderId
  side : Side := .invalid
  price : Price := invalidPrice
  /-- Quantity filled in this event. -/
  execQty : Qty := invalidQty
  /-- Quantity still remaining. -/
  leavesQty : Qty := invalidQty
  deriving DecidableEq, Repr

inductive MarketUpdateType
  | invalid | add | modify | cancel | trade
  deriving DecidableEq, Repr

structure BookUpdate where
  type : MarketUpdateType := .invalid
  orderId : OrderId := invalidOrderId
  symbol : Symbol := ""
  side : Side := .invalid
  price : Price := invalidPrice
  qty : Qty := invalidQty
  deriving DecidableEq, Repr

/-- A message written by a book, to its response queue or to its update queue. -/
inductive OutMsg
  | response (r : EngineOrderResponse)
  | update (u : BookUpdate)
  deriving DecidableEq, Repr

/-- The messages of a log that went to the response queue. -/
def responsesOf (log : List OutMsg) : List EngineOrderResponse :=
  log.filterMap fun
    | .response r => some r
    | .update _ => none

/-- The messages of a log that went to the update queue. -/
def updatesOf (log : List OutMsg) : List BookUpdate :=
  log.filterMap fun
    | .response _ => none
    | .update u => some u

section Streams

variable (r : EngineOrderResponse) (u : BookUpdate) (log log' : List OutMsg)

@[simp] lemma responsesOf_nil : responsesOf [] = [] := rfl
@[simp] lemma responsesOf_response :
    responsesOf (.response r :: log) = r :: responsesOf log := rfl
@[simp] lemma responsesOf_update : responsesOf (.update u :: log) = responsesOf log := rfl
@[simp] lemma responsesOf_append :
    responsesOf (log ++ log') = responsesOf log ++ responsesOf log' := by
  simp [responsesOf]

@[simp] lemma updatesOf_nil : updatesOf [] = [] := rfl
@[simp] lemma updatesOf_response : updatesOf (.response r :: log) = updatesOf log := rfl
@[simp] lemma updatesOf_update : updatesOf (.update u :: log) = u :: updatesOf log := rfl
@[simp] lemma updatesOf_append :
    updatesOf (log ++ log') = updatesOf log ++ updatesOf log' := by
  simp [updatesOf]

end Streams

end MatchingEngine
