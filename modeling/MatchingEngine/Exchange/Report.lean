import MatchingEngine.Exchange.ExchangeMain
import MatchingEngine.Framework.Numerals
import MatchingEngine.Matcher.OrderBook

/-!
# What the exchange prints

The `toString` functions of the message structs (`exchange/order_server/order_request.h`,
`exchange/order_server/order_response.h`, `exchange/matcher/market_update.h`) and of a resting order
(`exchange/matcher/book_order.h`), with the names of the enumerations, and the report that `main`
of `exchange_main.cpp` writes at the end.  A `std::string` is the list of its characters, and a
number goes to a stream in plain decimal.
-/

namespace MatchingEngine

open Numerals

def sideToString : Side → List Char
  | .buy => "BUY".toList
  | .sell => "SELL".toList
  | .invalid => "INVALID".toList

def orderTypeToString : OrderType → List Char
  | .limit => "LIMIT".toList
  | .market => "MARKET".toList
  | .ioc => "IOC".toList
  | .cancel => "CANCEL".toList
  | .modify => "MODIFY".toList
  | .invalid => "INVALID".toList

def responseStatusToString : ResponseStatus → List Char
  | .accepted => "ACCEPTED".toList
  | .rejected => "REJECTED".toList
  | .filled => "FILLED".toList
  | .canceled => "CANCELED".toList
  | .cancelRejected => "CANCEL_REJECTED".toList
  | .modified => "MODIFIED".toList
  | .modifyRejected => "MODIFY_REJECTED".toList
  | .invalid => "INVALID".toList

def marketUpdateTypeToString : MarketUpdateType → List Char
  | .add => "ADD".toList
  | .modify => "MODIFY".toList
  | .cancel => "CANCEL".toList
  | .trade => "TRADE".toList
  | .invalid => "INVALID".toList

/-- A field of a struct: its label, then its value. -/
def printField (label : String) (value : List Char) : List Char := label.toList ++ value

/-- A struct: its name, then its fields in brackets, with a space between any two. -/
def printStruct (name : String) (fields : List (List Char)) : List Char :=
  name.toList ++ " [".toList ++ [' '].intercalate fields ++ "]".toList

def EngineOrderRequest.toString (r : EngineOrderRequest) : List Char :=
  printStruct "EngineOrderRequest"
    [ printField "type:" (orderTypeToString r.orderType),
      printField "client:" (writeNat r.clientId.toNat),
      printField "symbol:" r.symbol.toList,
      printField "oid:" (writeNat r.orderId.toNat),
      printField "side:" (sideToString r.side),
      printField "qty:" (writeNat r.qty.toNat),
      printField "price:" (writeInt r.price.toInt),
      printField "rx:" (writeInt r.recvTime.toInt) ]

def EngineOrderResponse.toString (r : EngineOrderResponse) : List Char :=
  printStruct "EngineOrderResponse"
    [ printField "status:" (responseStatusToString r.status),
      printField "client:" (writeNat r.clientId.toNat),
      printField "symbol:" r.symbol.toList,
      printField "coid:" (writeNat r.clientOrderId.toNat),
      printField "moid:" (writeNat r.marketOrderId.toNat),
      printField "side:" (sideToString r.side),
      printField "exec:" (writeNat r.execQty.toNat),
      printField "leaves:" (writeNat r.leavesQty.toNat),
      printField "price:" (writeInt r.price.toInt) ]

def BookUpdate.toString (u : BookUpdate) : List Char :=
  printStruct "BookUpdate"
    [ printField "type:" (marketUpdateTypeToString u.type),
      printField "oid:" (writeNat u.orderId.toNat),
      printField "symbol:" u.symbol.toList,
      printField "side:" (sideToString u.side),
      printField "qty:" (writeNat u.qty.toNat),
      printField "price:" (writeInt u.price.toInt) ]

/-- The links of the order are not printed. -/
def OrderRecord.toString (o : OrderRecord) : List Char :=
  printStruct "BookOrder"
    [ printField "oid:" (writeNat o.orderId.toNat),
      printField "client:" (writeNat o.clientId.toNat),
      printField "symbol:" o.symbol.toList,
      printField "type:" (orderTypeToString o.orderType),
      printField "side:" (sideToString o.side),
      printField "price:" (writeInt o.price.toInt),
      printField "orig_qty:" (writeNat o.originalQty.toNat),
      printField "qty:" (writeNat o.qty.toNat),
      printField "ts:" (writeInt o.priorityTs.toInt) ]

/-- The lines, each ended by a newline. -/
def printLines (lines : List (List Char)) : List Char := lines.flatMap fun line => line ++ ['\n']

/-- What `main` writes to `*out`, given the number of orders it has read, the symbols, and what
its two callbacks have collected. -/
def printReport (orders : ℕ) (symbols : List Symbol)
    (responseLines updateLines : List (List Char)) : List Char :=
  "orders read: ".toList ++ writeNat orders ++ ", symbols: ".toList ++
    [','].intercalate (symbols.map String.toList) ++
    "\n\n--- responses ---\n".toList ++ printLines responseLines ++
    "\n--- book updates ---\n".toList ++ printLines updateLines

/-- The report of `main` on `orders`, if it stops the exchange in the state `x`. -/
def Exchange.report (orders : List EngineOrderRequest) (x : Exchange) : List Char :=
  printReport orders.length (symbolsOf orders) (x.responses.map EngineOrderResponse.toString)
    (x.updates.map BookUpdate.toString)

end MatchingEngine
