import MatchingEngine.Matcher.Ladder

/-!
# The naive order book

The abstract statement of what a book with price-time priority does.  There are no levels and
no queues: the resting orders are a flat list in no particular order, and each carries the
number of the request that last set its priority.  An incoming order repeatedly trades with the
best eligible order of the list, found by looking at all of them, until nothing is left of it or
nothing is eligible.

`Reference.Book.process` handles one request and returns the reports of its trades: for each,
the two `FILLED` responses and the `TRADE` update.  That the book computes the same is shown in
`Matcher/Simulation.lean`.
-/

namespace MatchingEngine

namespace Reference

/-! ## The book -/

/-- A resting order, with the number of the request that last set its priority. -/
structure Order where
  orderId : OrderId
  clientId : ClientId
  side : Side
  price : Price
  qty : Qty
  index : ℕ
  deriving DecidableEq, Repr

/-- The resting orders, and how many requests have been processed. -/
structure Book where
  orders : List Order
  count : ℕ

def Book.empty : Book := ⟨[], 0⟩

/-- Of two orders an incoming order on `side` could trade with, the first has priority. -/
def better (side : Side) (a b : Order) : Bool :=
  (if side = .buy then a.price < b.price else b.price < a.price) ∨
    a.price = b.price ∧ a.index < b.index

/-- The order of highest priority. -/
def best (side : Side) : List Order → Option Order
  | [] => none
  | o :: os =>
    match best side os with
    | none => some o
    | some o' => if better side o' o then some o' else some o

/-- The price is acceptable to an order on `side` with the given limit. -/
def crosses (side : Side) (limit : Option Price) (price : Price) : Bool :=
  match limit with
  | none => true
  | some l => if side = .buy then price ≤ l else l ≤ price

/-- The incoming order may trade with `o`: contra side, another owner, and a crossing price. -/
def eligible (i : Incoming) (o : Order) : Bool :=
  (o.side = .buy ↔ ¬ i.side = .buy) ∧ o.clientId ≠ i.clientId ∧ crosses i.side i.limit o.price

/-- The reports of a trade of the incoming order, which has `leaves` left, with `o`. -/
def report (i : Incoming) (o : Order) (leaves : Qty) : List OutMsg :=
  let qty := min leaves o.qty
  [ .response ⟨.filled, i.clientId, i.symbol, i.orderId, i.orderId, i.side, o.price, qty,
      leaves - qty⟩,
    .response ⟨.filled, o.clientId, i.symbol, o.orderId, o.orderId, o.side, o.price, qty,
      o.qty - qty⟩,
    .update ⟨.trade, o.orderId, i.symbol, o.side, o.price, qty⟩ ]

/-- What becomes of the list when `qty` is traded with `o`. -/
def reduce (os : List Order) (o : Order) (qty : Qty) : List Order :=
  if o.qty - qty = 0 then os.erase o else { o with qty := o.qty - qty } :: os.erase o

lemma best_mem {side : Side} {os : List Order} {o : Order} (h : best side os = some o) :
    o ∈ os := by
  induction os generalizing o with
  | nil => simp [best] at h
  | cons a os ih =>
    unfold best at h
    cases hb : best side os with
    | none =>
      simp only [hb, Option.some.injEq] at h
      simp [h]
    | some b =>
      simp only [hb] at h
      split_ifs at h
      · rw [← Option.some.inj h]
        exact List.mem_cons_of_mem _ (ih hb)
      · simp [Option.some.inj h]

/-- A trade takes an order off the list, or leaves nothing of the incoming order. -/
lemma length_reduce {os : List Order} {o : Order} (hmem : o ∈ os) {leaves : Qty}
    (hne : leaves ≠ 0) :
    (reduce os o (min leaves o.qty)).length < os.length ∨
      (reduce os o (min leaves o.qty)).length = os.length ∧
        (leaves - min leaves o.qty).toNat < leaves.toNat := by
  have hlen := List.length_erase_add_one hmem
  unfold reduce
  split_ifs with hzero
  · exact .inl (by omega)
  · refine .inr ⟨by rw [List.length_cons, hlen], ?_⟩
    rw [qty_eq_zero_iff, toNat_sub_min_right] at hzero
    rw [Ne, qty_eq_zero_iff] at hne
    rw [toNat_sub_min_left]
    omega

/-- Trade with the best eligible order, again and again. -/
def matchAll (i : Incoming) (os : List Order) (leaves : Qty) : List Order × Qty × List OutMsg :=
  if leaves = 0 then (os, leaves, [])
  else
    match _hbest : best i.side (os.filter (eligible i)) with
    | none => (os, leaves, [])
    | some o =>
      let qty := min leaves o.qty
      let r := matchAll i (reduce os o qty) (leaves - qty)
      (r.1, r.2.1, report i o leaves ++ r.2.2)
termination_by (os.length, leaves.toNat)
decreasing_by
  rename_i hne
  exact Prod.lex_def.mpr (length_reduce (List.mem_of_mem_filter (best_mem _hbest)) hne)

/-! ## Requests -/

namespace Book

/-- The resting order with a given id. -/
def find (B : Book) (id : OrderId) : Option Order := B.orders.find? fun o => decide (o.orderId = id)

/-- The orders other than the one with the given id. -/
def without (B : Book) (id : OrderId) : List Order :=
  B.orders.filter fun o => decide (o.orderId ≠ id)

/-- Match against `os`; rest what is left at `price`, with this request's number. -/
def place (B : Book) (os : List Order) (i : Incoming) (price : Price) (qty : Qty) :
    List Order × List OutMsg :=
  let r := matchAll i os qty
  (if r.2.1 = 0 then r.1
    else ⟨i.orderId, i.clientId, i.side, price, r.2.1, B.count⟩ :: r.1, r.2.2)

/-- The request fails the checks made before anything else. -/
def refuses (req : EngineOrderRequest) : Bool :=
  req.orderType = .invalid ∨
    (req.orderType ≠ .cancel ∧ (req.qty = 0 ∨ req.qty = invalidQty)) ∨
    (req.orderType ≠ .cancel ∧ req.orderType ≠ .market ∧ req.price ≤ 0)

/-- The orders after a request, and the reports of its trades. -/
def effect (B : Book) (symbol : Symbol) (req : EngineOrderRequest) : List Order × List OutMsg :=
  if refuses req then (B.orders, [])
  else match req.orderType, B.find req.orderId with
    | .limit, none =>
      B.place B.orders ⟨symbol, req.clientId, req.orderId, req.side, some req.price⟩ req.price
        req.qty
    | .market, none =>
      let r := matchAll ⟨symbol, req.clientId, req.orderId, req.side, none⟩ B.orders req.qty
      (r.1, r.2.2)
    | .ioc, none =>
      let r := matchAll ⟨symbol, req.clientId, req.orderId, req.side, some req.price⟩ B.orders
        req.qty
      (r.1, r.2.2)
    | .cancel, some o =>
      if o.clientId ≠ req.clientId then (B.orders, []) else (B.without req.orderId, [])
    | .modify, some o =>
      if o.clientId ≠ req.clientId then (B.orders, [])
      else if req.price ≠ o.price then
        B.place (B.without req.orderId)
          ⟨symbol, req.clientId, req.orderId, o.side, some req.price⟩ req.price req.qty
      else if req.qty < o.qty then ({ o with qty := req.qty } :: B.without req.orderId, [])
      else if req.qty > o.qty then
        ({ o with qty := req.qty, index := B.count } :: B.without req.orderId, [])
      else (B.orders, [])
    | _, _ => (B.orders, [])

/-- One request. -/
def process (B : Book) (symbol : Symbol) (req : EngineOrderRequest) : Book × List OutMsg :=
  (⟨(B.effect symbol req).1, B.count + 1⟩, (B.effect symbol req).2)

/-- A sequence of requests. -/
def runAll (B : Book) (symbol : Symbol) : List EngineOrderRequest → Book × List OutMsg
  | [] => (B, [])
  | req :: reqs =>
    let r := B.process symbol req
    let rs := runAll r.1 symbol reqs
    (rs.1, r.2 ++ rs.2)

end Book

end Reference

end MatchingEngine
