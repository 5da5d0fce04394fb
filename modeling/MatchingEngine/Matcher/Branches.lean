import MatchingEngine.Matcher.Memory

/-!
# The two copies of each operation

In `order_book.cpp` the bodies of `restOrder`, `removeOrder` and `matchIncoming` stand twice, once
over `bids_` and once over `asks_`.  This module writes the copies out, each with its own map and
its own comparison, and shows that each pair is the definition of `Matcher/OrderBook.lean` with the
side as a parameter.  A difference between the copies (a comparison turned round, a level that is
not erased) would make one of the three equations false.
-/

namespace MatchingEngine

open OrderedMaps

namespace SymbolOrderBook

namespace Branches

/-! ## The copies -/

/-- The branches of `restOrder`: the level of the price in the map of the side. -/
def levelOf (b : SymbolOrderBook) (side : Side) (price : Price) :
    Except Fault (ℕ × SymbolOrderBook) :=
  if side = .buy then
    match b.bids.find price with
    | none => do
      let (level, levelPool) ← b.levelPool.allocate { price := price }
      return (level, { b with levelPool := levelPool, bids := b.bids.insert price level })
    | some level => .ok (level, b)
  else
    match b.asks.find price with
    | none => do
      let (level, levelPool) ← b.levelPool.allocate { price := price }
      return (level, { b with levelPool := levelPool, asks := b.asks.insert price level })
    | some level => .ok (level, b)

def restOrder (b : SymbolOrderBook) (clientId : ClientId) (orderId : OrderId)
    (orderType : OrderType) (side : Side) (price : Price) (originalQty qty : Qty)
    (priorityTs : Nanos) : Except Fault SymbolOrderBook := do
  let (order, orderPool) ← b.orderPool.allocate
    { orderId, clientId, symbol := b.symbol, orderType, side, price, originalQty, qty,
      priorityTs }
  let (level, b) ← levelOf { b with orderPool := orderPool } side price
  let b := b.link order level
  return { b with orderIndex := Function.update b.orderIndex orderId (some order) }

/-- `if (level->order_count_ == 0)`, in the branch of `bids_`. -/
def dropBid (b : SymbolOrderBook) (price : Price) (level : ℕ) : Except Fault SymbolOrderBook :=
  if (b.level level).orderCount = 0 then do
    let levelPool ← b.levelPool.deallocate level
    return { b with bids := b.bids.erase price, levelPool := levelPool }
  else .ok b

/-- `if (level->order_count_ == 0)`, in the branch of `asks_`. -/
def dropAsk (b : SymbolOrderBook) (price : Price) (level : ℕ) : Except Fault SymbolOrderBook :=
  if (b.level level).orderCount = 0 then do
    let levelPool ← b.levelPool.deallocate level
    return { b with asks := b.asks.erase price, levelPool := levelPool }
  else .ok b

/-- What follows the branches of `removeOrder`. -/
def freeOrder (b : SymbolOrderBook) (order : ℕ) : Except Fault SymbolOrderBook := do
  let orderPool ← b.orderPool.deallocate order
  return { b with orderIndex := Function.update b.orderIndex (b.order order).orderId none,
                  orderPool := orderPool }

/-- The branches return early if the level is missing. -/
def removeOrder (b : SymbolOrderBook) (order : ℕ) : Except Fault SymbolOrderBook :=
  let side := (b.order order).side
  let price := (b.order order).price
  if side = .buy then
    match b.bids.find price with
    | none => .ok { b with missedRemovals := b.missedRemovals + 1 }
    | some level => do
      let b ← dropBid (b.unlink order level) price level
      freeOrder b order
  else
    match b.asks.find price with
    | none => .ok { b with missedRemovals := b.missedRemovals + 1 }
    | some level => do
      let b ← dropAsk (b.unlink order level) price level
      freeOrder b order

section Matching

variable (clientId : ClientId) (orderId : OrderId) (side : Side) (limitPrice : Price)
  (hasLimitPrice : Bool)

/-- The sweep of `asks_`: a level above the limit is too expensive. -/
def matchAsks : ℕ → Option (Price × ℕ) → SymbolOrderBook → Qty →
    Except Fault (SymbolOrderBook × Qty)
  | 0, _, _, _ => .error .loopBound
  | fuel + 1, it, b, leaves =>
    if leaves > 0 then
      match it with
      | none => .ok (b, leaves)
      | some (levelPrice, level) =>
        if hasLimitPrice ∧ limitPrice < levelPrice then .ok (b, leaves)
        else do
          let (b, leaves) ← matchLevel clientId orderId side levelPrice b.orderPool.size
            (b.level level).head b leaves
          matchAsks fuel (b.asks.upperBound levelPrice) b leaves
    else .ok (b, leaves)

/-- The sweep of `bids_`: a level below the limit is too cheap. -/
def matchBids : ℕ → Option (Price × ℕ) → SymbolOrderBook → Qty →
    Except Fault (SymbolOrderBook × Qty)
  | 0, _, _, _ => .error .loopBound
  | fuel + 1, it, b, leaves =>
    if leaves > 0 then
      match it with
      | none => .ok (b, leaves)
      | some (levelPrice, level) =>
        if hasLimitPrice ∧ limitPrice > levelPrice then .ok (b, leaves)
        else do
          let (b, leaves) ← matchLevel clientId orderId side levelPrice b.orderPool.size
            (b.level level).head b leaves
          matchBids fuel (b.bids.upperBound levelPrice) b leaves
    else .ok (b, leaves)

/-- `matchIncoming`, with a branch for each map. -/
def matchIncoming (b : SymbolOrderBook) (leaves : Qty) : Except Fault (SymbolOrderBook × Qty) :=
  if side = .buy then
    matchAsks clientId orderId side limitPrice hasLimitPrice (b.asks.entries.length + 1)
      b.asks.begin b leaves
  else
    matchBids clientId orderId side limitPrice hasLimitPrice (b.bids.entries.length + 1)
      b.bids.begin b leaves

end Matching

end Branches

/-! ## The copies agree -/

lemma bookSide_of_ne_buy {side : Side} (h : side ≠ .buy) : side.bookSide = .ask := by
  cases side with
  | buy => exact absurd rfl h
  | sell | invalid => rfl

lemma levelOf_eq (b : SymbolOrderBook) (side : Side) (price : Price) :
    Branches.levelOf b side price = b.findOrAddLevel side.bookSide price := by
  unfold Branches.levelOf findOrAddLevel
  by_cases hside : side = .buy
  · subst hside
    rw [if_pos rfl]
    cases hfind : b.bids.find price with
    | none =>
      rw [show (b.levels Side.buy.bookSide).find price = none from hfind]
      rfl
    | some level =>
      rw [show (b.levels Side.buy.bookSide).find price = some level from hfind]
  · rw [if_neg hside, bookSide_of_ne_buy hside]
    cases hfind : b.asks.find price with
    | none =>
      rw [show (b.levels .ask).find price = none from hfind]
      rfl
    | some level => rw [show (b.levels .ask).find price = some level from hfind]

theorem restOrder_branches (b : SymbolOrderBook) (clientId : ClientId) (orderId : OrderId)
    (orderType : OrderType) (side : Side) (price : Price) (originalQty qty : Qty)
    (priorityTs : Nanos) :
    Branches.restOrder b clientId orderId orderType side price originalQty qty priorityTs =
      b.restOrder clientId orderId orderType side price originalQty qty priorityTs := by
  unfold Branches.restOrder restOrder
  simp only [levelOf_eq]

/-- The body of `removeOrder` once the level is found. -/
lemma removeOrder_of_find (b : SymbolOrderBook) {order level : ℕ}
    (hfind : (b.levels (b.order order).side.bookSide).find (b.order order).price = some level)
    {drop : Except Fault SymbolOrderBook}
    (hdrop : drop = if ((b.unlink order level).level level).orderCount = 0 then
        (b.unlink order level).dropLevel (b.order order).side.bookSide (b.order order).price level
      else .ok (b.unlink order level)) :
    (drop >>= fun b' => Branches.freeOrder b' order) = b.removeOrder order := by
  have hid : ((b.unlink order level).order order).orderId = (b.order order).orderId := by
    rw [order_unlink]
  unfold removeOrder
  simp only [hfind, hdrop]
  split_ifs
  · unfold dropLevel
    cases (b.unlink order level).levelPool.deallocate level with
    | error e => rfl
    | ok pool =>
      rw [← hid]
      cases (b.order order).side.bookSide <;> rfl
  · rw [← hid]
    rfl

theorem removeOrder_branches (b : SymbolOrderBook) (order : ℕ) :
    Branches.removeOrder b order = b.removeOrder order := by
  unfold Branches.removeOrder
  dsimp only
  by_cases hside : (b.order order).side = .buy
  · have hbook : (b.order order).side.bookSide = .bid := by rw [hside]; rfl
    rw [if_pos hside]
    cases hfind : b.bids.find (b.order order).price with
    | none =>
      have hfind' : (b.levels (b.order order).side.bookSide).find (b.order order).price = none := by
        rw [hbook]
        exact hfind
      simp only [removeOrder, hfind']
    | some level =>
      refine b.removeOrder_of_find (by rw [hbook]; exact hfind) ?_
      rw [hbook]
      rfl
  · have hbook := bookSide_of_ne_buy hside
    rw [if_neg hside]
    cases hfind : b.asks.find (b.order order).price with
    | none =>
      have hfind' : (b.levels (b.order order).side.bookSide).find (b.order order).price = none := by
        rw [hbook]
        exact hfind
      simp only [removeOrder, hfind']
    | some level =>
      refine b.removeOrder_of_find (by rw [hbook]; exact hfind) ?_
      rw [hbook]
      rfl

section Matching

variable (clientId : ClientId) (orderId : OrderId) (limitPrice : Price) (hasLimitPrice : Bool)

lemma matchAsks_eq {side : Side} (hside : side = .buy) (fuel : ℕ) (it : Option (Price × ℕ))
    (b : SymbolOrderBook) (leaves : Qty) :
    Branches.matchAsks clientId orderId side limitPrice hasLimitPrice fuel it b leaves =
      matchLevels clientId orderId side limitPrice hasLimitPrice fuel it b leaves := by
  subst hside
  induction fuel generalizing it b leaves with
  | zero => rfl
  | succ fuel ih =>
    simp only [Branches.matchAsks, matchLevels, ih]
    rfl

lemma matchBids_eq {side : Side} (hside : side ≠ .buy) (fuel : ℕ) (it : Option (Price × ℕ))
    (b : SymbolOrderBook) (leaves : Qty) :
    Branches.matchBids clientId orderId side limitPrice hasLimitPrice fuel it b leaves =
      matchLevels clientId orderId side limitPrice hasLimitPrice fuel it b leaves := by
  induction fuel generalizing it b leaves with
  | zero => rfl
  | succ fuel ih =>
    simp only [Branches.matchBids, matchLevels, ih]
    cases side with
    | buy => exact absurd rfl hside
    | sell | invalid => rfl

theorem matchIncoming_branches (side : Side) (b : SymbolOrderBook) (leaves : Qty) :
    Branches.matchIncoming clientId orderId side limitPrice hasLimitPrice b leaves =
      b.matchIncoming clientId orderId side limitPrice hasLimitPrice leaves := by
  unfold Branches.matchIncoming matchIncoming
  by_cases hside : side = .buy
  · rw [if_pos hside, matchAsks_eq _ _ _ _ hside, hside]
    rfl
  · rw [if_neg hside, matchBids_eq _ _ _ _ hside, bookSide_of_ne_buy hside]
    rfl

end Matching

end SymbolOrderBook

end MatchingEngine
