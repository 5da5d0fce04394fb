import MatchingEngine.Properties.Execution

/-!
# Matching is maximal

Whenever `matchIncoming` is called, it executes as much as the book allows: the smaller of the
quantity asked for and the liquidity, which is what the other clients offer on the contra side
within the limit, summed over the integers.  So either the order is filled, or every order it
could have traded with is gone.

`MatchCall` lists the four calls of `matchIncoming` in `order_book.cpp`, each with the book the
call is made on.  That the loops stop is part of the statement: the call returns.  The
subtractions in the loops are those of the fills, listed by `Fills`, and of the counters of the
levels that filled orders leave.
-/

namespace MatchingEngine

/-- The price is within the limit of an order of the given side, if it has one. -/
def crosses (side : Side) (limitPrice : Price) (hasLimitPrice : Bool) (price : Price) : Bool :=
  !hasLimitPrice || decide (if side = .buy then price ≤ limitPrice else limitPrice ≤ price)

/-- What `clientId` finds on a queue of contra orders: the quantities of the other clients'
orders at crossing prices. -/
def liquidity (clientId : ClientId) (crossing : Price → Bool) (orders : List OrderRecord) : ℕ :=
  ((orders.filter fun o => decide (o.clientId ≠ clientId ∧ crossing o.price = true)).map
    fun o => o.qty.toNat).sum

/-- The calls of `matchIncoming` that the operations make on the book `b`: the book at the moment
of the call and the arguments. -/
inductive MatchCall (b : SymbolOrderBook) :
    SymbolOrderBook → ClientId → OrderId → Side → Price → Bool → Qty → Prop
  | addLimitOrder {clientId : ClientId} {orderId : OrderId} {side : Side} {price : Price}
      {qty : Qty} (hfree : ¬ (b.orderIndex orderId).isSome) :
      MatchCall b
        (b.sendResponse ⟨.accepted, clientId, b.symbol, orderId, orderId, side, price, 0, qty⟩)
        clientId orderId side price true qty
  | addMarketOrder {clientId : ClientId} {orderId : OrderId} {side : Side} {qty : Qty}
      (hfree : ¬ (b.orderIndex orderId).isSome) :
      MatchCall b
        (b.sendResponse
          ⟨.accepted, clientId, b.symbol, orderId, orderId, side, invalidPrice, 0, qty⟩)
        clientId orderId side invalidPrice false qty
  | addIOCOrder {clientId : ClientId} {orderId : OrderId} {side : Side} {price : Price} {qty : Qty}
      (hfree : ¬ (b.orderIndex orderId).isSome) :
      MatchCall b
        (b.sendResponse ⟨.accepted, clientId, b.symbol, orderId, orderId, side, price, 0, qty⟩)
        clientId orderId side price true qty
  | modifyOrder {clientId : ClientId} {orderId : OrderId} {newPrice : Price} {newQty : Qty}
      {order : ℕ} {b₁ : SymbolOrderBook} (hindex : b.orderIndex orderId = some order)
      (howner : (b.order order).clientId = clientId)
      (hvalid : ¬ (newQty = 0 ∨ newQty = invalidQty ∨ newPrice ≤ 0))
      (hprice : newPrice ≠ (b.order order).price) (hremove : b.removeOrder order = .ok b₁) :
      MatchCall b
        (b₁.sendResponse ⟨.modified, clientId, b₁.symbol, orderId, orderId, (b.order order).side,
          newPrice, 0, newQty⟩)
        clientId orderId (b.order order).side newPrice true newQty

/-- The incoming order a call is made for. -/
def callOf (b : SymbolOrderBook) (clientId : ClientId) (orderId : OrderId) (side : Side)
    (limitPrice : Price) (hasLimitPrice : Bool) : Incoming :=
  ⟨b.symbol, clientId, orderId, side, if hasLimitPrice then some limitPrice else none⟩

/-- The subtractions of one fill do not underflow: the fill takes no more than the incoming order
has left and than the resting order has, and the level it is made in counts an order. -/
structure NoUnderflow (target : BookSide) (f : FillSite) : Prop where
  leaves : f.toFill.qty ≤ f.leaves
  order : f.toFill.qty ≤ (f.book.record f.node).qty
  level : ∃ l, (f.book.levels target).find f.price = some l ∧ 0 < (f.book.level l).orderCount

lemma callOf_eligible {b : SymbolOrderBook} {clientId : ClientId} {orderId : OrderId} {side : Side}
    {limitPrice : Price} {hasLimitPrice : Bool} {o : OrderRecord} :
    (callOf b clientId orderId side limitPrice hasLimitPrice).eligible o =
      decide (o.clientId ≠ clientId ∧ crosses side limitPrice hasLimitPrice o.price = true) := by
  have hblock : (callOf b clientId orderId side limitPrice hasLimitPrice).blocked o.price =
      !crosses side limitPrice hasLimitPrice o.price := by
    cases hasLimitPrice with
    | false => rfl
    | true =>
      have hlt : ∀ p q : Price, decide (p < q) = !decide (q ≤ p) := fun p q => by
        rw [← decide_not, decide_eq_decide, Int64.not_le]
      cases side
      · exact hlt o.price limitPrice
      · exact hlt limitPrice o.price
      · exact hlt o.price limitPrice
  rw [Incoming.eligible, hblock]
  simp [callOf]

lemma callOf_available {b : SymbolOrderBook} {clientId : ClientId} {orderId : OrderId} {side : Side}
    {limitPrice : Price} {hasLimitPrice : Bool} (os : List OrderRecord) :
    (callOf b clientId orderId side limitPrice hasLimitPrice).available os =
      liquidity clientId (crosses side limitPrice hasLimitPrice) os := by
  rw [Incoming.available, liquidity]
  exact congrArg _ (congrArg _ (List.filter_congr fun o _ => callOf_eligible))

/-! ## The fills of a call -/

/-- Every book a chain of fills passes through is represented. -/
lemma Fills.rep {i : Incoming} {b b' : SymbolOrderBook} {l l' : Qty} {fs : List FillSite}
    (hfills : Fills i b l fs b' l') {S : Shape} (h : Rep b S) (hsym : b.symbol = i.symbol) :
    ∀ f ∈ fs, ∃ S', Rep f.book S' := by
  induction hfills generalizing S with
  | nil => simp
  | @cons b b₁ b₂ leaves leaves₁ leaves₂ price node fs hpos hrests hprice hblock hclient hstep
      htail ih =>
    obtain ⟨b₁', hok, hrep₁, -, -, -, hsymb, -⟩ :=
      h.fillNode ⟨_, h.mem_nodesOf.mp hrests⟩ hsym rfl
    rw [hstep] at hok
    obtain ⟨rfl, -⟩ := Prod.mk.inj (Except.ok.inj hok)
    intro f hf
    rcases List.mem_cons.mp hf with rfl | hf
    · exact ⟨S, h⟩
    · exact ih hrep₁ (hsymb.trans hsym) f hf

lemma Fills.noUnderflow {i : Incoming} {b b' : SymbolOrderBook} {l l' : Qty} {fs : List FillSite}
    (hfills : Fills i b l fs b' l') {S : Shape} (h : Rep b S) (hsym : b.symbol = i.symbol) :
    ∀ f ∈ fs, NoUnderflow i.target f := by
  intro f hf
  obtain ⟨S', hrep⟩ := hfills.rep h hsym f hf
  obtain ⟨-, hrests, hprice, -⟩ := hfills.site f hf
  have hqty : f.toFill.qty.toNat = min f.leaves.toNat (f.book.record f.node).qty.toNat :=
    f.toFill.toNat_qty
  refine ⟨?_, ?_, ?_⟩
  · rw [UInt64.le_iff_toNat_le]
    omega
  · rw [UInt64.le_iff_toNat_le]
    omega
  · obtain ⟨l, hl, hnode⟩ := hrep.mem_nodesOf.mp hrests
    have hlprice : l.price = f.price := by
      rw [← hprice]
      exact (hrep.node _ l hl _ hnode).2.symm
    refine ⟨l.ptr, hlprice ▸ hrep.find_level hl, ?_⟩
    rw [(hrep.level _ l hl).count]
    exact List.length_pos_of_mem hnode

/-- Each call is made on a represented book on which its id does not rest. -/
lemma MatchCall.rep {b start : SymbolOrderBook} {clientId : ClientId} {orderId : OrderId}
    {side : Side} {limitPrice : Price} {hasLimitPrice : Bool} {qty : Qty}
    (hcall : MatchCall b start clientId orderId side limitPrice hasLimitPrice qty) {S : Shape}
    (h : Rep b S) : ∃ S', Rep start S' ∧ start.orderIndex orderId = none ∧
      ∀ o ∈ (view start S').all, o ∈ (view b S).all := by
  cases hcall with
  | addLimitOrder hfree | addMarketOrder hfree | addIOCOrder hfree =>
    have hnone : b.orderIndex orderId = none := by simpa using hfree
    exact ⟨S, h.withSent _, hnone, fun o ho => ho⟩
  | @modifyOrder _ _ _ _ order b₁ hindex howner hvalid hprice hremove =>
    obtain ⟨hp, hid, -⟩ := h.index_eq_some hindex
    obtain ⟨b₁', S₁, hok, hrep₁, hview₁, hfree, -⟩ := h.removeOrder_view hp hid
    obtain rfl : b₁ = b₁' := by
      rw [hremove] at hok
      exact Except.ok.inj hok
    refine ⟨S₁, hrep₁.withSent _, hfree, fun o ho => ?_⟩
    change o ∈ (view b₁ S₁).all at ho
    rw [hview₁] at ho
    exact (Ladder.mem_all_remove.mp ho).1

/-- Every call of `matchIncoming` on a reachable book executes the smaller of the quantity asked
for and the liquidity.  If something is left, every contra order still crossing the limit is the
client's own; if not, the orders that were not reached are untouched.  The call returns, and no
subtraction in its loops underflows. -/
theorem matching_maximal {symbol : Symbol} {reqs : List (EngineOrderRequest × Nanos)}
    {b start : SymbolOrderBook} (hb : run (.new symbol) reqs = .ok b) {clientId : ClientId}
    {orderId : OrderId} {side : Side} {limitPrice : Price} {hasLimitPrice : Bool} {qty : Qty}
    (hcall : MatchCall b start clientId orderId side limitPrice hasLimitPrice qty) :
    ∃ b' leaves msgs fs,
      start.matchIncoming clientId orderId side limitPrice hasLimitPrice qty = .ok (b', leaves) ∧
      b'.sent = start.sent ++ msgs ∧
      execQtyOf orderId msgs = min qty.toNat (liquidity clientId
        (crosses side limitPrice hasLimitPrice) (start.resting side.bookSide.contra)) ∧
      leaves.toNat + execQtyOf orderId msgs = qty.toNat ∧
      (0 < leaves → ∀ o ∈ b'.resting side.bookSide.contra,
        crosses side limitPrice hasLimitPrice o.price = true → o.clientId = clientId) ∧
      (leaves = 0 → ∀ o ∈ start.resting side.bookSide.contra, o.clientId ≠ clientId →
        crosses side limitPrice hasLimitPrice o.price = true →
        (∀ r ∈ filledOf msgs, r.clientOrderId ≠ o.orderId) →
        o ∈ b'.resting side.bookSide.contra) ∧
      Fills (callOf start clientId orderId side limitPrice hasLimitPrice) start qty fs b' leaves ∧
      ∀ f ∈ fs, NoUnderflow side.bookSide.contra f := by
  obtain ⟨S₀, hS₀⟩ := (run_refines symbol reqs).of_ok hb
  obtain ⟨S, hrep, hfree, hold⟩ := hcall.rep hS₀.rep
  set i := callOf start clientId orderId side limitPrice hasLimitPrice with hi
  have hwf := hrep.view_wf
  obtain ⟨b', S', hrun, hrep', hview', hprog⟩ := hrep.matchIncoming (i := i) rfl rfl qty
  obtain ⟨fs, hfills, -⟩ := hprog.sites
  have hchain : FillChain i (view start S).find qty ((view start S).trade i qty).fills _ _ :=
    hwf.fillChain_trade
  have hfree' : (view start S).find i.orderId = none := hrep.index_eq_none.mp hfree
  have hexec := hchain.exec_incoming hfree'
  have hleaves : ((view start S).trade i qty).leaves.toNat =
      qty.toNat - liquidity clientId (crosses side limitPrice hasLimitPrice)
        (start.resting i.target) := by
    rw [hwf.leaves_trade, Incoming.toNat_leaves, callOf_available, hrep.resting_eq]
  refine ⟨b', ((view start S).trade i qty).leaves, i.msgs ((view start S).trade i qty).fills, fs,
    hrun, hprog.sent, ?_, hexec, fun hpos o ho hcross => ?_, fun _ o ho hclient hcross hnot => ?_,
    hfills, hfills.noUnderflow hrep rfl⟩
  · change _ + execQtyOf orderId _ = qty.toNat at hexec
    change _ = min qty.toNat (liquidity _ _ (start.resting i.target))
    omega
  · -- something is left: nothing eligible stays
    change o ∈ b'.resting i.target at ho
    rw [hrep'.resting_eq, hview', hwf.orders_trade] at ho
    rw [hwf.leaves_trade] at hpos
    have helig := Incoming.not_eligible_of_leaves hpos ho
    rw [callOf_eligible, decide_eq_false_iff_not] at helig
    by_contra hclient
    exact helig ⟨hclient, hcross⟩
  · -- an order no fill names is found after the matching as it was before
    change o ∈ start.resting i.target at ho
    change o ∈ b'.resting i.target
    rw [hrep.resting_eq, hwf.mem_orders] at ho
    have hfind : (view start S).find o.orderId = some o := hwf.find_eq_some.mpr ⟨ho.1, rfl⟩
    have hpos : 0 < o.qty := (hS₀.sound o (hold o ho.1)).qty_pos
    have hstays := hchain.unreported hfree' hfind hpos (execQtyOf_of_unnamed hnot)
    rw [hrep'.resting_eq, hview', hwf.trade.mem_orders]
    exact ⟨(hwf.trade.find_eq_some.mp hstays).1, ho.2⟩

/-- A buy for 8 finds 5 of another client and 4 of its own: 5 are executed. -/
theorem matching_maximal_own_order :
    ∃ b start b' leaves msgs,
      run (.new "A") [(⟨.limit, 1, "A", 10, .sell, 100, 5, 0⟩, 0),
        (⟨.limit, 2, "A", 11, .sell, 100, 4, 0⟩, 1)] = .ok b ∧
      start = b.sendResponse ⟨.accepted, 2, b.symbol, 12, 12, .buy, 100, 0, 8⟩ ∧
      start.matchIncoming 2 12 .buy 100 true 8 = .ok (b', leaves) ∧
      b'.sent = start.sent ++ msgs ∧ execQtyOf 12 msgs = 5 := by
  obtain ⟨b, hb, hcheck⟩ := exists_ok_of_check
    (x := run (.new "A") [(⟨.limit, 1, "A", 10, .sell, 100, 5, 0⟩, 0),
      (⟨.limit, 2, "A", 11, .sell, 100, 4, 0⟩, 1)])
    (p := fun b => !(b.orderIndex 12).isSome &&
      decide (liquidity 2 (crosses .buy 100 true) (b.resting .ask) = 5)) (by decide)
  rw [Bool.and_eq_true, Bool.not_eq_true', decide_eq_true_eq] at hcheck
  have hcall : MatchCall b _ 2 12 .buy 100 true 8 := .addLimitOrder (by simp [hcheck.1])
  obtain ⟨b', leaves, msgs, -, hrun, hsent, hexec, -⟩ := matching_maximal hb hcall
  refine ⟨b, _, b', leaves, msgs, hb, rfl, hrun, hsent, hexec.trans ?_⟩
  change min _ (liquidity 2 (crosses .buy 100 true) (b.resting .ask)) = 5
  rw [hcheck.2]
  rfl

end MatchingEngine
