import MatchingEngine.Matcher.Calls
import MatchingEngine.Properties.BookInvariant
import MatchingEngine.Properties.Frame

/-!
# Ways to enter an order

Several operations can be used to the same end, and on every reachable book they come to the same:

* a modify that loses priority is a cancel followed by a new limit order
  (`modify_eq_cancel_add`);
* an immediate order is a limit order that is cancelled at once, and a market order is an
  immediate order at the worst possible price (`immediate_eq_limit_cancel`);
* an immediate order can be split in two (`split_immediate`).

None of this holds of an arbitrary book.  A modify that only raises the quantity does not match,
which is right because no two clients' orders cross; and a market order sees what an immediate
order at price 1 sees because resting prices are positive.
-/

namespace MatchingEngine

namespace Ladder

variable {symbol : Symbol} {L L' : Ladder} {req : EngineOrderRequest} {now : Nanos}
  {msgs : List OutMsg} {i : Incoming} {qty : Qty}

/-! ## Only limit orders rest -/

/-- The order was entered as a limit order. -/
def IsLimit (o : OrderRecord) : Prop := o.orderType = .limit

lemma IsLimit.of_survives {o₀ o : OrderRecord} (hs : Incoming.Survives o₀ o) (h : IsLimit o₀) :
    IsLimit o := by
  rw [IsLimit, hs.eq]
  exact h

lemma WF.place_isLimit (h : L.WF) (hL : L.Forall IsLimit) {orderType : OrderType}
    (htype : orderType = .limit) (price : Price) :
    (L.place i orderType price qty now).1.Forall IsLimit :=
  h.forall_place (fun _ _ => .of_survives) hL fun _ _ _ => htype

lemma Step.isLimit (h : L.WF) (hL : L.Forall IsLimit) (hstep : Step symbol L req now L' msgs) :
    L'.Forall IsLimit := by
  have hold : ∀ {o}, L.find req.orderId = some o → o.orderType = .limit := fun ho =>
    hL _ (h.find_eq_some.mp ho).1
  cases hstep with
  | reject | keep => exact hL
  | limit => exact h.place_isLimit hL rfl _
  | take => exact h.forall_trade (fun _ _ => .of_survives) hL
  | cancel => exact hL.remove _
  | reprice _ _ hfind => exact (h.remove _).place_isLimit (hL.remove _) (hold hfind) _
  | shrink => exact hL.modify _ fun _ ho => ho
  | grow _ hfind =>
    have htype := hold hfind
    exact (h.remove _).forall_rest (hL.remove _) htype

lemma isLimit_runAll (symbol : Symbol) (reqs : List (EngineOrderRequest × Nanos)) :
    (empty.runAll symbol reqs).1.Forall IsLimit :=
  runAll_induction symbol (I := fun _ L _ => L.Forall IsLimit)
    (by simp [Forall, empty, all, orders])
    (fun _ _ _ _ _ hwf _ hL => (process_step ..).isLimit hwf hL) reqs

/-! ## A modify that loses priority -/

/-- Where an order goes in its queue depends on the queues only. -/
lemma WF.orders_rest_congr (h : L.WF) (h' : L'.WF) (horders : ∀ s, L'.orders s = L.orders s)
    (x : OrderRecord) (s : BookSide) : (L'.rest x).orders s = (L.rest x).orders s := by
  by_cases hs : s = x.side.bookSide
  · subst hs
    rw [h'.orders_rest, h.orders_rest, horders]
  · rw [orders_rest_of_ne L' x hs, orders_rest_of_ne L x hs, horders]

/-- An order that comes back at the price it had finds nobody to trade with. -/
lemma NoCross.not_eligible (hL : L.NoCross) (h : L.WF) {id : OrderId} {o : OrderRecord}
    (hfind : L.find id = some o) (hside : i.side = o.side) (hclient : i.clientId = o.clientId)
    (hlimit : i.limit = some o.price) :
    ∀ y ∈ (L.remove id).orders i.target, i.eligible y = false := by
  intro y hy
  have htarget : i.target = o.side.bookSide.contra := by rw [Incoming.target, hside]
  rw [htarget, orders_remove] at hy
  have ho : o ∈ L.orders o.side.bookSide := h.mem_orders.mpr ⟨(h.find_eq_some.mp hfind).1, rfl⟩
  have hcross := hL _ o ho y (List.mem_of_mem_filter hy)
  rw [Bool.eq_false_iff, Ne, Incoming.eligible_iff, Incoming.blocked, hlimit, htarget, hclient]
  rintro ⟨hne, hblock⟩
  exact hne (hcross (by simpa using hblock)).symm

/-- The queues after a modify that loses priority are those after a limit order for what the
modify asks, entered when the old order is gone; the trades are the same. -/
lemma WF.amend_eq_place (h : L.WF) (hcross : L.NoCross) (hlimit : L.Forall IsLimit)
    {o : OrderRecord} (hfind : L.find req.orderId = some o) (hclient : o.clientId = req.clientId)
    (hqty : 0 < req.qty) (hlose : req.price ≠ o.price ∨ o.qty < req.qty)
    (hi : i = ⟨symbol, req.clientId, req.orderId, o.side, some req.price⟩) :
    (∀ s, (L.amend symbol o req now).1.orders s =
      ((L.remove req.orderId).place i .limit req.price req.qty now).1.orders s) ∧
    filledOf (L.amend symbol o req now).2 =
      filledOf ((L.remove req.orderId).place i .limit req.price req.qty now).2 ∧
    tradesOf (L.amend symbol o req now).2 =
      tradesOf ((L.remove req.orderId).place i .limit req.price req.qty now).2 := by
  have htype : o.orderType = .limit := hlimit o (h.find_eq_some.mp hfind).1
  have hwf := h.remove req.orderId
  unfold amend
  by_cases hprice : req.price ≠ o.price
  · -- a new price: the very same placement
    rw [if_pos hprice, htype, ← hi]
    exact ⟨fun _ => rfl, rfl, rfl⟩
  · have hprice' : req.price = o.price := not_not.mp hprice
    have hgt : o.qty < req.qty := hlose.resolve_left hprice
    have hlt : ¬ req.qty < o.qty := by
      rw [UInt64.lt_iff_toNat_lt] at hgt ⊢
      omega
    have hnone := hcross.not_eligible h hfind (i := i) (by rw [hi]) (by rw [hi, hclient])
      (by rw [hi, hprice'])
    obtain ⟨horders, hleaves, hfills⟩ := hwf.trade_idle req.qty hnone
    simp only [if_neg hprice, if_neg hlt, gt_iff_lt, if_pos hgt, Ladder.place, hleaves, hfills,
      if_pos hqty]
    refine ⟨fun s => ?_, rfl, rfl⟩
    rw [htype, ← hprice', hi]
    subst hi
    exact (hwf.orders_rest_congr hwf.trade horders _ s).symm

end Ladder

/-- A call that agrees up to time stamps with one whose effect is known. -/
lemma Attempts.of_untimed_eq {b : SymbolOrderBook} {r r' : Except Fault SymbolOrderBook}
    {out : Ladder × List OutMsg} (h : Attempts b r out)
    (heq : SymbolOrderBook.untimed <$> r' = SymbolOrderBook.untimed <$> r) :
    r' = .error .outOfSpace ∨
      ∃ b' b₁ S₁, r' = .ok b' ∧ b'.untimed = b₁.untimed ∧ Rep b₁ S₁ ∧ view b₁ S₁ = out.1 ∧
        b'.sent = b.sent ++ out.2 ∧ b₁.symbol = b.symbol := by
  rcases h with rfl | ⟨b₁, S₁, rfl, hrep, hview, hsent, hsymb⟩
  · cases r' with
    | error e => exact .inl (congrArg _ (Except.error.inj heq))
    | ok b' => cases heq
  · cases r' with
    | error e => cases heq
    | ok b' =>
      have huntimed : b'.untimed = b₁.untimed := Except.ok.inj heq
      have hsent' : b'.untimed.sent = b₁.untimed.sent := by rw [huntimed]
      exact .inr ⟨b', b₁, S₁, rfl, huntimed, hrep, hview, hsent'.trans hsent, hsymb⟩

/-- A cancel by the owner, and then a limit order under the same id. -/
lemma Rep.call_cancelOrder_addLimitOrder {b : SymbolOrderBook} {S : Shape} (h : Rep b S)
    {clientId : ClientId} {orderId : OrderId} {o : OrderRecord}
    (hfind : (view b S).find orderId = some o) (howner : o.clientId = clientId) (side : Side)
    (price : Price) (qty : Qty) (now : Nanos) {i : Incoming}
    (hi : i = ⟨b.symbol, clientId, orderId, side, some price⟩) :
    Attempts b (b.cancelOrder clientId orderId >>= fun b₁ =>
        b₁.addLimitOrder clientId orderId side price qty now)
      ((((view b S).remove orderId).place i .limit price qty now).1,
        [ .response ⟨.canceled, clientId, b.symbol, orderId, orderId, o.side, o.price, 0, 0⟩,
          .update ⟨.cancel, orderId, b.symbol, o.side, o.price, o.qty⟩,
          Ladder.ackMsg .accepted i price qty ] ++
          (((view b S).remove orderId).place i .limit price qty now).2) := by
  have hadd : ∀ b₁ S₁, Rep b₁ S₁ → view b₁ S₁ = (view b S).remove orderId →
      b₁.symbol = b.symbol → Attempts b₁ (b₁.addLimitOrder clientId orderId side price qty now)
        ((((view b S).remove orderId).place i .limit price qty now).1,
          Ladder.ackMsg .accepted i price qty ::
            (((view b S).remove orderId).place i .limit price qty now).2) := by
    intro b₁ S₁ hrep₁ hview₁ hsymb₁
    rw [← hview₁]
    refine hrep₁.call_addLimitOrder ?_ clientId side price qty now (hsymb₁ ▸ hi)
    rw [hview₁]
    exact Ladder.find_remove_self _ _
  exact (h.call_cancelOrder hfind howner).bind hadd

/-- The clock that a limit order reads after a cancel is seen in its time stamp only. -/
lemma SymbolOrderBook.untimed_cancelOrder_addLimitOrder (b : SymbolOrderBook)
    (clientId : ClientId) (orderId : OrderId) (side : Side) (price : Price) (qty : Qty)
    (now now' : Nanos) :
    untimed <$> (b.cancelOrder clientId orderId >>= fun b₁ =>
        b₁.addLimitOrder clientId orderId side price qty now') =
      untimed <$> (b.cancelOrder clientId orderId >>= fun b₁ =>
        b₁.addLimitOrder clientId orderId side price qty now) := by
  cases b.cancelOrder clientId orderId with
  | error e => rfl
  | ok b₁ => exact (b₁.untimed_addLimitOrder ..).trans (b₁.untimed_addLimitOrder ..).symm

/-- A modify of a resting order by its owner that changes the price or raises the quantity, and a
cancel followed by a limit order of the same id, side, price and quantity, lead to the same book
but for the time stamps, and report the same trades, unless a pool is exhausted on the way. -/
theorem modify_eq_cancel_add {symbol : Symbol} {reqs : List (EngineOrderRequest × Nanos)}
    {b : SymbolOrderBook} (hb : run (.new symbol) reqs = .ok b) {clientId : ClientId}
    {orderId : OrderId} {o : OrderRecord} (ho : b.restingOrder orderId = some o)
    (howner : o.clientId = clientId) {price : Price} {qty : Qty} (hprice : 0 < price)
    (hqty : 0 < qty) (hqty' : qty < invalidQty) (hlose : price ≠ o.price ∨ o.qty < qty)
    (now now' : Nanos) :
    b.modifyOrder clientId orderId price qty now = .error .outOfSpace ∨
    (b.cancelOrder clientId orderId >>= fun b₁ =>
      b₁.addLimitOrder clientId orderId o.side price qty now') = .error .outOfSpace ∨
    ∃ b₁ b₂ out₁ out₂,
      b.modifyOrder clientId orderId price qty now = .ok b₁ ∧
      (b.cancelOrder clientId orderId >>= fun b₁ =>
        b₁.addLimitOrder clientId orderId o.side price qty now') = .ok b₂ ∧
      b₁.sent = b.sent ++ out₁ ∧ b₂.sent = b.sent ++ out₂ ∧
      SameBook b₁.untimed b₂.untimed ∧ filledOf out₁ = filledOf out₂ ∧
      tradesOf out₁ = tradesOf out₂ := by
  obtain ⟨S, hS⟩ := (run_refines symbol reqs).of_ok hb
  have hwf := hS.rep.view_wf
  have hcross : (view b S).NoCross := hS.view ▸ Ladder.noCross_runAll symbol reqs
  have hlimit : (view b S).Forall Ladder.IsLimit := hS.view ▸ Ladder.isLimit_runAll symbol reqs
  have hfind : (view b S).find orderId = some o := by rw [← hS.rep.restingOrder_eq, ho]
  have hvalid : ¬ (qty = 0 ∨ qty = invalidQty ∨ price ≤ 0) := by
    rintro (hq | hq | hp)
    · exact (qty_pos_iff_ne _).mp hqty hq
    · rw [hq] at hqty'
      exact UInt64.lt_irrefl _ hqty'
    · exact Int64.not_le.mpr hprice hp
  obtain ⟨req, hreq⟩ : ∃ req : EngineOrderRequest,
    req = ⟨.modify, clientId, b.symbol, orderId, .invalid, price, qty, 0⟩ := ⟨_, rfl⟩
  obtain ⟨i, hi⟩ : ∃ i : Incoming, i = ⟨b.symbol, clientId, orderId, o.side, some price⟩ := ⟨_, rfl⟩
  obtain ⟨horders, hfilled, htrades⟩ :
      (∀ s, ((view b S).amend b.symbol o req now).1.orders s =
        (((view b S).remove orderId).place i .limit price qty now).1.orders s) ∧
      filledOf ((view b S).amend b.symbol o req now).2 =
        filledOf (((view b S).remove orderId).place i .limit price qty now).2 ∧
      tradesOf ((view b S).amend b.symbol o req now).2 =
        tradesOf (((view b S).remove orderId).place i .limit price qty now).2 := by
    subst hreq
    exact hwf.amend_eq_place hcross hlimit hfind howner hqty hlose hi
  -- both ways, with the same reading of the clock
  have hmodify := hS.rep.call_modifyOrder hfind howner hvalid now hreq
  have hseq := hS.rep.call_cancelOrder_addLimitOrder hfind howner o.side price qty now hi
  have hclock := b.untimed_cancelOrder_addLimitOrder clientId orderId o.side price qty now now'
  rcases hmodify with herr | ⟨b₁, S₁, hok₁, hrep₁, hview₁, hsent₁, hsymb₁⟩
  · exact .inl herr
  rcases hseq.of_untimed_eq hclock with
    herr | ⟨b₃, b₂, S₂, hok₃, huntimed, hrep₂, hview₂, hsent₃, hsymb₂⟩
  · exact .inr (.inl herr)
  have hsame : SameBook b₁ b₂ := by
    refine hrep₁.sameBook hrep₂ (hsymb₁.trans hsymb₂.symm) fun s => ?_
    rw [hview₁, hview₂, horders]
  refine .inr (.inr ⟨b₁, b₃, _, _, hok₁, hok₃, hsent₁, hsent₃, ?_, ?_, ?_⟩)
  · rw [huntimed]
    exact hsame.untimed
  · rw [hfilled, filledOf_append]
    rfl
  · rw [htrades, tradesOf_append]
    rfl

/-- A bid for 5 at 100 is moved to 101, where 3 are offered: the modify trades like a new order. -/
theorem modify_eq_cancel_add_crossing :
    ∃ b b₁ b₂ out₁ out₂,
      run (.new "A") [(⟨.limit, 1, "A", 10, .buy, 100, 5, 0⟩, 0),
        (⟨.limit, 2, "A", 11, .sell, 101, 3, 0⟩, 1)] = .ok b ∧
      b.modifyOrder 1 10 101 5 2 = .ok b₁ ∧
      (b.cancelOrder 1 10 >>= fun b₁ => b₁.addLimitOrder 1 10 .buy 101 5 7) = .ok b₂ ∧
      b₁.sent = b.sent ++ out₁ ∧ b₂.sent = b.sent ++ out₂ ∧
      SameBook b₁.untimed b₂.untimed ∧ filledOf out₁ = filledOf out₂ ∧
      tradesOf out₁ = tradesOf out₂ := by
  obtain ⟨b, hb, hcheck⟩ := exists_ok_of_check
    (x := run (.new "A") [(⟨.limit, 1, "A", 10, .buy, 100, 5, 0⟩, 0),
      (⟨.limit, 2, "A", 11, .sell, 101, 3, 0⟩, 1)])
    (p := fun b =>
      decide (b.restingOrder 10 = some ⟨10, 1, "A", .limit, .buy, 100, 5, 5, 0⟩) &&
      (b.modifyOrder 1 10 101 5 2).toBool &&
      (b.cancelOrder 1 10 >>= fun b₁ => b₁.addLimitOrder 1 10 .buy 101 5 7).toBool)
    (by decide +kernel)
  rw [Bool.and_eq_true, Bool.and_eq_true, decide_eq_true_eq] at hcheck
  obtain ⟨⟨ho, hmodify⟩, hadd⟩ := hcheck
  have hprice : (0 : Price) < 101 := by decide
  have hqty : (0 : Qty) < 5 := by decide
  rcases modify_eq_cancel_add hb ho rfl hprice hqty (by decide) (.inl (by decide)) 2 7 with
    herr | herr | h
  · rw [herr] at hmodify
    cases hmodify
  · rw [herr] at hadd
    cases hadd
  · obtain ⟨b₁, b₂, out₁, out₂, h⟩ := h
    exact ⟨b, b₁, b₂, out₁, out₂, hb, h⟩

/-! ## Immediate orders -/

namespace Ladder

variable {L : Ladder} {i : Incoming} {qty : Qty}

/-- Resting an order and taking it off again leaves the queues as they were. -/
lemma WF.orders_rest_remove (h : L.WF) {x : OrderRecord} (hx : L.find x.orderId = none)
    (s : BookSide) : ((L.rest x).remove x.orderId).orders s = L.orders s := by
  rw [orders_remove]
  change (L.rest x).ordersBut x.orderId s = _
  rw [h.ordersBut_rest rfl, ordersBut, List.filter_eq_self]
  exact fun o ho => decide_eq_true (find_eq_none.mp hx o (mem_all.mpr ⟨s, ho⟩))

/-- No update of a matching is about an id that does not rest. -/
lemma WF.updates_trade (h : L.WF) {id : OrderId} (hfree : L.find id = none) :
    ∀ u ∈ updatesOf (i.msgs (L.trade i qty).fills), u.orderId ≠ id := by
  intro u hu
  obtain ⟨f, hf, hid, -⟩ := mem_updatesOf_msgs hu
  have hchain : FillChain i L.find qty (L.trade i qty).fills _ _ := h.fillChain_trade
  rw [hid]
  exact (hchain.not_named hfree).2 f hf

/-- Matching sees of the incoming order only its side and what it may trade with. -/
lemma WF.trade_congr (h : L.WF) {i' : Incoming} (hside : i'.side = i.side)
    (helig : ∀ o ∈ L.orders i.target, i'.eligible o = i.eligible o) (qty : Qty) :
    (∀ s, (L.trade i' qty).rest.orders s = (L.trade i qty).rest.orders s) ∧
      (L.trade i' qty).leaves = (L.trade i qty).leaves ∧
      (L.trade i' qty).fills = (L.trade i qty).fills := by
  have htarget : i'.target = i.target := by rw [Incoming.target, hside, Incoming.target]
  have hsweep : i'.sweepOrders (L.orders i'.target) qty =
      i.sweepOrders (L.orders i.target) qty := by
    rw [htarget]
    exact Incoming.sweepOrders_congr helig qty
  refine ⟨fun s => ?_, by rw [h.leaves_trade, h.leaves_trade, hsweep],
    by rw [h.fills_trade, h.fills_trade, hsweep]⟩
  by_cases hs : s = i.target
  · subst hs
    rw [← htarget, h.orders_trade, hsweep, htarget, h.orders_trade]
  · rw [orders_trade_of_ne hs, orders_trade_of_ne (htarget ▸ hs)]

end Ladder

/-- A limit order cancelled right after it was entered: the queues are those its matching left, and
what it adds to the messages of the matching is about its own id. -/
lemma Rep.call_addLimitOrder_cancel {b : SymbolOrderBook} {S : Shape} (h : Rep b S)
    {orderId : OrderId} (hfree : (view b S).find orderId = none) (clientId : ClientId) (side : Side)
    (price : Price) (qty : Qty) (now : Nanos) {i : Incoming}
    (hi : i = ⟨b.symbol, clientId, orderId, side, some price⟩) :
    ∃ L' tail,
      Attempts b (b.addLimitOrder clientId orderId side price qty now >>= fun b₁ =>
          b₁.cancelOrder clientId orderId)
        (L', Ladder.ackMsg .accepted i price qty ::
          (i.msgs ((view b S).trade i qty).fills ++ tail)) ∧
      (∀ s, L'.orders s = ((view b S).trade i qty).rest.orders s) ∧
      (∀ m ∈ tail, m.isTrade = false) ∧ ∀ u ∈ updatesOf tail, u.orderId = orderId := by
  have hwf := h.view_wf
  have hadd := h.call_addLimitOrder hfree clientId side price qty now hi
  have hfree' : ((view b S).trade i qty).rest.find orderId = none := find_trade_eq_none hwf hfree
  by_cases hpos : ((view b S).trade i qty).leaves > 0
  · -- the remainder rests and is taken off
    set x : OrderRecord := ⟨orderId, clientId, b.symbol, .limit, side, price, qty,
      ((view b S).trade i qty).leaves, now⟩ with hx
    have hout : (view b S).place i .limit price qty now =
        (((view b S).trade i qty).rest.rest x, i.msgs ((view b S).trade i qty).fills ++
          [.update ⟨.add, orderId, b.symbol, side, price, ((view b S).trade i qty).leaves⟩]) := by
      rw [Ladder.place, if_pos hpos, hx, hi]
    rw [hout] at hadd
    have hcancel : ∀ b₁ S₁, Rep b₁ S₁ → view b₁ S₁ = ((view b S).trade i qty).rest.rest x →
        b₁.symbol = b.symbol → Attempts b₁ (b₁.cancelOrder clientId orderId)
          ((((view b S).trade i qty).rest.rest x).remove orderId,
            [ .response ⟨.canceled, clientId, b.symbol, orderId, orderId, side, price, 0, 0⟩,
              .update ⟨.cancel, orderId, b.symbol, side, price,
                ((view b S).trade i qty).leaves⟩ ]) := by
      intro b₁ S₁ hrep₁ hview₁ hsymb₁
      have hfind : (view b₁ S₁).find orderId = some x := by
        rw [hview₁, hwf.trade.find_rest hfree']
        exact Function.update_self ..
      have hcall := hrep₁.call_cancelOrder hfind rfl
      rw [hview₁, hsymb₁] at hcall
      exact hcall
    have hboth := hadd.bind hcancel
    rw [List.cons_append, List.append_assoc] at hboth
    have horders : ∀ s, ((((view b S).trade i qty).rest.rest x).remove orderId).orders s =
        ((view b S).trade i qty).rest.orders s := hwf.trade.orders_rest_remove (x := x) hfree'
    exact ⟨_, _, hboth, horders, by simp [OutMsg.isTrade], by simp⟩
  · -- nothing is left, and the cancel is refused
    have hout : (view b S).place i .limit price qty now =
        (((view b S).trade i qty).rest, i.msgs ((view b S).trade i qty).fills) := by
      rw [Ladder.place, if_neg hpos]
    rw [hout] at hadd
    have hcancel : ∀ b₁ S₁, Rep b₁ S₁ → view b₁ S₁ = ((view b S).trade i qty).rest →
        b₁.symbol = b.symbol → Attempts b₁ (b₁.cancelOrder clientId orderId)
          (((view b S).trade i qty).rest,
            [ .response ⟨.cancelRejected, clientId, b.symbol, orderId, invalidOrderId, .invalid,
                invalidPrice, invalidQty, invalidQty⟩ ]) := by
      intro b₁ S₁ hrep₁ hview₁ hsymb₁
      rw [← hview₁, ← hsymb₁]
      refine .inr (hrep₁.call_cancelOrder_unnamed ?_)
      rw [hview₁]
      exact hfree'
    have hboth := hadd.bind hcancel
    rw [List.cons_append] at hboth
    exact ⟨_, _, hboth, fun _ => rfl, by simp [OutMsg.isTrade], by simp⟩

/-- What an immediate order sends besides its fills goes to the response queue. -/
lemma Ladder.streams_take (L : Ladder) (i : Incoming) (price : Price) (qty : Qty) :
    filledOf (ackMsg .accepted i price qty :: (L.take i price qty).2) =
        filledOf (i.msgs (L.trade i qty).fills) ∧
      updatesOf (ackMsg .accepted i price qty :: (L.take i price qty).2) =
        updatesOf (i.msgs (L.trade i qty).fills) := by
  refine ⟨?_, L.updatesOf_take i price qty⟩
  change filledOf (i.msgs (L.trade i qty).fills ++ _) = _
  rw [filledOf_append]
  split_ifs
  · exact List.append_nil _
  · exact List.append_nil _

/-- The price at which an immediate order trades with everybody: the largest for a buy, the
smallest valid one otherwise. -/
def worstPrice (side : Side) : Price := if side = .buy then Int64.maxValue else 1

/-- A response without the price that an acceptance or a cancellation repeats from the order. -/
def EngineOrderResponse.unpriced (r : EngineOrderResponse) : EngineOrderResponse :=
  if r.status = .accepted ∨ r.status = .canceled then { r with price := 0 } else r

/-- At the worst price nothing is blocked. -/
lemma not_blocked_worstPrice {i : Incoming} (hlimit : i.limit = some (worstPrice i.side))
    {price : Price} (hprice : 0 < price) : i.blocked price = false := by
  rw [Incoming.blocked, hlimit, decide_eq_false_iff_not, Incoming.target, worstPrice]
  cases i.side with
  | buy =>
    change ¬ Int64.maxValue < price
    exact Int64.not_lt.mpr price.le_maxValue
  | sell | invalid =>
    change ¬ price < 1
    rw [Int64.lt_iff_toInt_lt] at hprice ⊢
    change 0 < price.toInt at hprice
    change ¬ price.toInt < 1
    omega

/-- A market order does what an immediate order at the worst price does, on a ladder of positive
prices. -/
lemma Ladder.WF.trade_worstPrice {L : Ladder} (h : L.WF) (hsound : L.Forall SoundOrder)
    {i i' : Incoming} (hmarket : i.limit = none) (hlimit : i'.limit = some (worstPrice i'.side))
    (hside : i'.side = i.side) (hclient : i'.clientId = i.clientId) (qty : Qty) :
    (∀ s, (L.trade i' qty).rest.orders s = (L.trade i qty).rest.orders s) ∧
      (L.trade i' qty).leaves = (L.trade i qty).leaves ∧
      (L.trade i' qty).fills = (L.trade i qty).fills := by
  refine h.trade_congr hside (fun o ho => ?_) qty
  have hopen : i.blocked o.price = false := by rw [Incoming.blocked, hmarket]
  have hopen' := not_blocked_worstPrice hlimit (hsound o (mem_all.mpr ⟨_, ho⟩)).price_pos
  rw [Incoming.eligible, Incoming.eligible, hopen, hopen', hclient]

/-- An immediate order, and a limit order that is cancelled at once. -/
lemma Rep.addIOCOrder_eq_limit_cancel {b : SymbolOrderBook} {S : Shape} (h : Rep b S)
    {orderId : OrderId} (hfree : (view b S).find orderId = none) (clientId : ClientId)
    (side : Side) (price : Price) (qty : Qty) (now : Nanos) :
    ∃ b₁ out₁, b.addIOCOrder clientId orderId side price qty = .ok b₁ ∧
      b₁.sent = b.sent ++ out₁ ∧
      ((b.addLimitOrder clientId orderId side price qty now >>= fun b₂ =>
          b₂.cancelOrder clientId orderId) = .error .outOfSpace ∨
        ∃ b₂ out₂,
          (b.addLimitOrder clientId orderId side price qty now >>= fun b₂ =>
            b₂.cancelOrder clientId orderId) = .ok b₂ ∧
          b₂.sent = b.sent ++ out₂ ∧ SameBook b₁ b₂ ∧ filledOf out₁ = filledOf out₂ ∧
          updatesOf out₁ = (updatesOf out₂).filter fun u => decide (u.orderId ≠ orderId)) := by
  have hwf := h.view_wf
  obtain ⟨i, hi⟩ : ∃ i : Incoming, i = ⟨b.symbol, clientId, orderId, side, some price⟩ :=
    ⟨_, rfl⟩
  obtain ⟨b₁, S₁, hok₁, hrep₁, hview₁, hsent₁, hsymb₁⟩ : Returns b _ _ :=
    h.call_addIOCOrder hfree qty hi
  obtain ⟨hfilled, hupdates⟩ := (view b S).streams_take i price qty
  refine ⟨b₁, _, hok₁, hsent₁, ?_⟩
  obtain ⟨L', tail, hcalls, horders, hsilent, hown⟩ :=
    h.call_addLimitOrder_cancel hfree clientId side price qty now hi
  rcases hcalls with herr | ⟨b₂, S₂, hok₂, hrep₂, hview₂, hsent₂, hsymb₂⟩
  · exact .inl herr
  refine .inr ⟨b₂, _, hok₂, hsent₂, ?_, ?_, ?_⟩
  · refine hrep₁.sameBook hrep₂ (hsymb₁.trans hsymb₂.symm) fun s => ?_
    rw [hview₁, hview₂, horders]
  · rw [hfilled]
    change _ = filledOf (i.msgs _ ++ tail)
    rw [filledOf_append, (streams_of_silent hsilent).1, List.append_nil]
  · have hothers : (updatesOf (i.msgs ((view b S).trade i qty).fills)).filter
        (fun u => decide (u.orderId ≠ orderId)) = _ :=
      List.filter_eq_self.mpr fun u hu => decide_eq_true (hwf.updates_trade hfree u hu)
    have hmine : (updatesOf tail).filter (fun u => decide (u.orderId ≠ orderId)) = [] :=
      List.filter_eq_nil_iff.mpr fun u hu => by simpa using hown u hu
    rw [hupdates]
    change _ = (updatesOf (i.msgs _ ++ tail)).filter _
    rw [updatesOf_append, List.filter_append, hothers, hmine, List.append_nil]

/-- A market order, and an immediate order at the worst price. -/
lemma Rep.addMarketOrder_eq_worstPrice {b : SymbolOrderBook} {S : Shape} (h : Rep b S)
    (hsound : (view b S).Forall Ladder.SoundOrder) {orderId : OrderId}
    (hfree : (view b S).find orderId = none) (clientId : ClientId) (side : Side) (qty : Qty) :
    ∃ b₁ b₂ out₁ out₂,
      b.addMarketOrder clientId orderId side qty = .ok b₁ ∧
      b.addIOCOrder clientId orderId side (worstPrice side) qty = .ok b₂ ∧
      b₁.sent = b.sent ++ out₁ ∧ b₂.sent = b.sent ++ out₂ ∧ SameBook b₁ b₂ ∧
      updatesOf out₁ = updatesOf out₂ ∧
      (responsesOf out₁).map EngineOrderResponse.unpriced =
        (responsesOf out₂).map EngineOrderResponse.unpriced := by
  have hwf := h.view_wf
  obtain ⟨i, hi⟩ : ∃ i : Incoming, i = ⟨b.symbol, clientId, orderId, side, none⟩ := ⟨_, rfl⟩
  obtain ⟨i', hi'⟩ : ∃ i : Incoming,
    i = ⟨b.symbol, clientId, orderId, side, some (worstPrice side)⟩ := ⟨_, rfl⟩
  obtain ⟨b₁, S₁, hok₁, hrep₁, hview₁, hsent₁, hsymb₁⟩ : Returns b _ _ :=
    h.call_addMarketOrder hfree qty hi
  obtain ⟨b₂, S₂, hok₂, hrep₂, hview₂, hsent₂, hsymb₂⟩ : Returns b _ _ :=
    h.call_addIOCOrder hfree qty hi'
  have hnone : i.limit = none := by rw [hi]
  have hworst : i'.limit = some (worstPrice i'.side) := by rw [hi']
  obtain ⟨horders, hleaves, hfills⟩ :=
    hwf.trade_worstPrice hsound hnone hworst (by rw [hi, hi']) (by rw [hi, hi']) qty
  have hmsgs : i'.msgs ((view b S).trade i' qty).fills =
      i.msgs ((view b S).trade i qty).fills := by
    rw [hfills, hi, hi']
    rfl
  refine ⟨b₁, b₂, _, _, hok₁, hok₂, hsent₁, hsent₂, ?_, ?_, ?_⟩
  · refine hrep₁.sameBook hrep₂ (hsymb₁.trans hsymb₂.symm) fun s => ?_
    rw [hview₁, hview₂, horders]
  · rw [((view b S).streams_take ..).2, ((view b S).streams_take ..).2, hmsgs]
  · simp only [Ladder.take, Ladder.ackMsg, responsesOf_response, responsesOf_append,
      List.map_cons, List.map_append, hleaves, hmsgs]
    refine congrArg₂ List.cons (by rw [hi, hi']; rfl) (congrArg₂ _ rfl ?_)
    split_ifs
    · rw [hi, hi']
      rfl
    · rfl

/-- On every reachable book on which its id does not rest, an immediate order leads to the same
book as a limit order that is cancelled at once, and sends the same `FILLED` responses and the same
updates about other orders; and a market order leads to the same book as an immediate order at the
worst price, with the same updates and, up to the price an acceptance or a cancellation repeats,
the same responses. -/
theorem immediate_eq_limit_cancel {symbol : Symbol} {reqs : List (EngineOrderRequest × Nanos)}
    {b : SymbolOrderBook} (hb : run (.new symbol) reqs = .ok b) {orderId : OrderId}
    (hfree : b.restingOrder orderId = none) (clientId : ClientId) (side : Side) (price : Price)
    (qty : Qty) (now : Nanos) :
    (∃ b₁ out₁, b.addIOCOrder clientId orderId side price qty = .ok b₁ ∧
      b₁.sent = b.sent ++ out₁ ∧
      ((b.addLimitOrder clientId orderId side price qty now >>= fun b₂ =>
          b₂.cancelOrder clientId orderId) = .error .outOfSpace ∨
        ∃ b₂ out₂,
          (b.addLimitOrder clientId orderId side price qty now >>= fun b₂ =>
            b₂.cancelOrder clientId orderId) = .ok b₂ ∧
          b₂.sent = b.sent ++ out₂ ∧ SameBook b₁ b₂ ∧ filledOf out₁ = filledOf out₂ ∧
          updatesOf out₁ = (updatesOf out₂).filter fun u => decide (u.orderId ≠ orderId))) ∧
    ∃ b₁ b₂ out₁ out₂,
      b.addMarketOrder clientId orderId side qty = .ok b₁ ∧
      b.addIOCOrder clientId orderId side (worstPrice side) qty = .ok b₂ ∧
      b₁.sent = b.sent ++ out₁ ∧ b₂.sent = b.sent ++ out₂ ∧ SameBook b₁ b₂ ∧
      updatesOf out₁ = updatesOf out₂ ∧
      (responsesOf out₁).map EngineOrderResponse.unpriced =
        (responsesOf out₂).map EngineOrderResponse.unpriced := by
  obtain ⟨S, hS⟩ := (run_refines symbol reqs).of_ok hb
  have hfree' : (view b S).find orderId = none := by rw [← hS.rep.restingOrder_eq, hfree]
  exact ⟨hS.rep.addIOCOrder_eq_limit_cancel hfree' clientId side price qty now,
    hS.rep.addMarketOrder_eq_worstPrice hS.sound hfree' clientId side qty⟩

/-- A bid for 5 at 100 meets an offer of 3: the rest of it vanishes either way. -/
theorem immediate_eq_limit_cancel_partial :
    ∃ b b₁ b₂ out₁ out₂,
      run (.new "A") [(⟨.limit, 1, "A", 10, .sell, 100, 3, 0⟩, 0)] = .ok b ∧
      b.addIOCOrder 2 11 .buy 100 5 = .ok b₁ ∧
      (b.addLimitOrder 2 11 .buy 100 5 1 >>= fun b₂ => b₂.cancelOrder 2 11) = .ok b₂ ∧
      b₁.sent = b.sent ++ out₁ ∧ b₂.sent = b.sent ++ out₂ ∧ SameBook b₁ b₂ ∧
      filledOf out₁ = filledOf out₂ ∧
      updatesOf out₁ = (updatesOf out₂).filter fun u => decide (u.orderId ≠ 11) := by
  obtain ⟨b, hb, hcheck⟩ := exists_ok_of_check
    (x := run (.new "A") [(⟨.limit, 1, "A", 10, .sell, 100, 3, 0⟩, 0)])
    (p := fun b => decide (b.restingOrder 11 = none) &&
      (b.addLimitOrder 2 11 .buy 100 5 1 >>= fun b₂ => b₂.cancelOrder 2 11).toBool)
    (by decide +kernel)
  rw [Bool.and_eq_true, decide_eq_true_eq] at hcheck
  obtain ⟨⟨b₁, out₁, hok₁, hsent₁, h⟩, -⟩ :=
    immediate_eq_limit_cancel hb hcheck.1 2 .buy 100 5 1
  rcases h with herr | ⟨b₂, out₂, hok₂, hsent₂, hsame, hstreams⟩
  · rw [herr] at hcheck
    cases hcheck.2
  · exact ⟨b, b₁, b₂, out₁, out₂, hb, hok₁, hok₂, hsent₁, hsent₂, hsame, hstreams⟩

/-! ## Splitting an immediate order -/

namespace Ladder

variable {L : Ladder} {i i₁ i₂ : Incoming} {q₁ q₂ : Qty}

/-- Orders that differ in their id only may trade with the same orders. -/
structure SameTerms (i i' : Incoming) : Prop where
  client : i'.clientId = i.clientId
  side : i'.side = i.side
  limit : i'.limit = i.limit

lemma SameTerms.eligible (h : SameTerms i i₁) (o : OrderRecord) : i₁.eligible o = i.eligible o := by
  rw [Incoming.eligible, Incoming.eligible, Incoming.blocked, Incoming.blocked, Incoming.target,
    Incoming.target, h.client, h.side, h.limit]

/-- Matching for `q₁` and then for `q₂` leaves the queues that matching for both leaves. -/
lemma WF.trade_split (h : L.WF) (h₁ : SameTerms i i₁) (h₂ : SameTerms i i₂)
    (hq : q₁.toNat + q₂.toNat < 2 ^ 64) (s : BookSide) :
    ((L.trade i₁ q₁).rest.trade i₂ q₂).rest.orders s = (L.trade i (q₁ + q₂)).rest.orders s := by
  have hsame : ∀ {M : Ladder} {j : Incoming} (_ : M.WF) (_ : SameTerms i j) (q : Qty),
      (M.trade j q).rest.orders s = (M.trade i q).rest.orders s := fun hM hj q =>
    (hM.trade_congr hj.side (fun o _ => hj.eligible o) q).1 s
  rw [hsame h.trade h₂]
  by_cases hs : s = i.target
  · subst hs
    calc ((L.trade i₁ q₁).rest.trade i q₂).rest.orders i.target
        = (i.sweepOrders ((L.trade i₁ q₁).rest.orders i.target) q₂).rest := h.trade.orders_trade
      _ = (i.sweepOrders (i.sweepOrders (L.orders i.target) q₁).rest q₂).rest := by
        rw [hsame h h₁, h.orders_trade]
      _ = (i.sweepOrders (L.orders i.target) (q₁ + q₂)).rest := Incoming.sweepOrders_split _ hq
      _ = (L.trade i (q₁ + q₂)).rest.orders i.target := h.orders_trade.symm
  · rw [orders_trade_of_ne hs, hsame h h₁, orders_trade_of_ne hs, orders_trade_of_ne hs]

/-- Two matchings for `q₁` and `q₂` together take from every resting order what one for both takes,
at its price. -/
lemma WF.exec_split (h : L.WF) (h₁ : SameTerms i i₁) (h₂ : SameTerms i i₂)
    (hfree : L.find i.orderId = none) (hfree₁ : L.find i₁.orderId = none)
    (hfree₂ : L.find i₂.orderId = none) (hq : q₁.toNat + q₂.toNat < 2 ^ 64) {o : OrderRecord}
    (ho : L.find o.orderId = some o) {out₁ out₂ out : List OutMsg}
    (hout₁ : filledOf out₁ = filledOf (i₁.msgs (L.trade i₁ q₁).fills))
    (hout₂ : filledOf out₂ = filledOf (i₂.msgs ((L.trade i₁ q₁).rest.trade i₂ q₂).fills))
    (hout : filledOf out = filledOf (i.msgs (L.trade i (q₁ + q₂)).fills)) :
    execQtyOf o.orderId (out₁ ++ out₂) = execQtyOf o.orderId out ∧
      ∀ r ∈ filledOf (out₁ ++ out₂ ++ out), r.clientOrderId = o.orderId → r.price = o.price := by
  have hchain : FillChain i L.find (q₁ + q₂) (L.trade i (q₁ + q₂)).fills _ _ := h.fillChain_trade
  have hchain₁ : FillChain i₁ L.find q₁ (L.trade i₁ q₁).fills _ _ := h.fillChain_trade
  have hchain₂ : FillChain i₂ (L.trade i₁ q₁).rest.find q₂
      ((L.trade i₁ q₁).rest.trade i₂ q₂).fills _ _ := h.trade.fillChain_trade
  have hne : ∀ {id : OrderId}, L.find id = none → o.orderId ≠ id := fun hid he => by
    rw [he, hid] at ho
    cases ho
  have hown : ∀ x, L.find o.orderId = some x → x.price = o.price := fun x hx => by
    rw [← Option.some.inj (ho.symm.trans hx)]
  constructor
  · have hend : ((L.trade i₁ q₁).rest.trade i₂ q₂).rest.find = (L.trade i (q₁ + q₂)).rest.find := by
      funext id
      rw [Ladder.find, Ladder.find, all, all, h.trade_split h₁ h₂ hq, h.trade_split h₁ h₂ hq]
    have htotal := hchain.exec_total hfree (hne hfree)
    have htotal₁ := hchain₁.exec_total hfree₁ (hne hfree₁)
    have htotal₂ := hchain₂.exec_total (Rep.find_trade_eq_none h hfree₂) (hne hfree₂)
    rw [hend] at htotal₂
    have hexec : ∀ {log log' : List OutMsg}, filledOf log = filledOf log' →
        execQtyOf o.orderId log = execQtyOf o.orderId log' := fun he => by
      rw [execQtyOf, he, execQtyOf]
    rw [execQtyOf_append, hexec hout₁, hexec hout₂, hexec hout]
    omega
  · obtain ⟨hmid, hprice₁⟩ := hchain₁.price_of_filled (hne hfree₁) hown
    obtain ⟨-, hprice₂⟩ := hchain₂.price_of_filled (hne hfree₂) hmid
    obtain ⟨-, hprice⟩ := hchain.price_of_filled (hne hfree) hown
    intro r hr
    rw [filledOf_append, filledOf_append, hout₁, hout₂, hout, List.mem_append,
      List.mem_append] at hr
    rcases hr with (hr | hr) | hr
    · exact hprice₁ r hr
    · exact hprice₂ r hr
    · exact hprice r hr

end Ladder

/-- Two ways of trading on `b` both return, lead to the same book, and give every order that rested
on `b` the same quantity in total, at the price it rested at. -/
def SameExecution (b : SymbolOrderBook) (r r' : Except Fault SymbolOrderBook) : Prop :=
  ∃ b₁ b₂ out₁ out₂, r = .ok b₁ ∧ r' = .ok b₂ ∧ b₁.sent = b.sent ++ out₁ ∧
    b₂.sent = b.sent ++ out₂ ∧ SameBook b₁ b₂ ∧ ∀ s, ∀ o ∈ b.resting s,
      execQtyOf o.orderId out₁ = execQtyOf o.orderId out₂ ∧
      ∀ r ∈ filledOf (out₁ ++ out₂), r.clientOrderId = o.orderId → r.price = o.price

/-- Two calls in a row that match and cancel the remainder, and one for both quantities. -/
lemma Rep.split_take {b : SymbolOrderBook} {S : Shape} (h : Rep b S)
    {f : SymbolOrderBook → OrderId → Qty → Except Fault SymbolOrderBook} {clientId : ClientId}
    {side : Side} {limit : Option Price} {price : Price}
    (hf : ∀ {b' S' id i}, Rep b' S' → (view b' S').find id = none → ∀ qty,
      i = ⟨b'.symbol, clientId, id, side, limit⟩ → Returns b' (f b' id qty)
        (((view b' S').trade i qty).rest,
          Ladder.ackMsg .accepted i price qty :: ((view b' S').take i price qty).2))
    {id₁ id₂ id : OrderId} (hfree₁ : (view b S).find id₁ = none)
    (hfree₂ : (view b S).find id₂ = none) (hfree : (view b S).find id = none) {q₁ q₂ : Qty}
    (hq : q₁.toNat + q₂.toNat < 2 ^ 64) :
    SameExecution b (f b id₁ q₁ >>= fun b₁ => f b₁ id₂ q₂) (f b id (q₁ + q₂)) := by
  have hwf := h.view_wf
  obtain ⟨i, hi⟩ : ∃ i : Incoming, i = ⟨b.symbol, clientId, id, side, limit⟩ := ⟨_, rfl⟩
  obtain ⟨i₁, hi₁⟩ : ∃ i : Incoming, i = ⟨b.symbol, clientId, id₁, side, limit⟩ := ⟨_, rfl⟩
  obtain ⟨i₂, hi₂⟩ : ∃ i : Incoming, i = ⟨b.symbol, clientId, id₂, side, limit⟩ := ⟨_, rfl⟩
  have h₁ : Ladder.SameTerms i i₁ := by
    rw [hi, hi₁]
    exact ⟨rfl, rfl, rfl⟩
  have h₂ : Ladder.SameTerms i i₂ := by
    rw [hi, hi₂]
    exact ⟨rfl, rfl, rfl⟩
  have hsecond : ∀ b₁ S₁, Rep b₁ S₁ → view b₁ S₁ = ((view b S).trade i₁ q₁).rest →
      b₁.symbol = b.symbol → Returns b₁ (f b₁ id₂ q₂)
        ((((view b S).trade i₁ q₁).rest.trade i₂ q₂).rest,
          Ladder.ackMsg .accepted i₂ price q₂ ::
            (((view b S).trade i₁ q₁).rest.take i₂ price q₂).2) := by
    intro b₁ S₁ hrep₁ hview₁ hsymb₁
    rw [← hview₁]
    refine hf hrep₁ ?_ q₂ (hsymb₁ ▸ hi₂)
    rw [hview₁]
    exact find_trade_eq_none hwf hfree₂
  obtain ⟨b₁, S₁, hok₁, hrep₁, hview₁, hsent₁, hsymb₁⟩ := (hf h hfree₁ q₁ hi₁).bind hsecond
  obtain ⟨b₂, S₂, hok₂, hrep₂, hview₂, hsent₂, hsymb₂⟩ := hf h hfree (q₁ + q₂) hi
  refine ⟨b₁, b₂, _, _, hok₁, hok₂, hsent₁, hsent₂, ?_, fun s o ho => ?_⟩
  · refine hrep₁.sameBook hrep₂ (hsymb₁.trans hsymb₂.symm) fun s => ?_
    rw [hview₁, hview₂]
    exact hwf.trade_split h₁ h₂ hq s
  · have hfind : (view b S).find o.orderId = some o := by
      rw [h.resting_eq] at ho
      exact hwf.find_eq_some.mpr ⟨Ladder.mem_all.mpr ⟨s, ho⟩, rfl⟩
    exact hwf.exec_split h₁ h₂ (by rw [hi, hfree]) (by rw [hi₁, hfree₁]) (by rw [hi₂, hfree₂]) hq
      hfind (Ladder.streams_take ..).1 (Ladder.streams_take ..).1 (Ladder.streams_take ..).1

/-- On every reachable book, two immediate orders of one client, side and price lead to the same
book as one for both quantities, and fill every resting order for the same total at its own price;
the same holds of market orders. -/
theorem split_immediate {symbol : Symbol} {reqs : List (EngineOrderRequest × Nanos)}
    {b : SymbolOrderBook} (hb : run (.new symbol) reqs = .ok b) {id₁ id₂ id : OrderId}
    (hfree₁ : b.restingOrder id₁ = none) (hfree₂ : b.restingOrder id₂ = none)
    (hfree : b.restingOrder id = none) (clientId : ClientId) (side : Side) (price : Price)
    {q₁ q₂ : Qty} (hq : q₁.toNat + q₂.toNat < invalidQty.toNat) :
    SameExecution b
        (b.addIOCOrder clientId id₁ side price q₁ >>= fun b₁ =>
          b₁.addIOCOrder clientId id₂ side price q₂)
        (b.addIOCOrder clientId id side price (q₁ + q₂)) ∧
      SameExecution b
        (b.addMarketOrder clientId id₁ side q₁ >>= fun b₁ => b₁.addMarketOrder clientId id₂ side q₂)
        (b.addMarketOrder clientId id side (q₁ + q₂)) := by
  obtain ⟨S, hS⟩ := (run_refines symbol reqs).of_ok hb
  rw [hS.rep.restingOrder_eq] at hfree₁ hfree₂ hfree
  have hq' : q₁.toNat + q₂.toNat < 2 ^ 64 := Nat.lt_trans hq (by decide)
  constructor
  · exact hS.rep.split_take (f := fun b id q => b.addIOCOrder clientId id side price q)
      (fun h hfree qty hi => h.call_addIOCOrder hfree qty hi) hfree₁ hfree₂ hfree hq'
  · exact hS.rep.split_take (f := fun b id q => b.addMarketOrder clientId id side q)
      (fun h hfree qty hi => h.call_addMarketOrder hfree qty hi) hfree₁ hfree₂ hfree hq'

/-- The split falls into the second of two offers of 3. -/
theorem split_immediate_mid_order :
    ∃ b, run (.new "A") [(⟨.limit, 1, "A", 10, .sell, 100, 3, 0⟩, 0),
        (⟨.limit, 1, "A", 11, .sell, 101, 3, 0⟩, 1)] = .ok b ∧
      (b.resting .ask).map OrderRecord.qty = [3, 3] ∧
      SameExecution b
        (b.addIOCOrder 2 12 .buy 101 4 >>= fun b₁ => b₁.addIOCOrder 2 13 .buy 101 1)
        (b.addIOCOrder 2 14 .buy 101 5) := by
  obtain ⟨b, hb, hcheck⟩ := exists_ok_of_check
    (x := run (.new "A") [(⟨.limit, 1, "A", 10, .sell, 100, 3, 0⟩, 0),
      (⟨.limit, 1, "A", 11, .sell, 101, 3, 0⟩, 1)])
    (p := fun b => decide (b.restingOrder 12 = none ∧ b.restingOrder 13 = none ∧
      b.restingOrder 14 = none ∧ (b.resting .ask).map OrderRecord.qty = [3, 3]))
    (by decide +kernel)
  obtain ⟨hfree₁, hfree₂, hfree, hqtys⟩ := of_decide_eq_true hcheck
  have hq : (4 : Qty).toNat + (1 : Qty).toNat < invalidQty.toNat := by decide
  exact ⟨b, hb, hqtys, (split_immediate hb hfree₁ hfree₂ hfree 2 .buy 101 hq).1⟩

end MatchingEngine
