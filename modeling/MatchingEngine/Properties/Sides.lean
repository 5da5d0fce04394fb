import MatchingEngine.Properties.Execution

/-!
# Sides

`processRequest` checks the type, the quantity and the price of a request, and not its side.  The
book branches on `side_ == BUY` alone, so an order that is neither a buy nor a sell is treated as a
sell: it rests among the asks, trades with the bids, and is reported with the side it came with.

`sides_valid_iff` is the exact account of this.  The sides a book shows, of its resting orders, of
its updates and of the two halves of its trades, are all right if and only if no request was let
through that enters such an order: a limit order, or a market or immediate order that finds a bid
to trade with.
-/

namespace MatchingEngine

/-- The side of the orders that belong on a side of the book. -/
def BookSide.side : BookSide → Side
  | .bid => .buy
  | .ask => .sell

/-- The reports of trades, which come two by two, are of a buy and a sell. -/
def OppositeSides : List EngineOrderResponse → Prop
  | [] => True
  | [_] => False
  | r :: r' :: rs =>
    (r.side = .buy ∧ r'.side = .sell ∨ r.side = .sell ∧ r'.side = .buy) ∧ OppositeSides rs

/-- Buys rest among the bids and sells among the asks, and everything that was sent says so. -/
structure SidesValid (b : SymbolOrderBook) : Prop where
  resting : ∀ s, ∀ o ∈ b.resting s, o.side = s.side
  updates : ∀ u ∈ updatesOf b.sent, u.side = .buy ∨ u.side = .sell
  trades : OppositeSides (filledOf b.sent)

/-- The request passes all checks, has no side, and enters an order that rests or trades: `named`
is the order with its id, `bids` are the orders it is matched against. -/
def Sideless (req : EngineOrderRequest) (named : Option OrderRecord) (bids : List OrderRecord) :
    Prop :=
  req.side = .invalid ∧ Ladder.invalidReq req = false ∧ named = none ∧
    (req.orderType = .limit ∨
      (req.orderType = .market ∨ req.orderType = .ioc) ∧
        ∃ o ∈ bids, o.clientId ≠ req.clientId ∧ (req.orderType = .ioc → req.price ≤ o.price))

lemma OppositeSides.append {rs rs' : List EngineOrderResponse} (h : OppositeSides rs)
    (h' : OppositeSides rs') : OppositeSides (rs ++ rs') := by
  induction rs using OppositeSides.induct with
  | case1 => exact h'
  | case2 r => exact h.elim
  | case3 r r' rs ih => exact ⟨h.1, ih h.2⟩

lemma OppositeSides.ne_invalid {rs : List EngineOrderResponse} (h : OppositeSides rs) :
    ∀ r ∈ rs, r.side ≠ .invalid := by
  induction rs using OppositeSides.induct with
  | case1 => simp
  | case2 r => exact h.elim
  | case3 r r' rs ih =>
    intro x hx
    rcases List.mem_cons.mp hx with rfl | hx
    · rcases h.1 with hr | hr <;> simp [hr.1]
    rcases List.mem_cons.mp hx with rfl | hx
    · rcases h.1 with hr | hr <;> simp [hr.2]
    · exact ih h.2 x hx

namespace Ladder

variable {L L' : Ladder} {symbol : Symbol} {req : EngineOrderRequest} {now : Nanos} {i : Incoming}
  {qty : Qty} {msgs : List OutMsg}

/-! ## Orders with a side -/

/-- The order is a buy or a sell. -/
def HasSide (o : OrderRecord) : Prop := o.side ≠ .invalid

/-- Messages that speak of buys and sells only. -/
structure SidedMsgs (log : List OutMsg) : Prop where
  updates : ∀ u ∈ updatesOf log, u.side ≠ .invalid
  trades : OppositeSides (filledOf log)

lemma SidedMsgs.append {log log' : List OutMsg} (h : SidedMsgs log) (h' : SidedMsgs log') :
    SidedMsgs (log ++ log') where
  updates u hu := by
    rw [updatesOf_append, List.mem_append] at hu
    exact hu.elim (h.updates u) (h'.updates u)
  trades := by
    rw [filledOf_append]
    exact h.trades.append h'.trades

lemma sidedMsgs_of_silent {log : List OutMsg} (hsilent : ∀ m ∈ log, m.isTrade = false)
    (hupdates : ∀ u ∈ updatesOf log, u.side ≠ .invalid) : SidedMsgs log where
  updates := hupdates
  trades := by
    rw [(streams_of_silent hsilent).1]
    trivial

lemma SidedMsgs.response {log : List OutMsg} (h : SidedMsgs log) {r : EngineOrderResponse}
    (hr : r.status ≠ .filled) : SidedMsgs (.response r :: log) := by
  have hone : SidedMsgs [.response r] :=
    sidedMsgs_of_silent (by simp [OutMsg.isTrade, hr]) (by simp)
  exact hone.append h

/-- One fill of an order with a side against an order with a side. -/
lemma sidedMsgs_fill (hi : i.side ≠ .invalid) {f : Fill}
    (htarget : f.order.side.bookSide = i.target) (hf : HasSide f.order) :
    SidedMsgs (i.fillMsgs f) where
  updates u hu := by
    simp only [Incoming.fillMsgs, updatesOf_response, updatesOf_update, updatesOf_nil,
      List.mem_cons, List.not_mem_nil, or_false] at hu
    rcases hu with rfl | rfl
    · exact hf
    · split_ifs <;> exact hf
  trades := by
    refine ⟨?_, trivial⟩
    change i.side = .buy ∧ f.order.side = .sell ∨ i.side = .sell ∧ f.order.side = .buy
    rw [HasSide] at hf
    rw [Incoming.target] at htarget
    revert hi hf htarget
    cases i.side <;> cases f.order.side <;> decide

lemma WF.trade_sided (h : L.WF) (hL : L.Forall HasSide) (hi : i.side ≠ .invalid) (qty : Qty) :
    SidedMsgs (i.msgs (L.trade i qty).fills) := by
  have horders : ∀ f ∈ (L.trade i qty).fills, f.order ∈ L.orders i.target := fun f hf => by
    rw [h.fills_trade] at hf
    exact Incoming.order_of_mem_fills hf
  generalize (L.trade i qty).fills = fills at horders
  induction fills with
  | nil => exact sidedMsgs_of_silent (by simp) (by simp)
  | cons f fills ih =>
    have hf := horders f (by simp)
    exact (sidedMsgs_fill hi (h.side hf) (hL _ (mem_all.mpr ⟨_, hf⟩))).append
      (ih fun g hg => horders g (by simp [hg]))

lemma HasSide.of_survives {o₀ o : OrderRecord} (hs : Incoming.Survives o₀ o) (h : HasSide o₀) :
    HasSide o := by
  rw [HasSide, hs.eq]
  exact h

lemma WF.place_sided (h : L.WF) (hL : L.Forall HasSide) (hi : i.side ≠ .invalid)
    (orderType : OrderType) (price : Price) (qty : Qty) :
    (L.place i orderType price qty now).1.Forall HasSide ∧
      SidedMsgs (L.place i orderType price qty now).2 := by
  refine ⟨h.forall_place (fun _ _ => .of_survives) hL fun _ _ _ => hi, ?_⟩
  rw [Ladder.place]
  split_ifs
  · exact (h.trade_sided hL hi qty).append
      (sidedMsgs_of_silent (by simp [OutMsg.isTrade]) (by simpa using hi))
  · exact h.trade_sided hL hi qty

/-- A market or immediate order without a side does no harm if it finds nobody to trade with. -/
lemma WF.take_sided (h : L.WF) (hL : L.Forall HasSide)
    (hi : i.side ≠ .invalid ∨ ∀ o ∈ L.orders i.target, i.eligible o = false) (price : Price)
    (qty : Qty) : SidedMsgs (L.take i price qty).2 := by
  have htail : SidedMsgs (if (L.trade i qty).leaves > 0 then
      [.response ⟨.canceled, i.clientId, i.symbol, i.orderId, i.orderId, i.side, price,
        qty - (L.trade i qty).leaves, (L.trade i qty).leaves⟩] else []) := by
    split_ifs
    · exact sidedMsgs_of_silent (by simp [OutMsg.isTrade]) (by simp)
    · exact sidedMsgs_of_silent (by simp) (by simp)
  refine SidedMsgs.append ?_ htail
  rcases hi with hi | hnone
  · exact h.trade_sided hL hi qty
  · rw [(h.trade_idle qty hnone).2.2]
    exact sidedMsgs_of_silent (by simp) (by simp)

/-- A market or immediate order without a side is matched like a sell. -/
lemma target_of_sideless (hside : req.side = .invalid) :
    (incomingOf symbol req).target = .bid := by
  rw [Incoming.target]
  change req.side.bookSide.contra = _
  rw [hside]
  rfl

lemma eligible_of_sideless (hside : req.side = .invalid)
    (htype : req.orderType = .market ∨ req.orderType = .ioc) (o : OrderRecord) :
    (incomingOf symbol req).eligible o = true ↔
      o.clientId ≠ req.clientId ∧ (req.orderType = .ioc → req.price ≤ o.price) := by
  rw [Incoming.eligible_iff, Incoming.blocked, target_of_sideless hside]
  refine and_congr_right fun _ => ?_
  rcases htype with htype | htype
  · simp [incomingOf, htype]
  · simp only [incomingOf, htype, reduceCtorEq, if_false, true_implies, decide_eq_false_iff_not]
    exact Int64.not_lt

/-! ## One request -/

lemma Step.sided (h : L.WF) (hL : L.Forall HasSide) (hvalid : invalidReq req = false)
    (hnot : ¬ Sideless req (L.find req.orderId) (L.orders .bid))
    (hstep : Step symbol L req now L' msgs) : L'.Forall HasSide ∧ SidedMsgs msgs := by
  have hnamed : ∀ {o}, L.find req.orderId = some o → o.side ≠ .invalid := fun ho =>
    hL _ (h.find_eq_some.mp ho).1
  cases hstep with
  | reject r hr =>
    have hfilled := ne_filled_of_isReject hr
    exact ⟨hL, sidedMsgs_of_silent (by simp [OutMsg.isTrade, hfilled]) (by simp)⟩
  | @limit i hi htype hsound hfree =>
    have hside : i.side ≠ .invalid := by
      rw [hi]
      exact fun he => hnot ⟨he, hvalid, hfree, .inl htype⟩
    obtain ⟨horders, hmsgs⟩ := h.place_sided hL hside .limit req.price req.qty
    exact ⟨horders, hmsgs.response (by simp)⟩
  | @take i _ _ hi hprice hqty hfree =>
    refine ⟨h.forall_trade (fun _ _ => .of_survives) hL,
      (h.take_sided hL ?_ _ _).response (by simp)⟩
    by_cases hside : req.side = .invalid
    · have htype : req.orderType = .market ∨ req.orderType = .ioc :=
        hprice.imp (fun hp => hp.1) fun hp => hp.1
      have hi' : i = incomingOf symbol req := by
        rw [hi, incomingOf]
        rcases hprice with ⟨ht, rfl, -⟩ | ⟨ht, rfl, -⟩ <;> simp [ht]
      refine .inr fun o ho => ?_
      rw [hi', target_of_sideless hside] at ho
      by_contra helig
      rw [Bool.not_eq_false, hi', eligible_of_sideless hside htype] at helig
      exact hnot ⟨hside, hvalid, hfree, .inr ⟨htype, o, ho, helig⟩⟩
    · exact .inl (by rw [hi]; exact hside)
  | cancel htype hfind hclient =>
    exact ⟨hL.remove _, sidedMsgs_of_silent (by simp [OutMsg.isTrade])
      (by simpa using hnamed hfind)⟩
  | @reprice o i hi htype hfind hclient hprice hsound =>
    have hside : i.side ≠ .invalid := by
      rw [hi]
      exact hnamed hfind
    obtain ⟨horders, hmsgs⟩ := (h.remove req.orderId).place_sided (hL.remove _) hside o.orderType
      req.price req.qty
    exact ⟨horders, hmsgs.response (by simp)⟩
  | shrink htype hfind =>
    exact ⟨hL.modify _ fun _ ho => ho, sidedMsgs_of_silent (by simp [OutMsg.isTrade])
      (by simpa using hnamed hfind)⟩
  | grow htype hfind =>
    have hside := hnamed hfind
    exact ⟨(h.remove _).forall_rest (hL.remove _) hside,
      sidedMsgs_of_silent (by simp [OutMsg.isTrade]) (by simpa using hside)⟩
  | keep => exact ⟨hL, sidedMsgs_of_silent (by simp [OutMsg.isTrade]) (by simp)⟩

/-- A request that enters no order without a side keeps the sides right. -/
lemma WF.process_sided (h : L.WF) (hL : L.Forall HasSide) (symbol : Symbol) (now : Nanos)
    (hnot : ¬ Sideless req (L.find req.orderId) (L.orders .bid)) :
    (L.process symbol req now).1.Forall HasSide ∧ SidedMsgs (L.process symbol req now).2 := by
  by_cases hvalid : invalidReq req = true
  · rw [process, if_pos hvalid]
    exact ⟨hL, sidedMsgs_of_silent (by simp [rejectMsg, OutMsg.isTrade]) (by simp [rejectMsg])⟩
  · exact (process_step symbol L req now).sided h hL (by simpa using hvalid) hnot

/-- A fill is reported with the side of the incoming order. -/
lemma exists_filled_of_fills (i : Incoming) {fills : List Fill} (hne : fills ≠ []) :
    ∃ r ∈ filledOf (i.msgs fills), r.side = i.side := by
  obtain ⟨f, fs, rfl⟩ := List.exists_cons_of_ne_nil hne
  refine ⟨⟨.filled, i.clientId, i.symbol, i.orderId, i.orderId, i.side, f.price, f.qty,
    f.leaves - f.qty⟩, ?_, rfl⟩
  rw [Incoming.msgs, List.flatMap_cons, filledOf_append]
  exact List.mem_append_left _ List.mem_cons_self

/-- A request that enters an order without a side is seen in one of the streams. -/
lemma WF.process_sideless (h : L.WF) (symbol : Symbol) (now : Nanos)
    (hbad : Sideless req (L.find req.orderId) (L.orders .bid)) :
    (∃ u ∈ updatesOf (L.process symbol req now).2, u.side = .invalid) ∨
      ∃ r ∈ filledOf (L.process symbol req now).2, r.side = .invalid := by
  obtain ⟨hside, hvalid, hfree, htype⟩ := hbad
  obtain ⟨-, hqty, -⟩ := checks_of_valid hvalid
  have hpos : 0 < req.qty := by
    refine qty_pos_of_check (hqty ?_)
    rcases htype with htype | ⟨htype | htype, -⟩ <;> simp [htype, OrderType.needsQty]
  have hopen : L.process symbol req now = L.open_ symbol req now := by
    rw [process, if_neg (by simp [hvalid])]
    rcases htype with htype | ⟨htype | htype, -⟩ <;> rw [htype]
  rw [hopen, open_, if_neg (by simp [hfree])]
  -- a matching that makes a fill reports it with the side of the request
  have hfill : ∀ {i : Incoming}, i.side = req.side → (L.trade i req.qty).fills ≠ [] →
      ∃ r ∈ filledOf (i.msgs (L.trade i req.qty).fills), r.side = .invalid := by
    intro i hi hne
    obtain ⟨r, hr, hrside⟩ := exists_filled_of_fills i hne
    exact ⟨r, hr, by rw [hrside, hi, hside]⟩
  have hidle : ∀ {i : Incoming}, (L.trade i req.qty).fills = [] →
      ∀ o ∈ L.orders i.target, i.eligible o = false := by
    intro i hnil o ho
    rw [h.fills_trade] at hnil
    have := Incoming.not_eligible_of_fills hnil o ho
    by_contra helig
    exact this ⟨by simpa using helig, hpos⟩
  rcases htype with htype | ⟨htype, o, ho, hclient, hcross⟩
  · -- a limit order rests, or has traded
    obtain ⟨i, hi⟩ : ∃ i : Incoming, i = incomingOf symbol req := ⟨_, rfl⟩
    simp only [if_pos htype, ← hi, Ladder.place]
    by_cases hleaves : (L.trade i req.qty).leaves > 0
    · rw [if_pos hleaves]
      refine .inl ⟨⟨.add, i.orderId, i.symbol, i.side, req.price, (L.trade i req.qty).leaves⟩, ?_,
        by rw [hi]; exact hside⟩
      simp [ackMsg]
    · rw [if_neg hleaves]
      have hne : (L.trade i req.qty).fills ≠ [] := fun hnil => by
        rw [(h.trade_idle req.qty (hidle hnil)).2.1] at hleaves
        exact hleaves hpos
      exact .inr (hfill (by rw [hi]; rfl) hne)
  · -- a market or immediate order has traded with the bid
    have hlimit : req.orderType ≠ .limit := by rcases htype with htype | htype <;> simp [htype]
    have hne : (L.trade (incomingOf symbol req) req.qty).fills ≠ [] := fun hnil => by
      have helig : (incomingOf symbol req).eligible o = true :=
        (eligible_of_sideless hside htype o).mpr ⟨hclient, hcross⟩
      rw [hidle hnil o (by rw [target_of_sideless hside]; exact ho)] at helig
      cases helig
    obtain ⟨r, hr, hrside⟩ := hfill rfl hne
    refine .inr ⟨r, ?_, hrside⟩
    simp only [if_neg hlimit, Ladder.take]
    change r ∈ filledOf (_ ++ _)
    rw [filledOf_append]
    exact List.mem_append_left _ hr

end Ladder

/-! ## Runs -/

/-- Along a run that enters no order without a side, the sides stay right. -/
lemma Ladder.sided_runAll (symbol : Symbol) (reqs : List (EngineOrderRequest × Nanos))
    (hnone : ∀ pre req now, pre ++ [(req, now)] <+: reqs →
      ¬ Sideless req ((empty.runAll symbol pre).1.find req.orderId)
        ((empty.runAll symbol pre).1.orders .bid)) :
    (empty.runAll symbol reqs).1.Forall HasSide ∧ SidedMsgs (empty.runAll symbol reqs).2 := by
  refine (runAll_induction symbol (I := fun reqs L log => L = (empty.runAll symbol reqs).1 ∧
    ((∀ pre req now, pre ++ [(req, now)] <+: reqs →
      ¬ Sideless req ((empty.runAll symbol pre).1.find req.orderId)
        ((empty.runAll symbol pre).1.orders .bid)) → L.Forall HasSide ∧ SidedMsgs log))
    ⟨rfl, fun _ => ⟨by simp [Forall, empty, all, orders], sidedMsgs_of_silent (by simp) (by simp)⟩⟩
    (fun reqs L log req now hwf _ ⟨hL, ih⟩ => ⟨by rw [runAll_concat, ← hL], fun hnone => ?_⟩)
    reqs).2 hnone
  obtain ⟨hsides, hlog⟩ := ih fun pre req' now' hpre =>
    hnone pre req' now' (hpre.trans (List.prefix_append _ _))
  have hnot := hnone reqs req now (List.prefix_refl _)
  rw [← hL] at hnot
  obtain ⟨hsides', hmsgs⟩ := hwf.process_sided hsides symbol now hnot
  exact ⟨hsides', hlog.append hmsgs⟩

/-- After any requests that the pools have room for, the sides a book shows are right if and only
if none of the requests entered an order without a side. -/
theorem sides_valid_iff {symbol : Symbol} {reqs : List (EngineOrderRequest × Nanos)}
    {b : SymbolOrderBook} (hb : run (.new symbol) reqs = .ok b) :
    SidesValid b ↔ ∀ pre req now b₀, pre ++ [(req, now)] <+: reqs →
      run (.new symbol) pre = .ok b₀ →
      ¬ Sideless req (b₀.restingOrder req.orderId) (b₀.resting .bid) := by
  obtain ⟨S, hS⟩ := (run_refines symbol reqs).of_ok hb
  constructor
  · intro hvalid pre req now b₀ hpre hb₀ hbad
    obtain ⟨S₀, hS₀⟩ := (run_refines symbol pre).of_ok hb₀
    rw [hS₀.rep.restingOrder_eq, hS₀.rep.resting_eq] at hbad
    obtain ⟨post, rfl⟩ := hpre
    -- what the request has sent is still in the log
    have hsent : ∃ later, b.sent =
        (b₀.sent ++ ((view b₀ S₀).process symbol req now).2) ++ later := by
      rw [hS.sent, Ladder.runAll_append, Ladder.runAll_concat, hS₀.sent, hS₀.view]
      exact ⟨_, rfl⟩
    obtain ⟨later, hsent⟩ := hsent
    rcases hS₀.rep.view_wf.process_sideless symbol now hbad with ⟨u, hu, hside⟩ | ⟨r, hr, hside⟩
    · have := hvalid.updates u (by rw [hsent]; simp [hu])
      rw [hside] at this
      exact absurd this (by decide)
    · exact hvalid.trades.ne_invalid r (by rw [hsent]; simp [hr]) hside
  · intro hnone
    obtain ⟨hsides, hlog⟩ := Ladder.sided_runAll symbol reqs fun pre req now hpre => by
      obtain ⟨b₀, hb₀⟩ := run_ok_of_prefix ((List.prefix_append _ _).trans hpre) hb
      obtain ⟨S₀, hS₀⟩ := (run_refines symbol pre).of_ok hb₀
      have hnot := hnone pre req now b₀ hpre hb₀
      rwa [hS₀.rep.restingOrder_eq, hS₀.rep.resting_eq, hS₀.view] at hnot
    rw [← hS.view] at hsides
    rw [← hS.sent] at hlog
    refine ⟨fun s o ho => ?_, fun u hu => ?_, hlog.trades⟩
    · rw [hS.rep.resting_eq] at ho
      have hbook := hS.rep.view_wf.side ho
      have hside := hsides o (Ladder.mem_all.mpr ⟨s, ho⟩)
      rw [Ladder.HasSide] at hside
      revert hbook hside
      cases o.side <;> cases s <;> decide
    · have hside := hlog.updates u hu
      revert hside
      cases u.side <;> decide

/-- A buy and a sell that trade. -/
theorem sides_valid_of_two_orders :
    ∃ b, run (.new "A") [(⟨.limit, 1, "A", 10, .buy, 100, 5, 0⟩, 0),
        (⟨.ioc, 2, "A", 11, .sell, 100, 3, 0⟩, 1)] = .ok b ∧ SidesValid b := by
  obtain ⟨b, hb, -⟩ : ∃ b, run (.new "A") [(⟨.limit, 1, "A", 10, .buy, 100, 5, 0⟩, 0),
      (⟨.ioc, 2, "A", 11, .sell, 100, 3, 0⟩, 1)] = .ok b ∧ true = true :=
    exists_ok_of_check (by decide +kernel)
  refine ⟨b, hb, (sides_valid_iff hb).mpr fun pre req now b₀ hpre _ hbad => ?_⟩
  have hsides : ∀ r ∈ ([(⟨.limit, 1, "A", 10, .buy, 100, 5, 0⟩, 0),
      (⟨.ioc, 2, "A", 11, .sell, 100, 3, 0⟩, 1)] : List (EngineOrderRequest × Nanos)),
      r.1.side ≠ .invalid := by decide
  exact hsides (req, now) (hpre.subset (by simp)) hbad.1

/-- A limit order whose side is neither `BUY` nor `SELL` is accepted and rests among the asks. -/
theorem sides_invalid_limit :
    ∃ b, run (.new "A") [(⟨.limit, 1, "A", 10, .invalid, 100, 5, 0⟩, 0)] = .ok b ∧
      ¬ SidesValid b := by
  obtain ⟨b, hb, hcheck⟩ := exists_ok_of_check
    (x := run (.new "A") [(⟨.limit, 1, "A", 10, .invalid, 100, 5, 0⟩, 0)])
    (p := fun b => decide ((b.resting .ask).map OrderRecord.side = [.invalid])) (by decide +kernel)
  refine ⟨b, hb, fun hvalid => ?_⟩
  obtain ⟨o, ho, hside⟩ : ∃ o ∈ b.resting .ask, o.side = .invalid := by
    rw [← List.mem_map, of_decide_eq_true hcheck]
    exact List.mem_singleton_self _
  rw [hvalid.resting .ask o ho] at hside
  cases hside

end MatchingEngine
