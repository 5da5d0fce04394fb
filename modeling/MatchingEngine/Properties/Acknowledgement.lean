import MatchingEngine.Matcher.Runs

/-!
# Every request is refused or acknowledged, once

Validation is spread over `processRequest` and the five operations of the book.  `refused` is
the whole of it in one place: a condition on the request and on the order that rests under its
id.  If it holds, the request is answered by one reject and the book is left as it was, memory
included.  If it does not, the first response acknowledges the request, and after it come only
the pairs of `FILLED` responses of its trades and, for an order that may not rest, the
cancellation of what is left (`request_answered`).
-/

namespace MatchingEngine

/-- The request is to be refused; `named` is the order resting under its id, whoever owns it. -/
def refused (req : EngineOrderRequest) (named : Option OrderRecord) : Bool :=
  decide (req.orderType = .invalid ∨
    (req.orderType ≠ .cancel ∧ (req.qty = 0 ∨ req.qty = invalidQty)) ∨
    ((req.orderType = .limit ∨ req.orderType = .ioc ∨ req.orderType = .modify) ∧ req.price ≤ 0) ∨
    ((req.orderType = .limit ∨ req.orderType = .market ∨ req.orderType = .ioc) ∧
      named.isSome = true) ∨
    ((req.orderType = .cancel ∨ req.orderType = .modify) ∧
      named.map OrderRecord.clientId ≠ some req.clientId))

/-- The status that acknowledges a request of this type. -/
def OrderType.ackStatus : OrderType → ResponseStatus
  | .limit | .market | .ioc => .accepted
  | .cancel => .canceled
  | .modify => .modified
  | .invalid => .invalid

/-- The responses of the trades of one order: two for each, its own and that of another client's
order, over the same quantity at the same price. -/
inductive FilledPairs (clientId : ClientId) (orderId : OrderId) : List EngineOrderResponse → Prop
  | nil : FilledPairs clientId orderId []
  | cons {r r' : EngineOrderResponse} {rs : List EngineOrderResponse} (hr : r.status = .filled)
      (hr' : r'.status = .filled) (hclient : r.clientId = clientId)
      (horder : r.clientOrderId = orderId) (hother : r'.clientId ≠ clientId)
      (hqty : r'.execQty = r.execQty) (hprice : r'.price = r.price)
      (hrs : FilledPairs clientId orderId rs) : FilledPairs clientId orderId (r :: r' :: rs)

/-- The responses to a request that is not refused. -/
structure Acknowledged (req : EngineOrderRequest) (responses : List EngineOrderResponse) :
    Prop where
  /-- One acknowledgement, then pairs of fills, then at most one cancellation. -/
  shape : ∃ ack fills tail, responses = ack :: (fills ++ tail) ∧
    ack.status = req.orderType.ackStatus ∧ ack.clientId = req.clientId ∧
    ack.clientOrderId = req.orderId ∧ FilledPairs req.clientId req.orderId fills ∧
    (tail = [] ∨ (req.orderType = .market ∨ req.orderType = .ioc) ∧
      ∃ r, tail = [r] ∧ r.status = .canceled ∧ r.clientId = req.clientId ∧
        r.clientOrderId = req.orderId)
  no_reject : ∀ r ∈ responses, r.status.isReject = false

/-! ## Refusals -/

section Refused

variable {req : EngineOrderRequest} {named : Option OrderRecord}

lemma invalid_of_refused (h : refused req named = false) : Ladder.invalidReq req = false := by
  simp only [refused, decide_eq_false_iff_not, not_or] at h
  obtain ⟨hknown, hqty, hprice, -⟩ := h
  simp only [Ladder.invalidReq, decide_eq_false_iff_not, not_or]
  refine ⟨hknown, ?_, ?_⟩
  · rintro ⟨hneeds, hbad⟩
    refine hqty ⟨fun hcancel => ?_, hbad⟩
    simp [OrderType.needsQty, hcancel] at hneeds
  · rintro ⟨hneeds, hle⟩
    exact hprice ⟨by simpa [OrderType.needsPrice] using hneeds, hle⟩

/-- A request that passes the checks of `processRequest` is refused because of the order its id
names. -/
lemma named_of_refused (h : refused req named = true) (hvalid : Ladder.invalidReq req = false) :
    ((req.orderType = .limit ∨ req.orderType = .market ∨ req.orderType = .ioc) ∧
        named.isSome = true) ∨
      ((req.orderType = .cancel ∨ req.orderType = .modify) ∧
        named.map OrderRecord.clientId ≠ some req.clientId) := by
  obtain ⟨hknown, hqty, hprice⟩ := Ladder.checks_of_valid hvalid
  rw [refused, decide_eq_true_eq] at h
  rcases h with h | h | h | h | h
  · exact absurd h hknown
  · refine absurd h.2 (hqty ?_)
    cases ht : req.orderType <;> simp_all [OrderType.needsQty]
  · refine absurd h.2 (hprice ?_)
    simpa [OrderType.needsPrice] using h.1
  · exact .inl h
  · exact .inr h

end Refused

/-- What it means for a request to be refused: one reject is sent, to the client and for the
order the request names, and nothing else happens. -/
def Refuses (b : SymbolOrderBook) (req : EngineOrderRequest)
    (result : Except Fault SymbolOrderBook) : Prop :=
  ∃ r : EngineOrderResponse, r.status.isReject = true ∧ r.clientId = req.clientId ∧
    r.clientOrderId = req.orderId ∧ result = .ok { b with sent := b.sent ++ [.response r] }

namespace Rep

variable {b : SymbolOrderBook} {S : Shape} {req : EngineOrderRequest}

lemma restingOrder_index (h : Rep b S) (id : OrderId) :
    b.restingOrder id = (b.orderIndex id).map b.record := by
  rw [h.restingOrder_eq, h.find_view]

lemma open_refuses (h : Rep b S)
    (htype : req.orderType = .limit ∨ req.orderType = .market ∨ req.orderType = .ioc)
    (hvalid : Ladder.invalidReq req = false)
    (hnamed : (b.restingOrder req.orderId).isSome = true) (now : Nanos) :
    Refuses b req (MatchingEngine.processRequest b req now) := by
  obtain ⟨hknown, hqty, hprice⟩ := Ladder.checks_of_valid hvalid
  rw [h.restingOrder_index, Option.isSome_map] at hnamed
  unfold MatchingEngine.processRequest
  rw [if_neg fun hc => hqty hc.1 hc.2, if_neg fun hc => hprice hc.1 hc.2]
  rcases htype with htype | htype | htype
  · simp only [htype, SymbolOrderBook.addLimitOrder, if_pos hnamed]
    exact ⟨_, rfl, rfl, rfl, rfl⟩
  · simp only [htype, SymbolOrderBook.addMarketOrder, if_pos hnamed]
    exact ⟨_, rfl, rfl, rfl, rfl⟩
  · simp only [htype, SymbolOrderBook.addIOCOrder, if_pos hnamed]
    exact ⟨_, rfl, rfl, rfl, rfl⟩

lemma change_refuses (h : Rep b S)
    (htype : req.orderType = .cancel ∨ req.orderType = .modify)
    (hvalid : Ladder.invalidReq req = false)
    (hnamed : (b.restingOrder req.orderId).map OrderRecord.clientId ≠ some req.clientId)
    (now : Nanos) : Refuses b req (MatchingEngine.processRequest b req now) := by
  obtain ⟨hknown, hqty, hprice⟩ := Ladder.checks_of_valid hvalid
  rw [h.restingOrder_index, Option.map_map] at hnamed
  unfold MatchingEngine.processRequest
  rw [if_neg fun hc => hqty hc.1 hc.2, if_neg fun hc => hprice hc.1 hc.2]
  cases hidx : b.orderIndex req.orderId with
  | none =>
    rcases htype with htype | htype
    · simp only [htype, SymbolOrderBook.cancelOrder, hidx]
      exact ⟨_, rfl, rfl, rfl, rfl⟩
    · simp only [htype, SymbolOrderBook.modifyOrder, hidx]
      exact ⟨_, rfl, rfl, rfl, rfl⟩
  | some p =>
    have hclient : (b.record p).clientId ≠ req.clientId := by simpa [hidx] using hnamed
    change (b.order p).clientId ≠ req.clientId at hclient
    rcases htype with htype | htype
    · simp only [htype, SymbolOrderBook.cancelOrder, hidx, if_pos hclient]
      exact ⟨_, rfl, rfl, rfl, rfl⟩
    · simp only [htype, SymbolOrderBook.modifyOrder, hidx, if_pos hclient]
      exact ⟨_, rfl, rfl, rfl, rfl⟩

lemma refuses (h : Rep b S) (href : refused req (b.restingOrder req.orderId) = true)
    (now : Nanos) : Refuses b req (MatchingEngine.processRequest b req now) := by
  cases hvalid : Ladder.invalidReq req with
  | false =>
    rcases named_of_refused href hvalid with ⟨htype, hnamed⟩ | ⟨htype, hnamed⟩
    · exact h.open_refuses htype hvalid hnamed now
    · exact h.change_refuses htype hvalid hnamed now
  | true =>
    have hreject : Refuses b req (.ok (publishReject b req)) := ⟨_, rfl, rfl, rfl, rfl⟩
    rw [Ladder.invalidReq, decide_eq_true_eq] at hvalid
    unfold MatchingEngine.processRequest
    split_ifs with hqty hprice
    · exact hreject
    · exact hreject
    · rw [hvalid.resolve_right (not_or.mpr ⟨hqty, hprice⟩)]
      exact hreject

end Rep

/-! ## Acknowledgements -/

lemma FillChain.filledPairs {i : Incoming} {m m' : Index} {leaves leaves' : Qty}
    {fills : List Fill} (h : FillChain i m leaves fills m' leaves') :
    FilledPairs i.clientId i.orderId (responsesOf (i.msgs fills)) := by
  induction h with
  | nil => exact .nil
  | cons hpos hrests hside hprice helig _ ih =>
    have hother := (Incoming.eligible_iff.mp helig).1
    rw [Incoming.msgs, List.flatMap_cons, responsesOf_append]
    exact .cons rfl rfl rfl rfl hother rfl rfl ih

lemma FilledPairs.no_reject {clientId : ClientId} {orderId : OrderId}
    {rs : List EngineOrderResponse} (h : FilledPairs clientId orderId rs) :
    ∀ r ∈ rs, r.status.isReject = false := by
  induction h with
  | nil => simp
  | cons hr hr' _ _ _ _ _ _ ih =>
    intro x hx
    rcases List.mem_cons.mp hx with rfl | hx
    · rw [hr]
      rfl
    rcases List.mem_cons.mp hx with rfl | hx
    · rw [hr']
      rfl
    · exact ih x hx

/-- The acknowledgement alone. -/
lemma acknowledged_single {req : EngineOrderRequest} {r : EngineOrderResponse}
    (hknown : req.orderType ≠ .invalid) (hr : r.status = req.orderType.ackStatus)
    (hclient : r.clientId = req.clientId) (horder : r.clientOrderId = req.orderId) :
    Acknowledged req [r] := by
  refine ⟨⟨r, [], [], rfl, hr, hclient, horder, .nil, .inl rfl⟩, fun x hx => ?_⟩
  rw [List.mem_singleton.mp hx, hr]
  cases ht : req.orderType <;> simp_all [OrderType.ackStatus, ResponseStatus.isReject]

namespace Ladder

variable {L : Ladder} {req : EngineOrderRequest} {symbol : Symbol} {now : Nanos}

/-- An order that is acknowledged and then placed. -/
lemma WF.place_acknowledged (h : L.WF) {i : Incoming} (hclient : i.clientId = req.clientId)
    (horder : i.orderId = req.orderId) (hknown : req.orderType ≠ .invalid) (orderType : OrderType)
    (price : Price) (qty : Qty) :
    Acknowledged req (responsesOf (ackMsg req.orderType.ackStatus i price qty ::
      (L.place i orderType price qty now).2)) := by
  have hchain : FillChain i L.find qty (L.trade i qty).fills _ _ := h.fillChain_trade
  have hfills := hchain.filledPairs
  have hplace : responsesOf (L.place i orderType price qty now).2 =
      responsesOf (i.msgs (L.trade i qty).fills) := by
    rw [Ladder.place]
    split_ifs
    · simp
    · rfl
  rw [ackMsg, responsesOf_response, hplace]
  rw [hclient, horder] at hfills
  have hack : Acknowledged req [⟨req.orderType.ackStatus, i.clientId, i.symbol, i.orderId,
      i.orderId, i.side, price, 0, qty⟩] :=
    acknowledged_single hknown rfl hclient horder
  refine ⟨⟨_, _, [], by rw [List.append_nil], rfl, hclient, horder, hfills, .inl rfl⟩,
    fun r hr => ?_⟩
  rcases List.mem_cons.mp hr with rfl | hr
  · exact hack.no_reject _ (by simp)
  · exact hfills.no_reject r hr

/-- An order that is acknowledged, matched, and not allowed to rest. -/
lemma WF.take_acknowledged (h : L.WF) {i : Incoming} (hclient : i.clientId = req.clientId)
    (horder : i.orderId = req.orderId) (htype : req.orderType = .market ∨ req.orderType = .ioc)
    (price : Price) (qty : Qty) :
    Acknowledged req (responsesOf (ackMsg .accepted i price qty :: (L.take i price qty).2)) := by
  have hchain : FillChain i L.find qty (L.trade i qty).fills _ _ := h.fillChain_trade
  have hfills := hchain.filledPairs
  have hack : ResponseStatus.accepted = req.orderType.ackStatus := by
    rcases htype with htype | htype <;> rw [htype] <;> rfl
  rw [hclient, horder] at hfills
  rw [ackMsg, responsesOf_response, take, responsesOf_append]
  split_ifs
  · refine ⟨⟨_, _, _, rfl, hack, hclient, horder, hfills, .inr ⟨htype, _, rfl, rfl, hclient,
      horder⟩⟩, fun r hr => ?_⟩
    rcases List.mem_cons.mp hr with rfl | hr
    · rfl
    rcases List.mem_append.mp hr with hr | hr
    · exact hfills.no_reject r hr
    · rw [List.mem_singleton.mp hr]
      rfl
  · refine ⟨⟨_, _, [], rfl, hack, hclient, horder, hfills, .inl rfl⟩, fun r hr => ?_⟩
    rw [responsesOf_nil, List.append_nil] at hr
    rcases List.mem_cons.mp hr with rfl | hr
    · rfl
    · exact hfills.no_reject r hr

lemma WF.open_acknowledged (h : L.WF)
    (htype : req.orderType = .limit ∨ req.orderType = .market ∨ req.orderType = .ioc)
    (hfree : L.find req.orderId = none) :
    Acknowledged req (responsesOf (L.open_ symbol req now).2) := by
  have hdup : ¬ (L.find req.orderId).isSome = true := by simp [hfree]
  unfold open_
  simp only [if_neg hdup]
  rcases htype with htype | htype
  · simp only [if_pos htype]
    have hack : ResponseStatus.accepted = req.orderType.ackStatus := by rw [htype]; rfl
    rw [hack, if_neg (by simp [htype])]
    exact h.place_acknowledged rfl rfl (by simp [htype]) _ _ _
  · have hlimit : req.orderType ≠ .limit := by rcases htype with htype | htype <;> simp [htype]
    simp only [if_neg hlimit]
    exact h.take_acknowledged rfl rfl htype _ _

lemma WF.modify_acknowledged (h : L.WF) (htype : req.orderType = .modify) {o : OrderRecord}
    (hfind : L.find req.orderId = some o) (hclient : o.clientId = req.clientId) :
    Acknowledged req (responsesOf (L.modifyNamed symbol req now).2) := by
  have hknown : req.orderType ≠ .invalid := by simp [htype]
  have hack : ResponseStatus.modified = req.orderType.ackStatus := by rw [htype]; rfl
  unfold modifyNamed
  simp only [hfind, hclient, ne_eq, not_true, if_false, amend]
  split_ifs
  · exact acknowledged_single hknown hack rfl rfl
  · exact acknowledged_single hknown hack rfl rfl
  · exact acknowledged_single hknown hack rfl rfl
  · rw [hack]
    exact (h.remove _).place_acknowledged rfl rfl hknown _ _ _

/-- A request that is not refused is acknowledged. -/
lemma WF.process_acknowledged (h : L.WF) (href : refused req (L.find req.orderId) = false) :
    Acknowledged req (responsesOf (L.process symbol req now).2) := by
  have hvalid := invalid_of_refused href
  simp only [refused, decide_eq_false_iff_not, not_or] at href
  obtain ⟨hknown, -, -, hfree, howner⟩ := href
  unfold process
  rw [hvalid]
  simp only [Bool.false_eq_true, if_false]
  cases htype : req.orderType with
  | invalid => exact absurd htype hknown
  | limit | market | ioc =>
    refine h.open_acknowledged (by simp [htype]) ?_
    simpa [htype] using hfree
  | cancel =>
    have hnamed : (L.find req.orderId).map OrderRecord.clientId = some req.clientId := by
      simpa [htype] using howner
    obtain ⟨o, hfind, hclient⟩ := Option.map_eq_some_iff.mp hnamed
    simp only [cancel, hfind, hclient, ne_eq, not_true, if_false]
    exact acknowledged_single hknown (by rw [htype]; rfl) rfl rfl
  | modify =>
    have hnamed : (L.find req.orderId).map OrderRecord.clientId = some req.clientId := by
      simpa [htype] using howner
    obtain ⟨o, hfind, hclient⟩ := Option.map_eq_some_iff.mp hnamed
    exact h.modify_acknowledged htype hfind hclient

end Ladder

/-! ## Requests on reachable books -/

/-- In every reachable book, a request that `refused` singles out is answered by one reject and
changes nothing, and any other request is acknowledged once and not rejected (unless it stops the
process by exhausting a pool). -/
theorem request_answered {symbol : Symbol} {reqs : List (EngineOrderRequest × Nanos)}
    {b : SymbolOrderBook} (hb : run (.new symbol) reqs = .ok b) (req : EngineOrderRequest)
    (now : Nanos) :
    (refused req (b.restingOrder req.orderId) = true →
      ∃ r : EngineOrderResponse, r.status.isReject = true ∧ r.clientId = req.clientId ∧
        r.clientOrderId = req.orderId ∧
        processRequest b req now = .ok { b with sent := b.sent ++ [.response r] }) ∧
    (refused req (b.restingOrder req.orderId) = false →
      processRequest b req now = .error .outOfSpace ∨
        ∃ b' msgs, processRequest b req now = .ok b' ∧ b'.sent = b.sent ++ msgs ∧
          Acknowledged req (responsesOf msgs)) := by
  obtain ⟨S, hS⟩ := (run_refines symbol reqs).of_ok hb
  refine ⟨fun href => hS.rep.refuses href now, fun href => ?_⟩
  rcases hS.rep.processRequest req now with herr | ⟨b', S', hok, -, -, hsent, -⟩
  · exact .inl herr
  · rw [hS.rep.restingOrder_eq] at href
    exact .inr ⟨b', _, hok, hsent, hS.rep.view_wf.process_acknowledged href⟩

/-- With one sell resting: another order under its id is refused, a buy that crosses it is not. -/
theorem request_answered_one_resting :
    ∃ b, run (.new "A") [(⟨.limit, 1, "A", 10, .sell, 100, 5, 0⟩, 0)] = .ok b ∧
      Refuses b ⟨.ioc, 2, "A", 10, .buy, 100, 5, 0⟩
        (processRequest b ⟨.ioc, 2, "A", 10, .buy, 100, 5, 0⟩ 1) ∧
      (processRequest b ⟨.ioc, 2, "A", 11, .buy, 100, 8, 0⟩ 1 = .error .outOfSpace ∨
        ∃ b' msgs, processRequest b ⟨.ioc, 2, "A", 11, .buy, 100, 8, 0⟩ 1 = .ok b' ∧
          b'.sent = b.sent ++ msgs ∧
          Acknowledged ⟨.ioc, 2, "A", 11, .buy, 100, 8, 0⟩ (responsesOf msgs)) := by
  obtain ⟨b, hb, hcheck⟩ := exists_ok_of_check
    (x := run (.new "A") [(⟨.limit, 1, "A", 10, .sell, 100, 5, 0⟩, 0)])
    (p := fun b => refused ⟨.ioc, 2, "A", 10, .buy, 100, 5, 0⟩ (b.restingOrder 10) &&
      !refused ⟨.ioc, 2, "A", 11, .buy, 100, 8, 0⟩ (b.restingOrder 11)) (by decide)
  rw [Bool.and_eq_true, Bool.not_eq_true'] at hcheck
  exact ⟨b, hb, (request_answered hb _ 1).1 hcheck.1, (request_answered hb _ 1).2 hcheck.2⟩

end MatchingEngine
