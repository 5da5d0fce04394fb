import MatchingEngine.Matcher.MatchLoop
import MatchingEngine.Matcher.WellFormed

/-!
# The book refines the ladder

`processRequest` on a represented book computes `Ladder.process` on its view: it reaches a
book that represents the resulting ladder and writes exactly the ladder's messages, unless a
pool is exhausted on the way (`Rep.processRequest`).  By induction the same holds of every
finite run from the empty book (`run_refines`), so whatever is proved about all ladders
reachable by `Ladder.process` is a fact about the code.

A request also leaves behind the chain of fills its matching made (`Traded`), so that facts
about the memory just before each fill are not lost in the passage to ladders.
-/

namespace MatchingEngine

open OrderedMaps LinkedLists

/-! ## What a request has traded -/

/-- The message reports a fill. -/
def OutMsg.isTrade : OutMsg → Bool
  | .response r => r.status = .filled
  | .update u => u.type = .trade

/-- `matchIncoming`, called on `b` for the incoming order `i`, makes the fills `fs` one after
the other. -/
def MatchTrace (i : Incoming) (b : SymbolOrderBook) (fs : List FillSite) : Prop :=
  ∃ limitPrice hasLimitPrice qty stop leaves,
    i.limit = (if hasLimitPrice then some limitPrice else none) ∧
    b.matchIncoming i.clientId i.orderId i.side limitPrice hasLimitPrice qty = .ok (stop, leaves) ∧
    Fills i b qty fs stop leaves

/-- The messages of a matching: those of its fills, then others. -/
def Matched (i : Incoming) (b : SymbolOrderBook) (msgs : List OutMsg) : Prop :=
  ∃ fs post, MatchTrace i b fs ∧ msgs = i.msgs (fs.map FillSite.toFill) ++ post ∧
    ∀ m ∈ post, m.isTrade = false

/-- While `req` is processed on `b`, matching begins at `start` with the incoming order `i`:
right after the acknowledgement, which a re-pricing modify precedes by taking the order off. -/
structure MatchStart (req : EngineOrderRequest) (b : SymbolOrderBook) (i : Incoming)
    (start : SymbolOrderBook) : Prop where
  symbol : i.symbol = b.symbol
  client : i.clientId = req.clientId
  order : i.orderId = req.orderId
  limit : i.limit = if req.orderType = .market then none else some req.price
  book : (∃ r, start = b.sendResponse r) ∨
    ∃ p b₁ r, b.removeOrder p = .ok b₁ ∧ start = b₁.sendResponse r
  /-- The id of the incoming order is not resting. -/
  free : start.orderIndex i.orderId = none
  /-- Only orders that were resting when the request arrived. -/
  resting : ∀ s, ∀ o ∈ start.resting s, o ∈ b.resting s

/-- The messages of one request: none reports a fill, or there are those before the book at
which matching begins and those from there on. -/
inductive Traded (req : EngineOrderRequest) (b : SymbolOrderBook) : List OutMsg → Prop
  | silent {msgs : List OutMsg} (h : ∀ m ∈ msgs, m.isTrade = false) : Traded req b msgs
  | matched {i : Incoming} {start : SymbolOrderBook} {S : Shape} {pre msgs : List OutMsg}
      (hstart : MatchStart req b i start) (hrep : Rep start S) (hsymb : start.symbol = b.symbol)
      (hpre : ∀ m ∈ pre, m.isTrade = false) (hmatched : Matched i start msgs) :
      Traded req b (pre ++ msgs)

/-- The outcome of a request: a pool is exhausted, or the book and the messages are those of the
ladder. -/
def Refines (req : EngineOrderRequest) (b : SymbolOrderBook) (r : Except Fault SymbolOrderBook)
    (out : Ladder × List OutMsg) : Prop :=
  r = .error .outOfSpace ∨
    ∃ b' S', r = .ok b' ∧ Rep b' S' ∧ view b' S' = out.1 ∧ b'.sent = b.sent ++ out.2 ∧
      b'.symbol = b.symbol ∧ Traded req b out.2

lemma Refines.of_ok {req : EngineOrderRequest} {b b' : SymbolOrderBook}
    {r : Except Fault SymbolOrderBook} {out : Ladder × List OutMsg} (h : Refines req b r out)
    (hr : r = .ok b') :
    ∃ S', Rep b' S' ∧ view b' S' = out.1 ∧ b'.sent = b.sent ++ out.2 ∧ b'.symbol = b.symbol ∧
      Traded req b out.2 := by
  rcases h with herr | ⟨b₁, S', hok, hafter⟩
  · rw [herr] at hr
    cases hr
  · rw [hok] at hr
    obtain rfl := Except.ok.inj hr
    exact ⟨S', hafter⟩

namespace Rep

variable {b : SymbolOrderBook} {S : Shape}

/-! ## The blocks in use, and the view -/

lemma nodup_nodesOf (h : Rep b S) (s : BookSide) : (b.nodesOf s).Nodup := by
  rw [h.nodesOf_eq, List.nodup_flatMap]
  refine ⟨fun l hl => (h.level s l hl).list.nodup, ?_⟩
  refine (h.sorted s).imp_of_mem fun {l l'} hl hl' hlt p hp hp' => ?_
  obtain ⟨-, rfl⟩ := h.location hl hp hl' hp'
  exact irrefl_of s.before l.price hlt

lemma nodup_nodes (h : Rep b S) : (b.nodesOf .bid ++ b.nodesOf .ask).Nodup := by
  refine (h.nodup_nodesOf .bid).append (h.nodup_nodesOf .ask) fun p hp hp' => ?_
  obtain ⟨l, hl, hp⟩ := h.mem_nodesOf.mp hp
  obtain ⟨l', hl', hp'⟩ := h.mem_nodesOf.mp hp'
  exact absurd (h.location hl hp hl' hp').1 (by decide)

lemma mem_nodes (h : Rep b S) {p : ℕ} : p ∈ b.nodesOf .bid ++ b.nodesOf .ask ↔ S.Mem p := by
  rw [List.mem_append, h.mem_nodesOf, h.mem_nodesOf]
  constructor
  · rintro (hp | hp)
    · exact ⟨.bid, hp⟩
    · exact ⟨.ask, hp⟩
  · rintro ⟨s, hp⟩
    cases s
    · exact .inl hp
    · exact .inr hp

lemma mem_levels (h : Rep b S) {m : ℕ} :
    m ∈ (b.levels .bid).entries.map Prod.snd ++ (b.levels .ask).entries.map Prod.snd ↔
      ∃ s, ∃ l ∈ S s, l.ptr = m := by
  rw [h.entries, h.entries, List.map_map, List.map_map, List.mem_append, List.mem_map, List.mem_map]
  constructor
  · rintro (hm | hm)
    · exact ⟨.bid, hm⟩
    · exact ⟨.ask, hm⟩
  · rintro ⟨s, hm⟩
    cases s
    · exact .inl hm
    · exact .inr hm

lemma nodup_levels (h : Rep b S) :
    ((b.levels .bid).entries.map Prod.snd ++ (b.levels .ask).entries.map Prod.snd).Nodup := by
  have hside : ∀ s, ((b.levels s).entries.map Prod.snd).Nodup := by
    intro s
    rw [h.entries, List.map_map, List.nodup_iff_pairwise_ne, List.pairwise_map]
    refine (h.sorted s).imp_of_mem fun {l l'} hl hl' hlt he => ?_
    obtain ⟨-, rfl⟩ := h.level_location hl hl' he
    exact irrefl_of s.before l.price hlt
  refine (hside .bid).append (hside .ask) fun m hm hm' => ?_
  rw [h.entries, List.map_map, List.mem_map] at hm hm'
  obtain ⟨l, hl, rfl⟩ := hm
  obtain ⟨l', hl', he⟩ := hm'
  exact h.sides l hl l' hl' he.symm

lemma view_wf (h : Rep b S) : (view b S).WF where
  sorted s := by
    rw [view, List.pairwise_map]
    exact h.sorted s
  placed s r hr o ho := by
    obtain ⟨l, hl, rfl⟩ := List.mem_map.mp hr
    obtain ⟨p, hp, rfl⟩ := List.mem_map.mp ho
    exact h.node s l hl p hp
  nodup := by
    rw [Ladder.all, ← h.resting_eq, ← h.resting_eq, SymbolOrderBook.resting,
      SymbolOrderBook.resting, ← List.map_append, List.map_map]
    exact h.nodup_nodes.map_on fun p hp q hq he =>
      h.eq_of_orderId (h.mem_nodes.mp hp) (h.mem_nodes.mp hq) he

/-- The levels of a represented book are determined by the queues of its sides. -/
lemma view_ext {b' : SymbolOrderBook} {S' : Shape} (h : Rep b S) (h' : Rep b' S')
    (horders : ∀ s, (view b S).orders s = (view b' S').orders s) : view b S = view b' S' := by
  have hfull : ∀ {b : SymbolOrderBook} {S : Shape}, Rep b S → ∀ s, ∀ r ∈ view b S s, r.2 ≠ [] := by
    intro b S h s r hr
    obtain ⟨l, hl, rfl⟩ := List.mem_map.mp hr
    exact fun hnil => (h.level s l hl).nonempty (List.map_eq_nil_iff.mp hnil)
  funext s
  exact Ladder.rungs_ext (h.view_wf.sorted s) (h'.view_wf.sorted s) (h.view_wf.price s)
    (h'.view_wf.price s) (hfull h s) (hfull h' s) (horders s)

lemma index_eq_none (h : Rep b S) {id : OrderId} :
    b.orderIndex id = none ↔ (view b S).find id = none := by
  rw [h.find_view, Option.map_eq_none_iff]

lemma index_eq_some (h : Rep b S) {id : OrderId} {p : ℕ} (hp : b.orderIndex id = some p) :
    S.Mem p ∧ (b.record p).orderId = id ∧ (view b S).find id = some (b.record p) := by
  obtain ⟨hmem, hid⟩ := (h.index id p).mp hp
  refine ⟨hmem, hid, ?_⟩
  rw [h.find_view, hp]
  rfl

/-! ## Matching, then resting or cancelling the remainder -/

/-- The tail of `addLimitOrder` and of a re-pricing `modifyOrder`. -/
def placeOrder (b : SymbolOrderBook) (i : Incoming) (orderType : OrderType) (price : Price)
    (qty : Qty) (now : Nanos) : Except Fault SymbolOrderBook := do
  let (b, leaves) ← b.matchIncoming i.clientId i.orderId i.side price true qty
  if leaves > 0 then
    let b ← b.restOrder i.clientId i.orderId orderType i.side price qty leaves now
    return b.sendBookUpdate .add i.orderId i.side price leaves
  else return b

/-- The tail of `addMarketOrder` and `addIOCOrder`. -/
def takeOrder (b : SymbolOrderBook) (i : Incoming) (price : Price) (hasLimitPrice : Bool)
    (qty : Qty) : Except Fault SymbolOrderBook := do
  let (b, leaves) ← b.matchIncoming i.clientId i.orderId i.side price hasLimitPrice qty
  if leaves > 0 then
    return b.sendResponse
      ⟨.canceled, i.clientId, b.symbol, i.orderId, i.orderId, i.side, price, qty - leaves, leaves⟩
  else return b

/-- What `placeOrder` and `takeOrder` achieve. -/
def MatchRefines (i : Incoming) (b : SymbolOrderBook) (r : Except Fault SymbolOrderBook)
    (out : Ladder × List OutMsg) : Prop :=
  r = .error .outOfSpace ∨
    ∃ b' S', r = .ok b' ∧ Rep b' S' ∧ view b' S' = out.1 ∧ b'.sent = b.sent ++ out.2 ∧
      b'.symbol = b.symbol ∧ Matched i b out.2

/-- Matching never brings an id onto the book. -/
lemma find_trade_eq_none {L : Ladder} (h : L.WF) {i : Incoming} {qty : Qty} {id : OrderId}
    (hfree : L.find id = none) : (L.trade i qty).rest.find id = none := by
  refine Ladder.find_eq_none.mpr fun o ho => ?_
  obtain ⟨s, hs⟩ := Ladder.mem_all.mp ho
  obtain ⟨o₀, ho₀, hsurv⟩ := h.survives_trade hs
  rw [hsurv.eq]
  exact Ladder.find_eq_none.mp hfree o₀ (Ladder.mem_all.mpr ⟨s, ho₀⟩)

lemma placeOrder_refines (h : Rep b S) {i : Incoming} (hsym : b.symbol = i.symbol) {price : Price}
    (hlim : i.limit = some price) (hfree : b.orderIndex i.orderId = none) (orderType : OrderType)
    (qty : Qty) (now : Nanos) :
    MatchRefines i b (placeOrder b i orderType price qty now)
      ((view b S).place i orderType price qty now) := by
  have hlim' : i.limit = if true then some price else none := by simpa using hlim
  obtain ⟨b₁, S₁, hrun, hrep₁, hview₁, hprog⟩ := h.matchIncoming hsym hlim' qty
  obtain ⟨fs, hfills, hmap⟩ := hprog.sites
  have htrace : MatchTrace i b fs := ⟨_, _, _, _, _, hlim', hrun, hfills⟩
  have hrun' : placeOrder b i orderType price qty now =
      if ((view b S).trade i qty).leaves > 0 then
        (b₁.restOrder i.clientId i.orderId orderType i.side price qty
          ((view b S).trade i qty).leaves now).bind fun b' =>
            .ok (b'.sendBookUpdate .add i.orderId i.side price ((view b S).trade i qty).leaves)
      else .ok b₁ := by
    rw [placeOrder, hrun]
    rfl
  rw [hrun', Ladder.place]
  by_cases hpos : ((view b S).trade i qty).leaves > 0
  · rw [if_pos hpos, if_pos hpos]
    have hfree₁ : b₁.orderIndex i.orderId = none := by
      rw [hrep₁.index_eq_none, hview₁]
      exact find_trade_eq_none h.view_wf (h.index_eq_none.mp hfree)
    rcases hrep₁.restOrder hfree₁ i.clientId orderType i.side price qty
      ((view b S).trade i qty).leaves now with
      ⟨b₂, m, p, hok, hrep₂, hp, hrecp, hrec, hsent, hsymb, -⟩ | herr
    · refine .inr ⟨b₂.sendBookUpdate .add i.orderId i.side price _, _, by rw [hok]; rfl,
        hrep₂.withSent _, ?_, ?_, hsymb.trans hprog.symbol, fs, _, htrace, by rw [hmap], ?_⟩
      · have hview : view b₂ (S₁.rest i.side.bookSide price m p) =
            (view b₁ S₁).rest (b₂.record p) :=
          view_rest hp (by rw [hrecp]) (by rw [hrecp]) hrec
        rw [hrecp, hview₁, hprog.symbol, hsym] at hview
        exact hview
      · have hsent₂ : b₂.sent = b.sent ++ i.msgs ((view b S).trade i qty).fills :=
          hsent.trans hprog.sent
        change b₂.sent ++ [.update ⟨_, _, b₂.symbol, _, _, _⟩] = _
        rw [hsent₂, hsymb, hprog.symbol, hsym, List.append_assoc]
      · simp [OutMsg.isTrade]
    · exact .inl (by rw [herr]; rfl)
  · rw [if_neg hpos, if_neg hpos]
    exact .inr ⟨b₁, S₁, rfl, hrep₁, hview₁, hprog.sent, hprog.symbol, fs, [], htrace,
      by rw [hmap, List.append_nil], by simp⟩

/-- Cancelling the remainder takes no memory, so nothing can fail. -/
lemma takeOrder_ok (h : Rep b S) {i : Incoming} (hsym : b.symbol = i.symbol) {price : Price}
    {hasLimitPrice : Bool} (hlim : i.limit = if hasLimitPrice then some price else none)
    (qty : Qty) :
    ∃ b' S', takeOrder b i price hasLimitPrice qty = .ok b' ∧ Rep b' S' ∧
      view b' S' = ((view b S).take i price qty).1 ∧
      b'.sent = b.sent ++ ((view b S).take i price qty).2 ∧ b'.symbol = b.symbol ∧
      Matched i b ((view b S).take i price qty).2 := by
  obtain ⟨b₁, S₁, hrun, hrep₁, hview₁, hprog⟩ := h.matchIncoming hsym hlim qty
  obtain ⟨fs, hfills, hmap⟩ := hprog.sites
  have htrace : MatchTrace i b fs := ⟨_, _, _, _, _, hlim, hrun, hfills⟩
  have hrun' : takeOrder b i price hasLimitPrice qty =
      if ((view b S).trade i qty).leaves > 0 then
        .ok (b₁.sendResponse ⟨.canceled, i.clientId, b₁.symbol, i.orderId, i.orderId, i.side, price,
          qty - ((view b S).trade i qty).leaves, ((view b S).trade i qty).leaves⟩)
      else .ok b₁ := by
    rw [takeOrder, hrun]
    rfl
  rw [hrun', Ladder.take]
  by_cases hpos : ((view b S).trade i qty).leaves > 0
  · rw [if_pos hpos, if_pos hpos]
    refine ⟨_, S₁, rfl, hrep₁.withSent _, hview₁, ?_, hprog.symbol, fs, _, htrace,
      by rw [hmap], by simp [OutMsg.isTrade]⟩
    change b₁.sent ++ [_] = _
    rw [hprog.sent, hprog.symbol, hsym, List.append_assoc]
  · rw [if_neg hpos, if_neg hpos]
    exact ⟨b₁, S₁, rfl, hrep₁, hview₁, by rw [hprog.sent, List.append_nil], hprog.symbol, fs,
      [], htrace, by rw [hmap, List.append_nil], by simp⟩

/-! ## Requests -/

variable {req : EngineOrderRequest}

/-- A request that is only answered. -/
lemma answer_refines (h : Rep b S) {r : EngineOrderResponse} (hr : r.status ≠ .filled) :
    Refines req b (.ok (b.sendResponse r)) (view b S, [.response r]) :=
  .inr ⟨_, S, rfl, h.withSent _, rfl, rfl, rfl, .silent (by simp [OutMsg.isTrade, hr])⟩

/-- A request that sends `pre` and then matches. -/
lemma MatchRefines.refines {i : Incoming} {b₁ : SymbolOrderBook} {r : Except Fault SymbolOrderBook}
    {out : Ladder × List OutMsg} (hm : MatchRefines i b₁ r out) (pre : List OutMsg)
    (hstart : MatchStart req b i b₁) (h₁ : Rep b₁ S) (hsent : b₁.sent = b.sent ++ pre)
    (hsymb : b₁.symbol = b.symbol) (hpre : ∀ m ∈ pre, m.isTrade = false) :
    Refines req b r (out.1, pre ++ out.2) := by
  rcases hm with herr | ⟨b', S', hok, hrep, hview, hsent', hsymb', hmatched⟩
  · exact .inl herr
  · exact .inr ⟨b', S', hok, hrep, hview, by rw [hsent', hsent, List.append_assoc],
      hsymb'.trans hsymb, .matched hstart h₁ hsymb hpre hmatched⟩

/-- An opening request whose id is free: acknowledge, then match. -/
lemma open_refines (h : Rep b S) (hfree : b.orderIndex req.orderId = none) (price : Price)
    (code : SymbolOrderBook → Except Fault SymbolOrderBook) {out : Ladder × List OutMsg}
    (hcode : ∀ b₁, Rep b₁ S → view b₁ S = view b S → b₁.symbol = b.symbol →
      b₁.orderIndex req.orderId = none →
      MatchRefines (Ladder.incomingOf b.symbol req) b₁ (code b₁) out) :
    Refines req b
      (code (b.sendResponse ⟨.accepted, req.clientId, b.symbol, req.orderId, req.orderId, req.side,
        price, 0, req.qty⟩))
      (out.1, Ladder.ackMsg .accepted (Ladder.incomingOf b.symbol req) price req.qty :: out.2) := by
  have h₁ := h.withSent (b.sent ++ [.response ⟨.accepted, req.clientId, b.symbol, req.orderId,
    req.orderId, req.side, price, 0, req.qty⟩])
  exact (hcode _ h₁ rfl rfl hfree).refines [_]
    ⟨rfl, rfl, rfl, rfl, .inl ⟨_, rfl⟩, hfree, fun _ _ ho => ho⟩ h₁ rfl rfl
    (by simp [OutMsg.isTrade, Ladder.ackMsg])

lemma isSome_find_view (h : Rep b S) (id : OrderId) :
    ((view b S).find id).isSome = (b.orderIndex id).isSome := by
  rw [h.find_view, Option.isSome_map]

lemma addLimitOrder_refines (h : Rep b S) (htype : req.orderType = .limit) (now : Nanos) :
    Refines req b (b.addLimitOrder req.clientId req.orderId req.side req.price req.qty now)
      ((view b S).open_ b.symbol req now) := by
  have hmarket : req.orderType ≠ .market := by simp [htype]
  rw [SymbolOrderBook.addLimitOrder, Ladder.open_, h.isSome_find_view]
  simp only [if_neg hmarket, if_pos htype]
  by_cases hdup : (b.orderIndex req.orderId).isSome = true
  · rw [if_pos hdup, if_pos hdup]
    exact h.answer_refines (by simp)
  · rw [if_neg hdup, if_neg hdup]
    refine h.open_refines (by simpa using hdup) req.price
      (fun b₁ => placeOrder b₁ (Ladder.incomingOf b.symbol req) .limit req.price req.qty now)
      fun b₁ h₁ hview hsymb hfree => ?_
    rw [← hview]
    exact h₁.placeOrder_refines hsymb (if_neg hmarket) hfree .limit req.qty now

lemma addMarketOrder_refines (h : Rep b S) (htype : req.orderType = .market) (now : Nanos) :
    Refines req b (b.addMarketOrder req.clientId req.orderId req.side req.qty)
      ((view b S).open_ b.symbol req now) := by
  have hlimit : req.orderType ≠ .limit := by simp [htype]
  rw [SymbolOrderBook.addMarketOrder, Ladder.open_, h.isSome_find_view]
  simp only [if_pos htype, if_neg hlimit]
  by_cases hdup : (b.orderIndex req.orderId).isSome = true
  · rw [if_pos hdup, if_pos hdup]
    exact h.answer_refines (by simp)
  · rw [if_neg hdup, if_neg hdup]
    refine h.open_refines (by simpa using hdup) invalidPrice (fun b₁ => takeOrder b₁
      (Ladder.incomingOf b.symbol req) invalidPrice false req.qty) fun b₁ h₁ hview hsymb _ => ?_
    rw [← hview]
    exact .inr (h₁.takeOrder_ok hsymb (by simp [Ladder.incomingOf, htype]) req.qty)

lemma addIOCOrder_refines (h : Rep b S) (htype : req.orderType = .ioc) (now : Nanos) :
    Refines req b (b.addIOCOrder req.clientId req.orderId req.side req.price req.qty)
      ((view b S).open_ b.symbol req now) := by
  have hmarket : req.orderType ≠ .market := by simp [htype]
  have hlimit : req.orderType ≠ .limit := by simp [htype]
  rw [SymbolOrderBook.addIOCOrder, Ladder.open_, h.isSome_find_view]
  simp only [if_neg hmarket, if_neg hlimit]
  by_cases hdup : (b.orderIndex req.orderId).isSome = true
  · rw [if_pos hdup, if_pos hdup]
    exact h.answer_refines (by simp)
  · rw [if_neg hdup, if_neg hdup]
    refine h.open_refines (by simpa using hdup) req.price (fun b₁ => takeOrder b₁
      (Ladder.incomingOf b.symbol req) req.price true req.qty) fun b₁ h₁ hview hsymb _ => ?_
    rw [← hview]
    exact .inr (h₁.takeOrder_ok hsymb (by simp [Ladder.incomingOf, hmarket]) req.qty)

/-- Removing an order, seen through the view; its id becomes free. -/
lemma removeOrder_view (h : Rep b S) {p : ℕ} (hp : S.Mem p) {id : OrderId}
    (hid : (b.record p).orderId = id) :
    ∃ b' S', b.removeOrder p = .ok b' ∧ Rep b' S' ∧ view b' S' = (view b S).remove id ∧
      b'.orderIndex id = none ∧ b'.sent = b.sent ∧ b'.symbol = b.symbol := by
  subst hid
  obtain ⟨b', hok, hrep, hrec, hsent, hsymb, -⟩ := h.removeOrder hp
  have hview : view b' (S.erase p) = (view b S).remove (b.record p).orderId := by
    rw [← h.view_erase hp]
    exact view_congr fun q _ => hrec q
  refine ⟨b', S.erase p, hok, hrep, hview, ?_, hsent, hsymb⟩
  rw [hrep.index_eq_none, hview]
  exact Ladder.find_remove_self _ _

lemma cancelOrder_refines (h : Rep b S) :
    Refines req b (b.cancelOrder req.clientId req.orderId) ((view b S).cancel b.symbol req) := by
  rw [SymbolOrderBook.cancelOrder, Ladder.cancel]
  cases hidx : b.orderIndex req.orderId with
  | none =>
    rw [h.index_eq_none.mp hidx]
    exact h.answer_refines (by simp)
  | some p =>
    obtain ⟨hp, hid, hfind⟩ := h.index_eq_some hidx
    rw [hfind]
    change Refines req b (if (b.record p).clientId ≠ req.clientId then _ else _)
      (if (b.record p).clientId ≠ req.clientId then _ else _)
    by_cases hclient : (b.record p).clientId ≠ req.clientId
    · rw [if_pos hclient, if_pos hclient]
      exact h.answer_refines (by simp)
    · rw [if_neg hclient, if_neg hclient]
      obtain ⟨b₁, S₁, hok, hrep₁, hview₁, -, hsent₁, hsymb₁⟩ := h.removeOrder_view hp hid
      rw [hok]
      refine .inr ⟨_, S₁, rfl, (hrep₁.withSent _).withSent _, hview₁, ?_, hsymb₁,
        .silent (by simp [OutMsg.isTrade])⟩
      change (b₁.sent ++ [.response ⟨_, _, b₁.symbol, _, _, _, _, _, _⟩]) ++
        [.update ⟨_, _, b₁.symbol, _, _, _⟩] = _
      rw [hsent₁, hsymb₁, List.append_assoc]
      rfl

/-- A quantity decrease: the node is rewritten where it stands. -/
lemma shrink_refines (h : Rep b S) {p : ℕ} (hp : S.Mem p) (hid : (b.record p).orderId = req.orderId)
    (r : EngineOrderResponse) (hr : r.status ≠ .filled) (u : BookUpdate) (hu : u.type ≠ .trade)
    (hsymb : u.symbol = b.symbol) (qty : Qty) :
    Refines req b
      (.ok (((b.updateOrder p fun x => { x with qty := qty, originalQty := qty }).sendResponse
        r).sendBookUpdate u.type u.orderId u.side u.price u.qty))
      ((view b S).modify req.orderId fun x => { x with qty := qty, originalQty := qty },
        [.response r, .update u]) := by
  have hrep := h.updateOrder p (f := fun x => { x with qty := qty, originalQty := qty })
    fun o => ⟨rfl, rfl, rfl, rfl, rfl⟩
  have hview := h.view_updateOrder hp (f := fun x => { x with qty := qty, originalQty := qty })
    (g := fun x => { x with qty := qty, originalQty := qty }) fun o => rfl
  rw [hid] at hview
  refine .inr ⟨_, S, rfl, (hrep.withSent _).withSent _, hview, ?_, rfl,
    .silent (by simp [OutMsg.isTrade, hr, hu])⟩
  change (b.sent ++ [.response r]) ++
    [.update ⟨u.type, u.orderId, b.symbol, u.side, u.price, u.qty⟩] =
    b.sent ++ [.response r, .update u]
  rw [← hsymb, List.append_assoc]
  rfl

/-- A quantity increase: the order leaves its level and comes back at the end. -/
lemma grow_refines (h : Rep b S) {p : ℕ} (hp : S.Mem p) (hid : (b.record p).orderId = req.orderId)
    (now : Nanos) :
    Refines req b
      (do
        let b₁ ← b.removeOrder p
        let b₁ ← b₁.restOrder req.clientId req.orderId (b.record p).orderType (b.record p).side
          (b.record p).price req.qty req.qty now
        let b₁ := b₁.sendResponse ⟨.modified, req.clientId, b₁.symbol, req.orderId, req.orderId,
          (b.record p).side, (b.record p).price, 0, req.qty⟩
        return b₁.sendBookUpdate .modify req.orderId (b.record p).side (b.record p).price req.qty)
      (((view b S).remove req.orderId).rest ⟨req.orderId, req.clientId, b.symbol,
          (b.record p).orderType, (b.record p).side, (b.record p).price, req.qty, req.qty, now⟩,
        [ Ladder.ackMsg .modified ⟨b.symbol, req.clientId, req.orderId, (b.record p).side,
            some req.price⟩ (b.record p).price req.qty,
          .update ⟨.modify, req.orderId, b.symbol, (b.record p).side, (b.record p).price,
            req.qty⟩ ]) := by
  obtain ⟨b₁, S₁, hok, hrep₁, hview₁, hfree, hsent₁, hsymb₁⟩ := h.removeOrder_view hp hid
  rcases hrep₁.restOrder hfree req.clientId (b.record p).orderType (b.record p).side
    (b.record p).price req.qty req.qty now with
    ⟨b₂, m, q, hok₂, hrep₂, hq, hrecq, hrec, hsent₂, hsymb₂, -⟩ | herr
  swap
  · refine .inl ?_
    simp only [hok, bind, Except.bind, herr]
  have hview : view b₂ (S₁.rest (b.record p).side.bookSide (b.record p).price m q) =
      (view b₁ S₁).rest (b₂.record q) := view_rest hq (by rw [hrecq]) (by rw [hrecq]) hrec
  rw [hrecq, hview₁, hsymb₁] at hview
  simp only [hok, bind, Except.bind, hok₂, pure, Except.pure]
  refine .inr ⟨_, _, rfl, (hrep₂.withSent _).withSent _, hview, ?_, hsymb₂.trans hsymb₁,
    .silent (by simp [OutMsg.isTrade, Ladder.ackMsg])⟩
  change (b₂.sent ++ [.response ⟨_, _, b₂.symbol, _, _, _, _, _, _⟩]) ++
    [.update ⟨_, _, b₂.symbol, _, _, _⟩] = _
  rw [hsent₂, hsent₁, hsymb₂, hsymb₁, List.append_assoc]
  rfl

/-- A price change: the order leaves the book and is placed again. -/
lemma reprice_refines (h : Rep b S) {p : ℕ} (hp : S.Mem p)
    (hid : (b.record p).orderId = req.orderId) (hmarket : req.orderType ≠ .market) {i : Incoming}
    (hi : i = ⟨b.symbol, req.clientId, req.orderId, (b.record p).side, some req.price⟩)
    (now : Nanos) :
    Refines req b
      (do
        let b₁ ← b.removeOrder p
        placeOrder (b₁.sendResponse ⟨.modified, req.clientId, b₁.symbol, req.orderId, req.orderId,
          (b.record p).side, req.price, 0, req.qty⟩) i (b.record p).orderType req.price req.qty now)
      ((((view b S).remove req.orderId).place i (b.record p).orderType req.price req.qty now).1,
        Ladder.ackMsg .modified i req.price req.qty ::
          (((view b S).remove req.orderId).place i (b.record p).orderType req.price req.qty
            now).2) := by
  subst hi
  obtain ⟨b₁, S₁, hok, hrep₁, hview₁, hfree, hsent₁, hsymb₁⟩ := h.removeOrder_view hp hid
  have h₂ := hrep₁.withSent (b₁.sent ++ [.response ⟨.modified, req.clientId, b₁.symbol, req.orderId,
    req.orderId, (b.record p).side, req.price, 0, req.qty⟩])
  rw [hok, ← hview₁]
  have hplace := h₂.placeOrder_refines
    (i := ⟨b.symbol, req.clientId, req.orderId, (b.record p).side, some req.price⟩) hsymb₁ rfl hfree
    (b.record p).orderType req.qty now
  have hresting : ∀ s, ∀ o ∈ b₁.resting s, o ∈ b.resting s := by
    intro s o ho
    rw [hrep₁.resting_eq, hview₁, Ladder.orders_remove] at ho
    rw [h.resting_eq]
    exact List.mem_of_mem_filter ho
  refine hplace.refines [Ladder.ackMsg .modified _ req.price req.qty]
    ⟨rfl, rfl, rfl, (if_neg hmarket).symm, .inr ⟨p, b₁, _, hok, rfl⟩, hfree, hresting⟩ h₂ ?_ hsymb₁
    (by simp [OutMsg.isTrade, Ladder.ackMsg])
  change b₁.sent ++ [.response ⟨_, _, b₁.symbol, _, _, _, _, _, _⟩] = _
  rw [hsent₁, hsymb₁]
  rfl

lemma modifyOrder_refines (h : Rep b S) (hmarket : req.orderType ≠ .market)
    (hvalid : ¬ (req.qty = 0 ∨ req.qty = invalidQty ∨ req.price ≤ 0)) (now : Nanos) :
    Refines req b (b.modifyOrder req.clientId req.orderId req.price req.qty now)
      ((view b S).modifyNamed b.symbol req now) := by
  rw [SymbolOrderBook.modifyOrder, Ladder.modifyNamed]
  cases hidx : b.orderIndex req.orderId with
  | none =>
    rw [h.index_eq_none.mp hidx]
    exact h.answer_refines (by simp)
  | some p =>
    obtain ⟨hp, hid, hfind⟩ := h.index_eq_some hidx
    rw [hfind]
    simp only [if_neg hvalid]
    change Refines req b (if (b.record p).clientId ≠ req.clientId then _ else _)
      (if (b.record p).clientId ≠ req.clientId then _ else _)
    by_cases hclient : (b.record p).clientId ≠ req.clientId
    · rw [if_pos hclient, if_pos hclient]
      exact h.answer_refines (by simp)
    rw [if_neg hclient, if_neg hclient, Ladder.amend]
    change Refines req b (if req.price ≠ (b.record p).price then _ else
      if req.qty < (b.record p).qty then _ else if req.qty > (b.record p).qty then _ else _) _
    by_cases hprice : req.price ≠ (b.record p).price
    · rw [if_pos hprice, if_pos hprice]
      exact h.reprice_refines hp hid hmarket rfl now
    rw [if_neg hprice, if_neg hprice]
    by_cases hlt : req.qty < (b.record p).qty
    · rw [if_pos hlt, if_pos hlt]
      exact h.shrink_refines hp hid _ (by simp) ⟨.modify, req.orderId, b.symbol, (b.record p).side,
        (b.record p).price, req.qty⟩ (by simp) rfl req.qty
    rw [if_neg hlt, if_neg hlt]
    by_cases hgt : req.qty > (b.record p).qty
    · rw [if_pos hgt, if_pos hgt]
      exact h.grow_refines hp hid now
    · rw [if_neg hgt, if_neg hgt]
      exact h.answer_refines (by simp)

/-- One request on the book is the same request on the ladder. -/
theorem processRequest (h : Rep b S) (req : EngineOrderRequest) (now : Nanos) :
    Refines req b (MatchingEngine.processRequest b req now)
      ((view b S).process b.symbol req now) := by
  have hreject : Refines req b (.ok (publishReject b req)) (view b S, [Ladder.rejectMsg req]) :=
    h.answer_refines (r := ⟨.rejected, req.clientId, req.symbol, req.orderId, invalidOrderId,
      req.side, req.price, 0, req.qty⟩) (by simp)
  rw [MatchingEngine.processRequest, Ladder.process]
  by_cases hinvalid : Ladder.invalidReq req = true
  · have hcheck := hinvalid
    rw [Ladder.invalidReq, decide_eq_true_eq] at hcheck
    rw [if_pos hinvalid]
    split_ifs with hqty hprice
    · exact hreject
    · exact hreject
    · rw [hcheck.resolve_right (not_or.mpr ⟨hqty, hprice⟩)]
      exact hreject
  · have hcheck := hinvalid
    rw [Ladder.invalidReq, decide_eq_true_eq, not_or, not_or] at hcheck
    obtain ⟨hknown, hqty, hprice⟩ := hcheck
    rw [if_neg hqty, if_neg hprice, if_neg hinvalid]
    cases htype : req.orderType with
    | invalid => exact absurd htype hknown
    | limit => exact h.addLimitOrder_refines htype now
    | market => exact h.addMarketOrder_refines htype now
    | ioc => exact h.addIOCOrder_refines htype now
    | cancel => exact h.cancelOrder_refines
    | modify =>
      refine h.modifyOrder_refines (by simp [htype]) ?_ now
      have hq : ¬ (req.qty = 0 ∨ req.qty = invalidQty) := fun hq => hqty ⟨by rw [htype]; rfl, hq⟩
      have hp : ¬ req.price ≤ 0 := fun hp => hprice ⟨by rw [htype]; rfl, hp⟩
      exact fun h => (or_assoc.mpr h).elim hq hp

end Rep

end MatchingEngine
