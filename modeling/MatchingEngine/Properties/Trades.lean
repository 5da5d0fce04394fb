import MatchingEngine.Matcher.Runs

/-!
# Every trade is legal and reported consistently

A fill is reported by two `FILLED` responses, the aggressor's and the resting order's, and by
one `TRADE` update.  `trades_run` says that over any run the `FILLED` responses and the `TRADE`
updates of a symbol are exactly the reports of one sequence of trades, in order, and that each
of these trades is legal: it is against an order that rests on the contra side in the book just
before the fill, at that order's price, within the aggressor's limit, for a positive quantity,
and between different clients and different orders.

A `Trade` carries the book just before the fill, and `Trade.Occurs` ties that book to the run:
it is one of the states `matchIncoming` passes through while a request of the run is processed.
-/

namespace MatchingEngine

open OrderedMaps LinkedLists

/-! ## Trades -/

/-- One fill: the incoming order, and where the fill happens. -/
structure Trade where
  aggressor : Incoming
  site : FillSite

namespace Trade

variable (t : Trade)

/-- The resting order, just before the fill. -/
def resting : OrderRecord := t.site.book.record t.site.node

/-- The quantity traded. -/
def qty : Qty := t.site.toFill.qty

/-- The response to the aggressor. -/
def aggressorHalf : EngineOrderResponse :=
  ⟨.filled, t.aggressor.clientId, t.aggressor.symbol, t.aggressor.orderId, t.aggressor.orderId,
    t.aggressor.side, t.site.price, t.qty, t.site.leaves - t.qty⟩

/-- The response to the owner of the resting order. -/
def restingHalf : EngineOrderResponse :=
  ⟨.filled, t.resting.clientId, t.aggressor.symbol, t.resting.orderId, t.resting.orderId,
    t.resting.side, t.site.price, t.qty, t.site.toFill.restQty⟩

/-- The market-data report. -/
def update : BookUpdate :=
  ⟨.trade, t.resting.orderId, t.aggressor.symbol, t.resting.side, t.site.price, t.qty⟩

/-- The conditions under which the trade is allowed. -/
structure Legal : Prop where
  /-- The resting order stands on the contra side just before the fill. -/
  rests : t.site.node ∈ t.site.book.nodesOf t.aggressor.side.bookSide.contra
  price : t.site.price = t.resting.price
  limit : ∀ l, t.aggressor.limit = some l →
    if t.aggressor.side = .buy then t.site.price ≤ l else l ≤ t.site.price
  qty_pos : 0 < t.qty
  clients : t.aggressor.clientId ≠ t.resting.clientId
  orders : t.aggressor.orderId ≠ t.resting.orderId

/-- The trade is a fill that `matchIncoming` makes while one of `reqs` is processed, on the book
the requests before it have led to. -/
def Occurs (symbol : Symbol) (reqs : List (EngineOrderRequest × Nanos)) : Prop :=
  ∃ done req now todo b start fs, reqs = done ++ (req, now) :: todo ∧
    run (.new symbol) done = .ok b ∧ MatchStart req b t.aggressor start ∧
    MatchTrace t.aggressor start fs ∧ t.site ∈ fs

lemma Occurs.extend {t : Trade} {symbol : Symbol} {reqs : List (EngineOrderRequest × Nanos)}
    (h : t.Occurs symbol reqs) (r : EngineOrderRequest × Nanos) :
    t.Occurs symbol (reqs ++ [r]) := by
  obtain ⟨done, req, now, todo, b, start, fs, rfl, hrest⟩ := h
  exact ⟨done, req, now, todo ++ [r], b, start, fs, by simp, hrest⟩

end Trade

/-! ## The chain of fills -/

/-- A condition that partial fills keep holds of every order a chain of fills trades against, if
it holds of every order on the book. -/
lemma Fills.forall {P : OrderRecord → Prop} (hP : ∀ o₀ o, Incoming.Survives o₀ o → P o₀ → P o)
    {i : Incoming} {b b' : SymbolOrderBook} {l l' : Qty} {fs : List FillSite}
    (hfills : Fills i b l fs b' l') {S : Shape} (h : Rep b S) (hsym : b.symbol = i.symbol)
    (hS : ∀ q, S.Mem q → P (b.record q)) : ∀ f ∈ fs, P (f.book.record f.node) := by
  induction hfills generalizing S with
  | nil => simp
  | @cons b b₁ b₂ leaves leaves₁ leaves₂ price node fs hpos hrests hprice hblock hclient hstep
      htail ih =>
    have hmem : S.Mem node := ⟨_, h.mem_nodesOf.mp hrests⟩
    set f : Fill := ⟨price, b.record node, leaves⟩ with hf
    obtain ⟨b₁', hok, hrep₁, hrecp, hrec, -, hsymb, -⟩ := h.fillNode hmem hsym hf
    rw [hstep] at hok
    obtain ⟨rfl, -⟩ := Prod.mk.inj (Except.ok.inj hok)
    have hS₁ : ∀ q, (if f.restQty = 0 then S.erase node else S).Mem q → P (b₁.record q) := by
      intro q hq
      by_cases hzero : f.restQty = 0
      · rw [if_pos hzero, Shape.Mem.erase_iff] at hq
        rw [hrec q hq.2]
        exact hS q hq.1
      · rw [if_neg hzero] at hq
        by_cases hqn : q = node
        · subst hqn
          refine hP _ _ ?_ (hS q hq)
          exact Incoming.Fill.survives (f := f) (by rw [Fill.remainder, if_neg hzero, hrecp])
        · rw [hrec q hqn]
          exact hS q hq
    intro g hg
    rcases List.mem_cons.mp hg with rfl | hg
    · exact hS node hmem
    · exact ih hrep₁ (hsymb.trans hsym) hS₁ g hg

/-- What each fill of a chain was checked against. -/
lemma Fills.site {i : Incoming} {b b' : SymbolOrderBook} {l l' : Qty} {fs : List FillSite}
    (hfills : Fills i b l fs b' l') : ∀ f ∈ fs, 0 < f.leaves ∧ f.node ∈ f.book.nodesOf i.target ∧
      (f.book.record f.node).price = f.price ∧ i.blocked f.price = false ∧
      (f.book.record f.node).clientId ≠ i.clientId := by
  induction hfills with
  | nil => simp
  | cons hpos hrests hprice hblock hclient hstep htail ih =>
    intro g hg
    rcases List.mem_cons.mp hg with rfl | hg
    · exact ⟨hpos, hrests, hprice, hblock, hclient⟩
    · exact ih g hg

lemma limit_of_not_blocked {i : Incoming} {price l : Price} (hblock : i.blocked price = false)
    (hlimit : i.limit = some l) : if i.side = .buy then price ≤ l else l ≤ price := by
  simp only [Incoming.blocked, hlimit, Incoming.target] at hblock
  cases hside : i.side <;>
    simp only [hside, Side.bookSide, BookSide.contra, BookSide.before] at hblock
  all_goals simpa using hblock

/-- The fills of a matching are legal trades. -/
lemma MatchTrace.legal {req : EngineOrderRequest} {b start : SymbolOrderBook} {i : Incoming}
    {fs : List FillSite} (htrace : MatchTrace i start fs) (hstart : MatchStart req b i start)
    {S : Shape} (hrep : Rep start S) (hsymb : start.symbol = b.symbol)
    (hsound : ∀ s, ∀ o ∈ b.resting s, Ladder.SoundOrder o) :
    ∀ f ∈ fs, (⟨i, f⟩ : Trade).Legal := by
  obtain ⟨limitPrice, hasLimitPrice, qty, stop, leaves, -, -, hfills⟩ := htrace
  have hall : ∀ f ∈ fs, Ladder.SoundOrder (f.book.record f.node) ∧
      (f.book.record f.node).orderId ≠ i.orderId := by
    refine hfills.forall (P := fun o => Ladder.SoundOrder o ∧ o.orderId ≠ i.orderId)
      (fun o₀ o hs ho₀ => ⟨.of_survives hs ho₀.1, ?_⟩) hrep (hsymb.trans hstart.symbol.symm)
      fun q hq => ⟨?_, fun hid => ?_⟩
    · rw [hs.eq]
      exact ho₀.2
    · obtain ⟨s, l, hl, hq⟩ := hq
      refine hsound s _ (hstart.resting s _ ?_)
      rw [hrep.resting_eq, Rep.mem_orders_view]
      exact ⟨l, hl, q, hq, rfl⟩
    · have := (hrep.index i.orderId q).mpr ⟨hq, hid⟩
      rw [hstart.free] at this
      exact absurd this (by simp)
  intro f hf
  obtain ⟨hpos, hrests, hprice, hblock, hclient⟩ := hfills.site f hf
  constructor
  case rests => exact hrests
  case price => exact hprice.symm
  case limit => exact fun l hl => limit_of_not_blocked hblock hl
  case qty_pos =>
    have hqty := (hall f hf).1.qty_pos
    rw [qty_pos_iff] at hpos hqty ⊢
    have := f.toFill.toNat_qty
    change f.toFill.qty.toNat = min f.leaves.toNat (f.book.record f.node).qty.toNat at this
    change 0 < f.toFill.qty.toNat
    omega
  case clients => exact fun he => hclient he.symm
  case orders => exact fun he => (hall f hf).2 he.symm

/-! ## The two streams -/

/-- The trade reports of a log, as the clients see them. -/
def filledOf (log : List OutMsg) : List EngineOrderResponse :=
  (responsesOf log).filter fun r => decide (r.status = .filled)

/-- The trade reports of a log, as the market data sees them. -/
def tradesOf (log : List OutMsg) : List BookUpdate :=
  (updatesOf log).filter fun u => decide (u.type = .trade)

@[simp] lemma filledOf_append (log log' : List OutMsg) :
    filledOf (log ++ log') = filledOf log ++ filledOf log' := by simp [filledOf]

@[simp] lemma tradesOf_append (log log' : List OutMsg) :
    tradesOf (log ++ log') = tradesOf log ++ tradesOf log' := by simp [tradesOf]

lemma streams_of_silent {log : List OutMsg} (h : ∀ m ∈ log, m.isTrade = false) :
    filledOf log = [] ∧ tradesOf log = [] := by
  constructor
  · refine List.filter_eq_nil_iff.mpr fun r hr => ?_
    obtain ⟨m, hm, hr⟩ := List.mem_filterMap.mp hr
    have := h m hm
    cases m with
    | response r' =>
      obtain rfl : r' = r := by simpa using hr
      simpa [OutMsg.isTrade] using this
    | update u => simp at hr
  · refine List.filter_eq_nil_iff.mpr fun u hu => ?_
    obtain ⟨m, hm, hu⟩ := List.mem_filterMap.mp hu
    have := h m hm
    cases m with
    | response r => simp at hu
    | update u' =>
      obtain rfl : u' = u := by simpa using hu
      simpa [OutMsg.isTrade] using this

/-- The messages of a chain of fills report its trades. -/
lemma streams_of_fills (i : Incoming) (fs : List FillSite) :
    filledOf (i.msgs (fs.map FillSite.toFill)) =
        (fs.map (Trade.mk i)).flatMap (fun t => [t.aggressorHalf, t.restingHalf]) ∧
      tradesOf (i.msgs (fs.map FillSite.toFill)) = (fs.map (Trade.mk i)).map Trade.update := by
  induction fs with
  | nil => exact ⟨rfl, rfl⟩
  | cons f fs ih =>
    have hcons : i.msgs ((f :: fs).map FillSite.toFill) =
        i.fillMsgs f.toFill ++ i.msgs (fs.map FillSite.toFill) := rfl
    have hlast : ((if f.toFill.restQty = 0 then
        (⟨.cancel, f.toFill.order.orderId, i.symbol, f.toFill.order.side, f.toFill.price, 0⟩ :
          BookUpdate)
      else ⟨.modify, f.toFill.order.orderId, i.symbol, f.toFill.order.side, f.toFill.price,
        f.toFill.restQty⟩).type = .trade) = False := by
      split_ifs <;> simp
    rw [hcons, filledOf_append, tradesOf_append, ih.1, ih.2]
    constructor
    · rfl
    · simp only [tradesOf, Incoming.fillMsgs, updatesOf_response, updatesOf_update, updatesOf_nil,
        List.filter_cons, List.filter_nil, hlast, decide_true, decide_false, if_true]
      rfl

/-- Over any run, the `FILLED` responses come in pairs and the `TRADE` updates match them one to
one; every pair is a legal trade of the run, and the totals agree. -/
theorem trades_run (symbol : Symbol) (reqs : List (EngineOrderRequest × Nanos)) :
    Reaches symbol reqs fun b => ∃ trades : List Trade,
      filledOf b.sent = trades.flatMap (fun t => [t.aggressorHalf, t.restingHalf]) ∧
      tradesOf b.sent = trades.map Trade.update ∧
      (∀ t ∈ trades, t.Occurs symbol reqs ∧ t.Legal) ∧
      (trades.map fun t => t.aggressorHalf.execQty.toNat).sum =
        ((tradesOf b.sent).map fun u => u.qty.toNat).sum ∧
      (trades.map fun t => t.restingHalf.execQty.toNat).sum =
        ((tradesOf b.sent).map fun u => u.qty.toNat).sum := by
  have hrun := run_induction symbol (I := fun reqs b => ∃ trades : List Trade,
    filledOf b.sent = trades.flatMap (fun t => [t.aggressorHalf, t.restingHalf]) ∧
    tradesOf b.sent = trades.map Trade.update ∧ ∀ t ∈ trades, t.Occurs symbol reqs ∧ t.Legal)
    ⟨[], rfl, rfl, by simp⟩ ?_ reqs
  · refine hrun.mono fun b ⟨_, trades, hfilled, htrades, hall⟩ => ?_
    refine ⟨trades, hfilled, htrades, hall, ?_, ?_⟩
    · rw [htrades, List.map_map]
      rfl
    · rw [htrades, List.map_map]
      rfl
  intro reqs b S req now b' S' msgs hstep ⟨trades, hfilled, htrades, hall⟩
  have hall' : ∀ t ∈ trades, t.Occurs symbol (reqs ++ [(req, now)]) ∧ t.Legal := fun t ht =>
    ⟨(hall t ht).1.extend _, (hall t ht).2⟩
  rw [hstep.sent]
  cases hstep.traded with
  | silent hsilent =>
    obtain ⟨h1, h2⟩ := streams_of_silent hsilent
    exact ⟨trades, by simp [h1, hfilled], by simp [h2, htrades], hall'⟩
  | @matched i start S₀ pre msgs hstart hrep hsymb hpre hmatched =>
    obtain ⟨fs, post, htrace, rfl, hpost⟩ := hmatched
    obtain ⟨h1, h2⟩ := streams_of_silent hpre
    obtain ⟨h3, h4⟩ := streams_of_silent hpost
    obtain ⟨h5, h6⟩ := streams_of_fills i fs
    refine ⟨trades ++ fs.map (Trade.mk i), ?_, ?_, fun t ht => ?_⟩
    · simp only [filledOf_append, h1, h3, h5, hfilled, List.flatMap_append, List.append_nil,
        List.nil_append]
    · simp only [tradesOf_append, h2, h4, h6, htrades, List.map_append, List.append_nil,
        List.nil_append]
    · rcases List.mem_append.mp ht with ht | ht
      · exact hall' t ht
      · obtain ⟨f, hf, rfl⟩ := List.mem_map.mp ht
        refine ⟨⟨reqs, req, now, [], b, start, fs, rfl, hstep.reached, hstart, htrace, hf⟩, ?_⟩
        refine htrace.legal hstart hrep hsymb (fun s o ho => ?_) f hf
        rw [hstep.state.rep.resting_eq] at ho
        exact hstep.state.sound o (Ladder.mem_all.mpr ⟨s, ho⟩)

end MatchingEngine
