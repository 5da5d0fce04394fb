import MatchingEngine.Properties.Maximality

/-!
# Executed quantities

`exec_qty_` is documented as the quantity filled in the event a response reports.  Added up over
the lifetime of an order it should give the quantity the order has traded.  It does so for orders
that can rest: their `ACCEPTED`, `MODIFIED` and `CANCELED` responses report nothing executed, and
each `FILLED` response reports one fill.  But when a market or immediate order is not filled
completely, the `CANCELED` response for its remainder reports everything the order has traded so
far, a second time.

`LifetimeReader` reads a log for one id and keeps, for each lifetime, the executed quantities of
its responses and the quantities of its trades, which are those of the `TRADE` updates: the two
responses written last before an update name the parties.  `execQty_per_event_iff` says that the two
agree after a run if and only if no request of the run was a market or immediate order that found
some liquidity but not enough.
-/

namespace MatchingEngine

/-! ## Lifetimes -/

/-- One lifetime of an order: the sum of `exec_qty_` over its responses, and of the quantities of
the trades it took part in. -/
structure Tally where
  exec : ℕ
  traded : ℕ
  deriving DecidableEq, Repr

/-- What has been read of a log: which orders the last two messages named, if they were responses,
and the lifetimes of the order under observation, the latest first. -/
structure LifetimeReader where
  before : Option OrderId
  last : Option OrderId
  lifetimes : List Tally

namespace LifetimeReader

/-- Nothing was read yet. -/
def init : LifetimeReader := ⟨none, none, []⟩

/-- Add to the current lifetime. -/
def book (exec traded : ℕ) : List Tally → List Tally
  | [] => []
  | t :: ts => ⟨t.exec + exec, t.traded + traded⟩ :: ts

/-- A response of the order: `ACCEPTED` opens a lifetime, and the four statuses of a lifetime
report an executed quantity. -/
def bookResponse (r : EngineOrderResponse) (lifetimes : List Tally) : List Tally :=
  match r.status with
  | .accepted => ⟨r.execQty.toNat, 0⟩ :: lifetimes
  | .filled | .modified | .canceled => book r.execQty.toNat 0 lifetimes
  | _ => lifetimes

/-- Read one message, observing the order `id`. -/
def read (id : OrderId) (st : LifetimeReader) : OutMsg → LifetimeReader
  | .response r =>
    ⟨st.last, some r.clientOrderId,
      if r.clientOrderId = id then bookResponse r st.lifetimes else st.lifetimes⟩
  | .update u =>
    ⟨none, none,
      if u.type = .trade ∧ (st.before = some id ∨ st.last = some id) then
        book 0 u.qty.toNat st.lifetimes
      else st.lifetimes⟩

def readAll (id : OrderId) (st : LifetimeReader) (log : List OutMsg) : LifetimeReader :=
  log.foldl (read id) st

end LifetimeReader

open LifetimeReader

/-- The lifetimes of an order in a log, the latest first. -/
def lifetimesOf (id : OrderId) (log : List OutMsg) : List Tally := (readAll id init log).lifetimes

/-- Over every lifetime of every order, the executed quantities add up to the traded quantity. -/
def ExecPerEvent (log : List OutMsg) : Prop :=
  ∀ id, ∀ t ∈ lifetimesOf id log, t.exec = t.traded

/-- The request is a valid market or immediate order with a free id that finds something to trade
on the contra queue, but not enough. -/
structure PartlyFilled (req : EngineOrderRequest) (resting : Option OrderRecord)
    (contra : List OrderRecord) : Prop where
  type : req.orderType = .market ∨ req.orderType = .ioc
  valid : Ladder.invalidReq req = false
  free : resting = none
  some : 0 < liquidity req.clientId (crosses req.side req.price (req.orderType = .ioc)) contra
  short : liquidity req.clientId (crosses req.side req.price (req.orderType = .ioc)) contra <
    req.qty.toNat

/-! ## Gaps -/

namespace LifetimeReader

/-- By how much the executed quantities of the lifetimes exceed the traded ones. -/
def gaps (st : LifetimeReader) : List ℤ := st.lifetimes.map fun t => (t.exec : ℤ) - t.traded

variable {id : OrderId} {st : LifetimeReader}

lemma readAll_append (log log' : List OutMsg) :
    readAll id st (log ++ log') = readAll id (readAll id st log) log' :=
  List.foldl_append

@[simp] lemma readAll_nil : readAll id st [] = st := rfl

lemma readAll_cons (m : OutMsg) (log : List OutMsg) :
    readAll id st (m :: log) = readAll id (read id st m) log := rfl

/-- Add to the gap of the current lifetime. -/
def widen (g : ℤ) : List ℤ → List ℤ
  | [] => []
  | g₀ :: gs => (g₀ + g) :: gs

@[simp] lemma widen_zero (gs : List ℤ) : widen 0 gs = gs := by
  cases gs with
  | nil => rfl
  | cons g gs => rw [widen, Int.add_zero]

@[simp] lemma widen_widen (g g' : ℤ) (gs : List ℤ) : widen g (widen g' gs) = widen (g' + g) gs := by
  cases gs with
  | nil => rfl
  | cons g₀ gs => simp only [widen, Int.add_assoc]

lemma gaps_book (before last : Option OrderId) (exec traded : ℕ) (lifetimes : List Tally) :
    (LifetimeReader.mk before last (book exec traded lifetimes)).gaps =
      widen (exec - traded) (LifetimeReader.mk before last lifetimes).gaps := by
  cases lifetimes with
  | nil => rfl
  | cons t ts =>
    simp only [gaps, book, widen, List.map_cons]
    congr 1
    omega

/-- What a response does to the gaps. -/
lemma gaps_response (r : EngineOrderResponse) :
    (read id st (.response r)).gaps =
      if r.clientOrderId = id then
        match r.status with
        | .accepted => (r.execQty.toNat : ℤ) :: st.gaps
        | .filled | .modified | .canceled => widen r.execQty.toNat st.gaps
        | _ => st.gaps
      else st.gaps := by
  have hgaps : ∀ before last, (LifetimeReader.mk before last st.lifetimes).gaps = st.gaps :=
    fun _ _ => rfl
  simp only [read, bookResponse]
  split_ifs
  · cases r.status with
    | accepted => exact congrArg (· :: st.gaps) (Int.sub_zero _)
    | filled | modified | canceled =>
      simp only [gaps_book, hgaps]
      exact congrArg (widen · st.gaps) (Int.sub_zero _)
    | _ => rfl
  · rfl

/-- A response that opens no lifetime and reports nothing executed leaves the gaps alone. -/
lemma gaps_silent {r : EngineOrderResponse} (haccepted : r.status ≠ .accepted)
    (hexec : r.execQty = 0) : (read id st (.response r)).gaps = st.gaps := by
  rw [gaps_response, hexec]
  split_ifs
  · cases hs : r.status with
    | accepted => exact absurd hs haccepted
    | filled | modified | canceled => exact widen_zero _
    | _ => rfl
  · rfl

/-- An update that reports no trade leaves the gaps alone. -/
lemma gaps_update {u : BookUpdate} (hu : u.type ≠ .trade) :
    (read id st (.update u)).gaps = st.gaps := by
  simp only [read, if_neg fun h : u.type = .trade ∧ _ => hu h.1]
  rfl

lemma gaps_trade {u : BookUpdate} (hu : u.type = .trade) :
    (read id st (.update u)).gaps =
      if st.before = some id ∨ st.last = some id then widen (-u.qty.toNat) st.gaps
      else st.gaps := by
  simp only [read, hu, true_and]
  split_ifs
  · rw [gaps_book]
    exact congrArg (widen · st.gaps) (Int.zero_sub _)
  · rfl

/-- A fill is executed and traded, by both parties. -/
lemma gaps_fill {i : Incoming} {f : Fill} (hne : f.order.orderId ≠ i.orderId) :
    (readAll id st (i.fillMsgs f)).gaps = st.gaps := by
  have hlast : ∀ st' : LifetimeReader, (read id st' (.update (if f.restQty = 0 then
      ⟨.cancel, f.order.orderId, i.symbol, f.order.side, f.price, 0⟩
      else ⟨.modify, f.order.orderId, i.symbol, f.order.side, f.price, f.restQty⟩))).gaps =
        st'.gaps := by
    intro st'
    refine gaps_update ?_
    split_ifs <;> simp
  simp only [Incoming.fillMsgs, readAll_cons, readAll_nil]
  rw [hlast, gaps_trade rfl, gaps_response, gaps_response]
  change (if some i.orderId = some id ∨ some f.order.orderId = some id then _ else _) = _
  simp only [Option.some.injEq]
  by_cases hi : i.orderId = id
  · -- the aggressor
    have hf : f.order.orderId ≠ id := fun hf => hne (hf.trans hi.symm)
    simp only [hi, hf, true_or, if_true, if_false]
    rw [widen_widen, Int.add_right_neg, widen_zero]
  by_cases hf : f.order.orderId = id
  · -- the resting order
    simp only [hi, hf, or_true, if_true, if_false]
    rw [widen_widen, Int.add_right_neg, widen_zero]
  · simp only [hi, hf, or_self, if_false]

lemma gaps_fills {i : Incoming} {fills : List Fill}
    (hne : ∀ f ∈ fills, f.order.orderId ≠ i.orderId) :
    (readAll id st (i.msgs fills)).gaps = st.gaps := by
  induction fills generalizing st with
  | nil => rfl
  | cons f fills ih =>
    rw [Incoming.msgs, List.flatMap_cons, readAll_append]
    exact (ih fun g hg => hne g (List.mem_cons_of_mem _ hg)).trans
      (gaps_fill (hne f List.mem_cons_self))

end LifetimeReader

/-! ## One request -/

namespace Ladder

variable {symbol : Symbol} {L L' : Ladder} {req : EngineOrderRequest} {now : Nanos}
  {msgs : List OutMsg} {i : Incoming} {id : OrderId} {st : LifetimeReader}

/-- An order is not matched against itself. -/
lemma WF.fills_ne (h : L.WF) (hfree : L.find i.orderId = none) (qty : Qty) :
    ∀ f ∈ (L.trade i qty).fills, f.order.orderId ≠ i.orderId := by
  intro f hf hid
  rw [h.fills_trade] at hf
  have hmem := mem_all.mpr ⟨i.target, Incoming.order_of_mem_fills hf⟩
  have hfind := h.find_eq_some.mpr ⟨hmem, hid⟩
  rw [hfree] at hfind
  cases hfind

/-- Placing an order, after its acknowledgement, opens no gap. -/
lemma WF.place_gaps (h : L.WF) (hfree : L.find i.orderId = none) (orderType : OrderType)
    (price : Price) (qty : Qty) :
    (readAll id st (L.place i orderType price qty now).2).gaps = st.gaps := by
  have hfills : (readAll id st (i.msgs (L.trade i qty).fills)).gaps = st.gaps :=
    gaps_fills (h.fills_ne hfree qty)
  rw [Ladder.place]
  split_ifs
  · rw [LifetimeReader.readAll_append]
    exact (gaps_update (by simp)).trans hfills
  · exact hfills

/-- What a market or immediate order has traded is reported again with its remainder. -/
def excess (L : Ladder) (i : Incoming) (qty : Qty) : ℤ :=
  if (L.trade i qty).leaves > 0 then ((qty - (L.trade i qty).leaves).toNat : ℤ) else 0

lemma WF.take_gaps (h : L.WF) (hfree : L.find i.orderId = none) (price : Price) (qty : Qty) :
    (readAll id st (L.take i price qty).2).gaps =
      if i.orderId = id then widen (L.excess i qty) st.gaps else st.gaps := by
  have hfills : (readAll id st (i.msgs (L.trade i qty).fills)).gaps = st.gaps :=
    gaps_fills (h.fills_ne hfree qty)
  rw [Ladder.take, LifetimeReader.readAll_append, excess]
  split_ifs with hpos hid
  · refine (gaps_response _).trans ?_
    rw [if_pos hid]
    exact congrArg (widen _) hfills
  · refine (gaps_response _).trans ?_
    rw [if_neg hid]
    exact hfills
  · rw [widen_zero]
    exact hfills
  · exact hfills

/-- There is an excess if something was traded and something is left. -/
lemma WF.excess_ne_zero_iff (h : L.WF) {qty : Qty} (hqty : 0 < qty) :
    L.excess i qty ≠ 0 ↔
      0 < i.available (L.orders i.target) ∧ i.available (L.orders i.target) < qty.toNat := by
  have hleaves : (L.trade i qty).leaves.toNat = qty.toNat - i.available (L.orders i.target) := by
    rw [h.leaves_trade, Incoming.toNat_leaves]
  have hsub : (qty - (L.trade i qty).leaves).toNat =
      qty.toNat - (L.trade i qty).leaves.toNat := by
    refine UInt64.toNat_sub_of_le _ _ (UInt64.le_iff_toNat_le.mpr ?_)
    omega
  rw [qty_pos_iff] at hqty
  rw [excess]
  split_ifs with hpos
  · rw [gt_iff_lt, qty_pos_iff] at hpos
    omega
  · rw [gt_iff_lt, qty_pos_iff] at hpos
    omega

/-- The liquidity that the incoming order of a market or immediate order finds. -/
lemma available_of_request {price : Price} {limit : Option Price}
    (hi : i = ⟨symbol, req.clientId, req.orderId, req.side, limit⟩)
    (hprice : req.orderType = .market ∧ limit = none ∧ price = invalidPrice ∨
      req.orderType = .ioc ∧ limit = some req.price ∧ price = req.price) (os : List OrderRecord) :
    i.available os =
      liquidity req.clientId (crosses req.side req.price (req.orderType = .ioc)) os := by
  have hcall : i = callOf (.new symbol) req.clientId req.orderId req.side req.price
      (req.orderType = .ioc) := by
    rw [hi, callOf]
    rcases hprice with ⟨htype, rfl, -⟩ | ⟨htype, rfl, -⟩
    · simp [htype, SymbolOrderBook.new, SymbolOrderBook.ofCapacity]
    · simp [htype, SymbolOrderBook.new, SymbolOrderBook.ofCapacity]
  rw [hcall, callOf_available]

/-- An accepted order opens a lifetime, without a gap. -/
lemma gaps_accepted (i : Incoming) (price : Price) (qty : Qty) :
    (read id st (ackMsg .accepted i price qty)).gaps =
      if i.orderId = id then 0 :: st.gaps else st.gaps := by
  rw [ackMsg, gaps_response]
  rfl

/-- A request opens at most one lifetime of an order, and a gap only if it is partly filled. -/
lemma Step.gaps (h : L.WF) (hvalid : invalidReq req = false)
    (hstep : Step symbol L req now L' msgs) (id : OrderId) (st : LifetimeReader) :
    (readAll id st msgs).gaps = st.gaps ∨
      ∃ g, (readAll id st msgs).gaps = g :: st.gaps ∧
        (g ≠ 0 → PartlyFilled req (L.find req.orderId) (L.orders req.side.bookSide.contra)) := by
  cases hstep with
  | reject r hr =>
    left
    rw [readAll_cons, readAll_nil, gaps_response]
    split_ifs
    · cases hs : r.status <;> simp [hs, ResponseStatus.isReject] at hr ⊢
    · rfl
  | @limit i hi htype hsound hfree =>
    have hfree' : L.find i.orderId = none := by rw [hi]; exact hfree
    rw [readAll_cons, h.place_gaps hfree', gaps_accepted]
    split_ifs
    · exact .inr ⟨0, rfl, fun hne => absurd rfl hne⟩
    · exact .inl rfl
  | @take i price limit hi hprice hqty hfree =>
    have hfree' : L.find i.orderId = none := by rw [hi]; exact hfree
    rw [readAll_cons, h.take_gaps hfree', gaps_accepted]
    split_ifs
    · refine .inr ⟨L.excess i req.qty, congrArg (· :: st.gaps) (Int.zero_add _), fun hne => ?_⟩
      obtain ⟨hsome, hshort⟩ := (h.excess_ne_zero_iff hqty).mp hne
      have htarget : i.target = req.side.bookSide.contra := by rw [hi]; rfl
      rw [htarget, available_of_request hi hprice] at hsome hshort
      exact ⟨hprice.imp (fun hp => hp.1) (fun hp => hp.1), hvalid, hfree, hsome, hshort⟩
    · exact .inl rfl
  | cancel htype hfind hclient =>
    left
    rw [readAll_cons, readAll_cons, readAll_nil, gaps_update (by simp)]
    exact gaps_silent (by simp) rfl
  | @reprice o i hi htype hfind hclient hprice hsound =>
    have hfree' : (L.remove req.orderId).find i.orderId = none := by
      rw [hi]
      exact find_remove_self L _
    left
    rw [readAll_cons, (h.remove _).place_gaps hfree']
    exact gaps_silent (by simp) rfl
  | shrink | grow =>
    left
    rw [readAll_cons, readAll_cons, readAll_nil, gaps_update (by simp)]
    exact gaps_silent (by simp) rfl
  | keep =>
    left
    rw [readAll_cons, readAll_nil]
    exact gaps_silent (by simp) rfl

lemma WF.process_gaps (h : L.WF) (symbol : Symbol) (req : EngineOrderRequest) (now : Nanos)
    (id : OrderId) (st : LifetimeReader) :
    (readAll id st (L.process symbol req now).2).gaps = st.gaps ∨
      ∃ g, (readAll id st (L.process symbol req now).2).gaps = g :: st.gaps ∧
        (g ≠ 0 → PartlyFilled req (L.find req.orderId) (L.orders req.side.bookSide.contra)) := by
  by_cases hvalid : invalidReq req = true
  · left
    rw [process, if_pos hvalid]
    exact gaps_silent (by simp) rfl
  · exact (process_step symbol L req now).gaps h (by simpa using hvalid) id st

/-- A partly filled request opens a lifetime with a gap. -/
lemma WF.process_partlyFilled (h : L.WF) (symbol : Symbol) (now : Nanos)
    (hpart : PartlyFilled req (L.find req.orderId) (L.orders req.side.bookSide.contra))
    (st : LifetimeReader) :
    ∃ g, g ≠ 0 ∧ (readAll req.orderId st (L.process symbol req now).2).gaps = g :: st.gaps := by
  obtain ⟨htype, hvalid, hfree, hsome, hshort⟩ := hpart
  have hqty : 0 < req.qty := by
    obtain ⟨-, hqty, -⟩ := checks_of_valid hvalid
    refine qty_pos_of_check (hqty ?_)
    rcases htype with htype | htype <;> simp [htype, OrderType.needsQty]
  obtain ⟨i, price, limit, hi, hprice, htake⟩ : ∃ (i : Incoming) (price : Price)
      (limit : Option Price), i = ⟨symbol, req.clientId, req.orderId, req.side, limit⟩ ∧
      (req.orderType = .market ∧ limit = none ∧ price = invalidPrice ∨
        req.orderType = .ioc ∧ limit = some req.price ∧ price = req.price) ∧
      (L.process symbol req now).2 =
        ackMsg .accepted i price req.qty :: (L.take i price req.qty).2 := by
    rcases htype with htype | htype
    · exact ⟨_, _, _, rfl, .inl ⟨htype, rfl, rfl⟩, by
        simp [process, hvalid, htype, open_, hfree, incomingOf]⟩
    · exact ⟨_, _, _, rfl, .inr ⟨htype, rfl, rfl⟩, by
        simp [process, hvalid, htype, open_, hfree, incomingOf]⟩
  have hid : i.orderId = req.orderId := by rw [hi]
  have hfree' : L.find i.orderId = none := by rw [hid]; exact hfree
  have htarget : i.target = req.side.bookSide.contra := by rw [hi]; rfl
  refine ⟨L.excess i req.qty, ?_, ?_⟩
  · rw [h.excess_ne_zero_iff hqty, htarget, available_of_request hi hprice]
    exact ⟨hsome, hshort⟩
  · rw [htake, readAll_cons, h.take_gaps hfree', gaps_accepted, if_pos hid, if_pos hid]
    exact congrArg (· :: st.gaps) (Int.zero_add _)

/-! ## Runs -/

/-- Gaps stay. -/
lemma WF.gaps_suffix (h : L.WF) (symbol : Symbol) (reqs : List (EngineOrderRequest × Nanos))
    (id : OrderId) (st : LifetimeReader) :
    st.gaps <:+ (readAll id st (L.runAll symbol reqs).2).gaps := by
  induction reqs generalizing L st with
  | nil => exact List.suffix_refl _
  | cons r reqs ih =>
    obtain ⟨req, now⟩ := r
    rw [runAll, LifetimeReader.readAll_append]
    have hstep : st.gaps <:+ (readAll id st (L.process symbol req now).2).gaps := by
      rcases h.process_gaps symbol req now id st with heq | ⟨g, heq, -⟩
      · exact ⟨[], heq.symm⟩
      · exact ⟨[g], heq.symm⟩
    exact hstep.trans (ih ((process_step symbol L req now).wf h) _)

end Ladder

/-- The executed and the traded quantities of a lifetime agree if it has no gap. -/
lemma execPerEvent_iff_gaps (log : List OutMsg) :
    ExecPerEvent log ↔ ∀ id, ∀ g ∈ (readAll id init log).gaps, g = 0 := by
  refine forall_congr' fun id => ?_
  rw [LifetimeReader.gaps, List.forall_mem_map]
  refine forall₂_congr fun t _ => ?_
  omega

/-- A run without partly filled requests opens no gap. -/
lemma Ladder.execPerEvent_runAll (symbol : Symbol) (reqs : List (EngineOrderRequest × Nanos))
    (hnone : ∀ pre req now, pre ++ [(req, now)] <+: reqs →
      ¬ PartlyFilled req ((empty.runAll symbol pre).1.find req.orderId)
        ((empty.runAll symbol pre).1.orders req.side.bookSide.contra)) :
    ExecPerEvent (empty.runAll symbol reqs).2 := by
  refine (runAll_induction symbol (I := fun reqs L log => L = (empty.runAll symbol reqs).1 ∧
    ((∀ pre req now, pre ++ [(req, now)] <+: reqs →
      ¬ PartlyFilled req ((empty.runAll symbol pre).1.find req.orderId)
        ((empty.runAll symbol pre).1.orders req.side.bookSide.contra)) → ExecPerEvent log))
    ⟨rfl, fun _ id t ht => absurd ht List.not_mem_nil⟩
    (fun reqs L log req now hwf _ ⟨hL, ih⟩ => ⟨by rw [runAll_concat, ← hL], fun hnone => ?_⟩)
    reqs).2 hnone
  have hlog := (execPerEvent_iff_gaps log).mp <| ih fun pre req' now' hpre =>
    hnone pre req' now' (hpre.trans (List.prefix_append _ _))
  have hnot := hnone reqs req now (List.prefix_refl _)
  rw [← hL] at hnot
  rw [execPerEvent_iff_gaps]
  intro id g hg
  rw [LifetimeReader.readAll_append] at hg
  rcases hwf.process_gaps symbol req now id (readAll id init log) with heq | ⟨g', heq, hg'⟩
  · rw [heq] at hg
    exact hlog id g hg
  · rw [heq] at hg
    rcases List.mem_cons.mp hg with rfl | hg
    · by_contra hne
      exact hnot (hg' hne)
    · exact hlog id g hg

/-- After any requests that the pools have room for, the executed quantities of every lifetime add
up to what was traded in it if and only if no request was a market or immediate order that found
some liquidity but less than its quantity. -/
theorem execQty_per_event_iff {symbol : Symbol} {reqs : List (EngineOrderRequest × Nanos)}
    {b : SymbolOrderBook} (hb : run (.new symbol) reqs = .ok b) :
    ExecPerEvent b.sent ↔ ∀ pre req now b₀, pre ++ [(req, now)] <+: reqs →
      run (.new symbol) pre = .ok b₀ →
      ¬ PartlyFilled req (b₀.restingOrder req.orderId) (b₀.resting req.side.bookSide.contra) := by
  obtain ⟨S, hS⟩ := (run_refines symbol reqs).of_ok hb
  constructor
  · intro hexec pre req now b₀ hpre hb₀ hpart
    obtain ⟨S₀, hS₀⟩ := (run_refines symbol pre).of_ok hb₀
    rw [hS₀.rep.restingOrder_eq, hS₀.rep.resting_eq] at hpart
    obtain ⟨post, rfl⟩ := hpre
    -- the request opens a gap, and the requests after it do not close it
    obtain ⟨g, hne, hgaps⟩ := hS₀.rep.view_wf.process_partlyFilled symbol now hpart
      (readAll req.orderId init b₀.sent)
    have hwf := (Ladder.process_step symbol (view b₀ S₀) req now).wf hS₀.rep.view_wf
    have hsuffix := hwf.gaps_suffix symbol post req.orderId
      (readAll req.orderId init (b₀.sent ++ ((view b₀ S₀).process symbol req now).2))
    rw [← LifetimeReader.readAll_append, LifetimeReader.readAll_append, hgaps] at hsuffix
    have hsent : b.sent = b₀.sent ++ ((view b₀ S₀).process symbol req now).2 ++
        (((view b₀ S₀).process symbol req now).1.runAll symbol post).2 := by
      rw [hS.sent, Ladder.runAll_append, Ladder.runAll_concat, hS₀.sent, hS₀.view]
    rw [← hsent] at hsuffix
    exact hne ((execPerEvent_iff_gaps b.sent).mp hexec req.orderId g
      (hsuffix.subset List.mem_cons_self))
  · intro hnone
    rw [hS.sent]
    refine Ladder.execPerEvent_runAll symbol reqs fun pre req now hpre => ?_
    obtain ⟨b₀, hb₀⟩ := run_ok_of_prefix ((List.prefix_append _ _).trans hpre) hb
    obtain ⟨S₀, hS₀⟩ := (run_refines symbol pre).of_ok hb₀
    have hnot := hnone pre req now b₀ hpre hb₀
    rwa [hS₀.rep.restingOrder_eq, hS₀.rep.resting_eq, hS₀.view] at hnot

/-- A limit order that trades and rests. -/
theorem execQty_per_event_limit :
    ∃ b, run (.new "A") [(⟨.limit, 1, "A", 10, .sell, 100, 3, 0⟩, 0),
        (⟨.limit, 2, "A", 11, .buy, 100, 5, 0⟩, 1)] = .ok b ∧ ExecPerEvent b.sent ∧
      lifetimesOf 11 b.sent = [⟨3, 3⟩] := by
  obtain ⟨b, hb, hcheck⟩ := exists_ok_of_check
    (x := run (.new "A") [(⟨.limit, 1, "A", 10, .sell, 100, 3, 0⟩, 0),
      (⟨.limit, 2, "A", 11, .buy, 100, 5, 0⟩, 1)])
    (p := fun b => decide (lifetimesOf 11 b.sent = [⟨3, 3⟩])) (by decide +kernel)
  refine ⟨b, hb, (execQty_per_event_iff hb).mpr fun pre req now b₀ hpre _ hpart => ?_,
    of_decide_eq_true hcheck⟩
  have htypes : ∀ r ∈ ([(⟨.limit, 1, "A", 10, .sell, 100, 3, 0⟩, 0),
      (⟨.limit, 2, "A", 11, .buy, 100, 5, 0⟩, 1)] : List (EngineOrderRequest × Nanos)),
      r.1.orderType = .limit := by decide
  have htype := htypes (req, now) (hpre.subset (by simp))
  rcases hpart.type with hmarket | hioc
  · rw [hmarket] at htype
    cases htype
  · rw [hioc] at htype
    cases htype

/-- An immediate order for 5 that finds 3: its responses report 6 executed. -/
theorem execQty_counted_twice :
    ∃ b, run (.new "A") [(⟨.limit, 1, "A", 10, .sell, 100, 3, 0⟩, 0),
        (⟨.ioc, 2, "A", 11, .buy, 100, 5, 0⟩, 1)] = .ok b ∧
      lifetimesOf 11 b.sent = [⟨6, 3⟩] ∧ ¬ ExecPerEvent b.sent := by
  obtain ⟨b, hb, hcheck⟩ := exists_ok_of_check
    (x := run (.new "A") [(⟨.limit, 1, "A", 10, .sell, 100, 3, 0⟩, 0),
      (⟨.ioc, 2, "A", 11, .buy, 100, 5, 0⟩, 1)])
    (p := fun b => decide (lifetimesOf 11 b.sent = [⟨6, 3⟩])) (by decide +kernel)
  have hlifetimes := of_decide_eq_true hcheck
  refine ⟨b, hb, hlifetimes, fun hexec => ?_⟩
  have heq := hexec 11 ⟨6, 3⟩ (by rw [hlifetimes]; exact List.mem_cons_self)
  exact absurd heq (by decide)

end MatchingEngine
