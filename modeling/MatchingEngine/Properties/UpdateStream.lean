import MatchingEngine.Properties.Snapshot

/-!
# Every update is applicable when it arrives

The mirror ignores a `MODIFY` or `CANCEL` of an order it does not hold, and has no use for a
`TRADE`.  So a consumer cannot tell from the mirror whether an update made sense.  It always does:
for every prefix of the stream a book writes, the next update is about an order the mirror of that
prefix holds, with that side and price, and the quantities agree.

Book and mirror are out of step in the middle of a request, and after a re-priced order has traded
completely the mirror keeps an entry that the book no longer has (see `Properties/Snapshot.lean`).
The invariant that survives both is one-sided: the mirror holds the entry of every resting order
(`Covers`).  It is followed fill by fill (`Covers.fill`) and request by request (`Step.covers`).
-/

namespace MatchingEngine

/-! ## Applicable updates -/

/-- The mirror holds the order an update is about, with its side and price. -/
def Holds (M : MirrorBook) (u : BookUpdate) (e : SnapshotEntry) : Prop :=
  M.lookup u.orderId = some e ∧ e.side = u.side ∧ e.price = u.price

/-- The update makes sense to a consumer whose mirror is `M`; `next` is the update after it. -/
def Applicable (M : MirrorBook) (u : BookUpdate) (next : Option BookUpdate) : Prop :=
  match u.type with
  | .add | .invalid => True
  | .modify => (∃ e, Holds M u e) ∧ 0 < u.qty
  | .cancel => ∃ e, Holds M u e
  | .trade => ∃ e, Holds M u e ∧ 0 < u.qty ∧ u.qty ≤ e.qty ∧ ∃ v, next = some v ∧
      v.orderId = u.orderId ∧ v.side = u.side ∧ v.price = u.price ∧
      (u.qty < e.qty → v.type = .modify ∧ v.qty = e.qty - u.qty) ∧
      (u.qty = e.qty → v.type = .cancel)

/-- Each update of a stream is applicable to the mirror of those before it. -/
def Applies (M : MirrorBook) : List BookUpdate → Prop
  | [] => True
  | u :: us => Applicable M u us.head? ∧ Applies (M.apply u) us

variable {M : MirrorBook}

/-- Only a `TRADE` looks at what comes next, and it needs something to come. -/
lemma Applicable.of_none {u : BookUpdate} (h : Applicable M u none) (next : Option BookUpdate) :
    Applicable M u next := by
  unfold Applicable at h ⊢
  cases ht : u.type with
  | trade =>
    rw [ht] at h
    obtain ⟨_, -, -, -, _, hv, -⟩ := h
    cases hv
  | add | invalid => trivial
  | modify | cancel =>
    rw [ht] at h
    exact h

lemma Applies.append {us vs : List BookUpdate} (h : Applies M us)
    (h' : Applies (M.applyAll us) vs) : Applies M (us ++ vs) := by
  induction us generalizing M with
  | nil => exact h'
  | cons u us ih =>
    refine ⟨?_, ih h.2 h'⟩
    cases us with
    | nil => exact h.1.of_none _
    | cons u' us => exact h.1

lemma Applies.at {us pre post : List BookUpdate} {u : BookUpdate} (h : Applies M us)
    (hus : us = pre ++ u :: post) : Applicable (M.applyAll pre) u post.head? := by
  induction pre generalizing M us with
  | nil =>
    subst hus
    exact h.1
  | cons v pre ih =>
    subst hus
    exact ih h.2 rfl

/-! ## The mirror covers the book -/

/-- The mirror holds the entry of every resting order, and no resting order is empty. -/
def Covers (M : MirrorBook) (m : Index) : Prop :=
  ∀ id o, m id = some o → o.orderId = id ∧ M.lookup id = some o.entry ∧ 0 < o.qty

/-- One update, with a change of the index that it announces. -/
lemma Covers.update {m : Index} (h : Covers M m) {u : BookUpdate} {o : Option OrderRecord}
    (ho : ∀ x, o = some x → x.orderId = u.orderId ∧ (M.apply u).lookup u.orderId = some x.entry ∧
      0 < x.qty) : Covers (M.apply u) (Function.update m u.orderId o) := by
  intro id x hx
  by_cases hid : id = u.orderId
  · subst hid
    rw [Function.update_self] at hx
    exact ho x hx
  · rw [Function.update_of_ne hid] at hx
    rw [MirrorBook.lookup_apply_of_ne hid]
    exact h id x hx

lemma Covers.remove {m : Index} (h : Covers M m) (id : OrderId) :
    Covers M (Function.update m id none) := by
  intro id' o ho
  by_cases hid : id' = id
  · subst hid
    rw [Function.update_self] at ho
    cases ho
  · rw [Function.update_of_ne hid] at ho
    exact h id' o ho

/-- The order a fill is against is held by the mirror. -/
lemma Covers.holds {m : Index} (h : Covers M m) {o : OrderRecord} (ho : m o.orderId = some o)
    {u : BookUpdate} (hid : u.orderId = o.orderId) (hside : u.side = o.side)
    (hprice : u.price = o.price) : Holds M u o.entry :=
  ⟨by rw [hid]; exact (h _ o ho).2.1, hside.symm, hprice.symm⟩

/-- The two updates of a fill: the `TRADE`, and the `MODIFY` or `CANCEL` of what is left. -/
lemma Covers.fill {i : Incoming} {m : Index} {f : Fill} (h : Covers M m) (hpos : 0 < f.leaves)
    (hrests : m f.order.orderId = some f.order) (hprice : f.price = f.order.price) :
    Applies M (updatesOf (i.fillMsgs f)) ∧
      Covers (M.applyAll (updatesOf (i.fillMsgs f))) (f.apply m) := by
  obtain ⟨-, hlookup, hqty⟩ := h _ _ hrests
  set t : BookUpdate := ⟨.trade, f.order.orderId, i.symbol, f.order.side, f.price, f.qty⟩ with ht
  set v : BookUpdate := if f.restQty = 0 then
      ⟨.cancel, f.order.orderId, i.symbol, f.order.side, f.price, 0⟩
    else ⟨.modify, f.order.orderId, i.symbol, f.order.side, f.price, f.restQty⟩ with hv
  have hmsgs : updatesOf (i.fillMsgs f) = [t, v] := rfl
  have hid : v.orderId = f.order.orderId := by rw [hv]; split_ifs <;> rfl
  have hside : v.side = f.order.side := by rw [hv]; split_ifs <;> rfl
  have hvprice : v.price = f.price := by rw [hv]; split_ifs <;> rfl
  have happly : M.apply t = M := MirrorBook.apply_trade rfl
  have hfqty := f.toNat_qty
  have hrest := f.toNat_restQty
  rw [qty_pos_iff] at hpos hqty
  rw [hmsgs]
  refine ⟨⟨⟨f.order.entry, h.holds hrests rfl rfl hprice, ?_, ?_, v, rfl, hid, hside, hvprice, ?_,
    ?_⟩, ?_, trivial⟩, ?_⟩
  · change 0 < f.qty
    rw [qty_pos_iff]
    omega
  · change f.qty ≤ f.order.qty
    rw [UInt64.le_iff_toNat_le]
    omega
  · intro hlt
    change f.qty < f.order.qty at hlt
    rw [UInt64.lt_iff_toNat_lt] at hlt
    have hne : f.restQty ≠ 0 := by
      rw [Ne, qty_eq_zero_iff]
      omega
    rw [hv, if_neg hne]
    exact ⟨rfl, rfl⟩
  · intro heq
    change f.qty = f.order.qty at heq
    rw [← UInt64.toNat_inj] at heq
    have hzero : f.restQty = 0 := by
      rw [qty_eq_zero_iff]
      omega
    rw [hv, if_pos hzero]
  · -- the second update, on the mirror that the `TRADE` has left alone
    rw [happly]
    have hholds := h.holds hrests hid hside (hvprice.trans hprice)
    by_cases hzero : f.restQty = 0
    · rw [hv, if_pos hzero] at hholds ⊢
      exact ⟨_, hholds⟩
    · rw [hv, if_neg hzero] at hholds ⊢
      exact ⟨⟨_, hholds⟩, (qty_pos_iff_ne _).mpr hzero⟩
  · rw [MirrorBook.applyAll_cons, MirrorBook.applyAll_cons, MirrorBook.applyAll_nil, happly,
      Fill.apply, ← hid]
    refine h.update fun x hx => ?_
    rw [Fill.remainder] at hx
    split_ifs at hx with hzero
    obtain rfl := Option.some.inj hx
    refine ⟨hid.symm, ?_, (qty_pos_iff_ne _).mpr hzero⟩
    have htype : v.type = .modify := by rw [hv, if_neg hzero]
    have hvqty : v.qty = f.restQty := by rw [hv, if_neg hzero]
    rw [M.lookup_apply_modify v htype, hid, hlookup, hvqty]
    rfl

/-- The updates of a chain of fills. -/
lemma FillChain.covers {i : Incoming} {m m' : Index} {leaves leaves' : Qty} {fills : List Fill}
    (hchain : FillChain i m leaves fills m' leaves') {M : MirrorBook} (h : Covers M m) :
    Applies M (updatesOf (i.msgs fills)) ∧ Covers (M.applyAll (updatesOf (i.msgs fills))) m' := by
  induction hchain generalizing M with
  | nil => exact ⟨trivial, h⟩
  | @cons m m' f fills leaves' hpos hrests _ hprice _ _ ih =>
    obtain ⟨happlies, hcovers⟩ := h.fill (i := i) hpos hrests hprice
    obtain ⟨happlies', hcovers'⟩ := ih hcovers
    have hmsgs : updatesOf (i.msgs (f :: fills)) =
        updatesOf (i.fillMsgs f) ++ updatesOf (i.msgs fills) := by
      simp [Incoming.msgs]
    rw [hmsgs, MirrorBook.applyAll_append]
    exact ⟨happlies.append happlies', hcovers'⟩

/-! ## Requests -/

namespace Ladder

variable {L L' : Ladder} {symbol : Symbol} {req : EngineOrderRequest} {now : Nanos}
  {msgs : List OutMsg} {i : Incoming} {qty : Qty}

/-- Matching, then adding what is left. -/
lemma WF.place_covers (h : L.WF) (hM : Covers M L.find) (hfree : L.find i.orderId = none)
    (orderType : OrderType) (price : Price) :
    Applies M (updatesOf (L.place i orderType price qty now).2) ∧
      Covers (M.applyAll (updatesOf (L.place i orderType price qty now).2))
        (L.place i orderType price qty now).1.find := by
  have hchain : FillChain i L.find qty (L.trade i qty).fills _ _ := h.fillChain_trade
  obtain ⟨happlies, hcovers⟩ := hchain.covers hM
  rw [Ladder.place]
  split_ifs with hpos
  · rw [updatesOf_append, MirrorBook.applyAll_append,
      h.trade.find_rest (Rep.find_trade_eq_none h hfree)]
    set u : BookUpdate := ⟨.add, i.orderId, i.symbol, i.side, price, (L.trade i qty).leaves⟩
    refine ⟨happlies.append ⟨trivial, trivial⟩, hcovers.update (u := u) fun x hx => ?_⟩
    obtain rfl := Option.some.inj hx
    exact ⟨rfl, MirrorBook.lookup_apply_add _ u rfl, hpos⟩
  · exact ⟨happlies, hcovers⟩

/-- A `MODIFY` of the quantity of a resting order. -/
lemma covers_modify {m : Index} (hM : Covers M m) {u : BookUpdate} (ht : u.type = .modify)
    (hqty : 0 < u.qty) {o o' : OrderRecord} (ho : m u.orderId = some o) (hside : u.side = o.side)
    (hprice : u.price = o.price) (hid : o'.orderId = u.orderId) (hq : 0 < o'.qty)
    (ho' : o'.entry = { o.entry with qty := u.qty }) :
    Applies M [u] ∧ Covers (M.applyAll [u]) (Function.update m u.orderId (some o')) := by
  obtain ⟨hoid, hlookup, -⟩ := hM _ o ho
  refine ⟨⟨?_, trivial⟩, hM.update fun x hx => ?_⟩
  · rw [Applicable, ht]
    exact ⟨⟨o.entry, hlookup, hside.symm, hprice.symm⟩, hqty⟩
  · obtain rfl := Option.some.inj hx
    refine ⟨hid, ?_, hq⟩
    rw [M.lookup_apply_modify u ht, hlookup, ho']
    rfl

/-- The updates of a request are applicable one after the other, and the mirror covers the book
again after them. -/
lemma Step.covers (h : L.WF) (hM : Covers M L.find) (hstep : Step symbol L req now L' msgs) :
    Applies M (updatesOf msgs) ∧ Covers (M.applyAll (updatesOf msgs)) L'.find := by
  cases hstep with
  | reject | keep => exact ⟨trivial, hM⟩
  | limit hi htype hsound hfree =>
    rw [ackMsg, updatesOf_response]
    exact h.place_covers hM (by rw [hi]; exact hfree) _ _
  | @take i price limit hi hprice hqty hfree =>
    have hchain : FillChain i L.find req.qty (L.trade i req.qty).fills _ _ := h.fillChain_trade
    rw [ackMsg, updatesOf_response, updatesOf_take]
    exact hchain.covers hM
  | @cancel o htype hfind hclient =>
    set u : BookUpdate := ⟨.cancel, req.orderId, symbol, o.side, o.price, o.qty⟩
    rw [h.find_remove]
    refine ⟨⟨⟨o.entry, (hM _ o hfind).2.1, rfl, rfl⟩, trivial⟩, ?_⟩
    exact hM.update (u := u) fun x hx => by cases hx
  | @reprice o i hi htype hfind hclient hprice hsound =>
    rw [ackMsg, updatesOf_response]
    refine (h.remove _).place_covers ?_ (by rw [hi]; exact find_remove_self L _) _ _
    rw [h.find_remove]
    exact hM.remove _
  | @shrink o htype hfind hclient hprice hsound hlt =>
    rw [h.find_setQty hfind]
    exact covers_modify hM (u := ⟨.modify, req.orderId, symbol, o.side, o.price, req.qty⟩) rfl
      hsound.qty_pos hfind rfl rfl (h.find_eq_some.mp hfind).2 hsound.qty_pos rfl
  | @grow o htype hfind hclient hprice hsound hgt =>
    rw [h.find_requeue]
    · refine covers_modify hM (u := ⟨.modify, req.orderId, symbol, o.side, o.price, req.qty⟩) rfl
        hsound.qty_pos hfind rfl rfl rfl hsound.qty_pos ?_
      rw [OrderRecord.entry, OrderRecord.entry, (h.find_eq_some.mp hfind).2]
    · rfl

end Ladder

/-! ## Runs -/

/-- The mirror of the updates a run has written covers the ladder it has reached. -/
lemma runAll_covers (symbol : Symbol) (reqs : List (EngineOrderRequest × Nanos)) :
    Applies ∅ (updatesOf (Ladder.empty.runAll symbol reqs).2) ∧
      Covers ((∅ : MirrorBook).applyAll (updatesOf (Ladder.empty.runAll symbol reqs).2))
        (Ladder.empty.runAll symbol reqs).1.find := by
  refine Ladder.runAll_induction symbol
    (I := fun _ L log => Applies ∅ (updatesOf log) ∧
      Covers ((∅ : MirrorBook).applyAll (updatesOf log)) L.find)
    ⟨trivial, fun id o ho => ?_⟩ (fun reqs L log req now hwf _ ih => ?_) reqs
  · simp [Ladder.find, Ladder.all, Ladder.orders, Ladder.empty] at ho
  · obtain ⟨happlies, hcovers⟩ := (Ladder.process_step symbol L req now).covers hwf ih.2
    rw [updatesOf_append, MirrorBook.applyAll_append]
    exact ⟨ih.1.append happlies, hcovers⟩

/-- On the updates of one symbol the mirror of all symbols does what the mirror of that symbol
does. -/
lemma Mirror.applyUpdates_of_symbol {us : List BookUpdate} {symbol : Symbol}
    (h : ∀ u ∈ us, u.symbol = symbol) :
    Mirror.empty.applyUpdates us symbol = (∅ : MirrorBook).applyAll us := by
  rw [applyUpdates_apply, List.filter_eq_self.mpr fun u hu => by simp [h u hu]]
  rfl

/-- In the stream of updates of any run, each update is applicable to the mirror of those before
it; and the `CANCEL` that a cancel request causes carries the quantity the mirror has. -/
theorem updates_applicable {symbol : Symbol} {reqs : List (EngineOrderRequest × Nanos)}
    {b : SymbolOrderBook} (hb : run (.new symbol) reqs = .ok b) :
    (∀ pre u post, updatesOf b.sent = pre ++ u :: post →
      Applicable (Mirror.empty.applyUpdates pre symbol) u post.head?) ∧
    (∀ req now b', processRequest b req now = .ok b' → req.orderType = .cancel →
      ∀ pre u post, updatesOf b'.sent = updatesOf b.sent ++ pre ++ u :: post → u.type = .cancel →
        ∃ e, (Mirror.empty.applyUpdates (updatesOf b.sent ++ pre) symbol).lookup u.orderId =
            some e ∧ e.qty = u.qty) := by
  obtain ⟨S, hS⟩ := (run_refines symbol reqs).of_ok hb
  have hsymbol : ∀ u ∈ updatesOf b.sent, u.symbol = symbol := fun u hu => symbol_of_mem_sent hb hu
  obtain ⟨happlies, hcovers⟩ := runAll_covers symbol reqs
  rw [← hS.sent] at happlies hcovers
  rw [← hS.view] at hcovers
  constructor
  · intro pre u post hsplit
    have hpre : ∀ v ∈ pre, v.symbol = symbol := fun v hv => hsymbol v (by rw [hsplit]; simp [hv])
    rw [Mirror.applyUpdates_of_symbol hpre]
    exact happlies.at hsplit
  · intro req now b' hb' htype pre u post hsplit hcancel
    -- a cancel request writes one update at most
    obtain ⟨-, -, -, hsent, -⟩ := (hS.rep.processRequest req now).of_ok hb'
    have hupdates : updatesOf ((view b S).process b.symbol req now).2 = pre ++ u :: post := by
      rw [hsent, updatesOf_append, List.append_assoc] at hsplit
      exact List.append_cancel_left hsplit
    have hstep := Ladder.process_step b.symbol (view b S) req now
    generalize ((view b S).process b.symbol req now).1 = L',
      ((view b S).process b.symbol req now).2 = msgs at hstep hupdates
    cases hstep with
    | @cancel o _ hfind hclient =>
      obtain ⟨rfl, hu⟩ : pre = [] ∧
          u = ⟨.cancel, req.orderId, b.symbol, o.side, o.price, o.qty⟩ := by
        cases pre with
        | nil => exact ⟨rfl, (List.cons.inj hupdates).1.symm⟩
        | cons v pre => exact absurd (List.cons.inj hupdates).2 (by simp)
      rw [List.append_nil, Mirror.applyUpdates_of_symbol hsymbol, hu]
      exact ⟨o.entry, (hcovers _ o hfind).2.1, rfl⟩
    | reject | keep => simp at hupdates
    | limit _ ht => simp [ht] at htype
    | take _ hp => rcases hp with ⟨ht, -⟩ | ⟨ht, -⟩ <;> simp [ht] at htype
    | reprice _ ht | shrink ht | grow ht => simp [ht] at htype

/-- A sell for 5 of which a buy takes 3: the `TRADE` for 3 finds 5 in the mirror, and a `MODIFY`
to 2 follows. -/
theorem updates_applicable_partial_fill :
    ∃ b, run (.new "A") [(⟨.limit, 1, "A", 10, .sell, 100, 5, 0⟩, 0),
        (⟨.limit, 2, "A", 11, .buy, 100, 3, 0⟩, 1)] = .ok b ∧
      updatesOf b.sent = [⟨.add, 10, "A", .sell, 100, 5⟩, ⟨.trade, 10, "A", .sell, 100, 3⟩,
        ⟨.modify, 10, "A", .sell, 100, 2⟩] ∧
      Applicable (Mirror.empty.applyUpdates [⟨.add, 10, "A", .sell, 100, 5⟩] "A")
        ⟨.trade, 10, "A", .sell, 100, 3⟩ (some ⟨.modify, 10, "A", .sell, 100, 2⟩) := by
  obtain ⟨b, hb, hcheck⟩ := exists_ok_of_check
    (x := run (.new "A") [(⟨.limit, 1, "A", 10, .sell, 100, 5, 0⟩, 0),
      (⟨.limit, 2, "A", 11, .buy, 100, 3, 0⟩, 1)])
    (p := fun b => decide (updatesOf b.sent = [⟨.add, 10, "A", .sell, 100, 5⟩,
      ⟨.trade, 10, "A", .sell, 100, 3⟩, ⟨.modify, 10, "A", .sell, 100, 2⟩])) (by decide)
  have hupdates := of_decide_eq_true hcheck
  exact ⟨b, hb, hupdates, (updates_applicable hb).1 [_] _ [_] hupdates⟩

end MatchingEngine
