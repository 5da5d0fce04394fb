import MatchingEngine.Properties.Execution

/-!
# A request touches only what it may

The frame of a request: apart from the order it names, if the client owns it, a resting order
changes only by trading with the order the request submits or re-submits.  Then it belongs to
somebody else, stands on the contra side, loses exactly the quantity its owner is told of, and
nothing else about it changes.  The queues keep their order: whoever stays in a level keeps the
place relative to everybody else who stays.

The facts about single orders come from the id index (`Step.spends`), those about the order of the
queues from the list of prices and ids of a side (`Step.places_sublist`).
-/

namespace MatchingEngine

open OrderedMaps

/-- The side of the order a request submits, or re-submits; `named` is the order resting under its
id. -/
def submittedSide (req : EngineOrderRequest) (named : Option OrderRecord) : Option Side :=
  match req.orderType with
  | .limit | .market | .ioc => some req.side
  | .modify => named.map OrderRecord.side
  | .cancel | .invalid => none

/-- What becomes of an order `o`, resting on side `s`, that the request has no title to change:
`exec` is what its owner is told was executed. -/
structure OnlyTraded (req : EngineOrderRequest) (b b' : SymbolOrderBook) (s : BookSide)
    (o : OrderRecord) (exec : ℕ) : Prop where
  le : exec ≤ o.qty.toNat
  /-- Without a trade it is unchanged in all fields. -/
  unchanged : exec = 0 → o ∈ b'.resting s
  /-- It trades with another client's order on the contra side. -/
  traded : 0 < exec → o.clientId ≠ req.clientId ∧
    ∃ side, submittedSide req (b.restingOrder req.orderId) = some side ∧ s = side.bookSide.contra
  /-- It leaves the book exactly if all of it is executed. -/
  removed : b'.restingOrder o.orderId = none ↔ exec = o.qty.toNat
  /-- Otherwise only its quantity changes, by what was executed. -/
  reduced : exec < o.qty.toNat →
    ∃ q, { o with qty := q } ∈ b'.resting s ∧ q.toNat + exec = o.qty.toNat

/-- The effect of a request on the book, as far as it concerns orders other than the one named. -/
structure TouchesOnly (req : EngineOrderRequest) (b b' : SymbolOrderBook) (msgs : List OutMsg) :
    Prop where
  others : ∀ s, ∀ o ∈ b.resting s, ¬ (o.orderId = req.orderId ∧ o.clientId = req.clientId) →
    OnlyTraded req b b' s o (execQtyOf o.orderId msgs)
  /-- No other order of the same client changes. -/
  own : ∀ s, ∀ o ∈ b.resting s, o.clientId = req.clientId → o.orderId ≠ req.orderId →
    o ∈ b'.resting s
  /-- The orders that stay in a level keep their relative order. -/
  fifo : ∀ s price,
    (((ordersAt (b'.ladder s) price).map OrderRecord.orderId).filter
      fun id => decide (id ≠ req.orderId)).Sublist
    (((ordersAt (b.ladder s) price).map OrderRecord.orderId).filter
      fun id => decide (id ≠ req.orderId))
  /-- A cancel, or a modify that keeps the price, concerns the named order only. -/
  quiet : req.orderType = .cancel ∨ req.orderType = .modify ∧
      (∀ o, b.restingOrder req.orderId = some o → o.price = req.price) →
    ∀ s, (b'.resting s).filter (fun o => decide (o.orderId ≠ req.orderId)) =
      (b.resting s).filter fun o => decide (o.orderId ≠ req.orderId)
  /-- A smaller quantity at the same price leaves the order where it is. -/
  in_place : ∀ o, b.restingOrder req.orderId = some o → req.orderType = .modify →
    o.clientId = req.clientId → o.price = req.price → 0 < req.qty → req.qty < o.qty →
    ∃ before after, ordersAt (b.ladder o.side.bookSide) o.price = before ++ o :: after ∧
      ordersAt (b'.ladder o.side.bookSide) o.price =
        before ++ { o with qty := req.qty, originalQty := req.qty } :: after

namespace Ladder

variable {L L' : Ladder} {symbol : Symbol} {req : EngineOrderRequest} {now : Nanos}
  {msgs : List OutMsg} {i : Incoming} {qty : Qty}

/-! ## Single orders -/

/-- The order `o` has lost `exec` of its quantity, and is gone if that was all. -/
def Spends (L' : Ladder) (o : OrderRecord) (exec : ℕ) : Prop :=
  (L'.find o.orderId = none ∧ exec = o.qty.toNat) ∨
    ∃ q, L'.find o.orderId = some { o with qty := q } ∧ 0 < q ∧ q.toNat + exec = o.qty.toNat

lemma spends_zero {o : OrderRecord} (h : L'.find o.orderId = some o) (hpos : 0 < o.qty) :
    Spends L' o 0 :=
  .inr ⟨o.qty, h, hpos, rfl⟩

lemma Spends.congr {o : OrderRecord} {exec : ℕ} (h : Spends L o exec)
    (hfind : L'.find o.orderId = L.find o.orderId) : Spends L' o exec := by
  unfold Spends
  rwa [hfind]

/-- Matching takes from the other clients' contra orders what it reports. -/
lemma WF.trade_spends (h : L.WF) (hfree : L.find i.orderId = none) {o : OrderRecord}
    (ho : L.find o.orderId = some o) (hpos : 0 < o.qty) :
    Spends (L.trade i qty).rest o (execQtyOf o.orderId (i.msgs (L.trade i qty).fills)) ∧
      (0 < execQtyOf o.orderId (i.msgs (L.trade i qty).fills) →
        o.clientId ≠ i.clientId ∧ o.side.bookSide = i.target) := by
  have hchain : FillChain i L.find qty (L.trade i qty).fills _ _ := h.fillChain_trade
  obtain ⟨hspends, htraded⟩ := hchain.exec_resting hfree ho hpos
  exact ⟨hspends, fun hlt => ⟨(Incoming.eligible_iff.mp (htraded hlt).2).1, (htraded hlt).1⟩⟩

lemma WF.place_spends (h : L.WF) (hfree : L.find i.orderId = none) {o : OrderRecord}
    (ho : L.find o.orderId = some o) (hpos : 0 < o.qty) (orderType : OrderType) (price : Price) :
    Spends (L.place i orderType price qty now).1 o
        (execQtyOf o.orderId (L.place i orderType price qty now).2) ∧
      (0 < execQtyOf o.orderId (L.place i orderType price qty now).2 →
        o.clientId ≠ i.clientId ∧ o.side.bookSide = i.target) := by
  have hne : o.orderId ≠ i.orderId := fun he => by
    rw [he, hfree] at ho
    cases ho
  obtain ⟨hspends, htraded⟩ : Spends (L.trade i qty).rest o _ ∧ _ := h.trade_spends hfree ho hpos
  rw [Ladder.place]
  split_ifs with hleaves
  · rw [execQtyOf_append_silent _ _ (by simp [OutMsg.isTrade])]
    refine ⟨hspends.congr ?_, htraded⟩
    rw [h.trade.find_rest (Rep.find_trade_eq_none h hfree), Function.update_of_ne hne]
  · exact ⟨hspends, htraded⟩

lemma WF.take_spends (h : L.WF) (hfree : L.find i.orderId = none) {o : OrderRecord}
    (ho : L.find o.orderId = some o) (hpos : 0 < o.qty) (price : Price) :
    Spends (L.take i price qty).1 o (execQtyOf o.orderId (L.take i price qty).2) ∧
      (0 < execQtyOf o.orderId (L.take i price qty).2 →
        o.clientId ≠ i.clientId ∧ o.side.bookSide = i.target) := by
  have hsilent : execQtyOf o.orderId (L.take i price qty).2 =
      execQtyOf o.orderId (i.msgs (L.trade i qty).fills) := by
    refine execQtyOf_append_silent _ _ ?_
    split_ifs <;> simp [OutMsg.isTrade]
  rw [hsilent]
  exact h.trade_spends hfree ho hpos

lemma execQtyOf_ack (id : OrderId) {status : ResponseStatus} (hs : status ≠ .filled)
    (price : Price) (log : List OutMsg) :
    execQtyOf id (ackMsg status i price qty :: log) = execQtyOf id log := by
  have hack : execQtyOf id [ackMsg status i price qty] = 0 :=
    execQtyOf_of_silent (by simp [OutMsg.isTrade, ackMsg, hs]) id
  rw [← List.singleton_append, execQtyOf_append, hack, Nat.zero_add]

/-- Every order but the client's own named one loses what is reported under its id; it does so
only to another client, from the contra side. -/
lemma Step.spends (h : L.WF) (hsound : L.Forall SoundOrder) (hstep : Step symbol L req now L' msgs)
    {o : OrderRecord} (ho : L.find o.orderId = some o)
    (hnot : ¬ (o.orderId = req.orderId ∧ o.clientId = req.clientId)) :
    Spends L' o (execQtyOf o.orderId msgs) ∧
      (0 < execQtyOf o.orderId msgs → o.clientId ≠ req.clientId ∧
        ∃ side, submittedSide req (L.find req.orderId) = some side ∧
          o.side.bookSide = side.bookSide.contra) := by
  have hpos : 0 < o.qty := (hsound o (h.find_eq_some.mp ho).1).qty_pos
  -- the order a cancel or modify names is the client's own, so it is not `o`
  have hother : ∀ x, L.find req.orderId = some x → x.clientId = req.clientId →
      o.orderId ≠ req.orderId := by
    intro x hx hclient he
    rw [he, hx] at ho
    obtain rfl := Option.some.inj ho
    exact hnot ⟨he, hclient⟩
  have hsilent : (∀ m ∈ msgs, m.isTrade = false) → L'.find o.orderId = L.find o.orderId →
      Spends L' o (execQtyOf o.orderId msgs) ∧
      (0 < execQtyOf o.orderId msgs → o.clientId ≠ req.clientId ∧
        ∃ side, submittedSide req (L.find req.orderId) = some side ∧
          o.side.bookSide = side.bookSide.contra) := by
    intro hmsgs hfind
    rw [execQtyOf_of_silent hmsgs]
    exact ⟨spends_zero (hfind.trans ho) hpos, fun hlt => absurd hlt (Nat.lt_irrefl 0)⟩
  cases hstep with
  | reject r hr =>
    refine hsilent ?_ rfl
    simp [OutMsg.isTrade, ne_filled_of_isReject hr]
  | @limit i hi htype _ hfree =>
    rw [execQtyOf_ack _ (by simp)]
    obtain ⟨hspends, htraded⟩ := h.place_spends (i := i) (by rw [hi]; exact hfree) ho hpos .limit
      req.price
    rw [show i.clientId = req.clientId by rw [hi],
      show i.target = req.side.bookSide.contra by rw [hi]; rfl] at htraded
    refine ⟨hspends, fun hlt => ⟨(htraded hlt).1, req.side, ?_, (htraded hlt).2⟩⟩
    rw [submittedSide, htype]
  | @take i price limit hi hprice hqty hfree =>
    rw [execQtyOf_ack _ (by simp)]
    obtain ⟨hspends, htraded⟩ := h.take_spends (i := i) (by rw [hi]; exact hfree) ho hpos price
    rw [show i.clientId = req.clientId by rw [hi],
      show i.target = req.side.bookSide.contra by rw [hi]; rfl] at htraded
    refine ⟨hspends, fun hlt => ⟨(htraded hlt).1, req.side, ?_, (htraded hlt).2⟩⟩
    rcases hprice with ⟨htype, -⟩ | ⟨htype, -⟩ <;> rw [submittedSide, htype]
  | @cancel x htype hfind hclient =>
    refine hsilent (by simp [OutMsg.isTrade]) ?_
    rw [h.find_remove, Function.update_of_ne (hother x hfind hclient)]
  | @reprice x i hi htype hfind hclient hprice _ =>
    have hne := hother x hfind hclient
    have ho' : (L.remove req.orderId).find o.orderId = some o := by
      rw [h.find_remove, Function.update_of_ne hne, ho]
    rw [execQtyOf_ack _ (by simp)]
    obtain ⟨hspends, htraded⟩ := (h.remove _).place_spends (i := i)
      (by rw [hi]; exact find_remove_self L _) ho' hpos x.orderType req.price
    rw [show i.clientId = req.clientId by rw [hi],
      show i.target = x.side.bookSide.contra by rw [hi]; rfl] at htraded
    refine ⟨hspends, fun hlt => ⟨(htraded hlt).1, x.side, ?_, (htraded hlt).2⟩⟩
    rw [submittedSide, htype, hfind]
    rfl
  | @shrink x htype hfind hclient _ _ _ =>
    refine hsilent (by simp [OutMsg.isTrade]) ?_
    rw [h.find_setQty hfind, Function.update_of_ne (hother x hfind hclient)]
  | @grow x htype hfind hclient _ _ _ =>
    refine hsilent (by simp [OutMsg.isTrade]) ?_
    rw [h.find_requeue (x := ⟨req.orderId, req.clientId, symbol, x.orderType, x.side, x.price,
      req.qty, req.qty, now⟩) rfl, Function.update_of_ne (hother x hfind hclient)]
  | keep => exact hsilent (by simp [OutMsg.isTrade]) rfl

/-! ## The order of the queues -/

/-- The queue of one side, without one id. -/
def ordersBut (L : Ladder) (id : OrderId) (s : BookSide) : List OrderRecord :=
  (L.orders s).filter fun o => decide (o.orderId ≠ id)

/-- The prices and ids along the queue. -/
def placesBut (L : Ladder) (id : OrderId) (s : BookSide) : List (Price × OrderId) :=
  (L.ordersBut id s).map fun o => (o.price, o.orderId)

lemma ordersBut_remove (L : Ladder) (id : OrderId) (s : BookSide) :
    (L.remove id).ordersBut id s = L.ordersBut id s := by
  rw [ordersBut, orders_remove, List.filter_filter, ordersBut]
  simp

lemma WF.ordersBut_rest (h : L.WF) {x : OrderRecord} {id : OrderId} (hid : x.orderId = id)
    (s : BookSide) : (L.rest x).ordersBut id s = L.ordersBut id s := by
  by_cases hs : s = x.side.bookSide
  · subst hs
    have hsplit := h.orders_split x.side.bookSide x.price
    rw [ordersBut, ordersBut, h.orders_rest, List.filter_append,
      List.filter_cons_of_neg (by simp [hid]), ← List.filter_append, ← hsplit]
  · rw [ordersBut, ordersBut, orders_rest_of_ne L x hs]

lemma ordersBut_modify (L : Ladder) (id : OrderId) {f : OrderRecord → OrderRecord} (hf : InPlace f)
    (s : BookSide) : (L.modify id f).ordersBut id s = L.ordersBut id s := by
  have hcomp : ((fun o : OrderRecord => decide (o.orderId ≠ id)) ∘
      fun o => if o.orderId = id then f o else o) = fun o => decide (o.orderId ≠ id) := by
    funext o
    simp only [Function.comp]
    split_ifs with ho
    · rw [hf.orderId]
    · rfl
  rw [ordersBut, ordersBut, orders_modify, List.filter_map, hcomp]
  refine (List.map_congr_left fun o ho => if_neg ?_).trans (List.map_id _)
  simpa using (List.mem_filter.mp ho).2

lemma WF.placesBut_trade (h : L.WF) (id : OrderId) (s : BookSide) :
    ((L.trade i qty).rest.placesBut id s).Sublist (L.placesBut id s) := by
  by_cases hs : s = i.target
  · subst hs
    have hsub : ((i.sweepOrders (L.orders i.target) qty).rest.map fun o =>
        (o.price, o.orderId)).Sublist ((L.orders i.target).map fun o => (o.price, o.orderId)) :=
      Incoming.keys_rest_sublist (fun _ _ => rfl) _ _
    have hfilter := hsub.filter fun k => decide (k.2 ≠ id)
    rw [List.filter_map, List.filter_map] at hfilter
    rw [placesBut, placesBut, ordersBut, ordersBut, h.orders_trade]
    exact hfilter
  · rw [placesBut, placesBut, ordersBut, ordersBut, orders_trade_of_ne hs]

lemma WF.placesBut_place (h : L.WF) {id : OrderId} (hid : i.orderId = id) (orderType : OrderType)
    (price : Price) (s : BookSide) :
    ((L.place i orderType price qty now).1.placesBut id s).Sublist (L.placesBut id s) := by
  rw [Ladder.place]
  split_ifs
  · rw [placesBut, h.trade.ordersBut_rest hid]
    exact h.placesBut_trade id s
  · exact h.placesBut_trade id s

/-- Orders other than the named one keep their relative order. -/
lemma Step.places_sublist (h : L.WF) (hstep : Step symbol L req now L' msgs) (s : BookSide) :
    (L'.placesBut req.orderId s).Sublist (L.placesBut req.orderId s) := by
  cases hstep with
  | reject | keep => exact .refl _
  | limit hi => exact h.placesBut_place (by rw [hi]) _ _ s
  | take hi => exact h.placesBut_trade _ s
  | cancel => rw [placesBut, ordersBut_remove, placesBut]
  | reprice hi =>
    refine ((h.remove _).placesBut_place (by rw [hi]) _ _ s).trans ?_
    rw [placesBut, ordersBut_remove, placesBut]
  | shrink => rw [placesBut, ordersBut_modify L _ (inPlace_setQty _), placesBut]
  | grow => rw [placesBut, (h.remove _).ordersBut_rest rfl, ordersBut_remove, placesBut]

/-- The ids of a level, but one, are read off the list of places. -/
lemma WF.ids_level (h : L.WF) (id : OrderId) (s : BookSide) (price : Price) :
    ((ordersAt (L s) price).map OrderRecord.orderId).filter (fun x => decide (x ≠ id)) =
      ((L.placesBut id s).filter fun k => decide (k.1 = price)).map Prod.snd := by
  rw [h.ordersAt_eq, placesBut, ordersBut, List.filter_map, List.filter_map, List.filter_filter,
    List.map_map, List.filter_filter]
  refine congrArg₂ List.map rfl (List.filter_congr fun o _ => ?_)
  simp only [Function.comp, Bool.and_comm]

/-! ## Requests that concern one order -/

/-- A cancel, or a modify that keeps the price, leaves the other orders as they are. -/
lemma Step.quiet (h : L.WF) (hstep : Step symbol L req now L' msgs)
    (hquiet : req.orderType = .cancel ∨ req.orderType = .modify ∧
      ∀ o, L.find req.orderId = some o → o.price = req.price) (s : BookSide) :
    L'.ordersBut req.orderId s = L.ordersBut req.orderId s := by
  cases hstep with
  | reject | keep => rfl
  | limit _ htype => rcases hquiet with hc | ⟨hm, -⟩ <;> simp_all
  | take _ hprice =>
    rcases hquiet with hc | ⟨hm, -⟩ <;> rcases hprice with ⟨ht, -⟩ | ⟨ht, -⟩ <;> simp_all
  | cancel => exact ordersBut_remove L _ s
  | @reprice x i hi htype hfind hclient hprice =>
    rcases hquiet with hc | ⟨-, hsame⟩
    · simp_all
    · exact absurd (hsame x hfind).symm hprice
  | shrink => exact ordersBut_modify L _ (inPlace_setQty _) s
  | grow => exact ((h.remove _).ordersBut_rest rfl s).trans (ordersBut_remove L _ s)

/-- A smaller quantity at the same price is written where the order stands. -/
lemma process_shrink {o : OrderRecord} (hfind : L.find req.orderId = some o) (hsound : SoundOrder o)
    (htype : req.orderType = .modify) (hclient : o.clientId = req.clientId)
    (hprice : o.price = req.price) (hpos : 0 < req.qty) (hlt : req.qty < o.qty) :
    (L.process symbol req now).1 =
      L.modify req.orderId fun x => { x with qty := req.qty, originalQty := req.qty } := by
  have hvalid : invalidReq req = false := valid_of_sound htype
    ⟨hprice ▸ hsound.price_pos, hpos, ne_invalidQty_of_le (UInt64.le_of_lt hlt) hsound.qty_ne⟩
  unfold process modifyNamed amend
  simp [hvalid, htype, hfind, hclient, hprice, hlt]

lemma ordersAt_modify (L : Ladder) (id : OrderId) (f : OrderRecord → OrderRecord) (s : BookSide)
    (price : Price) : ordersAt (L.modify id f s) price =
      (ordersAt (L s) price).map fun o => if o.orderId = id then f o else o := by
  rw [ordersAt, modify, List.find?_map, ordersAt]
  simp only [Function.comp_def]
  cases (L s).find? fun r => decide (r.1 = price) <;> rfl

/-- Changing one order of a level does not move it. -/
lemma WF.level_modify (h : L.WF) {o : OrderRecord} {id : OrderId} (hfind : L.find id = some o)
    (f : OrderRecord → OrderRecord) :
    ∃ before after, ordersAt (L o.side.bookSide) o.price = before ++ o :: after ∧
      ordersAt (L.modify id f o.side.bookSide) o.price = before ++ f o :: after := by
  obtain ⟨hall, rfl⟩ := h.find_eq_some.mp hfind
  have hmem : o ∈ ordersAt (L o.side.bookSide) o.price := by
    rw [h.ordersAt_eq, List.mem_filter]
    exact ⟨h.mem_orders.mpr ⟨hall, rfl⟩, by simp⟩
  have hnodup : ((ordersAt (L o.side.bookSide) o.price).map OrderRecord.orderId).Nodup := by
    rw [h.ordersAt_eq]
    exact (h.nodup_orders _).sublist (List.filter_sublist.map _)
  obtain ⟨before, after, hsplit⟩ := List.append_of_mem hmem
  rw [hsplit, List.map_append, List.map_cons, List.nodup_append, List.nodup_cons] at hnodup
  obtain ⟨-, ⟨hafter, -⟩, hbefore⟩ := hnodup
  have hkeep : ∀ os : List OrderRecord, o.orderId ∉ os.map OrderRecord.orderId →
      os.map (fun x => if x.orderId = o.orderId then f x else x) = os := fun os hos =>
    (List.map_congr_left fun x hx => if_neg fun he => hos (List.mem_map.mpr ⟨x, hx, he⟩)).trans
      (List.map_id _)
  refine ⟨before, after, hsplit, ?_⟩
  rw [ordersAt_modify, hsplit, List.map_append, List.map_cons, if_pos rfl, hkeep after hafter,
    hkeep before fun hmem => hbefore _ hmem _ (by simp) rfl]

end Ladder

/-! ## Requests on reachable books -/

/-- An order that a request has no title to change does not change but by the trades reported. -/
lemma Rep.onlyTraded {b b' : SymbolOrderBook} {S S' : Shape} {symbol : Symbol}
    {req : EngineOrderRequest} {now : Nanos} {msgs : List OutMsg} (h : Rep b S) (h' : Rep b' S')
    (hsound : (view b S).Forall Ladder.SoundOrder)
    (hstep : Ladder.Step symbol (view b S) req now (view b' S') msgs) {s : BookSide}
    {o : OrderRecord} (ho : o ∈ b.resting s)
    (hnot : ¬ (o.orderId = req.orderId ∧ o.clientId = req.clientId)) :
    OnlyTraded req b b' s o (execQtyOf o.orderId msgs) := by
  have hwf := h.view_wf
  have hwf' := h'.view_wf
  rw [h.resting_eq, hwf.mem_orders] at ho
  obtain ⟨hall, rfl⟩ := ho
  have hfind := hwf.find_eq_some.mpr ⟨hall, rfl⟩
  have hpos := (hsound o hall).qty_pos
  rw [qty_pos_iff] at hpos
  obtain ⟨hspends, htraded⟩ := hstep.spends hwf hsound hfind hnot
  have hmem : ∀ q, (view b' S').find o.orderId = some { o with qty := q } →
      { o with qty := q } ∈ b'.resting o.side.bookSide := fun q hq => by
    rw [h'.resting_eq, hwf'.mem_orders]
    exact ⟨(hwf'.find_eq_some.mp hq).1, rfl⟩
  rcases hspends with ⟨hnone, hexec⟩ | ⟨q, hq, hqpos, hexec⟩
  · constructor
    case le => omega
    case unchanged => omega
    case traded => rwa [h.restingOrder_eq]
    case removed => rw [h'.restingOrder_eq]; exact ⟨fun _ => hexec, fun _ => hnone⟩
    case reduced => omega
  · rw [qty_pos_iff] at hqpos
    constructor
    case le => omega
    case unchanged =>
      intro hzero
      obtain rfl : q = o.qty := by
        rw [← UInt64.toNat_inj]
        omega
      exact hmem _ hq
    case traded => rwa [h.restingOrder_eq]
    case removed =>
      rw [h'.restingOrder_eq, hq]
      exact ⟨fun h => absurd h (by simp), fun h => by omega⟩
    case reduced => exact fun _ => ⟨q, hmem q hq, hexec⟩

/-- In every reachable book, a request changes other orders only by the trades it reports, leaves
the client's other orders alone, and keeps the queues in order; a cancel or a modify at the same
price changes no other order, and a smaller quantity keeps its place. -/
theorem request_frame {symbol : Symbol} {reqs : List (EngineOrderRequest × Nanos)}
    {b b' : SymbolOrderBook} (hb : run (.new symbol) reqs = .ok b) {req : EngineOrderRequest}
    {now : Nanos} (hb' : processRequest b req now = .ok b') :
    ∃ msgs, b'.sent = b.sent ++ msgs ∧ TouchesOnly req b b' msgs := by
  obtain ⟨S, hS⟩ := (run_refines symbol reqs).of_ok hb
  have hrep := hS.rep
  have hwf := hrep.view_wf
  have hsound := hS.sound
  obtain ⟨S', hrep', hview', hsent, -⟩ := (hrep.processRequest req now).of_ok hb'
  have hstep := Ladder.process_step b.symbol (view b S) req now
  rw [← hview'] at hstep
  have hwf' := hrep'.view_wf
  have hothers : ∀ s, ∀ o ∈ b.resting s,
      ¬ (o.orderId = req.orderId ∧ o.clientId = req.clientId) →
      OnlyTraded req b b' s o
        (execQtyOf o.orderId ((view b S).process b.symbol req now).2) := fun s o ho hnot =>
    hrep.onlyTraded hrep' hsound hstep ho hnot
  refine ⟨_, hsent, hothers, fun s o ho hclient hne => ?_, fun s price => ?_, fun hquiet s => ?_,
    fun o ho htype hclient hprice hpos hlt => ?_⟩
  · -- an own order trades with nothing, so it is unchanged
    have honly := hothers s o ho fun hnamed => hne hnamed.1
    refine honly.unchanged (Nat.eq_zero_of_not_pos fun hpos => ?_)
    exact (honly.traded hpos).1 hclient
  · rw [hrep.ladder_eq, hrep'.ladder_eq, hwf.ids_level, hwf'.ids_level]
    exact ((hstep.places_sublist hwf s).filter _).map _
  · rw [hrep.resting_eq, hrep'.resting_eq]
    rw [hrep.restingOrder_eq] at hquiet
    exact hstep.quiet hwf hquiet s
  · rw [hrep.restingOrder_eq] at ho
    rw [hrep.ladder_eq, hrep'.ladder_eq, hview', Ladder.process_shrink ho
      (hsound o (hwf.find_eq_some.mp ho).1) htype hclient hprice hpos hlt]
    exact hwf.level_modify ho _

/-- A buy for 7 against sells for 5 and 4: the first leaves the book, the second stays with 2. -/
theorem request_frame_two_sells :
    ∃ b b' msgs,
      run (.new "A") [(⟨.limit, 1, "A", 10, .sell, 100, 5, 0⟩, 0),
        (⟨.limit, 3, "A", 11, .sell, 100, 4, 0⟩, 1)] = .ok b ∧
      processRequest b ⟨.ioc, 2, "A", 12, .buy, 100, 7, 0⟩ 2 = .ok b' ∧
      b'.sent = b.sent ++ msgs ∧ TouchesOnly ⟨.ioc, 2, "A", 12, .buy, 100, 7, 0⟩ b b' msgs := by
  obtain ⟨b, hb, hcheck⟩ := exists_ok_of_check
    (x := run (.new "A") [(⟨.limit, 1, "A", 10, .sell, 100, 5, 0⟩, 0),
      (⟨.limit, 3, "A", 11, .sell, 100, 4, 0⟩, 1)])
    (p := fun b => (processRequest b ⟨.ioc, 2, "A", 12, .buy, 100, 7, 0⟩ 2).isOk) (by decide)
  cases hb' : processRequest b ⟨.ioc, 2, "A", 12, .buy, 100, 7, 0⟩ 2 with
  | error f =>
    rw [hb'] at hcheck
    cases hcheck
  | ok b' =>
    obtain ⟨msgs, hsent, htouches⟩ := request_frame hb hb'
    exact ⟨b, b', msgs, hb, hb', hsent, htouches⟩

end MatchingEngine
