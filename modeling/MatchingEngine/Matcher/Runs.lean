import Mathlib.Data.List.Induction
import MatchingEngine.Matcher.Refinement

/-!
# Steps and runs

`Ladder.Step` lists what one request can do to a ladder: it is refused, or it takes one of
seven effects.  Invariants of the book are proved by cases on it, and carried over whole runs
by `Ladder.runAll_induction`.

`Reaches` is how facts about the code are stated: processing the requests from the empty book
either stops because a pool is exhausted, which is the only way it can stop, or leads to a book
with the given property.  `run_refines` supplies the ladder and the log of that book, and
`run_induction` carries a fact about books from one request to the next.
-/

namespace MatchingEngine

/-- The status of a request that is refused. -/
def ResponseStatus.isReject : ResponseStatus → Bool
  | .rejected | .cancelRejected | .modifyRejected => true
  | _ => false

lemma ne_filled_of_isReject {s : ResponseStatus} (h : s.isReject = true) : s ≠ .filled := by
  rintro rfl
  cases h

namespace Ladder

/-! ## One step -/

/-- The quantity and price checks of `processRequest` for an order that can rest. -/
structure Sound (price : Price) (qty : Qty) : Prop where
  price_pos : 0 < price
  qty_pos : 0 < qty
  qty_ne : qty ≠ invalidQty

/-- What one request does to a ladder, and the messages it causes. -/
inductive Step (symbol : Symbol) (L : Ladder) (req : EngineOrderRequest) (now : Nanos) :
    Ladder → List OutMsg → Prop
  /-- The request is refused. -/
  | reject (r : EngineOrderResponse) (hr : r.status.isReject = true) :
      Step symbol L req now L [.response r]
  /-- A limit order is accepted and placed. -/
  | limit {i : Incoming} (hi : i = ⟨symbol, req.clientId, req.orderId, req.side, some req.price⟩)
      (htype : req.orderType = .limit) (hsound : Sound req.price req.qty)
      (hfree : L.find req.orderId = none) :
      Step symbol L req now (L.place i .limit req.price req.qty now).1
        (ackMsg .accepted i req.price req.qty :: (L.place i .limit req.price req.qty now).2)
  /-- A market or immediate order is accepted, matched, and its remainder cancelled. -/
  | take {i : Incoming} {price : Price} {limit : Option Price}
      (hi : i = ⟨symbol, req.clientId, req.orderId, req.side, limit⟩)
      (hprice : req.orderType = .market ∧ limit = none ∧ price = invalidPrice ∨
        req.orderType = .ioc ∧ limit = some req.price ∧ price = req.price)
      (hqty : 0 < req.qty) (hfree : L.find req.orderId = none) :
      Step symbol L req now (L.take i price req.qty).1
        (ackMsg .accepted i price req.qty :: (L.take i price req.qty).2)
  /-- A resting order is cancelled by its owner. -/
  | cancel {o : OrderRecord} (htype : req.orderType = .cancel)
      (hfind : L.find req.orderId = some o) (hclient : o.clientId = req.clientId) :
      Step symbol L req now (L.remove req.orderId)
        [ .response ⟨.canceled, req.clientId, symbol, req.orderId, req.orderId, o.side, o.price,
            0, 0⟩,
          .update ⟨.cancel, req.orderId, symbol, o.side, o.price, o.qty⟩ ]
  /-- A resting order gets a new price: it leaves the book and is placed again. -/
  | reprice {o : OrderRecord} {i : Incoming}
      (hi : i = ⟨symbol, req.clientId, req.orderId, o.side, some req.price⟩)
      (htype : req.orderType = .modify) (hfind : L.find req.orderId = some o)
      (hclient : o.clientId = req.clientId) (hprice : req.price ≠ o.price)
      (hsound : Sound req.price req.qty) :
      Step symbol L req now
        ((L.remove req.orderId).place i o.orderType req.price req.qty now).1
        (ackMsg .modified i req.price req.qty ::
          ((L.remove req.orderId).place i o.orderType req.price req.qty now).2)
  /-- A resting order gets a smaller quantity and keeps its place. -/
  | shrink {o : OrderRecord} (htype : req.orderType = .modify)
      (hfind : L.find req.orderId = some o) (hclient : o.clientId = req.clientId)
      (hprice : req.price = o.price) (hsound : Sound req.price req.qty) (hlt : req.qty < o.qty) :
      Step symbol L req now
        (L.modify req.orderId fun x => { x with qty := req.qty, originalQty := req.qty })
        [ .response ⟨.modified, req.clientId, symbol, req.orderId, req.orderId, o.side, o.price, 0,
            req.qty⟩,
          .update ⟨.modify, req.orderId, symbol, o.side, o.price, req.qty⟩ ]
  /-- A resting order gets a larger quantity and goes to the end of its level. -/
  | grow {o : OrderRecord} (htype : req.orderType = .modify)
      (hfind : L.find req.orderId = some o) (hclient : o.clientId = req.clientId)
      (hprice : req.price = o.price) (hsound : Sound req.price req.qty) (hgt : o.qty < req.qty) :
      Step symbol L req now
        ((L.remove req.orderId).rest ⟨req.orderId, req.clientId, symbol, o.orderType, o.side,
          o.price, req.qty, req.qty, now⟩)
        [ .response ⟨.modified, req.clientId, symbol, req.orderId, req.orderId, o.side, o.price, 0,
            req.qty⟩,
          .update ⟨.modify, req.orderId, symbol, o.side, o.price, req.qty⟩ ]
  /-- A modify that changes nothing is acknowledged. -/
  | keep {o : OrderRecord} (htype : req.orderType = .modify)
      (hfind : L.find req.orderId = some o) (hclient : o.clientId = req.clientId)
      (hprice : req.price = o.price) (hqty : req.qty = o.qty) :
      Step symbol L req now L
        [ .response ⟨.modified, req.clientId, symbol, req.orderId, req.orderId, o.side, o.price, 0,
            req.qty⟩ ]

variable {symbol : Symbol} {L L' : Ladder} {req : EngineOrderRequest} {now : Nanos}
  {msgs : List OutMsg}

lemma qty_pos_of_check (hqty : ¬ (req.qty = 0 ∨ req.qty = invalidQty)) : 0 < req.qty := by
  rw [qty_pos_iff]
  exact Nat.pos_of_ne_zero fun h => hqty (.inl ((qty_eq_zero_iff _).mpr h))

lemma sound_of_checks (hqty : ¬ (req.qty = 0 ∨ req.qty = invalidQty)) (hprice : ¬ req.price ≤ 0) :
    Sound req.price req.qty where
  price_pos := Int64.not_le.mp hprice
  qty_pos := qty_pos_of_check hqty
  qty_ne h := hqty (.inr h)

/-- The checks a request that is not refused outright has passed. -/
lemma checks_of_valid (h : invalidReq req = false) :
    req.orderType ≠ .invalid ∧
      (req.orderType.needsQty = true → ¬ (req.qty = 0 ∨ req.qty = invalidQty)) ∧
      (req.orderType.needsPrice = true → ¬ req.price ≤ 0) := by
  simp only [invalidReq, decide_eq_false_iff_not, not_or, not_and] at h
  exact ⟨h.1, fun hn => not_or.mpr (h.2.1 hn), h.2.2⟩

lemma valid_of_sound (htype : req.orderType = .modify) (h : Sound req.price req.qty) :
    invalidReq req = false := by
  have hzero : req.qty ≠ 0 := (qty_pos_iff_ne _).mp h.qty_pos
  have hprice : ¬ req.price ≤ 0 := Int64.not_le.mpr h.price_pos
  simp [invalidReq, htype, hzero, h.qty_ne, hprice]

lemma open_step (hvalid : invalidReq req = false)
    (htype : req.orderType = .limit ∨ req.orderType = .market ∨ req.orderType = .ioc) :
    Step symbol L req now (L.open_ symbol req now).1 (L.open_ symbol req now).2 := by
  obtain ⟨-, hqty, hprice⟩ := checks_of_valid hvalid
  unfold open_
  by_cases hdup : (L.find req.orderId).isSome = true
  · simp only [if_pos hdup]
    exact .reject _ rfl
  have hfree : L.find req.orderId = none := by simpa using hdup
  simp only [if_neg hdup]
  rcases htype with htype | htype | htype
  · have hmarket : req.orderType ≠ .market := by simp [htype]
    simp only [if_neg hmarket, if_pos htype, incomingOf]
    exact .limit rfl htype (sound_of_checks (hqty (by simp [htype, OrderType.needsQty]))
      (hprice (by simp [htype, OrderType.needsPrice]))) hfree
  · have hlimit : req.orderType ≠ .limit := by simp [htype]
    simp only [if_neg hlimit, if_pos htype, incomingOf]
    exact .take rfl (.inl ⟨htype, rfl, rfl⟩)
      (qty_pos_of_check (hqty (by simp [htype, OrderType.needsQty]))) hfree
  · have hmarket : req.orderType ≠ .market := by simp [htype]
    have hlimit : req.orderType ≠ .limit := by simp [htype]
    simp only [if_neg hlimit, if_neg hmarket, incomingOf]
    exact .take rfl (.inr ⟨htype, rfl, rfl⟩)
      (qty_pos_of_check (hqty (by simp [htype, OrderType.needsQty]))) hfree

lemma cancel_step (htype : req.orderType = .cancel) :
    Step symbol L req now (L.cancel symbol req).1 (L.cancel symbol req).2 := by
  unfold cancel
  cases hfind : L.find req.orderId with
  | none => exact .reject _ rfl
  | some o =>
    by_cases hclient : o.clientId ≠ req.clientId
    · simp only [if_pos hclient]
      exact .reject _ rfl
    · simp only [if_neg hclient]
      exact .cancel htype hfind (not_not.mp hclient)

lemma modify_step (hvalid : invalidReq req = false) (htype : req.orderType = .modify) :
    Step symbol L req now (L.modifyNamed symbol req now).1 (L.modifyNamed symbol req now).2 := by
  obtain ⟨-, hqty, hprice⟩ := checks_of_valid hvalid
  have hsound := sound_of_checks (hqty (by simp [htype, OrderType.needsQty]))
    (hprice (by simp [htype, OrderType.needsPrice]))
  unfold modifyNamed
  cases hfind : L.find req.orderId with
  | none => exact .reject _ rfl
  | some o =>
    by_cases hclient : o.clientId ≠ req.clientId
    · simp only [if_pos hclient]
      exact .reject _ rfl
    have hclient : o.clientId = req.clientId := not_not.mp hclient
    simp only [hclient, ne_eq, not_true, if_false, amend]
    by_cases hp : req.price ≠ o.price
    · simp only [if_pos hp]
      exact .reprice rfl htype hfind hclient hp hsound
    have hp' : req.price = o.price := not_not.mp hp
    simp only [if_neg hp]
    by_cases hlt : req.qty < o.qty
    · simp only [if_pos hlt]
      exact .shrink htype hfind hclient hp' hsound hlt
    simp only [if_neg hlt]
    by_cases hgt : req.qty > o.qty
    · simp only [if_pos hgt]
      exact .grow htype hfind hclient hp' hsound hgt
    · have heq : req.qty = o.qty := by
        rw [← UInt64.toNat_inj]
        rw [UInt64.lt_iff_toNat_lt] at hlt
        rw [gt_iff_lt, UInt64.lt_iff_toNat_lt] at hgt
        omega
      simp only [if_neg hgt]
      rw [← heq]
      exact .keep htype hfind hclient hp' heq

lemma process_step (symbol : Symbol) (L : Ladder) (req : EngineOrderRequest) (now : Nanos) :
    Step symbol L req now (L.process symbol req now).1 (L.process symbol req now).2 := by
  unfold process
  by_cases hvalid : invalidReq req = true
  · simp only [if_pos hvalid]
    exact .reject _ rfl
  have hvalid' : invalidReq req = false := by simpa using hvalid
  simp only [if_neg hvalid]
  cases htype : req.orderType with
  | cancel => exact cancel_step htype
  | modify => exact modify_step hvalid' htype
  | limit => exact open_step hvalid' (.inl htype)
  | market => exact open_step hvalid' (.inr (.inl htype))
  | ioc => exact open_step hvalid' (.inr (.inr htype))
  | invalid => exact absurd htype (checks_of_valid hvalid').1

/-! ## Well-formedness and soundness of a step -/

/-- An order that may stand on the book. -/
def SoundOrder (o : OrderRecord) : Prop := Sound o.price o.qty

lemma Sound.of_survives {o₀ o : OrderRecord} (hs : Incoming.Survives o₀ o) (h : SoundOrder o₀) :
    SoundOrder o where
  price_pos := by
    rw [hs.eq]
    exact h.price_pos
  qty_pos := hs.pos h.qty_pos
  qty_ne := ne_invalidQty_of_le hs.le h.qty_ne

lemma WF.forall_trade {P : OrderRecord → Prop} (h : L.WF)
    (hP : ∀ o₀ o, Incoming.Survives o₀ o → P o₀ → P o) (hL : L.Forall P) {i : Incoming}
    {qty : Qty} : (L.trade i qty).rest.Forall P := by
  intro o ho
  obtain ⟨s, hs⟩ := mem_all.mp ho
  obtain ⟨o₀, ho₀, hsurv⟩ := h.survives_trade hs
  exact hP o₀ o hsurv (hL o₀ (mem_all.mpr ⟨s, ho₀⟩))

lemma Forall.remove {P : OrderRecord → Prop} (hL : L.Forall P) (id : OrderId) :
    (L.remove id).Forall P :=
  fun o ho => hL o (mem_all_remove.mp ho).1

lemma Forall.modify {P : OrderRecord → Prop} (hL : L.Forall P) (id : OrderId)
    {f : OrderRecord → OrderRecord} (hf : ∀ o, P o → P (f o)) : (L.modify id f).Forall P := by
  intro o ho
  rw [all_modify] at ho
  obtain ⟨o₀, ho₀, rfl⟩ := List.mem_map.mp ho
  split_ifs
  · exact hf o₀ (hL o₀ ho₀)
  · exact hL o₀ ho₀

lemma WF.forall_rest {P : OrderRecord → Prop} (h : L.WF) (hL : L.Forall P) {x : OrderRecord}
    (hx : P x) : (L.rest x).Forall P := by
  intro o ho
  rcases h.mem_all_rest.mp ho with rfl | ho
  · exact hx
  · exact hL o ho

lemma WF.place (h : L.WF) {i : Incoming} (hfree : L.find i.orderId = none) {orderType : OrderType}
    {price : Price} {qty : Qty} : (L.place i orderType price qty now).1.WF := by
  rw [Ladder.place]
  split_ifs
  · exact h.trade.rest (Rep.find_trade_eq_none h hfree)
  · exact h.trade

/-- A property that a partial fill keeps, and that what is left of the incoming order has. -/
lemma WF.forall_place {P : OrderRecord → Prop} (h : L.WF)
    (hP : ∀ o₀ o, Incoming.Survives o₀ o → P o₀ → P o) (hL : L.Forall P) {i : Incoming}
    {orderType : OrderType} {price : Price} {qty : Qty}
    (hi : ∀ leaves, 0 < leaves → leaves ≤ qty →
      P ⟨i.orderId, i.clientId, i.symbol, orderType, i.side, price, qty, leaves, now⟩) :
    (L.place i orderType price qty now).1.Forall P := by
  rw [Ladder.place]
  have htrade : (L.trade i qty).rest.Forall P := h.forall_trade hP hL
  split_ifs with hpos
  · have hle := Incoming.leaves_le (i := i) (L.orders i.target) qty
    rw [← h.leaves_trade] at hle
    exact h.trade.forall_rest htrade (hi _ hpos hle)
  · exact htrade

lemma WF.place_sound (h : L.WF) (hL : L.Forall SoundOrder) {i : Incoming} {orderType : OrderType}
    {price : Price} {qty : Qty} (hsound : Sound price qty) :
    (L.place i orderType price qty now).1.Forall SoundOrder :=
  h.forall_place (fun _ _ => .of_survives) hL fun _ hpos hle =>
    ⟨hsound.price_pos, hpos, ne_invalidQty_of_le hle hsound.qty_ne⟩

lemma Step.wf (h : L.WF) (hstep : Step symbol L req now L' msgs) : L'.WF := by
  cases hstep with
  | reject => exact h
  | limit hi htype hsound hfree =>
    subst hi
    exact h.place hfree
  | take hi hprice hqty hfree => exact h.trade
  | cancel => exact h.remove _
  | reprice hi htype hfind hclient hprice hsound =>
    subst hi
    exact (h.remove _).place (find_remove_self L _)
  | shrink => exact h.modify (inPlace_setQty _)
  | grow => exact (h.remove _).rest (find_remove_self L _)
  | keep => exact h

lemma Step.sound (h : L.WF) (hL : L.Forall SoundOrder) (hstep : Step symbol L req now L' msgs) :
    L'.Forall SoundOrder := by
  cases hstep with
  | reject => exact hL
  | limit hi htype hsound hfree => exact h.place_sound hL hsound
  | take hi hprice hqty hfree => exact h.forall_trade (fun _ _ => .of_survives) hL
  | cancel => exact hL.remove _
  | reprice hi htype hfind hclient hprice hsound =>
    exact (h.remove _).place_sound (hL.remove _) hsound
  | shrink htype hfind hclient hprice hsound hlt =>
    exact hL.modify _ fun o ho => ⟨ho.price_pos, hsound.qty_pos, hsound.qty_ne⟩
  | grow htype hfind hclient hprice hsound hgt =>
    exact (h.remove _).forall_rest (hL.remove _) ⟨hprice ▸ hsound.price_pos, hsound.qty_pos,
      hsound.qty_ne⟩
  | keep => exact hL

/-! ## Runs -/

lemma runAll_append (L : Ladder) (reqs reqs' : List (EngineOrderRequest × Nanos)) :
    L.runAll symbol (reqs ++ reqs') =
      (((L.runAll symbol reqs).1.runAll symbol reqs').1,
        (L.runAll symbol reqs).2 ++ ((L.runAll symbol reqs).1.runAll symbol reqs').2) := by
  induction reqs generalizing L with
  | nil => rfl
  | cons r reqs ih => simp [runAll, ih, List.append_assoc]

lemma runAll_concat (L : Ladder) (reqs : List (EngineOrderRequest × Nanos))
    (req : EngineOrderRequest) (now : Nanos) :
    L.runAll symbol (reqs ++ [(req, now)]) =
      (((L.runAll symbol reqs).1.process symbol req now).1,
        (L.runAll symbol reqs).2 ++ ((L.runAll symbol reqs).1.process symbol req now).2) := by
  rw [runAll_append]
  simp [runAll]

/-- Every run from the empty ladder keeps what each step keeps. -/
theorem runAll_induction (symbol : Symbol)
    {I : List (EngineOrderRequest × Nanos) → Ladder → List OutMsg → Prop} (hnil : I [] empty [])
    (hstep : ∀ reqs L log req now, L.WF → L.Forall SoundOrder → I reqs L log →
      I (reqs ++ [(req, now)]) (L.process symbol req now).1 (log ++ (L.process symbol req now).2))
    (reqs : List (EngineOrderRequest × Nanos)) :
    I reqs (empty.runAll symbol reqs).1 (empty.runAll symbol reqs).2 := by
  suffices h : (empty.runAll symbol reqs).1.WF ∧ (empty.runAll symbol reqs).1.Forall SoundOrder ∧
      I reqs (empty.runAll symbol reqs).1 (empty.runAll symbol reqs).2 from h.2.2
  induction reqs using List.reverseRecOn with
  | nil => exact ⟨wf_empty, by simp [Forall, runAll, empty, all, orders], hnil⟩
  | append_singleton reqs r ih =>
    obtain ⟨req, now⟩ := r
    obtain ⟨hwf, hsound, hI⟩ := ih
    have hs := process_step symbol (empty.runAll symbol reqs).1 req now
    rw [runAll_concat]
    exact ⟨hs.wf hwf, hs.sound hwf hsound, hstep _ _ _ _ _ hwf hsound hI⟩

lemma sound_runAll (symbol : Symbol) (reqs : List (EngineOrderRequest × Nanos)) :
    (empty.runAll symbol reqs).1.Forall SoundOrder :=
  runAll_induction symbol (I := fun _ L _ => L.Forall SoundOrder)
    (by simp [Forall, empty, all, orders])
    (fun _ _ _ _ _ hwf hsound _ => (process_step ..).sound hwf hsound) reqs

lemma Gapless.place (h : L.Gapless) (i : Incoming) (orderType : OrderType) (price : Price)
    (qty : Qty) (now : Nanos) : (L.place i orderType price qty now).1.Gapless := by
  rw [Ladder.place]
  split_ifs
  · exact (h.trade i qty).rest _
  · exact h.trade i qty

lemma Step.gapless (h : L.Gapless) (hstep : Step symbol L req now L' msgs) : L'.Gapless := by
  cases hstep with
  | reject | keep => exact h
  | limit => exact h.place _ _ _ _ _
  | take => exact h.trade _ _
  | cancel => exact L.gapless_remove _
  | reprice => exact (L.gapless_remove _).place _ _ _ _ _
  | shrink => exact h.modify _ _
  | grow => exact (L.gapless_remove _).rest _

lemma gapless_runAll (symbol : Symbol) (reqs : List (EngineOrderRequest × Nanos)) :
    (empty.runAll symbol reqs).1.Gapless :=
  runAll_induction symbol (I := fun _ L _ => L.Gapless) gapless_empty
    (fun _ _ _ _ _ _ _ hgapless => (process_step ..).gapless hgapless) reqs

/-! ## The symbol of an update -/

/-- The updates of a chain of fills are about the orders filled. -/
lemma mem_updatesOf_msgs {i : Incoming} {fills : List Fill} {u : BookUpdate}
    (hu : u ∈ updatesOf (i.msgs fills)) :
    ∃ f ∈ fills, u.orderId = f.order.orderId ∧ u.side = f.order.side ∧ u.symbol = i.symbol := by
  induction fills with
  | nil => cases hu
  | cons f fills ih =>
    rw [Incoming.msgs, List.flatMap_cons, updatesOf_append, List.mem_append] at hu
    rcases hu with hu | hu
    · refine ⟨f, by simp, ?_⟩
      simp only [Incoming.fillMsgs, updatesOf_response, updatesOf_update, updatesOf_nil,
        List.mem_cons, List.not_mem_nil, or_false] at hu
      rcases hu with rfl | rfl
      · exact ⟨rfl, rfl, rfl⟩
      · split_ifs <;> exact ⟨rfl, rfl, rfl⟩
    · obtain ⟨g, hg, h⟩ := ih hu
      exact ⟨g, by simp [hg], h⟩

/-- An order that may not rest sends the updates of its fills and no others. -/
lemma updatesOf_take (L : Ladder) (i : Incoming) (price : Price) (qty : Qty) :
    updatesOf (L.take i price qty).2 = updatesOf (i.msgs (L.trade i qty).fills) := by
  rw [take, updatesOf_append]
  split_ifs
  · exact List.append_nil _
  · exact List.append_nil _

lemma symbol_of_mem_msgs {i : Incoming} {fills : List Fill} {u : BookUpdate}
    (hu : u ∈ updatesOf (i.msgs fills)) : u.symbol = i.symbol := by
  obtain ⟨-, -, -, -, hsymb⟩ := mem_updatesOf_msgs hu
  exact hsymb

lemma symbol_of_mem_place {i : Incoming} {orderType : OrderType} {price : Price} {qty : Qty}
    {u : BookUpdate} (hu : u ∈ updatesOf (L.place i orderType price qty now).2) :
    u.symbol = i.symbol := by
  rw [place] at hu
  split_ifs at hu
  · rw [updatesOf_append, List.mem_append] at hu
    refine hu.elim symbol_of_mem_msgs fun hu => ?_
    obtain rfl : u = _ := List.mem_singleton.mp hu
    rfl
  · exact symbol_of_mem_msgs hu

/-- A book's updates carry its symbol. -/
lemma Step.update_symbol (hstep : Step symbol L req now L' msgs) {u : BookUpdate}
    (hu : u ∈ updatesOf msgs) : u.symbol = symbol := by
  cases hstep with
  | reject | keep => cases hu
  | limit hi =>
    rw [symbol_of_mem_place hu, hi]
  | @take i price limit hi =>
    rw [ackMsg, updatesOf_response, Ladder.take, updatesOf_append, List.mem_append] at hu
    have hmsgs : u ∈ updatesOf (i.msgs (L.trade i req.qty).fills) := by
      refine hu.resolve_right fun hu => ?_
      split_ifs at hu <;> cases hu
    rw [symbol_of_mem_msgs hmsgs, hi]
  | reprice hi =>
    rw [symbol_of_mem_place hu, hi]
  | cancel | shrink | grow =>
    obtain rfl : u = _ := List.mem_singleton.mp hu
    rfl

lemma symbol_of_mem_runAll (symbol : Symbol) (reqs : List (EngineOrderRequest × Nanos)) :
    ∀ u ∈ updatesOf (empty.runAll symbol reqs).2, u.symbol = symbol := by
  refine runAll_induction symbol (I := fun _ _ log => ∀ u ∈ updatesOf log, u.symbol = symbol)
    (by simp) (fun reqs L log req now _ _ ih u hu => ?_) reqs
  rw [updatesOf_append, List.mem_append] at hu
  exact hu.elim (ih u) (process_step symbol L req now).update_symbol

end Ladder

/-! ## Runs of the book -/

/-- Processing `reqs` on a fresh book leads to a book that satisfies `P`, unless a pool is
exhausted on the way. -/
def Reaches (symbol : Symbol) (reqs : List (EngineOrderRequest × Nanos))
    (P : SymbolOrderBook → Prop) : Prop :=
  run (.new symbol) reqs = .error .outOfSpace ∨ ∃ b, run (.new symbol) reqs = .ok b ∧ P b

lemma Reaches.mono {symbol : Symbol} {reqs : List (EngineOrderRequest × Nanos)}
    {P Q : SymbolOrderBook → Prop} (h : Reaches symbol reqs P) (hPQ : ∀ b, P b → Q b) :
    Reaches symbol reqs Q := by
  rcases h with herr | ⟨b, hok, hP⟩
  · exact .inl herr
  · exact .inr ⟨b, hok, hPQ b hP⟩

lemma Reaches.of_ok {symbol : Symbol} {reqs : List (EngineOrderRequest × Nanos)}
    {P : SymbolOrderBook → Prop} (h : Reaches symbol reqs P) {b : SymbolOrderBook}
    (hb : run (.new symbol) reqs = .ok b) : P b := by
  rcases h with herr | ⟨b', hok, hP⟩
  · rw [hb] at herr
    cases herr
  · rw [hb] at hok
    obtain rfl := Except.ok.inj hok
    exact hP

/-- A run that was checked by evaluation. -/
lemma exists_ok_of_check {α : Type} {x : Except Fault α} {p : α → Bool}
    (h : (match x with | .ok a => p a | .error _ => false) = true) :
    ∃ a, x = .ok a ∧ p a = true := by
  cases x with
  | error e => cases h
  | ok a => exact ⟨a, rfl, h⟩

lemma run_append (b : SymbolOrderBook) (reqs reqs' : List (EngineOrderRequest × Nanos)) :
    run b (reqs ++ reqs') = (run b reqs).bind fun b => run b reqs' := by
  induction reqs generalizing b with
  | nil => rfl
  | cons r reqs ih =>
    obtain ⟨req, now⟩ := r
    change (processRequest b req now).bind _ = ((processRequest b req now).bind _).bind _
    cases processRequest b req now with
    | error e => rfl
    | ok b' => exact ih b'

/-- A run that ends well went well all along. -/
lemma run_ok_of_prefix {b b' : SymbolOrderBook} {pre reqs : List (EngineOrderRequest × Nanos)}
    (hpre : pre <+: reqs) (hb : run b reqs = .ok b') : ∃ b₀, run b pre = .ok b₀ := by
  obtain ⟨post, rfl⟩ := hpre
  rw [run_append] at hb
  cases hrun : run b pre with
  | error e =>
    rw [hrun] at hb
    cases hb
  | ok b₀ => exact ⟨b₀, rfl⟩

/-- A book that represents the ladder the requests lead to, and has written its messages. -/
structure RunState (symbol : Symbol) (reqs : List (EngineOrderRequest × Nanos))
    (b : SymbolOrderBook) (S : Shape) : Prop where
  rep : Rep b S
  view : view b S = (Ladder.empty.runAll symbol reqs).1
  sent : b.sent = (Ladder.empty.runAll symbol reqs).2
  symbol : b.symbol = symbol

/-- Every order that rests after a run has a valid price and quantity. -/
lemma RunState.sound {symbol : Symbol} {reqs : List (EngineOrderRequest × Nanos)}
    {b : SymbolOrderBook} {S : Shape} (h : RunState symbol reqs b S) :
    (MatchingEngine.view b S).Forall Ladder.SoundOrder := by
  rw [h.view]
  exact Ladder.sound_runAll symbol reqs

/-- One request of a run: from the book the requests before it have led to, to the next. -/
structure RunStep (symbol : Symbol) (reqs : List (EngineOrderRequest × Nanos))
    (b : SymbolOrderBook) (S : Shape) (req : EngineOrderRequest) (now : Nanos)
    (b' : SymbolOrderBook) (S' : Shape) (msgs : List OutMsg) : Prop where
  reached : run (.new symbol) reqs = .ok b
  state : RunState symbol reqs b S
  process : processRequest b req now = .ok b'
  state' : RunState symbol (reqs ++ [(req, now)]) b' S'
  sent : b'.sent = b.sent ++ msgs
  step : Ladder.Step symbol (MatchingEngine.view b S) req now (MatchingEngine.view b' S') msgs
  traded : Traded req b msgs

/-- Every run of the book refines the run of the ladder, and keeps what each request keeps. -/
theorem run_induction (symbol : Symbol)
    {I : List (EngineOrderRequest × Nanos) → SymbolOrderBook → Prop} (hnil : I [] (.new symbol))
    (hstep : ∀ reqs b S req now b' S' msgs, RunStep symbol reqs b S req now b' S' msgs →
      I reqs b → I (reqs ++ [(req, now)]) b')
    (reqs : List (EngineOrderRequest × Nanos)) :
    Reaches symbol reqs fun b => (∃ S, RunState symbol reqs b S) ∧ I reqs b := by
  induction reqs using List.reverseRecOn with
  | nil =>
    have hrep := rep_ofCapacity (n := maxRestingOrders) (m := maxPriceLevels) (by decide)
      (by decide) symbol
    exact .inr ⟨_, rfl, ⟨_, hrep, rfl, rfl, rfl⟩, hnil⟩
  | append_singleton reqs r ih =>
    obtain ⟨req, now⟩ := r
    rw [Reaches, run_append]
    rcases ih with herr | ⟨b, hok, ⟨S, hstate⟩, hI⟩
    · exact .inl (by rw [herr]; rfl)
    · have hone : (run (.new symbol) reqs).bind (fun b => run b [(req, now)]) =
          processRequest b req now := by
        rw [hok]
        change (processRequest b req now).bind Except.ok = _
        cases processRequest b req now <;> rfl
      rw [hone]
      rcases hstate.rep.processRequest req now with
        herr | ⟨b', S', hok', hrep', hview', hsent', hsymb', htraded⟩
      · exact .inl herr
      · have hstate' : RunState symbol (reqs ++ [(req, now)]) b' S' := by
          refine ⟨hrep', ?_, ?_, hsymb'.trans hstate.symbol⟩
          · rw [Ladder.runAll_concat, hview', hstate.view, hstate.symbol]
          · rw [Ladder.runAll_concat, hsent', hstate.sent, hstate.view, hstate.symbol]
        have hs := Ladder.process_step b.symbol (view b S) req now
        rw [← hview'] at hs
        exact .inr ⟨b', hok', ⟨S', hstate'⟩, hstep reqs b S req now b' S' _
          ⟨hok, hstate, hok', hstate', hsent', hstate.symbol ▸ hs, htraded⟩ hI⟩

/-- The book after a run represents the ladder after the same run, and has written the same
messages. -/
theorem run_refines (symbol : Symbol) (reqs : List (EngineOrderRequest × Nanos)) :
    Reaches symbol reqs fun b => ∃ S, RunState symbol reqs b S :=
  (run_induction symbol (I := fun _ _ => True) trivial (fun _ _ _ _ _ _ _ _ _ _ => trivial)
    reqs).mono fun _ h => h.1

/-- One more request: what it emits is appended to the log. -/
lemma run_concat {symbol : Symbol} {reqs : List (EngineOrderRequest × Nanos)}
    {req : EngineOrderRequest} {now : Nanos} {b b' : SymbolOrderBook}
    (hb : run (.new symbol) reqs = .ok b) (hb' : processRequest b req now = .ok b') :
    run (.new symbol) (reqs ++ [(req, now)]) = .ok b' ∧ b.sent <+: b'.sent := by
  have hrun : run (.new symbol) (reqs ++ [(req, now)]) = .ok b' := by
    rw [run_append, hb]
    show (processRequest b req now).bind Except.ok = .ok b'
    rw [hb']
    rfl
  obtain ⟨S, hS⟩ := (run_refines symbol reqs).of_ok hb
  obtain ⟨S', hS'⟩ := (run_refines symbol (reqs ++ [(req, now)])).of_ok hrun
  refine ⟨hrun, ?_⟩
  rw [hS.sent, hS'.sent, Ladder.runAll_concat]
  exact List.prefix_append _ _

/-- The updates of a book carry its symbol. -/
lemma symbol_of_mem_sent {symbol : Symbol} {reqs : List (EngineOrderRequest × Nanos)}
    {b : SymbolOrderBook} (hb : run (.new symbol) reqs = .ok b) {u : BookUpdate}
    (hu : u ∈ updatesOf b.sent) : u.symbol = symbol := by
  obtain ⟨S, hS⟩ := (run_refines symbol reqs).of_ok hb
  rw [hS.sent] at hu
  exact Ladder.symbol_of_mem_runAll symbol reqs u hu

end MatchingEngine
