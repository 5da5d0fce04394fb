import MatchingEngine.Matcher.Calls
import MatchingEngine.Matcher.Capacity

/-!
# Relabelling clients, sides and prices

The engine compares client ids for equality only, looks at a side only to choose a map, and
compares prices only with each other and with zero.  A `Relabelling` gives clients, sides and
prices new names for which all these comparisons come out the same, possibly with the two maps
exchanged, at least for the sides and prices it covers.

Every operation on ladders commutes with such a change of names, so the run over relabelled
requests is the run, relabelled (`Relabelling.runAll`).  A relabelled ladder has as many orders
and levels as it had, so by `run_ok_iff` the pools of the two books are exhausted by the same
request or by none (`Relabelling.run`).
-/

namespace MatchingEngine

open OrderedMaps

/-- New names for clients, sides and prices under which nothing the engine looks at changes. -/
structure Relabelling where
  client : ClientId → ClientId
  side : Side → Side
  /-- The map that takes the place of a map. -/
  book : BookSide → BookSide
  price : Price → Price
  /-- The sides and the prices that requests may use. -/
  CoversSide : Side → Prop
  CoversPrice : Price → Prop
  client_injective : Function.Injective client
  side_invalid : side .invalid = .invalid
  price_invalid : price invalidPrice = invalidPrice
  book_book : ∀ s, book (book s) = s
  book_contra : ∀ s, book s.contra = (book s).contra
  bookSide_side : ∀ {x}, CoversSide x → (side x).bookSide = book x.bookSide
  before_price : ∀ s {p q}, CoversPrice p → CoversPrice q →
    ((book s).before (price p) (price q) ↔ s.before p q)
  price_le_zero : ∀ {p}, CoversPrice p → (price p ≤ 0 ↔ p ≤ 0)

namespace Relabelling

variable (ρ : Relabelling)

/-! ## The change of names -/

def order (o : OrderRecord) : OrderRecord :=
  { o with clientId := ρ.client o.clientId, side := ρ.side o.side, price := ρ.price o.price }

def rung (r : Rung) : Rung := (ρ.price r.1, r.2.map ρ.order)

def ladder (L : Ladder) : Ladder := fun s => (L (ρ.book s)).map ρ.rung

def incoming (i : Incoming) : Incoming :=
  ⟨i.symbol, ρ.client i.clientId, i.orderId, ρ.side i.side, i.limit.map ρ.price⟩

def fill (f : Fill) : Fill := ⟨ρ.price f.price, ρ.order f.order, f.leaves⟩

def request (req : EngineOrderRequest) : EngineOrderRequest :=
  { req with
    clientId := ρ.client req.clientId, side := ρ.side req.side, price := ρ.price req.price }

def response (r : EngineOrderResponse) : EngineOrderResponse :=
  { r with clientId := ρ.client r.clientId, side := ρ.side r.side, price := ρ.price r.price }

def update (u : BookUpdate) : BookUpdate :=
  { u with side := ρ.side u.side, price := ρ.price u.price }

def msg : OutMsg → OutMsg
  | .response r => .response (ρ.response r)
  | .update u => .update (ρ.update u)

section Fields

variable (o : OrderRecord) (req : EngineOrderRequest)

@[simp] lemma order_clientId : (ρ.order o).clientId = ρ.client o.clientId := rfl
@[simp] lemma order_price : (ρ.order o).price = ρ.price o.price := rfl
@[simp] lemma order_qty : (ρ.order o).qty = o.qty := rfl

@[simp] lemma request_orderType : (ρ.request req).orderType = req.orderType := rfl
@[simp] lemma request_clientId : (ρ.request req).clientId = ρ.client req.clientId := rfl
@[simp] lemma request_orderId : (ρ.request req).orderId = req.orderId := rfl
@[simp] lemma request_price : (ρ.request req).price = ρ.price req.price := rfl
@[simp] lemma request_qty : (ρ.request req).qty = req.qty := rfl

end Fields

lemma updatesOf_map_msg (log : List OutMsg) :
    updatesOf (log.map ρ.msg) = (updatesOf log).map ρ.update := by
  induction log with
  | nil => rfl
  | cons m log ih =>
    cases m with
    | response r => exact ih
    | update u => exact congrArg (ρ.update u :: ·) ih

lemma responsesOf_map_msg (log : List OutMsg) :
    responsesOf (log.map ρ.msg) = (responsesOf log).map ρ.response := by
  induction log with
  | nil => rfl
  | cons m log ih =>
    cases m with
    | response r => exact congrArg (ρ.response r :: ·) ih
    | update u => exact ih

/-! ## What is covered -/

/-- The incoming order has a covered side, and a covered limit price if any. -/
structure CoversIncoming (i : Incoming) : Prop where
  side : ρ.CoversSide i.side
  limit : ∀ l ∈ i.limit, ρ.CoversPrice l

structure CoversLadder (L : Ladder) : Prop where
  price : ∀ s, ∀ r ∈ L s, ρ.CoversPrice r.1
  side : L.Forall fun o => ρ.CoversSide o.side

structure CoversRequest (req : EngineOrderRequest) : Prop where
  side : ρ.CoversSide req.side
  price : ρ.CoversPrice req.price

variable {ρ}

lemma CoversIncoming.of_price {symbol : Symbol} {clientId : ClientId} {orderId : OrderId}
    {side : Side} {price : Price} (hside : ρ.CoversSide side) (hprice : ρ.CoversPrice price) :
    ρ.CoversIncoming ⟨symbol, clientId, orderId, side, some price⟩ where
  side := hside
  limit l hl := by
    obtain rfl : price = l := Option.some.inj hl
    exact hprice

lemma client_eq {c c' : ClientId} : ρ.client c = ρ.client c' ↔ c = c' :=
  ρ.client_injective.eq_iff

lemma price_eq {p q : Price} (hp : ρ.CoversPrice p) (hq : ρ.CoversPrice q) :
    ρ.price p = ρ.price q ↔ p = q := by
  refine ⟨fun he => ?_, fun he => by rw [he]⟩
  have hpq : ¬ BookSide.bid.before p q := fun hlt =>
    irrefl_of _ _ (he ▸ (ρ.before_price .bid hp hq).mpr hlt)
  have hqp : ¬ BookSide.bid.before q p := fun hlt =>
    irrefl_of _ _ (he ▸ (ρ.before_price .bid hq hp).mpr hlt)
  exact (trichotomous_of BookSide.bid.before p q).resolve_left hpq |>.resolve_right hqp

@[simp] lemma ladder_book (L : Ladder) (s : BookSide) :
    ρ.ladder L (ρ.book s) = (L s).map ρ.rung := by
  rw [ladder, ρ.book_book]

lemma book_injective {s s' : BookSide} (h : ρ.book s = ρ.book s') : s = s' := by
  rw [← ρ.book_book s, h, ρ.book_book]

/-- Replacing one side. -/
lemma ladder_update (L : Ladder) (s : BookSide) (rungs : List Rung) :
    ρ.ladder (Function.update L s rungs) =
      Function.update (ρ.ladder L) (ρ.book s) (rungs.map ρ.rung) := by
  funext s'
  obtain ⟨t, rfl⟩ : ∃ t, ρ.book t = s' := ⟨ρ.book s', ρ.book_book s'⟩
  rw [ladder_book]
  by_cases ht : t = s
  · subst ht
    rw [Function.update_self, Function.update_self]
  · rw [Function.update_of_ne ht, Function.update_of_ne fun h => ht (book_injective h), ladder_book]

/-! ## Matching -/

section Matching

variable {i : Incoming}

lemma target_incoming (hi : ρ.CoversIncoming i) : (ρ.incoming i).target = ρ.book i.target := by
  rw [Incoming.target, Incoming.target, ρ.book_contra, ← ρ.bookSide_side hi.side]
  rfl

lemma blocked_incoming (hi : ρ.CoversIncoming i) {p : Price} (hp : ρ.CoversPrice p) :
    (ρ.incoming i).blocked (ρ.price p) = i.blocked p := by
  unfold Incoming.blocked
  cases hlim : i.limit with
  | none => simp only [incoming, hlim, Option.map_none]
  | some l =>
    have hlim' : (ρ.incoming i).limit = some (ρ.price l) := by rw [incoming, hlim, Option.map_some]
    simp only [hlim', decide_eq_decide, target_incoming hi]
    exact ρ.before_price i.target (hi.limit l hlim) hp

lemma fillMsgs_incoming (i : Incoming) (f : Fill) :
    (ρ.incoming i).fillMsgs (ρ.fill f) = (i.fillMsgs f).map ρ.msg := by
  have hqty : (ρ.fill f).qty = f.qty := rfl
  have hrest : (ρ.fill f).restQty = f.restQty := rfl
  simp only [Incoming.fillMsgs, hqty, hrest, List.map_cons, List.map_nil]
  split_ifs <;> rfl

lemma msgs_incoming (i : Incoming) (fills : List Fill) :
    (ρ.incoming i).msgs (fills.map ρ.fill) = (i.msgs fills).map ρ.msg := by
  rw [Incoming.msgs, Incoming.msgs, List.flatMap_map, List.map_flatMap]
  exact List.flatMap_congr fun f _ => fillMsgs_incoming i f

lemma sweepLevel_incoming (i : Incoming) (price : Price) (os : List OrderRecord) (leaves : Qty) :
    (ρ.incoming i).sweepLevel (ρ.price price) (os.map ρ.order) leaves =
      ⟨(i.sweepLevel price os leaves).rest.map ρ.order, (i.sweepLevel price os leaves).leaves,
        (i.sweepLevel price os leaves).fills.map ρ.fill⟩ := by
  induction os generalizing leaves with
  | nil => rfl
  | cons o os ih =>
    have hclient : (ρ.order o).clientId ≠ (ρ.incoming i).clientId ↔ o.clientId ≠ i.clientId :=
      not_congr client_eq
    have hqty : (⟨ρ.price price, ρ.order o, leaves⟩ : Fill).qty =
      (⟨price, o, leaves⟩ : Fill).qty := rfl
    have hrest : (⟨ρ.price price, ρ.order o, leaves⟩ : Fill).restQty =
      (⟨price, o, leaves⟩ : Fill).restQty := rfl
    simp only [List.map_cons, Incoming.sweepLevel, hclient, hqty, hrest]
    by_cases hcond : o.clientId ≠ i.clientId ∧ leaves > 0
    · rw [if_pos hcond, if_pos hcond, ih]
      by_cases hzero : (⟨price, o, leaves⟩ : Fill).restQty = 0
      · rw [if_pos hzero, if_pos hzero]
        rfl
      · rw [if_neg hzero, if_neg hzero]
        rfl
    · rw [if_neg hcond, if_neg hcond, ih]
      rfl

lemma sweep_incoming (hi : ρ.CoversIncoming i) {rungs : List Rung}
    (hrungs : ∀ r ∈ rungs, ρ.CoversPrice r.1) (leaves : Qty) :
    (ρ.incoming i).sweep (rungs.map ρ.rung) leaves =
      ⟨(i.sweep rungs leaves).rest.map ρ.rung, (i.sweep rungs leaves).leaves,
        (i.sweep rungs leaves).fills.map ρ.fill⟩ := by
  induction rungs generalizing leaves with
  | nil => rfl
  | cons r rungs ih =>
    obtain ⟨price, os⟩ := r
    have hblock := blocked_incoming hi (hrungs (price, os) (by simp))
    rw [List.map_cons, rung, Incoming.sweep, Incoming.sweep, hblock]
    by_cases hcond : leaves > 0 ∧ ¬ i.blocked price
    · rw [if_pos hcond, if_pos hcond]
      simp only [sweepLevel_incoming, ih fun r hr => hrungs r (by simp [hr]), List.map_eq_nil_iff,
        List.map_append]
      split_ifs <;> rfl
    · rw [if_neg hcond, if_neg hcond]
      rfl

lemma trade_incoming (hi : ρ.CoversIncoming i) {L : Ladder} (hL : ρ.CoversLadder L) (qty : Qty) :
    (ρ.ladder L).trade (ρ.incoming i) qty =
      ⟨ρ.ladder (L.trade i qty).rest, (L.trade i qty).leaves,
        (L.trade i qty).fills.map ρ.fill⟩ := by
  unfold Ladder.trade
  simp only [target_incoming hi, ladder_book, sweep_incoming hi (hL.price i.target), ladder_update]

end Matching

/-! ## Ladder operations -/

section Operations

variable {L : Ladder}

lemma orders_ladder (L : Ladder) (s : BookSide) :
    (ρ.ladder L).orders (ρ.book s) = (L.orders s).map ρ.order := by
  rw [Ladder.orders, Ladder.orders, ladder_book, List.flatMap_map, List.map_flatMap]
  rfl

lemma mem_all_ladder {o : OrderRecord} :
    o ∈ (ρ.ladder L).all ↔ ∃ o₀ ∈ L.all, ρ.order o₀ = o := by
  simp only [Ladder.mem_all]
  constructor
  · rintro ⟨s, ho⟩
    rw [← ρ.book_book s, orders_ladder] at ho
    obtain ⟨o₀, ho₀, rfl⟩ := List.mem_map.mp ho
    exact ⟨o₀, ⟨_, ho₀⟩, rfl⟩
  · rintro ⟨o₀, ⟨s, ho₀⟩, rfl⟩
    refine ⟨ρ.book s, ?_⟩
    rw [orders_ladder]
    exact List.mem_map.mpr ⟨o₀, ho₀, rfl⟩

/-- Both ladders find the same order under an id, although they may search their sides in a
different order. -/
lemma find_ladder (h : L.WF) (id : OrderId) :
    (ρ.ladder L).find id = (L.find id).map ρ.order := by
  cases hfind : (ρ.ladder L).find id with
  | none =>
    cases hfind' : L.find id with
    | none => rfl
    | some o =>
      obtain ⟨ho, hid⟩ := h.find_eq_some.mp hfind'
      exact absurd hid (Ladder.find_eq_none.mp hfind (ρ.order o) (mem_all_ladder.mpr ⟨o, ho, rfl⟩))
  | some o =>
    have hid : o.orderId = id := by simpa using List.find?_some hfind
    obtain ⟨o₀, ho₀, rfl⟩ := mem_all_ladder.mp (List.mem_of_find?_eq_some hfind)
    rw [h.find_eq_some.mpr ⟨ho₀, hid⟩]
    rfl

lemma remove_ladder (L : Ladder) (id : OrderId) :
    (ρ.ladder L).remove id = ρ.ladder (L.remove id) := by
  funext s
  have hthin : (fun r : Rung => (r.1, r.2.filter fun o => decide (o.orderId ≠ id))) ∘ ρ.rung =
      ρ.rung ∘ fun r => (r.1, r.2.filter fun o => decide (o.orderId ≠ id)) := by
    funext r
    exact congrArg (Prod.mk (ρ.price r.1)) List.filter_map
  have hnil : (fun r : Rung => decide (r.2 ≠ [])) ∘ ρ.rung = fun r => decide (r.2 ≠ []) := by
    funext r
    simp [rung]
  change List.filter _ (((L (ρ.book s)).map ρ.rung).map _) = List.map _ _
  rw [List.map_map, hthin, ← List.map_map, List.filter_map, hnil]
  rfl

lemma setQty_ladder (L : Ladder) (id : OrderId) (qty : Qty) :
    (ρ.ladder L).modify id (fun x => { x with qty := qty, originalQty := qty }) =
      ρ.ladder (L.modify id fun x => { x with qty := qty, originalQty := qty }) := by
  funext s
  change ((L (ρ.book s)).map ρ.rung).map _ = ((L (ρ.book s)).map _).map ρ.rung
  rw [List.map_map, List.map_map]
  refine List.map_congr_left fun r _ => ?_
  simp only [Function.comp, rung, List.map_map, Prod.mk.injEq, true_and]
  refine List.map_congr_left fun o _ => ?_
  change (if o.orderId = id then _ else _) = ρ.order (if o.orderId = id then _ else _)
  rw [apply_ite ρ.order]
  rfl

lemma ordersAt_rung {rungs : List Rung} (hrungs : ∀ r ∈ rungs, ρ.CoversPrice r.1) {price : Price}
    (hprice : ρ.CoversPrice price) :
    ordersAt (rungs.map ρ.rung) (ρ.price price) = (ordersAt rungs price).map ρ.order := by
  induction rungs with
  | nil => rfl
  | cons r rungs ih =>
    have hhead : (ρ.rung r).1 = ρ.price price ↔ r.1 = price :=
      price_eq (hrungs r (by simp)) hprice
    rw [List.map_cons, Ladder.ordersAt_cons, Ladder.ordersAt_cons,
      ih fun r hr => hrungs r (by simp [hr])]
    simp only [hhead]
    split_ifs <;> rfl

lemma rest_ladder (hL : ρ.CoversLadder L) {o : OrderRecord} (hside : ρ.CoversSide o.side)
    (hprice : ρ.CoversPrice o.price) : (ρ.ladder L).rest (ρ.order o) = ρ.ladder (L.rest o) := by
  have hbook : (ρ.order o).side.bookSide = ρ.book o.side.bookSide := ρ.bookSide_side hside
  have hcovers := hL.price o.side.bookSide
  have hat : ordersAt ((L o.side.bookSide).map ρ.rung) (ρ.order o).price =
      (ordersAt (L o.side.bookSide) o.price).map ρ.order := ordersAt_rung hcovers hprice
  rw [Ladder.rest, Ladder.rest, ladder_update, hbook, ladder_book, hat]
  refine congrArg (Function.update _ _) (Eq.symm ?_)
  have hmap := map_insertBy_of_iff o.side.bookSide.before (ρ.book o.side.bookSide).before Prod.fst
    Prod.fst ρ.rung (o.price, ordersAt (L o.side.bookSide) o.price ++ [o])
    (fun r hr => price_eq (hcovers r hr) hprice)
    (fun r hr => ρ.before_price o.side.bookSide hprice (hcovers r hr))
  rw [hmap, rung, List.map_append]
  rfl

end Operations

/-! ## Operations keep to what is covered -/

namespace CoversLadder

variable {L : Ladder} (hL : ρ.CoversLadder L)
include hL

lemma trade (h : L.WF) (i : Incoming) (qty : Qty) : ρ.CoversLadder (L.trade i qty).rest where
  price s r hr := by
    by_cases hs : s = i.target
    · subst hs
      rw [Ladder.trade_rest_target] at hr
      obtain ⟨r₀, hr₀, hprice, -⟩ := (i.rungs_sweep (h.price i.target) qty).2 r hr
      rw [hprice]
      exact hL.price _ r₀ hr₀
    · rw [Ladder.trade_rest_of_ne L i qty hs] at hr
      exact hL.price s r hr
  side := h.forall_trade (fun o₀ o hs ho₀ => by rw [hs.eq]; exact ho₀) hL.side

lemma remove (id : OrderId) : ρ.CoversLadder (L.remove id) where
  price s r hr := by
    obtain ⟨r₀, hr₀, rfl⟩ := List.mem_map.mp (List.mem_of_mem_filter hr)
    exact hL.price s r₀ hr₀
  side := hL.side.remove id

lemma setQty (id : OrderId) (qty : Qty) :
    ρ.CoversLadder (L.modify id fun x => { x with qty := qty, originalQty := qty }) where
  price s r hr := by
    obtain ⟨r₀, hr₀, rfl⟩ := List.mem_map.mp hr
    exact hL.price s r₀ hr₀
  side := hL.side.modify id fun _ ho => ho

lemma rest (h : L.WF) {o : OrderRecord} (hside : ρ.CoversSide o.side)
    (hprice : ρ.CoversPrice o.price) : ρ.CoversLadder (L.rest o) where
  price s r hr := by
    by_cases hs : s = o.side.bookSide
    · subst hs
      rw [Ladder.rest, Function.update_self] at hr
      rcases mem_insertBy_imp _ hr with rfl | hr
      · exact hprice
      · exact hL.price _ r hr
    · rw [Ladder.rest, Function.update_of_ne hs] at hr
      exact hL.price s r hr
  side := h.forall_rest hL.side hside

lemma place (h : L.WF) {i : Incoming} (hi : ρ.CoversIncoming i) {price : Price}
    (hprice : ρ.CoversPrice price) (orderType : OrderType) (qty : Qty) (now : Nanos) :
    ρ.CoversLadder (L.place i orderType price qty now).1 := by
  rw [Ladder.place]
  split_ifs
  · exact (hL.trade h i qty).rest h.trade hi.side hprice
  · exact hL.trade h i qty

lemma of_find (h : L.WF) {id : OrderId} {o : OrderRecord} (hfind : L.find id = some o) :
    ρ.CoversSide o.side ∧ ρ.CoversPrice o.price := by
  have hmem := List.mem_of_find?_eq_some hfind
  refine ⟨hL.side o hmem, ?_⟩
  obtain ⟨s, hs⟩ := Ladder.mem_all.mp hmem
  obtain ⟨r, hr, ho⟩ := List.mem_flatMap.mp hs
  rw [h.price s r hr o ho]
  exact hL.price s r hr

end CoversLadder

/-! ## Requests -/

section Requests

variable {L : Ladder} {req : EngineOrderRequest}

/-- Placing an order at a covered price. -/
lemma place_ladder (hL : ρ.CoversLadder L) (h : L.WF) {i : Incoming} (hi : ρ.CoversIncoming i)
    {price : Price} (hprice : ρ.CoversPrice price) (orderType : OrderType) (qty : Qty)
    (now : Nanos) :
    (ρ.ladder L).place (ρ.incoming i) orderType (ρ.price price) qty now =
      (ρ.ladder (L.place i orderType price qty now).1,
        (L.place i orderType price qty now).2.map ρ.msg) := by
  simp only [Ladder.place, trade_incoming hi hL, msgs_incoming]
  split_ifs
  · have hrest := rest_ladder (hL.trade h i qty) (o := ⟨i.orderId, i.clientId, i.symbol, orderType,
      i.side, price, qty, (L.trade i qty).leaves, now⟩) hi.side hprice
    rw [← hrest, List.map_append]
    rfl
  · rfl

lemma take_ladder (hL : ρ.CoversLadder L) {i : Incoming} (hi : ρ.CoversIncoming i) (price : Price)
    (qty : Qty) :
    (ρ.ladder L).take (ρ.incoming i) (ρ.price price) qty =
      (ρ.ladder (L.take i price qty).1, (L.take i price qty).2.map ρ.msg) := by
  simp only [Ladder.take, trade_incoming hi hL, msgs_incoming, List.map_append]
  split_ifs <;> rfl

lemma invalidReq_request (hreq : ρ.CoversRequest req) :
    Ladder.invalidReq (ρ.request req) = Ladder.invalidReq req := by
  simp only [Ladder.invalidReq, request_orderType, request_qty, request_price,
    ρ.price_le_zero hreq.price]

lemma unnamedMsg_request (status : ResponseStatus) (symbol : Symbol) (req : EngineOrderRequest) :
    Ladder.unnamedMsg status symbol (ρ.request req) =
      ρ.msg (Ladder.unnamedMsg status symbol req) := by
  simp only [Ladder.unnamedMsg, msg, response, ρ.side_invalid, ρ.price_invalid]
  rfl

lemma incomingOf_request (symbol : Symbol) (req : EngineOrderRequest) :
    Ladder.incomingOf symbol (ρ.request req) = ρ.incoming (Ladder.incomingOf symbol req) := by
  simp only [Ladder.incomingOf, incoming, apply_ite (Option.map ρ.price), Option.map_none,
    Option.map_some]
  rfl

lemma covers_incomingOf (hreq : ρ.CoversRequest req) (symbol : Symbol) :
    ρ.CoversIncoming (Ladder.incomingOf symbol req) where
  side := hreq.side
  limit l hl := by
    by_cases hmarket : req.orderType = .market
    · simp [Ladder.incomingOf, hmarket] at hl
    · have he : req.price = l := by simpa [Ladder.incomingOf, hmarket] using hl
      rw [← he]
      exact hreq.price

lemma open_ladder (hL : ρ.CoversLadder L) (h : L.WF) (hreq : ρ.CoversRequest req) (symbol : Symbol)
    (now : Nanos) :
    (ρ.ladder L).open_ symbol (ρ.request req) now =
      (ρ.ladder (L.open_ symbol req now).1, (L.open_ symbol req now).2.map ρ.msg) := by
  have hi := covers_incomingOf hreq symbol
  have hprice : (if req.orderType = .market then invalidPrice else ρ.price req.price) =
      ρ.price (if req.orderType = .market then invalidPrice else req.price) := by
    rw [apply_ite ρ.price, ρ.price_invalid]
  have htype := ρ.request_orderType req
  simp only [Ladder.open_, incomingOf_request, htype, request_orderId, request_qty, request_price,
    hprice, find_ladder h, Option.isSome_map]
  by_cases hdup : (L.find req.orderId).isSome = true
  · rw [if_pos hdup, if_pos hdup]
    rfl
  · rw [if_neg hdup, if_neg hdup]
    by_cases hlimit : req.orderType = .limit
    · simp only [if_pos hlimit, place_ladder hL h hi hreq.price]
      rfl
    · simp only [if_neg hlimit, take_ladder hL hi]
      rfl

lemma cancel_ladder (h : L.WF) (symbol : Symbol) (req : EngineOrderRequest) :
    (ρ.ladder L).cancel symbol (ρ.request req) =
      (ρ.ladder (L.cancel symbol req).1, (L.cancel symbol req).2.map ρ.msg) := by
  simp only [Ladder.cancel, request_orderId, request_clientId, find_ladder h, unnamedMsg_request]
  cases L.find req.orderId with
  | none => rfl
  | some o =>
    simp only [Option.map_some, order_clientId, ne_eq, client_eq, remove_ladder]
    split_ifs <;> rfl

lemma amend_ladder (hL : ρ.CoversLadder L) (h : L.WF) (hreq : ρ.CoversRequest req)
    (symbol : Symbol) {o : OrderRecord} (hfind : L.find req.orderId = some o) (now : Nanos) :
    (ρ.ladder L).amend symbol (ρ.order o) (ρ.request req) now =
      (ρ.ladder (L.amend symbol o req now).1, (L.amend symbol o req now).2.map ρ.msg) := by
  obtain ⟨hside, hoprice⟩ := hL.of_find h hfind
  have hprice : ρ.price req.price ≠ ρ.price o.price ↔ req.price ≠ o.price :=
    not_congr (price_eq hreq.price hoprice)
  simp only [Ladder.amend, request_price, order_price, hprice, request_orderId, request_qty,
    order_qty, remove_ladder]
  by_cases hp : req.price ≠ o.price
  · -- a new price
    have hplace := place_ladder (i := ⟨symbol, req.clientId, req.orderId, o.side, some req.price⟩)
      (hL.remove req.orderId) (h.remove req.orderId) (.of_price hside hreq.price) hreq.price
      o.orderType req.qty now
    rw [if_pos hp, if_pos hp]
    exact congrArg (fun r : Ladder × List OutMsg => (r.1, Ladder.ackMsg .modified _ _ _ :: r.2))
      hplace
  rw [if_neg hp, if_neg hp]
  by_cases hlt : req.qty < o.qty
  · rw [if_pos hlt, if_pos hlt, setQty_ladder]
    rfl
  rw [if_neg hlt, if_neg hlt]
  by_cases hgt : req.qty > o.qty
  · have hrest := rest_ladder (hL.remove req.orderId) (o := ⟨req.orderId, req.clientId, symbol,
      o.orderType, o.side, o.price, req.qty, req.qty, now⟩) hside hoprice
    rw [if_pos hgt, if_pos hgt, ← hrest]
    rfl
  · rw [if_neg hgt, if_neg hgt]
    rfl

lemma modifyNamed_ladder (hL : ρ.CoversLadder L) (h : L.WF) (hreq : ρ.CoversRequest req)
    (symbol : Symbol) (now : Nanos) :
    (ρ.ladder L).modifyNamed symbol (ρ.request req) now =
      (ρ.ladder (L.modifyNamed symbol req now).1,
        (L.modifyNamed symbol req now).2.map ρ.msg) := by
  simp only [Ladder.modifyNamed, request_orderId, request_clientId, find_ladder h,
    unnamedMsg_request]
  cases hfind : L.find req.orderId with
  | none => rfl
  | some o =>
    simp only [Option.map_some, order_clientId, ne_eq, client_eq]
    split_ifs
    · exact amend_ladder hL h hreq symbol hfind now
    · rfl

/-- One request. -/
lemma process_ladder (hL : ρ.CoversLadder L) (h : L.WF) (hreq : ρ.CoversRequest req)
    (symbol : Symbol) (now : Nanos) :
    (ρ.ladder L).process symbol (ρ.request req) now =
      (ρ.ladder (L.process symbol req now).1, (L.process symbol req now).2.map ρ.msg) := by
  simp only [Ladder.process, invalidReq_request hreq, request_orderType]
  split_ifs
  · rfl
  · cases req.orderType with
    | cancel => exact cancel_ladder h symbol req
    | modify => exact modifyNamed_ladder hL h hreq symbol now
    | limit | market | ioc | invalid => exact open_ladder hL h hreq symbol now

lemma CoversLadder.step (hL : ρ.CoversLadder L) (h : L.WF) (hreq : ρ.CoversRequest req)
    {symbol : Symbol} {now : Nanos} {L' : Ladder} {msgs : List OutMsg}
    (hstep : Ladder.Step symbol L req now L' msgs) : ρ.CoversLadder L' := by
  cases hstep with
  | reject | keep => exact hL
  | limit hi =>
    subst hi
    exact hL.place h (.of_price hreq.side hreq.price) hreq.price ..
  | take => exact hL.trade h ..
  | cancel => exact hL.remove _
  | reprice hi htype hfind =>
    subst hi
    exact (hL.remove _).place (h.remove _) (.of_price (hL.of_find h hfind).1 hreq.price)
      hreq.price ..
  | shrink => exact hL.setQty ..
  | grow htype hfind =>
    obtain ⟨hside, hprice⟩ := hL.of_find h hfind
    exact (hL.remove _).rest (h.remove _) hside hprice

end Requests

/-! ## Runs -/

/-- Relabelled requests, each with its clock reading. -/
def requests (ρ : Relabelling) (reqs : List (EngineOrderRequest × Nanos)) :
    List (EngineOrderRequest × Nanos) :=
  reqs.map fun r => (ρ.request r.1, r.2)

/-- The run of the ladder over relabelled requests. -/
theorem runAll (symbol : Symbol) {reqs : List (EngineOrderRequest × Nanos)}
    (hreqs : ∀ r ∈ reqs, ρ.CoversRequest r.1) :
    Ladder.empty.runAll symbol (ρ.requests reqs) =
      (ρ.ladder (Ladder.empty.runAll symbol reqs).1,
        (Ladder.empty.runAll symbol reqs).2.map ρ.msg) := by
  refine (Ladder.runAll_induction symbol (I := fun reqs L log =>
    (∀ r ∈ reqs, ρ.CoversRequest r.1) → ρ.CoversLadder L ∧
      Ladder.empty.runAll symbol (ρ.requests reqs) = (ρ.ladder L, log.map ρ.msg)) ?_ ?_ reqs
        hreqs).2
  · exact fun _ => ⟨⟨by simp [Ladder.empty], by simp [Ladder.Forall, Ladder.empty, Ladder.all,
      Ladder.orders]⟩, rfl⟩
  · intro reqs L log req now hwf _ ih hreqs
    obtain ⟨hL, hrun⟩ := ih fun r hr => hreqs r (by simp [hr])
    have hreq := hreqs (req, now) (by simp)
    refine ⟨hL.step hwf hreq (Ladder.process_step symbol L req now), ?_⟩
    rw [requests, List.map_append, List.map_singleton, Ladder.runAll_concat, ← requests, hrun,
      process_ladder hL hwf hreq, List.map_append]

/-- A count over both sides does not change when they are exchanged. -/
lemma add_book (n : BookSide → ℕ) : n (ρ.book .bid) + n (ρ.book .ask) = n .bid + n .ask := by
  have hask : ρ.book .ask = (ρ.book .bid).contra := ρ.book_contra .bid
  rw [hask]
  cases ρ.book .bid with
  | bid => rfl
  | ask => exact Nat.add_comm _ _

lemma fits_ladder {c : ℕ × ℕ} {L : Ladder} : (ρ.ladder L).Fits c ↔ L.Fits c := by
  have hall : (ρ.ladder L).all.length = L.all.length := by
    have horders : ∀ s, ((ρ.ladder L).orders s).length = (L.orders (ρ.book s)).length := by
      intro s
      have h : (ρ.ladder L).orders (ρ.book (ρ.book s)) = (L.orders (ρ.book s)).map ρ.order :=
        orders_ladder L (ρ.book s)
      rw [ρ.book_book] at h
      rw [h, List.length_map]
    rw [Ladder.all, Ladder.all, List.length_append, List.length_append, horders, horders]
    exact add_book fun s => (L.orders s).length
  have hlevels : (ρ.ladder L .bid).length + (ρ.ladder L .ask).length =
      (L .bid).length + (L .ask).length := by
    rw [ladder, ladder, List.length_map, List.length_map]
    exact add_book fun s => (L s).length
  rw [Ladder.Fits, Ladder.Fits, hall, hlevels]

/-- The second book holds and has sent what the first does, relabelled. -/
structure Relabelled (ρ : Relabelling) (b b' : SymbolOrderBook) : Prop where
  sent : b'.sent = b.sent.map ρ.msg
  ladder : b'.ladder = ρ.ladder b.ladder
  index : ∀ id, (b'.orderIndex id).map b'.record = ((b.orderIndex id).map b.record).map ρ.order

lemma Relabelled.untimed {b b' : SymbolOrderBook} (h : ρ.Relabelled b b') :
    ρ.Relabelled b.untimed b'.untimed where
  sent := h.sent
  ladder := by
    funext s
    have hladder := congrFun h.ladder s
    rw [b'.ladder_untimed, hladder, Relabelling.ladder, Relabelling.ladder, b.ladder_untimed,
      List.map_map, List.map_map]
    refine List.map_congr_left fun r _ => ?_
    simp only [Function.comp, rung, List.map_map]
    rfl
  index id := by
    rw [b.index_untimed, b'.index_untimed, h.index]
    cases b.orderIndex id with
    | none => rfl
    | some p => rfl

end Relabelling

/-- Neither computation goes through, or both do and their books are related. -/
def Lockstep (R : SymbolOrderBook → SymbolOrderBook → Prop)
    (r r' : Except Fault SymbolOrderBook) : Prop :=
  (r = .error .outOfSpace ∧ r' = .error .outOfSpace) ∨ ∃ b b', r = .ok b ∧ r' = .ok b' ∧ R b b'

namespace Relabelling

variable {ρ : Relabelling}

/-- The run of the book over relabelled requests. -/
theorem run (symbol : Symbol) {reqs : List (EngineOrderRequest × Nanos)}
    (hreqs : ∀ r ∈ reqs, ρ.CoversRequest r.1) :
    Lockstep ρ.Relabelled (MatchingEngine.run (.new symbol) reqs)
      (MatchingEngine.run (.new symbol) (ρ.requests reqs)) := by
  have hok : (∃ b', MatchingEngine.run (.new symbol) (ρ.requests reqs) = .ok b') ↔
      ∃ b, MatchingEngine.run (.new symbol) reqs = .ok b := by
    rw [run_ok_iff, run_ok_iff]
    have hpre : ∀ pre, pre <+: reqs →
        ((Ladder.empty.runAll symbol (ρ.requests pre)).1.FitsNew ↔
          (Ladder.empty.runAll symbol pre).1.FitsNew) := by
      intro pre hpre
      rw [runAll symbol fun r hr => hreqs r (hpre.subset hr)]
      exact fits_ladder
    constructor
    · intro h pre hle
      exact (hpre pre hle).mp (h _ (hle.map _))
    · intro h pre' hle
      obtain ⟨pre, hle', rfl⟩ := List.prefix_map_iff.mp hle
      exact (hpre pre hle').mpr (h pre hle')
  rcases run_refines symbol reqs with herr | ⟨b, hb, S, hS⟩
  · refine .inl ⟨herr, ?_⟩
    rcases run_refines symbol (ρ.requests reqs) with herr' | ⟨b', hb', -⟩
    · exact herr'
    · obtain ⟨b, hb⟩ := hok.mp ⟨b', hb'⟩
      rw [herr] at hb
      cases hb
  · obtain ⟨b', hb'⟩ := hok.mpr ⟨b, hb⟩
    obtain ⟨S', hS'⟩ := (run_refines symbol (ρ.requests reqs)).of_ok hb'
    have hview : view b' S' = ρ.ladder (view b S) := by
      rw [hS'.view, hS.view, runAll symbol hreqs]
    refine .inr ⟨b, b', hb, hb', ?_, ?_, fun id => ?_⟩
    · rw [hS'.sent, hS.sent, runAll symbol hreqs]
    · rw [hS'.rep.ladder_eq, hS.rep.ladder_eq, hview]
    · rw [← hS'.rep.find_view, ← hS.rep.find_view, hview, find_ladder hS.rep.view_wf]

/-- Requests and clock readings determine the sequence. -/
lemma requests_eq {reqs reqs' : List (EngineOrderRequest × Nanos)}
    (hreqs' : reqs'.map Prod.fst = reqs.map fun r => ρ.request r.1)
    (hclock : reqs'.map Prod.snd = reqs.map Prod.snd) : reqs' = ρ.requests reqs :=
  calc
    reqs' = reqs'.map fun r => (r.1, r.2) := (List.map_id reqs').symm
    _ = (reqs'.map Prod.fst).zip (reqs'.map Prod.snd) := List.zip_map'.symm
    _ = (reqs.map fun r => ρ.request r.1).zip (reqs.map Prod.snd) := by rw [hreqs', hclock]
    _ = ρ.requests reqs := List.zip_map'

/-- The run over relabelled requests, whatever the clock reads: the time stamps agree if the clock
reads the same, and nothing else depends on it. -/
theorem run_at (symbol : Symbol) {reqs reqs' : List (EngineOrderRequest × Nanos)}
    (hreqs : ∀ r ∈ reqs, ρ.CoversRequest r.1)
    (hreqs' : reqs'.map Prod.fst = reqs.map fun r => ρ.request r.1) :
    Lockstep
      (fun b b' => ρ.Relabelled b.untimed b'.untimed ∧
        (reqs'.map Prod.snd = reqs.map Prod.snd → ρ.Relabelled b b'))
      (MatchingEngine.run (.new symbol) reqs) (MatchingEngine.run (.new symbol) reqs') := by
  have hfst : reqs'.map Prod.fst = (ρ.requests reqs).map Prod.fst := by
    rw [hreqs', requests, List.map_map]
    rfl
  have hclock := run_clock (.new symbol) hfst
  rcases run symbol hreqs with ⟨herr, herr'⟩ | ⟨b, b₁, hb, hb₁, hrel⟩
  · refine .inl ⟨herr, ?_⟩
    rw [herr'] at hclock
    cases hrun : MatchingEngine.run (.new symbol) reqs' with
    | error e =>
      rw [hrun] at hclock
      exact congrArg _ (Except.error.inj hclock)
    | ok b' =>
      rw [hrun] at hclock
      cases hclock
  · rw [hb₁] at hclock
    cases hrun : MatchingEngine.run (.new symbol) reqs' with
    | error e =>
      rw [hrun] at hclock
      cases hclock
    | ok b' =>
      rw [hrun] at hclock
      have hbook : b'.untimed = b₁.untimed := Except.ok.inj hclock
      refine .inr ⟨b, b', hb, rfl, ?_, fun hsnd => ?_⟩
      · rw [hbook]
        exact hrel.untimed
      · rw [requests_eq hreqs' hsnd, hb₁] at hrun
        exact Except.ok.inj hrun ▸ hrel

end Relabelling

end MatchingEngine
