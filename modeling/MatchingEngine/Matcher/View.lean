import MatchingEngine.Matcher.Representation

/-!
# Reading the ladder off a represented book

How the operations on shapes look through `view`: looking up an id is `Ladder.find`
(`Rep.find_view`), taking a node out is `Ladder.remove` (`Rep.view_erase`), adding one is
`Ladder.rest` (`Rep.view_rest`), and rewriting the quantities of one node is `Ladder.modify`
(`Rep.view_updateOrder`).

`SymbolOrderBook.nodesOf`, `SymbolOrderBook.resting` and `SymbolOrderBook.ladder` are the
observations the theorems about books are stated with: the nodes, the orders, and the levels with
their orders, met when iterating over a side's map and following `next_` from each level's
`head_`.  On a represented book they are what the ladder says (`Rep.nodesOf_eq`,
`Rep.resting_eq`, `Rep.ladder_eq`).
-/

namespace MatchingEngine

open OrderedMaps LinkedLists

namespace SymbolOrderBook

/-- The nodes of one side: levels in map order, each walked from its head. -/
def nodesOf (b : SymbolOrderBook) (s : BookSide) : List ℕ :=
  (b.levels s).entries.flatMap fun e =>
    walk b.nextOf (b.level e.2).orderCount (b.level e.2).head

/-- The orders resting on one side, in matching order. -/
def resting (b : SymbolOrderBook) (s : BookSide) : List OrderRecord :=
  (b.nodesOf s).map b.record

/-- The levels of both sides, best first, each with its orders, oldest first. -/
def ladder (b : SymbolOrderBook) : Ladder := fun s =>
  (b.levels s).entries.map fun e =>
    (e.1, (walk b.nextOf (b.level e.2).orderCount (b.level e.2).head).map b.record)

/-- The resting order with a given id, looked for in the book's levels. -/
def restingOrder (b : SymbolOrderBook) (id : OrderId) : Option OrderRecord :=
  (b.resting .bid ++ b.resting .ask).find? fun o => decide (o.orderId = id)

end SymbolOrderBook

namespace Rep

variable {b b' : SymbolOrderBook} {S : Shape}

/-! ## Observations -/

lemma nodesOf_eq (h : Rep b S) (s : BookSide) :
    b.nodesOf s = (S s).flatMap LevelShape.nodes := by
  rw [SymbolOrderBook.nodesOf, h.entries, List.flatMap_map]
  refine List.flatMap_congr fun l hl => ?_
  have hrep := h.level s l hl
  rw [hrep.count, hrep.list.head_eq]
  exact hrep.list.seg.walk_eq (Nat.le_refl _)

lemma resting_eq (h : Rep b S) (s : BookSide) : b.resting s = (view b S).orders s := by
  rw [SymbolOrderBook.resting, h.nodesOf_eq, Ladder.orders, view, List.flatMap_map,
    List.map_flatMap]

lemma ladder_eq (h : Rep b S) : b.ladder = view b S := by
  funext s
  rw [SymbolOrderBook.ladder, h.entries, List.map_map, view]
  refine List.map_congr_left fun l hl => ?_
  have hrep := h.level s l hl
  simp only [Function.comp]
  rw [hrep.count, hrep.list.head_eq, hrep.list.seg.walk_eq (Nat.le_refl _)]

lemma restingOrder_eq (h : Rep b S) (id : OrderId) :
    b.restingOrder id = (view b S).find id := by
  rw [SymbolOrderBook.restingOrder, Ladder.find, Ladder.all, h.resting_eq, h.resting_eq]

lemma mem_nodesOf (h : Rep b S) {s : BookSide} {p : ℕ} :
    p ∈ b.nodesOf s ↔ ∃ l ∈ S s, p ∈ l.nodes := by
  rw [h.nodesOf_eq, List.mem_flatMap]

lemma mem_orders_view {s : BookSide} {o : OrderRecord} :
    o ∈ (view b S).orders s ↔ ∃ l ∈ S s, ∃ p ∈ l.nodes, b.record p = o := by
  simp only [Ladder.orders, view, List.mem_flatMap, List.mem_map]
  constructor
  · rintro ⟨_, ⟨l, hl, rfl⟩, hp⟩
    exact ⟨l, hl, List.mem_map.mp hp⟩
  · rintro ⟨l, hl, hp⟩
    exact ⟨_, ⟨l, hl, rfl⟩, List.mem_map.mpr hp⟩

lemma mem_all_view {o : OrderRecord} :
    o ∈ (view b S).all ↔ ∃ p, S.Mem p ∧ b.record p = o := by
  rw [Ladder.all, List.mem_append, mem_orders_view, mem_orders_view]
  constructor
  · rintro (⟨l, hl, p, hp, rfl⟩ | ⟨l, hl, p, hp, rfl⟩)
    · exact ⟨p, ⟨.bid, l, hl, hp⟩, rfl⟩
    · exact ⟨p, ⟨.ask, l, hl, hp⟩, rfl⟩
  · rintro ⟨p, ⟨s, l, hl, hp⟩, rfl⟩
    cases s
    · exact .inl ⟨l, hl, p, hp, rfl⟩
    · exact .inr ⟨l, hl, p, hp, rfl⟩

/-- The id index is the lookup of the ladder. -/
lemma find_view (h : Rep b S) (id : OrderId) :
    (view b S).find id = (b.orderIndex id).map b.record := by
  cases hfind : (view b S).find id with
  | none =>
    cases hidx : b.orderIndex id with
    | none => rfl
    | some p =>
      obtain ⟨hp, hid⟩ := (h.index id p).mp hidx
      have := List.find?_eq_none.mp hfind _ (mem_all_view.mpr ⟨p, hp, rfl⟩)
      simp [hid] at this
  | some o =>
    obtain ⟨p, hp, rfl⟩ := mem_all_view.mp (List.mem_of_find?_eq_some hfind)
    have hid : (b.record p).orderId = id := by simpa using List.find?_some hfind
    rw [(h.index id p).mpr ⟨hp, hid⟩]
    rfl

/-! ## Shape operations through the view -/

/-- The view depends on the records of the nodes only. -/
lemma view_congr (hrec : ∀ p, S.Mem p → b'.record p = b.record p) : view b' S = view b S := by
  funext s
  refine List.map_congr_left fun l hl => ?_
  rw [Prod.mk.injEq]
  exact ⟨rfl, List.map_congr_left fun p hp => hrec p ⟨s, l, hl, hp⟩⟩

lemma view_erase (h : Rep b S) {p : ℕ} (hp : S.Mem p) :
    view b (S.erase p) = (view b S).remove (b.record p).orderId := by
  funext s
  have hnodes : ∀ l ∈ S s, (l.erase p).nodes.map b.record =
      (l.nodes.map b.record).filter fun o => decide (o.orderId ≠ (b.record p).orderId) := by
    intro l hl
    rw [LevelShape.erase, List.filter_map]
    congr 1
    refine List.filter_congr fun q hq => ?_
    simp only [Function.comp, decide_eq_decide]
    exact ⟨fun hne he => hne (h.eq_of_orderId ⟨s, l, hl, hq⟩ hp he), fun hne he => hne (he ▸ rfl)⟩
  simp only [view, Shape.erase, Ladder.remove, List.filter_map, List.map_map]
  have hfilter : (S s).filter ((fun l => decide (l.nodes ≠ [])) ∘ fun l => l.erase p) =
      (S s).filter ((fun r : Rung => decide (r.2 ≠ [])) ∘
        (fun r : Rung => (r.1, r.2.filter fun o => decide (o.orderId ≠ (b.record p).orderId))) ∘
          fun l => (l.price, l.nodes.map b.record)) := by
    refine List.filter_congr fun l hl => ?_
    simp only [Function.comp, ← hnodes l hl, ne_eq, List.map_eq_nil_iff]
  rw [hfilter]
  refine List.map_congr_left fun l hl => ?_
  simp only [Function.comp, ← hnodes l (List.mem_of_mem_filter hl)]
  rfl

lemma ordersAt_view (s : BookSide) (price : Price) :
    ordersAt (view b S s) price = (nodesAt (S s) price).map b.record := by
  have hcomp : ((fun r : Rung => decide (r.1 = price)) ∘
      fun l : LevelShape => (l.price, l.nodes.map b.record)) =
        fun l => decide (l.price = price) := rfl
  rw [ordersAt, view, nodesAt, List.find?_map, hcomp]
  cases (S s).find? fun l => decide (l.price = price) <;> rfl

lemma view_rest {price : Price} {m p : ℕ} {side : Side} (hp : ¬ S.Mem p)
    (hside : (b'.record p).side = side) (hprice : (b'.record p).price = price)
    (hrec : ∀ q, q ≠ p → b'.record q = b.record q) :
    view b' (S.rest side.bookSide price m p) = (view b S).rest (b'.record p) := by
  have hold : view b' S = view b S := view_congr fun q hq => hrec q fun he => hp (he ▸ hq)
  funext s
  by_cases hs : s = side.bookSide
  · subst hs
    have hnew : (nodesAt (S side.bookSide) price ++ [p]).map b'.record =
        ordersAt (view b S side.bookSide) price ++ [b'.record p] := by
      rw [← hold, ordersAt_view, List.map_append]
      rfl
    have hmap := map_insertBy side.bookSide.before LevelShape.price Prod.fst
      (fun l => ((l.price, l.nodes.map b'.record) : Rung)) (fun _ => rfl)
      ⟨price, m, nodesAt (S side.bookSide) price ++ [p]⟩ (S side.bookSide)
    rw [Ladder.rest, hside, hprice, Function.update_self, view, Shape.rest, Function.update_self,
      hmap, hnew, ← hold]
    rfl
  · rw [Ladder.rest, hside, Function.update_of_ne hs, view, Shape.rest, Function.update_of_ne hs,
      ← hold]
    rfl

/-! ## Writes that keep the shape -/

/-- The output log and the shape are independent. -/
lemma withSent (h : Rep b S) (log : List OutMsg) : Rep { b with sent := log } S where
  entries s := by
    rw [← h.entries s]
    cases s <;> rfl
  level s l hl := ⟨(h.level s l hl).nonempty, (h.level s l hl).price, (h.level s l hl).count,
    (h.level s l hl).list⟩
  node := h.node
  sides := h.sides
  index := h.index
  orderPool := h.orderPool
  levelPool := h.levelPool
  orderInUse := h.orderInUse
  levelInUse := h.levelInUse
  missed := h.missed

lemma record_updateOrder (p q : ℕ) (f : BookOrder → BookOrder) :
    (b.updateOrder p f).record q = if q = p then (f (b.order q)).toOrderRecord
      else b.record q := by
  rw [SymbolOrderBook.record, b.order_updateOrder]
  split_ifs <;> rfl

/-- Rewriting the quantities of a node keeps the shape. -/
lemma updateOrder (h : Rep b S) (p : ℕ) {f : BookOrder → BookOrder}
    (hf : ∀ o, (f o).orderId = o.orderId ∧ (f o).side = o.side ∧ (f o).price = o.price ∧
      (f o).prev = o.prev ∧ (f o).next = o.next) : Rep (b.updateOrder p f) S := by
  have hsame := b.sameBlocks_updateOrder p f
  have hkeep : ∀ q, ((b.updateOrder p f).record q).orderId = (b.record q).orderId ∧
      ((b.updateOrder p f).record q).side = (b.record q).side ∧
      ((b.updateOrder p f).record q).price = (b.record q).price := by
    intro q
    rw [record_updateOrder]
    split_ifs
    · exact ⟨(hf _).1, (hf _).2.1, (hf _).2.2.1⟩
    · exact ⟨rfl, rfl, rfl⟩
  have hlinks : ∀ q, (b.updateOrder p f).prevOf q = b.prevOf q ∧
      (b.updateOrder p f).nextOf q = b.nextOf q := by
    intro q
    rw [SymbolOrderBook.prevOf, SymbolOrderBook.nextOf, b.order_updateOrder]
    split_ifs
    · exact ⟨(hf _).2.2.2.1, (hf _).2.2.2.2⟩
    · exact ⟨rfl, rfl⟩
  constructor
  case entries => exact fun s => (congrArg _ (hsame.levels s)).trans (h.entries s)
  case level =>
    intro s l hl
    have hrep := h.level s l hl
    exact ⟨hrep.nonempty, hrep.price, hrep.count,
      hrep.list.congr (fun q _ => (hlinks q).1) (fun q _ => (hlinks q).2)⟩
  case node =>
    intro s l hl q hq
    rw [(hkeep q).2.1, (hkeep q).2.2]
    exact h.node s l hl q hq
  case sides => exact h.sides
  case index =>
    intro id q
    rw [(hkeep q).1]
    exact h.index id q
  case orderPool => exact hsame.orderPool_wf h.orderPool
  case levelPool => exact h.levelPool
  case orderInUse => exact fun q => (hsame.orderPool_inUse q).trans (h.orderInUse q)
  case levelInUse => exact h.levelInUse
  case missed => exact h.missed

lemma view_updateOrder (h : Rep b S) {p : ℕ} (hp : S.Mem p) {f : BookOrder → BookOrder}
    {g : OrderRecord → OrderRecord} (hfg : ∀ o, (f o).toOrderRecord = g o.toOrderRecord) :
    view (b.updateOrder p f) S = (view b S).modify (b.record p).orderId g := by
  funext s
  simp only [view, Ladder.modify, List.map_map]
  refine List.map_congr_left fun l hl => ?_
  simp only [Function.comp, List.map_map, Prod.mk.injEq, true_and]
  refine List.map_congr_left fun q hq => ?_
  rw [record_updateOrder]
  simp only [Function.comp]
  by_cases hqp : q = p
  · rw [if_pos hqp, hqp, if_pos rfl, hfg]
    rfl
  · rw [if_neg hqp, if_neg fun he => hqp (h.eq_of_orderId ⟨s, l, hl, hq⟩ hp he)]

end Rep

end MatchingEngine
