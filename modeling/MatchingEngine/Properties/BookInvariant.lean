import MatchingEngine.Matcher.Runs

/-!
# What holds of the book after every request

Two facts about every book a finite sequence of requests can lead to.  A sequence is
arbitrary, so "after every request" is the statement for each of its prefixes.

* `bookInvariant_run`: the maps, the linked lists, the id index and the two pools describe the
  same orders, and within a level orders stand in the order of their timestamps if the clock
  does not go back.
* `noCross_run`: a bid and an ask that cross belong to the same client.

The first is the representation relation read off the memory, plus what the checks of
`processRequest` contribute; only the order of the timestamps needs an invariant of its own
(`Ladder.Fifo`).  The second is an invariant of ladders: an order comes to rest only with
something left of it, and then nothing it could have traded with is left on the other side.
-/

namespace MatchingEngine

open OrderedMaps LinkedLists

/-! ## The representation invariant -/

namespace SymbolOrderBook

/-- The nodes of one level, walked from its head. -/
def levelNodes (b : SymbolOrderBook) (m : ℕ) : List ℕ :=
  walk b.nextOf (b.level m).orderCount (b.level m).head

end SymbolOrderBook

/-- What holds of the level block `m` stored under `price` in the map of side `s`. -/
structure LevelInvariant (b : SymbolOrderBook) (s : BookSide) (price : Price) (m : ℕ) : Prop where
  key : (b.level m).price = price
  nonempty : b.levelNodes m ≠ []
  list : IsDList b.prevOf b.nextOf (b.level m).head (b.level m).tail (b.levelNodes m)
  count : (b.levelNodes m).length = (b.level m).orderCount
  side : ∀ p ∈ b.levelNodes m, (b.order p).side = .buy ↔ s = .bid
  nodePrice : ∀ p ∈ b.levelNodes m, (b.order p).price = price ∧ 0 < (b.order p).price
  nodeQty : ∀ p ∈ b.levelNodes m, 0 < (b.order p).qty ∧ (b.order p).qty < invalidQty

/-- The representation invariant of `SymbolOrderBook`. -/
structure BookInvariant (b : SymbolOrderBook) : Prop where
  level : ∀ s, ∀ e ∈ (b.levels s).entries, LevelInvariant b s e.1 e.2
  /-- No node is in two lists, or twice in one. -/
  nodes : (b.nodesOf .bid ++ b.nodesOf .ask).Nodup
  /-- No id is carried by two nodes. -/
  ids : ((b.nodesOf .bid ++ b.nodesOf .ask).map fun p => (b.order p).orderId).Nodup
  index : ∀ id p, b.orderIndex id = some p ↔
    p ∈ b.nodesOf .bid ++ b.nodesOf .ask ∧ (b.order p).orderId = id
  orderPool : ∀ p, b.orderPool.InUse p ↔ p ∈ b.nodesOf .bid ++ b.nodesOf .ask
  /-- No level block is stored under two keys. -/
  levels : ((b.levels .bid).entries.map Prod.snd ++ (b.levels .ask).entries.map Prod.snd).Nodup
  levelPool : ∀ m, b.levelPool.InUse m ↔
    m ∈ (b.levels .bid).entries.map Prod.snd ++ (b.levels .ask).entries.map Prod.snd
  /-- `removeOrder` has always found the level of the order it removes. -/
  removals : b.missedRemovals = 0

namespace Rep

variable {b : SymbolOrderBook} {S : Shape}

lemma levelNodes_eq (h : Rep b S) {s : BookSide} {l : LevelShape} (hl : l ∈ S s) :
    b.levelNodes l.ptr = l.nodes := by
  have hrep := h.level s l hl
  rw [SymbolOrderBook.levelNodes, hrep.count, hrep.list.head_eq]
  exact hrep.list.seg.walk_eq (Nat.le_refl _)

lemma bookSide_eq_bid (side : Side) : side.bookSide = .bid ↔ side = .buy := by
  cases side <;> simp [Side.bookSide]

lemma levelInvariant (h : Rep b S) (hsound : (view b S).Forall Ladder.SoundOrder) {s : BookSide}
    {l : LevelShape} (hl : l ∈ S s) : LevelInvariant b s l.price l.ptr := by
  have hrep := h.level s l hl
  have hnodes := h.levelNodes_eq hl
  have hs : ∀ p ∈ l.nodes, Ladder.SoundOrder (b.record p) := fun p hp =>
    hsound _ (mem_all_view.mpr ⟨p, ⟨s, l, hl, hp⟩, rfl⟩)
  constructor
  case key => exact hrep.price
  case nonempty => exact hnodes ▸ hrep.nonempty
  case list => exact hnodes ▸ hrep.list
  case count => rw [hnodes, hrep.count]
  case side =>
    intro p hp
    rw [hnodes] at hp
    rw [← bookSide_eq_bid, ← (h.node s l hl p hp).1]
    rfl
  case nodePrice =>
    intro p hp
    rw [hnodes] at hp
    exact ⟨(h.node s l hl p hp).2, (hs p hp).price_pos⟩
  case nodeQty =>
    intro p hp
    rw [hnodes] at hp
    refine ⟨(hs p hp).qty_pos, ?_⟩
    have hne := (hs p hp).qty_ne
    rw [Ne, ← UInt64.toNat_inj] at hne
    rw [UInt64.lt_iff_toNat_lt]
    change (b.record p).qty.toNat ≠ 18446744073709551615 at hne
    change (b.record p).qty.toNat < 18446744073709551615
    have := (b.record p).qty.toNat_lt
    omega

lemma bookInvariant (h : Rep b S) (hsound : (view b S).Forall Ladder.SoundOrder) :
    BookInvariant b where
  level s e he := by
    rw [h.entries] at he
    obtain ⟨l, hl, rfl⟩ := List.mem_map.mp he
    exact h.levelInvariant hsound hl
  nodes := h.nodup_nodes
  ids := by
    refine h.nodup_nodes.map_on fun p hp q hq he => ?_
    exact h.eq_of_orderId (h.mem_nodes.mp hp) (h.mem_nodes.mp hq) he
  index id p := by
    rw [h.mem_nodes]
    exact h.index id p
  orderPool p := (h.orderInUse p).trans h.mem_nodes.symm
  levels := h.nodup_levels
  levelPool m := (h.levelInUse m).trans h.mem_levels.symm
  removals := h.missed

end Rep

/-! ## Time priority -/

namespace Ladder

/-- Every timestamp was read while one of `reqs` was processed. -/
def Stamped (reqs : List (EngineOrderRequest × Nanos)) (L : Ladder) : Prop :=
  L.Forall fun o => o.priorityTs ∈ reqs.map Prod.snd

/-- Orders at one price stand in the order of their timestamps. -/
def Fifo (L : Ladder) : Prop :=
  ∀ s, (L.orders s).Pairwise fun a b => a.price = b.price → a.priorityTs ≤ b.priorityTs

variable {symbol : Symbol} {L L' : Ladder} {req : EngineOrderRequest} {now : Nanos}
  {msgs : List OutMsg} {reqs : List (EngineOrderRequest × Nanos)}

/-- Resting an order stamped last keeps the timestamps in order. -/
lemma Fifo.rest (hL : L.Fifo) (h : L.WF) {x : OrderRecord}
    (hx : ∀ o ∈ L.all, o.priorityTs ≤ x.priorityTs) : (L.rest x).Fifo := by
  intro s
  by_cases hs : s = x.side.bookSide
  · subst hs
    refine h.pairwise_rest (hL _) (fun a ha _ _ => hx a (mem_all.mpr ⟨_, ha⟩)) fun a _ hlt he => ?_
    rw [he] at hlt
    exact absurd hlt (irrefl_of _ _)
  · rw [orders_rest_of_ne L x hs]
    exact hL s

lemma Fifo.trade (hL : L.Fifo) (h : L.WF) {i : Incoming} {qty : Qty} :
    (L.trade i qty).rest.Fifo :=
  fun s => h.pairwise_trade (fun _ _ _ _ hR => hR) (hL s)

lemma Stamped.trade (hL : L.Stamped reqs) (h : L.WF) {i : Incoming} {qty : Qty} :
    (L.trade i qty).rest.Stamped reqs := by
  refine h.forall_trade (fun o₀ o hs ho₀ => ?_) hL
  rw [hs.eq]
  exact ho₀

/-- The two facts about timestamps, after the requests `reqs`. -/
structure Timely (reqs : List (EngineOrderRequest × Nanos)) (L : Ladder) : Prop where
  stamped : L.Stamped reqs
  fifo : L.Fifo

lemma Timely.extend (hL : L.Timely reqs) (r : EngineOrderRequest × Nanos) :
    L.Timely (reqs ++ [r]) :=
  ⟨fun o ho => by simpa using .inl (by simpa using hL.stamped o ho), hL.fifo⟩

lemma Timely.trade (hL : L.Timely reqs) (h : L.WF) {i : Incoming} {qty : Qty} :
    (L.trade i qty).rest.Timely reqs :=
  ⟨hL.stamped.trade h, hL.fifo.trade h⟩

lemma Timely.remove (hL : L.Timely reqs) (id : OrderId) : (L.remove id).Timely reqs :=
  ⟨Forall.remove hL.stamped id, fun s => pairwise_remove (hL.fifo s) id⟩

lemma Timely.modify (hL : L.Timely reqs) (id : OrderId) (qty : Qty) :
    (L.modify id fun x => { x with qty := qty, originalQty := qty }).Timely reqs where
  stamped := Forall.modify hL.stamped id fun _ ho => ho
  fifo s := by
    rw [orders_modify, List.pairwise_map]
    refine (hL.fifo s).imp fun {a b} hab => ?_
    split_ifs <;> exact hab

lemma Timely.rest (hL : L.Timely reqs) (h : L.WF)
    (hclock : ((reqs ++ [(req, now)]).map Prod.snd).Pairwise (· ≤ ·)) {x : OrderRecord}
    (hx : x.priorityTs = now) : (L.rest x).Timely (reqs ++ [(req, now)]) where
  stamped := h.forall_rest (hL.extend _).stamped (by simp [hx])
  fifo := by
    refine hL.fifo.rest h fun o ho => ?_
    rw [List.map_append, List.pairwise_append] at hclock
    rw [hx]
    exact hclock.2.2 _ (hL.stamped o ho) now (by simp)

lemma Timely.place (hL : L.Timely reqs) (h : L.WF)
    (hclock : ((reqs ++ [(req, now)]).map Prod.snd).Pairwise (· ≤ ·)) {i : Incoming}
    {orderType : OrderType} {price : Price} {qty : Qty} :
    (L.place i orderType price qty now).1.Timely (reqs ++ [(req, now)]) := by
  rw [Ladder.place]
  split_ifs
  · exact (hL.trade h).rest h.trade hclock rfl
  · exact (hL.trade h).extend _

lemma Step.timely (h : L.WF) (hL : L.Timely reqs)
    (hclock : ((reqs ++ [(req, now)]).map Prod.snd).Pairwise (· ≤ ·))
    (hstep : Step symbol L req now L' msgs) : L'.Timely (reqs ++ [(req, now)]) := by
  cases hstep with
  | reject => exact hL.extend _
  | limit => exact hL.place h hclock
  | take => exact (hL.trade h).extend _
  | cancel => exact (hL.remove _).extend _
  | reprice => exact (hL.remove _).place (h.remove _) hclock
  | shrink => exact (hL.modify _ _).extend _
  | grow => exact (hL.remove _).rest (h.remove _) hclock rfl
  | keep => exact hL.extend _

lemma timely_runAll (symbol : Symbol) (reqs : List (EngineOrderRequest × Nanos)) :
    (reqs.map Prod.snd).Pairwise (· ≤ ·) → (empty.runAll symbol reqs).1.Timely reqs := by
  refine runAll_induction symbol (I := fun reqs L _ => (reqs.map Prod.snd).Pairwise (· ≤ ·) →
    L.Timely reqs) (fun _ => ⟨by simp [Stamped, Forall, empty, all, orders], fun s => .nil⟩) ?_ reqs
  intro reqs L log req now hwf _ hI hclock
  refine (process_step ..).timely hwf (hI ?_) hclock
  rw [List.map_append, List.pairwise_append] at hclock
  exact hclock.1

end Ladder

/-- After any requests the four structures of the book agree, and if the clock readings never
decrease then neither do the timestamps along a level. -/
theorem bookInvariant_run (symbol : Symbol) (reqs : List (EngineOrderRequest × Nanos)) :
    Reaches symbol reqs fun b => BookInvariant b ∧
      ((reqs.map Prod.snd).Pairwise (· ≤ ·) → ∀ s, ∀ e ∈ (b.levels s).entries,
        (b.levelNodes e.2).Pairwise fun p q =>
          (b.order p).priorityTs ≤ (b.order q).priorityTs) := by
  refine (run_refines symbol reqs).mono fun b ⟨S, hrep, hview, _, _⟩ =>
    ⟨?_, fun hclock s e he => ?_⟩
  · refine hrep.bookInvariant ?_
    rw [hview]
    exact Ladder.sound_runAll symbol reqs
  · rw [hrep.entries] at he
    obtain ⟨l, hl, rfl⟩ := List.mem_map.mp he
    rw [hrep.levelNodes_eq hl]
    have hfifo := (Ladder.timely_runAll symbol reqs hclock).fifo s
    rw [← hview, ← hrep.resting_eq, SymbolOrderBook.resting, hrep.nodesOf_eq, List.pairwise_map]
      at hfifo
    have hlevel := hfifo.sublist (List.sublist_flatten_of_mem (List.mem_map_of_mem hl))
    refine hlevel.imp_of_mem fun {p q} hp hq hpq => hpq ?_
    rw [(hrep.node s l hl p hp).2, (hrep.node s l hl q hq).2]

/-! ## No crossed book between different clients -/

lemma BookSide.before_contra (s : BookSide) (p q : Price) : s.contra.before p q ↔ s.before q p := by
  cases s <;> rfl

namespace Ladder

/-- Orders on opposite sides that could trade at their prices belong to one client. -/
def NoCross (L : Ladder) : Prop :=
  ∀ s, ∀ x ∈ L.orders s, ∀ y ∈ L.orders s.contra,
    ¬ s.contra.before x.price y.price → x.clientId = y.clientId

variable {symbol : Symbol} {L L' : Ladder} {req : EngineOrderRequest} {now : Nanos}
  {msgs : List OutMsg}

/-- A ladder whose orders all come from orders of `L`, up to quantity and time, crosses no more
than `L` does. -/
lemma NoCross.of_orders (hL : L.NoCross)
    (h : ∀ s, ∀ o ∈ L'.orders s, ∃ o₀ ∈ L.orders s, o.price = o₀.price ∧ o.clientId = o₀.clientId) :
    L'.NoCross := by
  intro s x hx y hy hcross
  obtain ⟨x₀, hx₀, hxp, hxc⟩ := h s x hx
  obtain ⟨y₀, hy₀, hyp, hyc⟩ := h s.contra y hy
  rw [hxp, hyp] at hcross
  rw [hxc, hyc]
  exact hL s x₀ hx₀ y₀ hy₀ hcross

lemma NoCross.trade (hL : L.NoCross) (h : L.WF) {i : Incoming} {qty : Qty} :
    (L.trade i qty).rest.NoCross := by
  refine hL.of_orders fun s o ho => ?_
  obtain ⟨o₀, ho₀, hs⟩ := h.survives_trade ho
  exact ⟨o₀, ho₀, by rw [hs.eq], by rw [hs.eq]⟩

lemma NoCross.remove (hL : L.NoCross) (id : OrderId) : (L.remove id).NoCross := by
  refine hL.of_orders fun s o ho => ⟨o, ?_, rfl, rfl⟩
  rw [orders_remove] at ho
  exact List.mem_of_mem_filter ho

lemma NoCross.modify (hL : L.NoCross) (id : OrderId) (qty : Qty) :
    (L.modify id fun x => { x with qty := qty, originalQty := qty }).NoCross := by
  refine hL.of_orders fun s o ho => ?_
  rw [orders_modify] at ho
  obtain ⟨o₀, ho₀, rfl⟩ := List.mem_map.mp ho
  refine ⟨o₀, ho₀, ?_⟩
  split_ifs
  · exact ⟨rfl, rfl⟩
  · exact ⟨rfl, rfl⟩

lemma NoCross.rest (hL : L.NoCross) (h : L.WF) {x : OrderRecord}
    (hx : ∀ y ∈ L.orders x.side.bookSide.contra,
      ¬ x.side.bookSide.contra.before x.price y.price → x.clientId = y.clientId) :
    (L.rest x).NoCross := by
  -- an order of the new ladder is `x` on its own side, or an old one
  have hmem : ∀ {s o}, o ∈ (L.rest x).orders s →
      (s = x.side.bookSide ∧ o = x) ∨ o ∈ L.orders s := by
    intro s o ho
    by_cases hs : s = x.side.bookSide
    · subst hs
      rw [h.orders_rest, List.mem_append, List.mem_cons, List.mem_filter, List.mem_filter] at ho
      rcases ho with ho | ho | ho
      · exact .inr ho.1
      · exact .inl ⟨rfl, ho⟩
      · exact .inr ho.1
    · rw [orders_rest_of_ne L x hs] at ho
      exact .inr ho
  intro s a ha b hb hcross
  rcases hmem ha with ⟨rfl, rfl⟩ | ha'
  · rcases hmem hb with ⟨hs, -⟩ | hb'
    · exact absurd hs (BookSide.contra_ne _)
    · exact hx b hb' hcross
  · rcases hmem hb with ⟨hs, rfl⟩ | hb'
    · have hs' : b.side.bookSide.contra = s := by rw [← hs, BookSide.contra_contra]
      refine (hx a (hs' ▸ ha') ?_).symm
      rw [hs', ← BookSide.before_contra]
      exact hcross
    · exact hL s a ha' b hb' hcross

lemma NoCross.place (hL : L.NoCross) (h : L.WF) {i : Incoming} {price : Price}
    (hlimit : i.limit = some price) {orderType : OrderType} {qty : Qty} :
    (L.place i orderType price qty now).1.NoCross := by
  rw [Ladder.place]
  split_ifs with hpos
  · refine (hL.trade h).rest h.trade fun y hy hcross => ?_
    change y ∈ (L.trade i qty).rest.orders i.target at hy
    change ¬ i.target.before price y.price at hcross
    rw [h.orders_trade] at hy
    rw [h.leaves_trade] at hpos
    have helig := Incoming.not_eligible_of_leaves hpos hy
    by_contra hne
    refine absurd (Incoming.eligible_iff.mpr ⟨fun he => hne he.symm, ?_⟩) (by simp [helig])
    rw [Incoming.blocked, hlimit]
    simpa using hcross
  · exact hL.trade h

lemma Step.noCross (h : L.WF) (hL : L.NoCross) (hstep : Step symbol L req now L' msgs) :
    L'.NoCross := by
  cases hstep with
  | reject => exact hL
  | limit hi htype hsound hfree => exact hL.place h (by rw [hi])
  | take => exact hL.trade h
  | cancel => exact hL.remove _
  | reprice hi => exact (hL.remove _).place (h.remove _) (by rw [hi])
  | shrink => exact hL.modify _ _
  | @grow o htype hfind hclient hprice hsound hgt =>
    -- the order goes back to the price it came from
    refine (hL.remove _).rest (h.remove _) fun y hy hcross => ?_
    rw [orders_remove] at hy
    have ho : o ∈ L.orders o.side.bookSide :=
      h.mem_orders.mpr ⟨(h.find_eq_some.mp hfind).1, rfl⟩
    rw [← hclient]
    exact hL _ o ho y (List.mem_of_mem_filter hy) hcross
  | keep => exact hL

lemma noCross_runAll (symbol : Symbol) (reqs : List (EngineOrderRequest × Nanos)) :
    (empty.runAll symbol reqs).1.NoCross :=
  runAll_induction symbol (I := fun _ L _ => L.NoCross) (by simp [NoCross, empty, orders])
    (fun _ _ _ _ _ hwf _ hL => (process_step ..).noCross hwf hL) reqs

end Ladder

/-- After any requests, a bid and an ask that cross belong to the same client. -/
theorem noCross_run (symbol : Symbol) (reqs : List (EngineOrderRequest × Nanos)) :
    Reaches symbol reqs fun b => ∀ bid ∈ b.resting .bid, ∀ ask ∈ b.resting .ask,
      bid.price ≥ ask.price → bid.clientId = ask.clientId := by
  refine (run_refines symbol reqs).mono fun b ⟨S, hrep, hview, _, _⟩ bid hbid ask hask hge => ?_
  have hL : (view b S).NoCross := by
    rw [hview]
    exact Ladder.noCross_runAll symbol reqs
  rw [hrep.resting_eq] at hbid hask
  exact hL .bid bid hbid ask hask (Int64.not_lt.mpr hge)

end MatchingEngine
