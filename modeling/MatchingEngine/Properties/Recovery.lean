import MatchingEngine.Properties.OrderEntry
import MatchingEngine.Properties.Traffic

/-!
# Taking a book down and building it up again

A book that a run has led to can be taken down by cancelling its orders, in any order
(`cancelAll_run`), and built up again by entering them as limit orders, in any order that keeps the
queue of every level (`reentry_run`).  Nothing trades on the way up: orders that cross belong to one
client, and the engine does not let a client trade with itself.
-/

namespace MatchingEngine

open OrderedMaps

namespace Ladder

variable {symbol : Symbol} {L L' : Ladder} {now : Nanos} {o : OrderRecord}

/-! ## Levels from queues -/

/-- A newly rested order goes to the end of its level; other levels stay as they are. -/
lemma WF.filter_rest (h : L.WF) (x : OrderRecord) (s : BookSide) (p : Price) :
    ((L.rest x).orders s).filter (fun o => decide (o.price = p)) =
      (L.orders s).filter (fun o => decide (o.price = p)) ++
        [x].filter fun o => decide (o.side.bookSide = s ∧ o.price = p) := by
  by_cases hs : s = x.side.bookSide
  · subst hs
    rw [h.orders_rest, List.filter_append, List.filter_cons, List.filter_cons]
    by_cases hp : x.price = p
    · subst hp
      have hlow : ((L.orders x.side.bookSide).filter fun o =>
          decide (¬ x.side.bookSide.before x.price o.price)).filter
            (fun o => decide (o.price = x.price)) =
          (L.orders x.side.bookSide).filter fun o => decide (o.price = x.price) := by
        rw [List.filter_filter]
        refine List.filter_congr fun o _ => ?_
        by_cases he : o.price = x.price
        · simp [he, irrefl_of x.side.bookSide.before x.price]
        · simp [he]
      have hhigh : ((L.orders x.side.bookSide).filter fun o =>
          decide (x.side.bookSide.before x.price o.price)).filter
            (fun o => decide (o.price = x.price)) = [] := by
        rw [List.filter_filter]
        refine List.filter_eq_nil_iff.mpr fun o _ => ?_
        by_cases he : o.price = x.price
        · simp [he, irrefl_of x.side.bookSide.before x.price]
        · simp [he]
      rw [hlow, hhigh]
      simp
    · have hsplit := congrArg (List.filter fun o => decide (o.price = p))
        (h.orders_split x.side.bookSide x.price)
      rw [List.filter_append] at hsplit
      simp [hp, hsplit]
  · have hs' : x.side.bookSide ≠ s := Ne.symm hs
    rw [orders_rest_of_ne L x hs]
    simp [hs']

/-- The levels of a side are what its queue is at the prices where there is one. -/
lemma WF.mem_rungs (h : L.WF) (hfull : L.Gapless) {s : BookSide} {r : Rung} :
    r ∈ L s ↔ ordersAt (L s) r.1 = r.2 ∧ r.2 ≠ [] := by
  constructor
  · intro hr
    refine ⟨?_, hfull s r hr⟩
    have hsorted := h.sorted s
    generalize L s = rungs at hr hsorted ⊢
    induction rungs with
    | nil => cases hr
    | cons r₀ rungs ih =>
      obtain ⟨hfirst, hrest⟩ := List.pairwise_cons.mp hsorted
      rw [ordersAt_cons]
      rcases List.mem_cons.mp hr with rfl | hr
      · rw [if_pos rfl]
      · have hne : r₀.1 ≠ r.1 := fun he => by
          have hlt := hfirst r hr
          rw [he] at hlt
          exact irrefl_of s.before r.1 hlt
        rw [if_neg hne]
        exact ih hr hrest
  · rintro ⟨hr, hne⟩
    rw [ordersAt] at hr
    cases hfind : (L s).find? fun r' => decide (r'.1 = r.1) with
    | none =>
      rw [hfind] at hr
      exact absurd hr.symm hne
    | some r' =>
      rw [hfind] at hr
      have hkey : r'.1 = r.1 := by simpa using List.find?_some hfind
      have hmem := List.mem_of_find?_eq_some hfind
      rwa [show r' = r from Prod.ext hkey hr] at hmem

/-- Two ladders with the same queue at every price have the same levels. -/
lemma ext_of_filter (h : L.WF) (h' : L'.WF) (hfull : L.Gapless) (hfull' : L'.Gapless)
    (hsame : ∀ s p, (L.orders s).filter (fun o => decide (o.price = p)) =
      (L'.orders s).filter fun o => decide (o.price = p)) : L = L' := by
  funext s
  have hnodup : ∀ {M : Ladder}, M.WF → (M s).Nodup := by
    intro M hM
    refine List.Pairwise.imp (fun {r r'} hlt he => ?_) (hM.sorted s)
    rw [he] at hlt
    exact irrefl_of s.before r'.1 hlt
  have hperm : (L s).Perm (L' s) := by
    refine (List.perm_ext_iff_of_nodup (hnodup h) (hnodup h')).mpr fun r => ?_
    rw [h.mem_rungs hfull, h'.mem_rungs hfull', h.ordersAt_eq, h'.ordersAt_eq, hsame]
  exact hperm.eq_of_pairwise (fun r r' _ _ hlt hgt => absurd hgt (asymm_of s.before hlt))
    (h.sorted s) (h'.sorted s)

/-! ## Entering an order again -/

/-- The request that enters a resting order again, for what is left of it. -/
def reentry (o : OrderRecord) : EngineOrderRequest where
  orderType := .limit
  clientId := o.clientId
  symbol := o.symbol
  orderId := o.orderId
  side := o.side
  price := o.price
  qty := o.qty

/-- The order as it rests after it was entered again at the time `now`. -/
def reentered (o : OrderRecord) (now : Nanos) : OrderRecord :=
  { o with originalQty := o.qty, priorityTs := now }

/-- The messages of an order that is accepted and rests. -/
def entryMsgs (o : OrderRecord) : List OutMsg :=
  [ .response ⟨.accepted, o.clientId, o.symbol, o.orderId, o.orderId, o.side, o.price, 0, o.qty⟩,
    .update ⟨.add, o.orderId, o.symbol, o.side, o.price, o.qty⟩ ]

/-- The order crosses nobody else's orders. -/
def Clear (L : Ladder) (o : OrderRecord) : Prop :=
  ∀ y ∈ L.orders o.side.bookSide.contra, ¬ o.side.bookSide.contra.before o.price y.price →
    o.clientId = y.clientId

lemma Clear.eligible_eq_false (h : L.Clear o) {i : Incoming}
    (hi : i = ⟨symbol, o.clientId, o.orderId, o.side, some o.price⟩) :
    ∀ y ∈ L.orders i.target, i.eligible y = false := by
  subst hi
  intro y hy
  rw [← Bool.not_eq_true, Incoming.eligible_iff]
  rintro ⟨hclient, hblocked⟩
  refine hclient (h y hy fun hbefore => ?_).symm
  have hblock : decide (o.side.bookSide.contra.before o.price y.price) = false := hblocked
  exact absurd hbefore (of_decide_eq_false hblock)

lemma process_reentry_eq (hfree : L.find o.orderId = none) (hsound : SoundOrder o) {i : Incoming}
    (hi : i = ⟨symbol, o.clientId, o.orderId, o.side, some o.price⟩) (now : Nanos) :
    L.process symbol (reentry o) now =
      ((L.place i .limit o.price o.qty now).1,
        ackMsg .accepted i o.price o.qty :: (L.place i .limit o.price o.qty now).2) := by
  have hzero : o.qty ≠ 0 := (qty_pos_iff_ne _).mp hsound.qty_pos
  have hinvalid : o.qty ≠ invalidQty := hsound.qty_ne
  have hprice : ¬ o.price ≤ 0 := Int64.not_le.mpr hsound.price_pos
  have hvalid : invalidReq (reentry o) = false := by
    simp [invalidReq, reentry, hzero, hinvalid, hprice]
  subst hi
  rw [process, hvalid]
  simp [open_, reentry, hfree, incomingOf]

/-- A clear order that is entered again goes to the end of its level, and nothing else happens. -/
lemma WF.process_reentry (h : L.WF) (hfree : L.find o.orderId = none) (hsound : SoundOrder o)
    (hsymbol : o.symbol = symbol) (htype : o.orderType = .limit) (hclear : L.Clear o)
    (now : Nanos) :
    (∀ s p, ((L.process symbol (reentry o) now).1.orders s).filter (fun x => decide (x.price = p)) =
        (L.orders s).filter (fun x => decide (x.price = p)) ++
          [reentered o now].filter fun x => decide (x.side.bookSide = s ∧ x.price = p)) ∧
      (L.process symbol (reentry o) now).2 = entryMsgs o := by
  obtain ⟨i, hi⟩ : ∃ i : Incoming, i = ⟨symbol, o.clientId, o.orderId, o.side, some o.price⟩ :=
    ⟨_, rfl⟩
  obtain ⟨horders, hleaves, hfills⟩ := h.trade_idle o.qty (hclear.eligible_eq_false hi)
  have hplace : L.place i .limit o.price o.qty now = ((L.trade i o.qty).rest.rest (reentered o now),
      [.update ⟨.add, o.orderId, symbol, o.side, o.price, o.qty⟩]) := by
    have hrecord : reentered o now =
        ⟨o.orderId, o.clientId, symbol, .limit, o.side, o.price, o.qty, o.qty, now⟩ := by
      rw [← hsymbol, ← htype]
      rfl
    rw [Ladder.place, hleaves, if_pos hsound.qty_pos, hfills, hrecord, hi]
    rfl
  rw [process_reentry_eq hfree hsound hi, hplace]
  constructor
  · intro s p
    rw [h.trade.filter_rest, horders]
  · rw [hi, ← hsymbol]
    rfl

/-! ## Entering orders one after the other -/

/-- The requests that enter the orders again, with the clock readings of `now`. -/
def reentries (now : OrderRecord → Nanos) (os : List OrderRecord) :
    List (EngineOrderRequest × Nanos) :=
  os.map fun o => (reentry o, now o)

/-- What a ladder must be for its orders to be entered again without trouble. -/
structure Enterable (symbol : Symbol) (L : Ladder) : Prop where
  wf : L.WF
  sound : L.Forall SoundOrder
  symbol : L.Forall fun o => o.symbol = symbol
  isLimit : L.Forall IsLimit
  noCross : L.NoCross

/-- The ladder that some of the orders of `L` make when they are entered again. -/
structure Rebuilt (now : OrderRecord → Nanos) (os : List OrderRecord) (M : Ladder) : Prop where
  wf : M.WF
  queues : ∀ s p, (M.orders s).filter (fun x => decide (x.price = p)) =
    (os.filter fun o => decide (o.side.bookSide = s ∧ o.price = p)).map fun o =>
      reentered o (now o)

/-- An order of the new ladder is one of those that were entered. -/
lemma Rebuilt.exists_of_mem {now : OrderRecord → Nanos} {os : List OrderRecord} {M : Ladder}
    (h : Rebuilt now os M) {s : BookSide} {y : OrderRecord} (hy : y ∈ M.orders s) :
    ∃ o ∈ os, o.side.bookSide = s ∧ y = reentered o (now o) := by
  have hmem : y ∈ (M.orders s).filter fun x => decide (x.price = y.price) := by simpa using hy
  rw [h.queues] at hmem
  obtain ⟨o, ho, rfl⟩ := List.mem_map.mp hmem
  obtain ⟨hos, hside⟩ := List.mem_filter.mp ho
  exact ⟨o, hos, (of_decide_eq_true hside).1, rfl⟩

lemma Enterable.rebuilt (h : Enterable symbol L) (now : OrderRecord → Nanos)
    {os : List OrderRecord} (hos : ∀ o ∈ os, o ∈ L.all)
    (hids : (os.map OrderRecord.orderId).Nodup) :
    Rebuilt now os (empty.runAll symbol (reentries now os)).1 ∧
      (empty.runAll symbol (reentries now os)).2 = os.flatMap entryMsgs := by
  induction os using List.reverseRecOn with
  | nil => exact ⟨⟨wf_empty, fun _ _ => rfl⟩, rfl⟩
  | append_singleton os o ih =>
    obtain ⟨hidsOs, -, hfresh⟩ : (os.map OrderRecord.orderId).Nodup ∧ _ ∧
        ∀ id ∈ os.map OrderRecord.orderId, ∀ id' ∈ [o.orderId], id ≠ id' := by
      rw [List.map_append] at hids
      exact List.nodup_append.mp hids
    obtain ⟨hM, hlog⟩ := ih (fun o' ho' => hos o' (List.mem_append_left _ ho')) hidsOs
    have ho : o ∈ L.all := hos o (by simp)
    have hown : o ∈ L.orders o.side.bookSide := h.wf.mem_orders.mpr ⟨ho, rfl⟩
    have hfree : (empty.runAll symbol (reentries now os)).1.find o.orderId = none := by
      refine find_eq_none.mpr fun y hy => ?_
      obtain ⟨s, hs⟩ := mem_all.mp hy
      obtain ⟨o', ho', -, rfl⟩ := hM.exists_of_mem hs
      exact hfresh _ (List.mem_map_of_mem ho') _ (List.mem_singleton_self _)
    have hclear : (empty.runAll symbol (reentries now os)).1.Clear o := by
      intro y hy hcross
      obtain ⟨o', ho', hside, rfl⟩ := hM.exists_of_mem hy
      have hother : o' ∈ L.orders o.side.bookSide.contra :=
        h.wf.mem_orders.mpr ⟨hos o' (List.mem_append_left _ ho'), hside⟩
      exact h.noCross _ o hown o' hother hcross
    obtain ⟨hqueues, hmsgs⟩ := hM.wf.process_reentry hfree (h.sound o ho) (h.symbol o ho)
      (h.isLimit o ho) hclear (now o)
    have hreqs : reentries now (os ++ [o]) = reentries now os ++ [(reentry o, now o)] := by
      simp [reentries]
    rw [hreqs, runAll_concat]
    refine ⟨⟨(process_step ..).wf hM.wf, fun s p => ?_⟩, ?_⟩
    · rw [hqueues, hM.queues, List.filter_append, List.map_append]
      congr 1
      by_cases hp : o.side.bookSide = s ∧ o.price = p
      · simp [hp, reentered]
      · simp [hp, reentered]
    · rw [hlog, hmsgs]
      simp

/-! ## The ladder of a run -/

lemma Step.same_symbol {L' : Ladder} {req : EngineOrderRequest} {msgs : List OutMsg} (h : L.WF)
    (hL : L.Forall fun o => o.symbol = symbol) (hstep : Step symbol L req now L' msgs) :
    L'.Forall fun o => o.symbol = symbol := by
  have hsurvives : ∀ o₀ o : OrderRecord, Incoming.Survives o₀ o → o₀.symbol = symbol →
      o.symbol = symbol := by
    intro o₀ o hs ho
    rw [hs.eq]
    exact ho
  cases hstep with
  | reject | keep => exact hL
  | limit hi =>
    subst hi
    exact h.forall_place hsurvives hL fun _ _ _ => rfl
  | take => exact h.forall_trade hsurvives hL
  | cancel => exact hL.remove _
  | reprice hi =>
    subst hi
    exact (h.remove _).forall_place hsurvives (hL.remove _) fun _ _ _ => rfl
  | shrink => exact hL.modify _ fun _ ho => ho
  | grow => exact (h.remove _).forall_rest (hL.remove _) rfl

lemma enterable_runAll (symbol : Symbol) (reqs : List (EngineOrderRequest × Nanos)) :
    Enterable symbol (empty.runAll symbol reqs).1 where
  wf := runAll_induction symbol (I := fun _ L _ => L.WF) wf_empty
    (fun _ _ _ _ _ hwf _ _ => (process_step ..).wf hwf) reqs
  sound := sound_runAll symbol reqs
  symbol := runAll_induction symbol (I := fun _ L _ => L.Forall fun o => o.symbol = symbol)
    (by simp [Forall, empty, all, orders])
    (fun _ _ _ _ _ hwf _ hL => (process_step ..).same_symbol hwf hL) reqs
  isLimit := isLimit_runAll symbol reqs
  noCross := noCross_runAll symbol reqs

/-- Change all orders in place. -/
def mapOrders (f : OrderRecord → OrderRecord) (L : Ladder) : Ladder := fun s =>
  (L s).map fun r => (r.1, r.2.map f)

lemma orders_mapOrders (f : OrderRecord → OrderRecord) (L : Ladder) (s : BookSide) :
    (L.mapOrders f).orders s = (L.orders s).map f := by
  rw [orders, orders, mapOrders, List.flatMap_map, List.map_flatMap]

lemma WF.mapOrders (h : L.WF) {f : OrderRecord → OrderRecord} (hf : InPlace f) :
    (L.mapOrders f).WF where
  sorted s := by
    rw [Ladder.mapOrders, List.pairwise_map]
    exact h.sorted s
  placed s r hr o ho := by
    obtain ⟨r₀, hr₀, rfl⟩ := List.mem_map.mp hr
    obtain ⟨o₀, ho₀, rfl⟩ := List.mem_map.mp ho
    rw [hf.side, hf.price]
    exact h.placed s r₀ hr₀ o₀ ho₀
  nodup := by
    have hids : ((L.mapOrders f).all.map OrderRecord.orderId) = L.all.map OrderRecord.orderId := by
      rw [all, all, orders_mapOrders, orders_mapOrders, ← List.map_append, List.map_map]
      exact List.map_congr_left fun o _ => hf.orderId o
    rw [hids]
    exact h.nodup

lemma Gapless.mapOrders (h : L.Gapless) (f : OrderRecord → OrderRecord) :
    (L.mapOrders f).Gapless := by
  intro s r hr
  obtain ⟨r₀, hr₀, rfl⟩ := List.mem_map.mp hr
  exact fun hnil => h s r₀ hr₀ (List.map_eq_nil_iff.mp hnil)

/-- The orders are those of the ladder, and those of each level stand in its order. -/
def Lists (L : Ladder) (os : List OrderRecord) : Prop :=
  ∀ s p, os.filter (fun o => decide (o.side.bookSide = s ∧ o.price = p)) = ordersAt (L s) p

lemma Lists.perm {os : List OrderRecord} (h : L.Lists os) (hwf : L.WF) : os.Perm L.all := by
  refine List.perm_iff_count.mpr fun o => ?_
  have hos : os.count o =
      (os.filter fun x => decide (x.side.bookSide = o.side.bookSide ∧ x.price = o.price)).count o :=
    (List.count_filter (by simp)).symm
  have hcontra : (L.orders o.side.bookSide.contra).count o = 0 := by
    refine List.count_eq_zero.mpr fun hmem => ?_
    exact BookSide.contra_ne _ (hwf.side hmem).symm
  rw [hos, h, hwf.ordersAt_eq, List.count_filter (by simp), (L.all_perm o.side.bookSide).count_eq,
    List.count_append, hcontra, Nat.add_zero]

/-- A ladder whose orders are entered again has the levels it had. -/
lemma Enterable.runAll_reentries (h : Enterable symbol L) (hfull : L.Gapless)
    {os : List OrderRecord} (hos : L.Lists os) (now : OrderRecord → Nanos) :
    empty.runAll symbol (reentries now os) =
      (L.mapOrders fun o => reentered o (now o), os.flatMap entryMsgs) := by
  have hperm := hos.perm h.wf
  obtain ⟨hM, hlog⟩ := h.rebuilt now (fun o ho => hperm.mem_iff.mp ho)
    ((hperm.map OrderRecord.orderId).nodup_iff.mpr h.wf.nodup)
  have hinPlace : InPlace fun o => reentered o (now o) := ⟨fun _ => rfl, fun _ => rfl, fun _ => rfl⟩
  refine Prod.ext ?_ hlog
  refine ext_of_filter hM.wf (h.wf.mapOrders hinPlace) (gapless_runAll symbol _)
    (hfull.mapOrders _) fun s p => ?_
  rw [hM.queues, hos, h.wf.ordersAt_eq, orders_mapOrders, List.filter_map]
  rfl

/-- On the way there are no levels that the ladder does not have. -/
lemma Enterable.length_rungs_le (h : Enterable symbol L) {now : OrderRecord → Nanos}
    {os : List OrderRecord} {M : Ladder} (hM : Rebuilt now os M) (hfull : M.Gapless)
    (hos : ∀ o ∈ os, o ∈ L.all) (s : BookSide) : (M s).length ≤ (L s).length := by
  have hnodup : ((M s).map Prod.fst).Nodup := by
    rw [List.Nodup, List.pairwise_map]
    refine List.Pairwise.imp (fun {r r'} hlt he => ?_) (hM.wf.sorted s)
    rw [he] at hlt
    exact irrefl_of s.before r'.1 hlt
  have hsub : (M s).map Prod.fst ⊆ (L s).map Prod.fst := by
    intro p hp
    obtain ⟨r, hr, rfl⟩ := List.mem_map.mp hp
    obtain ⟨y, hy⟩ := List.exists_mem_of_ne_nil _ (hfull s r hr)
    obtain ⟨o, ho, hside, rfl⟩ := hM.exists_of_mem (List.mem_flatMap.mpr ⟨r, hr, hy⟩)
    have hmem : o ∈ L.orders s := h.wf.mem_orders.mpr ⟨hos o ho, hside⟩
    obtain ⟨r₀, hr₀, ho₀⟩ := List.mem_flatMap.mp hmem
    have hprice : (reentered o (now o)).price = r.1 := hM.wf.price s r hr _ hy
    exact List.mem_map.mpr ⟨r₀, hr₀, (h.wf.price s r₀ hr₀ o ho₀).symm.trans hprice⟩
  have hlength := (hnodup.subperm hsub).length_le
  rwa [List.length_map, List.length_map] at hlength

/-- If the ladder fits into the pools, so do those on the way to it. -/
lemma Enterable.fits (h : Enterable symbol L) (hfits : L.FitsNew) {os : List OrderRecord}
    (hperm : os.Perm L.all) {now : OrderRecord → Nanos} {pre : List OrderRecord}
    (hpre : pre <+: os) : (empty.runAll symbol (reentries now pre)).1.FitsNew := by
  have hmem : ∀ o ∈ pre, o ∈ L.all := fun o ho => hperm.mem_iff.mp (hpre.subset ho)
  have hids : (pre.map OrderRecord.orderId).Nodup :=
    ((hperm.map OrderRecord.orderId).nodup_iff.mpr h.wf.nodup).sublist (hpre.sublist.map _)
  obtain ⟨hM, -⟩ := h.rebuilt now hmem hids
  have hfull := gapless_runAll symbol (reentries now pre)
  have hbids := h.length_rungs_le hM hfull hmem .bid
  have hasks := h.length_rungs_le hM hfull hmem .ask
  have hpaid := paid_runAll symbol (reentries now pre)
  have htrades := hpaid.trades
  have haccepted := hpaid.accepted
  have hlength := hpre.length_le
  have hreqs : (reentries now pre).length = pre.length := List.length_map _
  have hall := hperm.length_eq
  obtain ⟨horders, hlevels⟩ := hfits
  constructor <;> omega

end Ladder

/-- The orders of a book that a run has led to can be entered again as limit orders on a fresh book,
at any times and in any order that keeps the queue of every level.  All are accepted and rest,
nothing trades, and the book has the same levels with the same orders, which differ only in their
times and in what they count as their original quantity. -/
theorem reentry_run (symbol : Symbol) (reqs : List (EngineOrderRequest × Nanos))
    (b : SymbolOrderBook) (hb : run (.new symbol) reqs = .ok b) (os : List OrderRecord)
    (hos : b.ladder.Lists os) (now : OrderRecord → Nanos) :
    ∃ b', run (.new symbol) (Ladder.reentries now os) = .ok b' ∧
      b'.ladder = b.ladder.mapOrders (fun o => Ladder.reentered o (now o)) ∧
      b'.sent = os.flatMap Ladder.entryMsgs := by
  obtain ⟨S, hS⟩ := (run_refines symbol reqs).of_ok hb
  have hladder := hS.rep.ladder_eq
  have hfits := hS.rep.fits
  rw [capacity_run hb, ← hladder] at hfits
  have henterable : Ladder.Enterable symbol b.ladder := by
    rw [hladder, hS.view]
    exact Ladder.enterable_runAll symbol reqs
  have hfull : b.ladder.Gapless := by
    rw [hladder, hS.view]
    exact Ladder.gapless_runAll symbol reqs
  have hperm := hos.perm henterable.wf
  have hok : ∃ b', run (.new symbol) (Ladder.reentries now os) = .ok b' := by
    rw [run_ok_iff]
    intro pre hpre
    obtain ⟨pre', hpre', rfl⟩ := List.prefix_map_iff.mp hpre
    exact henterable.fits hfits hperm hpre'
  obtain ⟨b', hb'⟩ := hok
  obtain ⟨S', hS'⟩ := (run_refines symbol _).of_ok hb'
  have hrebuilt := henterable.runAll_reentries hfull hos now
  refine ⟨b', hb', ?_, ?_⟩
  · rw [hS'.rep.ladder_eq, hS'.view, hrebuilt]
  · rw [hS'.sent, hrebuilt]

/-- Two orders of one client that cross, one of them filled in part. -/
def crossedRequests : List (EngineOrderRequest × Nanos) :=
  [ (⟨.limit, 1, "ACME", 1, .buy, 101, 5, 0⟩, 1), (⟨.limit, 1, "ACME", 2, .sell, 100, 4, 0⟩, 2),
    (⟨.limit, 2, "ACME", 3, .sell, 101, 2, 0⟩, 3) ]

def crossedBid : OrderRecord := ⟨1, 1, "ACME", .limit, .buy, 101, 5, 3, 1⟩

def crossedAsk : OrderRecord := ⟨2, 1, "ACME", .limit, .sell, 100, 4, 4, 2⟩

lemma exists_crossedBook : ∃ b, run (.new "ACME") crossedRequests = .ok b ∧
    decide (b.ladder .bid = [(101, [crossedBid])] ∧ b.ladder .ask = [(100, [crossedAsk])] ∧
      b.resting .bid ++ b.resting .ask = [crossedBid, crossedAsk]) = true :=
  exists_ok_of_check (by decide +kernel)

/-- The crossed book is rebuilt with the ask entered first. -/
theorem reentry_run_crossed : ∃ b', run (.new "ACME")
      (Ladder.reentries (fun _ => 9) [crossedAsk, crossedBid]) = .ok b' ∧
    b'.ladder .bid = [(101, [⟨1, 1, "ACME", .limit, .buy, 101, 3, 3, 9⟩])] ∧
    b'.ladder .ask = [(100, [⟨2, 1, "ACME", .limit, .sell, 100, 4, 4, 9⟩])] := by
  obtain ⟨b, hb, hladder⟩ := exists_crossedBook
  obtain ⟨hbids, hasks, -⟩ := of_decide_eq_true hladder
  have hlists : b.ladder.Lists [crossedAsk, crossedBid] := by
    intro s p
    cases s with
    | bid =>
      rw [hbids, Ladder.ordersAt_cons]
      by_cases hp : (101 : Price) = p
      · simp [crossedAsk, crossedBid, Side.bookSide, hp]
      · simp [crossedAsk, crossedBid, Side.bookSide, hp, ordersAt]
    | ask =>
      rw [hasks, Ladder.ordersAt_cons]
      by_cases hp : (100 : Price) = p
      · simp [crossedAsk, crossedBid, Side.bookSide, hp]
      · simp [crossedAsk, crossedBid, Side.bookSide, hp, ordersAt]
  obtain ⟨b', hb', hladder', -⟩ := reentry_run "ACME" crossedRequests b hb _ hlists fun _ => 9
  refine ⟨b', hb', ?_, ?_⟩
  · rw [hladder', Ladder.mapOrders, hbids]
    rfl
  · rw [hladder', Ladder.mapOrders, hasks]
    rfl

/-! ## Cancelling orders -/

namespace Ladder

variable {symbol : Symbol} {L : Ladder} {now : Nanos} {o : OrderRecord}

/-- The request with which its owner cancels a resting order. -/
def cancellation (o : OrderRecord) : EngineOrderRequest where
  orderType := .cancel
  clientId := o.clientId
  symbol := o.symbol
  orderId := o.orderId

def cancellations (now : OrderRecord → Nanos) (os : List OrderRecord) :
    List (EngineOrderRequest × Nanos) :=
  os.map fun o => (cancellation o, now o)

/-- The messages of a cancelled order. -/
def cancelMsgs (o : OrderRecord) : List OutMsg :=
  [ .response ⟨.canceled, o.clientId, o.symbol, o.orderId, o.orderId, o.side, o.price, 0, 0⟩,
    .update ⟨.cancel, o.orderId, o.symbol, o.side, o.price, o.qty⟩ ]

lemma WF.process_cancellation (h : L.WF) (ho : o ∈ L.all) (hsymbol : o.symbol = symbol)
    (now : Nanos) :
    L.process symbol (cancellation o) now = (L.remove o.orderId, cancelMsgs o) := by
  have hfind : L.find o.orderId = some o := h.find_eq_some.mpr ⟨ho, rfl⟩
  have hvalid : invalidReq (cancellation o) = false := by
    simp [invalidReq, cancellation, OrderType.needsQty, OrderType.needsPrice]
  rw [process, hvalid]
  simp [cancel, cancellation, hfind, cancelMsgs, hsymbol]

lemma Fits.remove {c : ℕ × ℕ} (h : L.Fits c) (id : OrderId) : (L.remove id).Fits c := by
  have hrungs : ∀ s, (L.remove id s).length ≤ (L s).length := by
    intro s
    refine Nat.le_trans (List.length_filter_le _ _) (Nat.le_of_eq ?_)
    exact List.length_map _
  have hbids := hrungs .bid
  have hasks := hrungs .ask
  have hall : (L.remove id).all.length ≤ L.all.length := by
    rw [all_remove]
    exact List.length_filter_le _ _
  obtain ⟨horders, hlevels⟩ := h
  constructor <;> omega

/-- Cancelling orders leaves the others where they are. -/
lemma WF.runAll_cancellations (h : L.WF) (hsymbol : L.Forall fun o => o.symbol = symbol)
    (now : OrderRecord → Nanos) {os : List OrderRecord} (hos : ∀ o ∈ os, o ∈ L.all)
    (hnodup : os.Nodup) :
    (∀ s, (L.runAll symbol (cancellations now os)).1.orders s =
        (L.orders s).filter fun o => decide (o ∉ os)) ∧
      (L.runAll symbol (cancellations now os)).2 = os.flatMap cancelMsgs ∧
      ∀ c, L.Fits c → (L.runAll symbol (cancellations now os)).1.Fits c := by
  induction os generalizing L with
  | nil => exact ⟨fun s => (List.filter_eq_self.mpr (by simp)).symm, rfl, fun _ hfits => hfits⟩
  | cons o os ih =>
    obtain ⟨hnew, hrest⟩ := List.nodup_cons.mp hnodup
    have ho : o ∈ L.all := hos o (by simp)
    -- an order is not the one that was cancelled exactly if its id is not
    have hid : ∀ y ∈ L.all, y.orderId ≠ o.orderId ↔ y ≠ o := fun y hy =>
      not_congr ⟨fun he => List.inj_on_of_nodup_map h.nodup hy ho he, fun he => by rw [he]⟩
    obtain ⟨horders, hlog, hfits⟩ := ih (h.remove o.orderId) (hsymbol.remove _) (fun y hy => by
      have hy' := hos y (by simp [hy])
      refine mem_all_remove.mpr ⟨hy', (hid y hy').mpr ?_⟩
      rintro rfl
      exact hnew hy) hrest
    have hstep : L.runAll symbol (cancellations now (o :: os)) =
        (((L.remove o.orderId).runAll symbol (cancellations now os)).1,
          cancelMsgs o ++ ((L.remove o.orderId).runAll symbol (cancellations now os)).2) := by
      rw [cancellations, List.map_cons, runAll, h.process_cancellation ho (hsymbol o ho)]
      rfl
    rw [hstep]
    refine ⟨fun s => ?_, by rw [hlog, List.flatMap_cons], fun c hc => hfits c (hc.remove _)⟩
    rw [horders, orders_remove, List.filter_filter]
    refine List.filter_congr fun y hy => ?_
    have hy' := hid y (mem_all.mpr ⟨s, hy⟩)
    simp only [List.mem_cons, not_or, ne_eq, ← Bool.decide_and, decide_eq_decide]
    rw [and_comm]
    exact and_congr_left fun _ => hy'

end Ladder

/-- A run that a book goes through after a run. -/
lemma run_append_ok_iff {symbol : Symbol} {reqs reqs' : List (EngineOrderRequest × Nanos)}
    {b : SymbolOrderBook} (hb : run (.new symbol) reqs = .ok b) :
    (∃ b', run b reqs' = .ok b') ↔ ∀ pre, pre <+: reqs' →
      (Ladder.empty.runAll symbol (reqs ++ pre)).1.FitsNew := by
  have happend : run (.new symbol) (reqs ++ reqs') = run b reqs' := by
    rw [run_append, hb]
    rfl
  rw [← happend, run_ok_iff]
  constructor
  · exact fun h pre hpre => h _ ((List.prefix_append_right_inj reqs).mpr hpre)
  · intro h pre hpre
    rcases List.prefix_or_prefix_of_prefix hpre (List.prefix_append reqs reqs') with hle | hge
    · exact (run_ok_iff symbol reqs).mp ⟨b, hb⟩ pre hle
    · obtain ⟨post, rfl⟩ := hge
      exact h post ((List.prefix_append_right_inj reqs).mp hpre)

/-- A book without orders uses no memory. -/
lemma Rep.unused {b : SymbolOrderBook} {S : Shape} (h : Rep b S)
    (hempty : ∀ s, b.resting s = []) : b.ladder = Ladder.empty ∧ (∀ id, b.orderIndex id = none) ∧
      (∀ p, ¬ b.orderPool.InUse p) ∧ ∀ m, ¬ b.levelPool.InUse m := by
  have hshape : ∀ s, S s = [] := by
    intro s
    refine List.eq_nil_iff_forall_not_mem.mpr fun l hl => ?_
    obtain ⟨p, hp⟩ := List.exists_mem_of_ne_nil _ (h.level s l hl).nonempty
    have hmem : b.record p ∈ b.resting s := by
      rw [h.resting_eq, Ladder.orders, view, List.flatMap_map]
      exact List.mem_flatMap.mpr ⟨l, hl, List.mem_map_of_mem hp⟩
    rw [hempty s] at hmem
    cases hmem
  have hnot : ∀ p, ¬ S.Mem p := by
    rintro p ⟨s, l, hl, -⟩
    rw [hshape s] at hl
    cases hl
  refine ⟨?_, fun id => ?_, fun p hp => hnot p ((h.orderInUse p).mp hp), fun m hm => ?_⟩
  · rw [h.ladder_eq]
    funext s
    rw [view, hshape s]
    rfl
  · cases hindex : b.orderIndex id with
    | none => rfl
    | some p => exact absurd ((h.index id p).mp hindex).1 (hnot p)
  · obtain ⟨s, l, hl, -⟩ := (h.levelInUse m).mp hm
    rw [hshape s] at hl
    cases hl

/-- Orders of a book that a run has led to can be cancelled by their owners, any of them and in any
order.  The others stay where they are, and the messages are those of the cancelled orders; once
all are cancelled there are no levels, no ids, and no block of either pool is in use. -/
theorem cancellations_run (symbol : Symbol) (reqs : List (EngineOrderRequest × Nanos))
    (b : SymbolOrderBook) (hb : run (.new symbol) reqs = .ok b) (os : List OrderRecord)
    (hos : ∀ o ∈ os, o ∈ b.resting .bid ++ b.resting .ask) (hnodup : os.Nodup)
    (now : OrderRecord → Nanos) :
    ∃ b', run b (Ladder.cancellations now os) = .ok b' ∧
      (∀ s, b'.resting s = (b.resting s).filter fun o => decide (o ∉ os)) ∧
      b'.sent = b.sent ++ os.flatMap Ladder.cancelMsgs ∧
      ((∀ o ∈ b.resting .bid ++ b.resting .ask, o ∈ os) → b'.ladder = Ladder.empty ∧
        (∀ id, b'.orderIndex id = none) ∧ (∀ p, ¬ b'.orderPool.InUse p) ∧
        ∀ m, ¬ b'.levelPool.InUse m) := by
  obtain ⟨S, hS⟩ := (run_refines symbol reqs).of_ok hb
  have henterable := Ladder.enterable_runAll symbol reqs
  have hfits := hS.rep.fits
  rw [capacity_run hb, hS.view] at hfits
  have hresting : ∀ s, b.resting s = (Ladder.empty.runAll symbol reqs).1.orders s := fun s => by
    rw [hS.rep.resting_eq, hS.view]
  have hmem : ∀ o ∈ os, o ∈ (Ladder.empty.runAll symbol reqs).1.all := fun o ho => by
    rw [Ladder.all, ← hresting, ← hresting]
    exact hos o ho
  have hok : ∃ b', run b (Ladder.cancellations now os) = .ok b' := by
    rw [run_append_ok_iff hb]
    intro pre hpre
    obtain ⟨pre', hpre', rfl⟩ := List.prefix_map_iff.mp hpre
    rw [Ladder.runAll_append]
    exact (henterable.wf.runAll_cancellations henterable.symbol now
      (fun o ho => hmem o (hpre'.subset ho)) (hnodup.sublist hpre'.sublist)).2.2 _ hfits
  obtain ⟨b', hb'⟩ := hok
  have hrun : run (.new symbol) (reqs ++ Ladder.cancellations now os) = .ok b' := by
    rw [run_append, hb]
    exact hb'
  obtain ⟨S', hS'⟩ := (run_refines symbol _).of_ok hrun
  obtain ⟨horders, hlog, -⟩ := henterable.wf.runAll_cancellations henterable.symbol now hmem hnodup
  have hleft : ∀ s, b'.resting s = (b.resting s).filter fun o => decide (o ∉ os) := fun s => by
    rw [hS'.rep.resting_eq, hS'.view, Ladder.runAll_append, horders, hresting]
  refine ⟨b', hb', hleft, ?_, fun hall => hS'.rep.unused fun s => ?_⟩
  · rw [hS'.sent, hS.sent, Ladder.runAll_append, hlog]
  · rw [hleft]
    refine List.filter_eq_nil_iff.mpr fun o ho => ?_
    have hin : o ∈ os := by
      refine hall o ?_
      cases s with
      | bid => exact List.mem_append_left _ ho
      | ask => exact List.mem_append_right _ ho
    simp [hin]

/-- Cancelling both orders of the crossed book, the ask first, leaves nothing. -/
theorem cancellations_run_crossed : ∃ b b', run (.new "ACME") crossedRequests = .ok b ∧
    run b (Ladder.cancellations (fun _ => 9) [crossedAsk, crossedBid]) = .ok b' ∧
    b'.ladder = Ladder.empty ∧ ∀ p, ¬ b'.orderPool.InUse p := by
  obtain ⟨b, hb, hladder⟩ := exists_crossedBook
  obtain ⟨-, -, hresting⟩ := of_decide_eq_true hladder
  obtain ⟨b', hb', -, -, hdone⟩ := cancellations_run "ACME" crossedRequests b hb
    [crossedAsk, crossedBid] (by simp [hresting]) (by decide) fun _ => 9
  obtain ⟨hempty, -, hfree, -⟩ := hdone (by simp [hresting])
  exact ⟨b, b', hb, hb', hempty, hfree⟩

end MatchingEngine
