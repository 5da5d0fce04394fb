import MatchingEngine.Matcher.Reference
import MatchingEngine.Matcher.Runs

/-!
# The ladder simulates the naive book

`Sim` relates a ladder to a naive book: there are priority numbers under which they hold the
same orders, and along every queue of the ladder the numbers increase at each price.  As queues
also go from better to worse prices, the first eligible order of a queue is the best eligible
order of the flat list, and one pass over the queue is the repeated choice of the best
(`matchAll_sweep`).  `Sim.process` extends this to requests and `sim_runAll` to runs.
-/

namespace MatchingEngine

namespace Reference

open OrderedMaps

/-- A ladder's order as the naive book holds it, given the priority numbers. -/
def ofRecord (idx : OrderId → ℕ) (o : OrderRecord) : Order :=
  ⟨o.orderId, o.clientId, o.side, o.price, o.qty, idx o.orderId⟩

variable {idx : OrderId → ℕ} {i : Incoming}

/-! ## Priority -/

lemma not_better_self (side : Side) (o : Order) : better side o o = false := by
  by_cases h : side = .buy <;> simp [better, h]

lemma better_asymm {side : Side} {a b : Order} (h : better side a b = true) :
    better side b a = false := by
  by_cases hs : side = .buy <;> simp only [better, hs, if_true, if_false] at h ⊢ <;> grind

/-- An order that has priority over all others is the best. -/
lemma best_eq_some {side : Side} {os : List Order} {o : Order} (ho : o ∈ os)
    (h : ∀ o' ∈ os, o' = o ∨ better side o o' = true) : best side os = some o := by
  induction os with
  | nil => simp at ho
  | cons a os ih =>
    unfold best
    by_cases hos : o ∈ os
    · rw [ih hos fun o' ho' => h o' (by simp [ho'])]
      rcases h a (by simp) with rfl | hb
      · simp [not_better_self]
      · simp [hb]
    · obtain rfl : o = a := (List.mem_cons.mp ho).resolve_right hos
      cases hb : best side os with
      | none => rfl
      | some b =>
        have hbm := best_mem hb
        rcases h b (by simp [hbm]) with rfl | hbetter
        · exact absurd hbm hos
        · simp [better_asymm hbetter]

/-- Which orders of a ladder are eligible in the naive book. -/
lemma eligible_ofRecord (o : OrderRecord) :
    eligible i (ofRecord idx o) = true ↔ o.side.bookSide = i.target ∧ i.eligible o = true := by
  have hside : (o.side = .buy ↔ ¬ i.side = .buy) ↔ o.side.bookSide = i.target := by
    unfold Incoming.target
    cases o.side <;> cases i.side <;> simp [Side.bookSide, BookSide.contra]
  have hcross : crosses i.side i.limit o.price = true ↔ i.blocked o.price = false := by
    cases hlim : i.limit with
    | none => simp [crosses, Incoming.blocked, hlim]
    | some l =>
      have hblock : i.blocked o.price = false ↔ ¬ i.target.before l o.price := by
        simp [Incoming.blocked, hlim]
      rw [hblock, Incoming.target, crosses]
      cases i.side <;> simp [Side.bookSide, BookSide.contra, BookSide.before]
  simp only [eligible, ofRecord, Bool.decide_and, Bool.and_eq_true, decide_eq_true_eq, hside,
    hcross, Incoming.eligible_iff]

/-- Along a queue of the contra side, an earlier order has priority over a later one. -/
lemma better_ofRecord {side : Side} {a b : OrderRecord}
    (hprice : ¬ side.bookSide.contra.before b.price a.price)
    (hidx : a.price = b.price → idx a.orderId < idx b.orderId) :
    better side (ofRecord idx a) (ofRecord idx b) = true := by
  refine decide_eq_true_eq.mpr ?_
  rcases trichotomous_of side.bookSide.contra.before a.price b.price with hlt | heq | hgt
  · refine .inl ?_
    change if side = .buy then a.price < b.price else b.price < a.price
    cases side <;> simpa [Side.bookSide, BookSide.contra, BookSide.before] using hlt
  · exact .inr ⟨heq, hidx heq⟩
  · exact absurd hgt hprice

/-! ## Matching -/

lemma matchAll_done {os : List Order} {leaves : Qty}
    (h : leaves = 0 ∨ os.filter (eligible i) = []) : matchAll i os leaves = (os, leaves, []) := by
  unfold matchAll
  rcases h with h | h
  · rw [if_pos h]
  · split_ifs
    · rfl
    · have : best i.side (os.filter (eligible i)) = none := by rw [h]; rfl
      split
      · rfl
      · simp_all

lemma matchAll_step {os : List Order} {leaves : Qty} {o : Order} (hne : leaves ≠ 0)
    (hbest : best i.side (os.filter (eligible i)) = some o) :
    matchAll i os leaves =
      ((matchAll i (reduce os o (min leaves o.qty)) (leaves - min leaves o.qty)).1,
        (matchAll i (reduce os o (min leaves o.qty)) (leaves - min leaves o.qty)).2.1,
        report i o leaves ++
          (matchAll i (reduce os o (min leaves o.qty)) (leaves - min leaves o.qty)).2.2) := by
  rw [matchAll, if_neg hne]
  split
  · simp_all
  · simp_all

/-- The reports of a sequence of fills. -/
def reports (i : Incoming) (fills : List Fill) : List OutMsg :=
  (i.msgs fills).filter OutMsg.isTrade

lemma reports_cons (idx : OrderId → ℕ) {f : Fill} (hprice : f.price = f.order.price)
    (fills : List Fill) :
    reports i (f :: fills) = report i (ofRecord idx f.order) f.leaves ++ reports i fills := by
  have hlast : (OutMsg.update (if f.restQty = 0 then
        ⟨.cancel, f.order.orderId, i.symbol, f.order.side, f.price, 0⟩
      else ⟨.modify, f.order.orderId, i.symbol, f.order.side, f.price, f.restQty⟩)).isTrade =
      false := by
    split_ifs <;> rfl
  have hcons : i.msgs (f :: fills) = i.fillMsgs f ++ i.msgs fills := rfl
  rw [reports, hcons, List.filter_append, Incoming.fillMsgs]
  simp only [List.filter_cons, List.filter_nil, hlast]
  rw [hprice]
  rfl

/-- Trading with an order of the list leaves its remainder. -/
lemma reduce_perm {R : List Order} {pre post : List OrderRecord} {f : Fill}
    (hR : R.Perm ((pre ++ f.order :: post).map (ofRecord idx))) :
    (reduce R (ofRecord idx f.order) f.qty).Perm
      ((pre ++ (f.remainder.toList ++ post)).map (ofRecord idx)) := by
  have herase : (R.erase (ofRecord idx f.order)).Perm ((pre ++ post).map (ofRecord idx)) := by
    have := hR.trans ((List.perm_middle).map (ofRecord idx))
    rw [List.map_cons] at this
    exact (this.erase _).trans (by rw [List.erase_cons_head])
  rw [reduce, Fill.remainder]
  change (if f.restQty = 0 then _ else _ :: _).Perm _
  split_ifs with hzero
  · simpa using herase
  · refine (herase.cons _).trans ?_
    simp only [Option.toList_some, List.singleton_append]
    exact (List.perm_middle (a := { f.order with qty := f.restQty }) |>.map (ofRecord idx)).symm

/-- The first eligible order of a queue is the best of the list. -/
lemma best_of_queue {R : List Order} {pre os post : List OrderRecord} {o : OrderRecord}
    (hR : R.Perm ((pre ++ (o :: os ++ post)).map (ofRecord idx)))
    (hpre : ∀ o' ∈ pre, eligible i (ofRecord idx o') = false)
    (hpost : ∀ o' ∈ post, eligible i (ofRecord idx o') = false)
    (ho : o.side.bookSide = i.target ∧ i.eligible o)
    (hfirst : ∀ o' ∈ os, ¬ i.target.before o'.price o.price ∧
      (o.price = o'.price → idx o.orderId < idx o'.orderId)) :
    best i.side (R.filter (eligible i)) = some (ofRecord idx o) := by
  refine best_eq_some ?_ fun x hx => ?_
  · rw [List.mem_filter, hR.mem_iff, eligible_ofRecord]
    exact ⟨List.mem_map.mpr ⟨o, by simp, rfl⟩, ho⟩
  · rw [List.mem_filter, hR.mem_iff] at hx
    obtain ⟨hx, helig⟩ := hx
    obtain ⟨o', ho', rfl⟩ := List.mem_map.mp hx
    rw [List.mem_append, List.cons_append, List.mem_cons, List.mem_append] at ho'
    rcases ho' with ho' | rfl | ho' | ho'
    · simp [hpre o' ho'] at helig
    · exact .inl rfl
    · exact .inr (better_ofRecord (hfirst o' ho').1 (hfirst o' ho').2)
    · simp [hpost o' ho'] at helig

/-- One pass over a queue is the repeated choice of the best eligible order.  The queue stands
between orders `pre` that have been passed over and orders `post` of the other side. -/
lemma matchAll_sweep (post : List OrderRecord) (hpost : ∀ o ∈ post, o.side.bookSide ≠ i.target)
    (os : List OrderRecord) : ∀ (pre : List OrderRecord) (leaves : Qty) (R : List Order),
      R.Perm ((pre ++ (os ++ post)).map (ofRecord idx)) →
      (leaves = 0 ∨ ∀ o ∈ pre, eligible i (ofRecord idx o) = false) →
      (∀ o ∈ os, o.side.bookSide = i.target) →
      os.Pairwise (fun a b => ¬ i.target.before b.price a.price ∧
        (a.price = b.price → idx a.orderId < idx b.orderId)) →
      ∃ R', matchAll i R leaves =
          (R', (i.sweepOrders os leaves).leaves, reports i (i.sweepOrders os leaves).fills) ∧
        R'.Perm ((pre ++ ((i.sweepOrders os leaves).rest ++ post)).map (ofRecord idx)) := by
  have hpost' : ∀ o ∈ post, eligible i (ofRecord idx o) = false := fun o ho => by
    rw [← Bool.not_eq_true, eligible_ofRecord]
    exact fun h => hpost o ho h.1
  induction os with
  | nil =>
    intro pre leaves R hR hpre _ _
    refine ⟨R, ?_, hR⟩
    rw [matchAll_done]
    · rfl
    · refine hpre.imp_right fun hpre => List.filter_eq_nil_iff.mpr fun o ho => ?_
      obtain ⟨o', ho', rfl⟩ := List.mem_map.mp (hR.mem_iff.mp ho)
      rcases List.mem_append.mp ho' with ho' | ho'
      · simp [hpre o' ho']
      · simp [hpost' o' (by simpa using ho')]
  | cons o os ih =>
    intro pre leaves R hR hpre hside hsorted
    obtain ⟨hfirst, hrest⟩ := List.pairwise_cons.mp hsorted
    have hside' : ∀ o' ∈ os, o'.side.bookSide = i.target := fun o' ho' => hside o' (by simp [ho'])
    by_cases hcond : i.eligible o ∧ leaves > 0
    · have hne : leaves ≠ 0 := (qty_pos_iff_ne _).mp hcond.2
      have hpre' := hpre.resolve_left hne
      have hbest : best i.side (R.filter (eligible i)) = some (ofRecord idx o) :=
        best_of_queue hR hpre' hpost' ⟨hside o (by simp), hcond.1⟩ hfirst
      set f : Fill := ⟨o.price, o, leaves⟩ with hf
      have hreduce : (reduce R (ofRecord idx o) f.qty).Perm
          ((pre ++ (f.remainder.toList ++ (os ++ post))).map (ofRecord idx)) :=
        reduce_perm (f := f) hR
      rw [Incoming.sweepOrders_fill hcond hf, matchAll_step hne hbest, reports_cons idx rfl]
      change ∃ R', ((matchAll i (reduce R (ofRecord idx o) f.qty) (leaves - f.qty)).1, _, _) = _ ∧ _
      cases hrem : f.remainder with
      | none =>
        rw [hrem, Option.toList_none, List.nil_append] at hreduce
        obtain ⟨R', hmatch, hR'⟩ := ih pre (leaves - f.qty) _ hreduce (.inr hpre') hside' hrest
        refine ⟨R', ?_, by simpa using hR'⟩
        rw [show min leaves (ofRecord idx o).qty = f.qty from rfl, hmatch]
      | some o' =>
        rw [hrem, Option.toList_some, List.singleton_append] at hreduce
        have hzero : leaves - f.qty = 0 := by
          refine Fill.leaves_sub_of_restQty_ne (f := f) fun hz => ?_
          simp [Fill.remainder, hz] at hrem
        obtain ⟨R', hmatch, hR'⟩ := ih (pre ++ [o']) (leaves - f.qty) _ (by simpa using hreduce)
          (.inl hzero) hside' hrest
        refine ⟨R', ?_, by simpa using hR'⟩
        rw [show min leaves (ofRecord idx o).qty = f.qty from rfl, hmatch]
    · rw [Incoming.sweepOrders_pass hcond]
      have hpre' : leaves = 0 ∨ ∀ o' ∈ pre ++ [o], eligible i (ofRecord idx o') = false := by
        rcases hpre with hz | hpre
        · exact .inl hz
        · by_cases hz : leaves = 0
          · exact .inl hz
          refine .inr fun o' ho' => ?_
          rcases List.mem_append.mp ho' with ho' | ho'
          · exact hpre o' ho'
          · rw [← Bool.not_eq_true, eligible_ofRecord, List.mem_singleton.mp ho']
            exact fun h => hcond ⟨h.2, (qty_pos_iff_ne _).mpr hz⟩
      obtain ⟨R', hmatch, hR'⟩ := ih (pre ++ [o]) leaves R (by simpa using hR) hpre' hside' hrest
      exact ⟨R', hmatch, by simpa using hR'⟩

/-! ## The simulation relation -/

/-- Under the priority numbers `idx`, all below `n`, the ladder and the list hold the same orders
and every queue respects the numbers. -/
structure Sim (idx : OrderId → ℕ) (L : Ladder) (R : List Order) (n : ℕ) : Prop where
  perm : R.Perm (L.all.map (ofRecord idx))
  fifo : ∀ s, (L.orders s).Pairwise fun a b => a.price = b.price → idx a.orderId < idx b.orderId
  bound : ∀ o ∈ L.all, idx o.orderId < n

namespace Sim

variable {L : Ladder} {R : List Order} {n : ℕ}

lemma find (h : Sim idx L R n) (hwf : L.WF) (id : OrderId) :
    R.find? (fun o => decide (o.orderId = id)) = (L.find id).map (ofRecord idx) := by
  cases hfind : L.find id with
  | none =>
    refine List.find?_eq_none.mpr fun x hx => ?_
    obtain ⟨o, ho, rfl⟩ := List.mem_map.mp (h.perm.mem_iff.mp hx)
    exact fun hd => Ladder.find_eq_none.mp hfind o ho (of_decide_eq_true hd)
  | some o =>
    obtain ⟨ho, hid⟩ := hwf.find_eq_some.mp hfind
    cases hR : R.find? (fun o => decide (o.orderId = id)) with
    | none =>
      have := List.find?_eq_none.mp hR _ (h.perm.mem_iff.mpr (List.mem_map.mpr ⟨o, ho, rfl⟩))
      exact absurd (decide_eq_true hid) this
    | some x =>
      obtain ⟨o', ho', rfl⟩ := List.mem_map.mp (h.perm.mem_iff.mp (List.mem_of_find?_eq_some hR))
      have hdec := List.find?_some hR
      have hid' : o'.orderId = id := of_decide_eq_true hdec
      rw [List.inj_on_of_nodup_map hwf.nodup ho' ho (hid'.trans hid.symm)]
      rfl

lemma trade (h : Sim idx L R n) (hwf : L.WF) (i : Incoming) (qty : Qty) :
    ∃ R', matchAll i R qty = (R', (L.trade i qty).leaves, reports i (L.trade i qty).fills) ∧
      Sim idx (L.trade i qty).rest R' n := by
  have hsorted : (L.orders i.target).Pairwise fun a b => ¬ i.target.before b.price a.price ∧
      (a.price = b.price → idx a.orderId < idx b.orderId) :=
    (hwf.orders_sorted i.target).and (h.fifo i.target)
  obtain ⟨R', hmatch, hR'⟩ := matchAll_sweep (L.orders i.target.contra)
    (fun o ho => hwf.side ho ▸ BookSide.contra_ne _) (L.orders i.target) [] qty R
    (h.perm.trans ((L.all_perm i.target).map _)) (.inr (by simp)) (fun o ho => hwf.side ho) hsorted
  refine ⟨R', by rw [hmatch, hwf.leaves_trade, hwf.fills_trade], ?_, ?_, ?_⟩
  · refine hR'.trans (List.Perm.map _ ?_)
    rw [List.nil_append, ← hwf.orders_trade]
    have := ((L.trade i qty).rest.all_perm i.target).symm
    rwa [Ladder.orders_trade_of_ne i.target.contra_ne] at this
  · exact fun s => hwf.pairwise_trade (fun _ _ _ _ hR => hR) (h.fifo s)
  · exact hwf.forall_trade (fun o₀ o hs ho₀ => by rw [hs.eq]; exact ho₀) h.bound

lemma remove (h : Sim idx L R n) (id : OrderId) :
    Sim idx (L.remove id) (R.filter fun o => decide (o.orderId ≠ id)) n where
  perm := by
    refine (h.perm.filter _).trans ?_
    rw [List.filter_map, Ladder.all_remove]
    rfl
  fifo s := Ladder.pairwise_remove (h.fifo s) id
  bound := Ladder.Forall.remove h.bound id

lemma mono (h : Sim idx L R n) {n' : ℕ} (hn : n ≤ n') : Sim idx L R n' :=
  ⟨h.perm, h.fifo, fun o ho => Nat.lt_of_lt_of_le (h.bound o ho) hn⟩

/-- A new order gets the next number, and with it the last place at its price. -/
lemma rest (h : Sim idx L R n) (hwf : L.WF) {x : OrderRecord} (hx : L.find x.orderId = none) :
    Sim (Function.update idx x.orderId n) (L.rest x)
      (⟨x.orderId, x.clientId, x.side, x.price, x.qty, n⟩ :: R) (n + 1) := by
  have hold : ∀ o ∈ L.all, Function.update idx x.orderId n o.orderId = idx o.orderId := fun o ho =>
    Function.update_of_ne (Ladder.find_eq_none.mp hx o ho) ..
  constructor
  case perm =>
    have hself : ofRecord (Function.update idx x.orderId n) x =
        ⟨x.orderId, x.clientId, x.side, x.price, x.qty, n⟩ := by simp [ofRecord]
    refine ((h.perm.cons _).trans ?_).trans ((hwf.all_rest x).map _).symm
    rw [List.map_cons, hself]
    refine .cons _ (.of_eq (List.map_congr_left fun o ho => ?_))
    rw [ofRecord, ofRecord, hold o ho]
  case fifo =>
    have hfifo : ∀ s, (L.orders s).Pairwise fun a b => a.price = b.price →
        Function.update idx x.orderId n a.orderId < Function.update idx x.orderId n b.orderId := by
      intro s
      refine (h.fifo s).imp_of_mem fun {a b} ha hb hab => ?_
      rw [hold a (Ladder.mem_all.mpr ⟨s, ha⟩), hold b (Ladder.mem_all.mpr ⟨s, hb⟩)]
      exact hab
    intro s
    by_cases hs : s = x.side.bookSide
    · subst hs
      refine hwf.pairwise_rest (hfifo _) (fun a ha _ _ => ?_) fun a _ hlt he => ?_
      · have ha' : a ∈ L.all := Ladder.mem_all.mpr ⟨_, ha⟩
        rw [hold a ha', Function.update_self]
        exact h.bound a ha'
      · rw [he] at hlt
        exact absurd hlt (irrefl_of _ _)
    · rw [Ladder.orders_rest_of_ne L x hs]
      exact hfifo s
  case bound =>
    intro o ho
    rcases hwf.mem_all_rest.mp ho with rfl | ho
    · rw [Function.update_self]
      exact Nat.lt_succ_self n
    · rw [hold o ho]
      exact Nat.lt_succ_of_lt (h.bound o ho)

/-- A smaller quantity keeps the number. -/
lemma setQty (h : Sim idx L R n) (hwf : L.WF) {id : OrderId} {o : OrderRecord}
    (ho : L.find id = some o) (qty : Qty) :
    Sim idx (L.modify id fun x => { x with qty := qty, originalQty := qty })
      ({ ofRecord idx o with qty := qty } :: R.filter fun o => decide (o.orderId ≠ id)) n := by
  constructor
  case perm =>
    rw [Ladder.all_modify, List.map_map]
    refine ((h.remove id).perm.cons _).trans (((hwf.all_split ho).map _).trans ?_).symm
    rw [List.map_cons]
    refine .of_eq (congrArg₂ List.cons ?_ (List.map_congr_left fun x hx => ?_))
    · rw [Function.comp, if_pos (hwf.find_eq_some.mp ho).2]
      rfl
    · rw [Function.comp, if_neg (Ladder.mem_all_remove.mp hx).2]
  case fifo =>
    intro s
    rw [Ladder.orders_modify, List.pairwise_map]
    refine (h.fifo s).imp fun {a b} hab => ?_
    split_ifs <;> exact hab
  case bound =>
    intro x hx
    rw [Ladder.all_modify] at hx
    obtain ⟨o', ho', rfl⟩ := List.mem_map.mp hx
    have := h.bound o' ho'
    split_ifs <;> exact this

/-- Matching, then resting the remainder. -/
lemma place {B : Book} (h : Sim idx L R B.count) (hwf : L.WF) {i : Incoming}
    (hfree : L.find i.orderId = none) (orderType : OrderType) (price : Price) (qty : Qty)
    (now : Nanos) :
    ∃ idx', Sim idx' (L.place i orderType price qty now).1 (B.place R i price qty).1 (B.count + 1) ∧
      (B.place R i price qty).2 = (L.place i orderType price qty now).2.filter OutMsg.isTrade := by
  obtain ⟨R', hmatch, hsim⟩ := h.trade hwf i qty
  rw [Book.place, Ladder.place, hmatch]
  by_cases hzero : (L.trade i qty).leaves = 0
  · have hpos : ¬ (L.trade i qty).leaves > 0 := fun hp => (qty_pos_iff_ne _).mp hp hzero
    rw [if_neg hpos]
    simp only [hzero, if_true]
    exact ⟨idx, hsim.mono (Nat.le_succ _), rfl⟩
  · rw [if_pos ((qty_pos_iff_ne _).mpr hzero)]
    simp only [hzero, if_false]
    refine ⟨_, hsim.rest hwf.trade (x := ⟨i.orderId, i.clientId, i.symbol, orderType, i.side, price,
      qty, (L.trade i qty).leaves, now⟩) (Rep.find_trade_eq_none hwf hfree), ?_⟩
    rw [List.filter_append]
    exact (List.append_nil _).symm

/-- Matching, then cancelling the remainder. -/
lemma take (h : Sim idx L R n) (hwf : L.WF) (i : Incoming) (price : Price) (qty : Qty) :
    Sim idx (L.take i price qty).1 (matchAll i R qty).1 (n + 1) ∧
      (matchAll i R qty).2.2 = (L.take i price qty).2.filter OutMsg.isTrade := by
  obtain ⟨R', hmatch, hsim⟩ := h.trade hwf i qty
  rw [hmatch, Ladder.take]
  refine ⟨hsim.mono (Nat.le_succ _), ?_⟩
  rw [List.filter_append]
  split_ifs
  · exact (List.append_nil _).symm
  · exact (List.append_nil _).symm

/-- A larger quantity: the order comes back with a new number. -/
lemma requeue (h : Sim idx L R n) (hwf : L.WF) {id : OrderId} {o x : OrderRecord}
    (hid : x.orderId = id) (hclient : x.clientId = o.clientId)
    (hside : x.side = o.side) (hprice : x.price = o.price) (ho : o.orderId = id) :
    Sim (Function.update idx id n) ((L.remove id).rest x)
      ({ ofRecord idx o with qty := x.qty, index := n } ::
        R.filter fun o => decide (o.orderId ≠ id)) (n + 1) := by
  subst hid
  have := (h.remove x.orderId).rest (hwf.remove _) (Ladder.find_remove_self L _)
  rw [hclient, hside, hprice] at this
  rw [ofRecord, ho]
  exact this

end Sim

/-! ## Requests -/

lemma refuses_eq (req : EngineOrderRequest) : Book.refuses req = Ladder.invalidReq req := by
  rw [Book.refuses, Ladder.invalidReq]
  cases req.orderType <;> simp [OrderType.needsQty, OrderType.needsPrice]

/-- The relation after one request, and the reports of its trades. -/
def SimStep (L' : Ladder) (msgs : List OutMsg) (out : List Order × List OutMsg) (n : ℕ) : Prop :=
  ∃ idx', Sim idx' L' out.1 n ∧ out.2 = msgs.filter OutMsg.isTrade

lemma Sim.unchanged {L : Ladder} {R : List Order} {n : ℕ} (h : Sim idx L R n) {msgs : List OutMsg}
    (hmsgs : ∀ m ∈ msgs, m.isTrade = false) : SimStep L msgs (R, []) (n + 1) :=
  ⟨idx, h.mono (Nat.le_succ _), (List.filter_eq_nil_iff.mpr fun m hm => by simp [hmsgs m hm]).symm⟩

section Process

variable {L : Ladder} {B : Book} {symbol : Symbol} {req : EngineOrderRequest} {now : Nanos}

lemma Sim.cancel (h : Sim idx L B.orders B.count) (hwf : L.WF)
    (hvalid : Book.refuses req = false) (htype : req.orderType = .cancel) :
    SimStep (L.cancel symbol req).1 (L.cancel symbol req).2 (B.effect symbol req)
      (B.count + 1) := by
  have hfind : B.find req.orderId = (L.find req.orderId).map (ofRecord idx) :=
    h.find hwf req.orderId
  rw [Ladder.cancel, Book.effect, hvalid, htype, hfind]
  cases hL : L.find req.orderId with
  | none => exact h.unchanged (by simp [Ladder.unnamedMsg, OutMsg.isTrade])
  | some o =>
    simp only [Option.map_some, Bool.false_eq_true, if_false]
    change SimStep _ _ (if o.clientId ≠ req.clientId then _ else _) _
    by_cases hclient : o.clientId ≠ req.clientId
    · rw [if_pos hclient, if_pos hclient]
      exact h.unchanged (by simp [Ladder.unnamedMsg, OutMsg.isTrade])
    · rw [if_neg hclient, if_neg hclient]
      exact (h.remove req.orderId).unchanged (by simp [OutMsg.isTrade])

lemma Sim.modify (h : Sim idx L B.orders B.count) (hwf : L.WF)
    (hvalid : Book.refuses req = false) (htype : req.orderType = .modify) :
    SimStep (L.modifyNamed symbol req now).1 (L.modifyNamed symbol req now).2
      (B.effect symbol req) (B.count + 1) := by
  have hfind : B.find req.orderId = (L.find req.orderId).map (ofRecord idx) :=
    h.find hwf req.orderId
  rw [Ladder.modifyNamed, Book.effect, hvalid, htype, hfind]
  cases hL : L.find req.orderId with
  | none => exact h.unchanged (by simp [Ladder.unnamedMsg, OutMsg.isTrade])
  | some o =>
    simp only [Option.map_some, Bool.false_eq_true, if_false]
    change SimStep _ _ (if o.clientId ≠ req.clientId then _ else if req.price ≠ o.price then _
      else if req.qty < o.qty then _ else if req.qty > o.qty then _ else _) _
    by_cases hclient : o.clientId ≠ req.clientId
    · rw [if_pos hclient, if_pos hclient]
      exact h.unchanged (by simp [Ladder.unnamedMsg, OutMsg.isTrade])
    rw [if_neg hclient, if_neg hclient, Ladder.amend]
    by_cases hprice : req.price ≠ o.price
    · rw [if_pos hprice, if_pos hprice]
      obtain ⟨idx', hsim, hmsgs⟩ := (h.remove req.orderId).place (B := B) (hwf.remove _)
        (i := ⟨symbol, req.clientId, req.orderId, o.side, some req.price⟩)
        (Ladder.find_remove_self L _) o.orderType req.price req.qty now
      exact ⟨idx', hsim, hmsgs⟩
    rw [if_neg hprice, if_neg hprice]
    by_cases hlt : req.qty < o.qty
    · rw [if_pos hlt, if_pos hlt]
      exact (h.setQty hwf hL req.qty).unchanged (by simp [OutMsg.isTrade, Ladder.ackMsg])
    rw [if_neg hlt, if_neg hlt]
    by_cases hgt : req.qty > o.qty
    · rw [if_pos hgt, if_pos hgt]
      exact ⟨_, h.requeue hwf (o := o) rfl (not_not.mp hclient).symm rfl rfl
        (hwf.find_eq_some.mp hL).2, rfl⟩
    · rw [if_neg hgt, if_neg hgt]
      exact h.unchanged (by simp [OutMsg.isTrade, Ladder.ackMsg])

lemma Sim.opening (h : Sim idx L B.orders B.count) (hwf : L.WF)
    (hvalid : Book.refuses req = false)
    (htype : req.orderType = .limit ∨ req.orderType = .market ∨ req.orderType = .ioc) :
    SimStep (L.open_ symbol req now).1 (L.open_ symbol req now).2 (B.effect symbol req)
      (B.count + 1) := by
  have hfind : B.find req.orderId = (L.find req.orderId).map (ofRecord idx) :=
    h.find hwf req.orderId
  rw [Ladder.open_, Book.effect, hvalid, hfind]
  cases hL : L.find req.orderId with
  | some o =>
    simp only [Option.isSome_some, if_true]
    rcases htype with htype | htype | htype <;> rw [htype] <;>
      exact h.unchanged (by simp [OutMsg.isTrade, Ladder.duplicateMsg])
  | none =>
    simp only [Option.isSome_none, Bool.false_eq_true, if_false, Option.map_none, Ladder.incomingOf]
    rcases htype with htype | htype | htype
    · rw [htype]
      obtain ⟨idx', hsim, hmsgs⟩ := h.place hwf
        (i := ⟨symbol, req.clientId, req.orderId, req.side, some req.price⟩) hL .limit req.price
        req.qty now
      exact ⟨idx', hsim, hmsgs⟩
    · rw [htype]
      exact ⟨idx, h.take hwf _ _ _⟩
    · rw [htype]
      exact ⟨idx, h.take hwf _ _ _⟩

lemma Sim.process (h : Sim idx L B.orders B.count) (symbol : Symbol) (req : EngineOrderRequest)
    (now : Nanos) (hwf : L.WF) :
    SimStep (L.process symbol req now).1 (L.process symbol req now).2 (B.effect symbol req)
      (B.count + 1) := by
  unfold Ladder.process
  by_cases hvalid : Ladder.invalidReq req = true
  · rw [if_pos hvalid, Book.effect, refuses_eq, if_pos hvalid]
    exact h.unchanged (by simp [OutMsg.isTrade, Ladder.rejectMsg])
  have hvalid' : Book.refuses req = false := by
    rw [refuses_eq]
    simpa using hvalid
  rw [if_neg hvalid]
  cases htype : req.orderType with
  | cancel => exact h.cancel hwf hvalid' htype
  | modify => exact h.modify hwf hvalid' htype
  | limit => exact h.opening hwf hvalid' (.inl htype)
  | market => exact h.opening hwf hvalid' (.inr (.inl htype))
  | ioc => exact h.opening hwf hvalid' (.inr (.inr htype))
  | invalid => exact absurd htype (Ladder.checks_of_valid (by simpa using hvalid)).1

end Process

/-! ## Runs -/

lemma Book.runAll_concat (B : Book) (symbol : Symbol) (reqs : List EngineOrderRequest)
    (req : EngineOrderRequest) :
    B.runAll symbol (reqs ++ [req]) =
      (((B.runAll symbol reqs).1.process symbol req).1,
        (B.runAll symbol reqs).2 ++ ((B.runAll symbol reqs).1.process symbol req).2) := by
  induction reqs generalizing B with
  | nil => simp [runAll]
  | cons r reqs ih => simp [runAll, ih, List.append_assoc]

/-- The naive book after a sequence of requests. -/
def after (symbol : Symbol) (reqs : List (EngineOrderRequest × Nanos)) : Book × List OutMsg :=
  Book.empty.runAll symbol (reqs.map Prod.fst)

/-- Every run of the ladder is matched by the naive book. -/
lemma sim_runAll (symbol : Symbol) (reqs : List (EngineOrderRequest × Nanos)) :
    ∃ idx, Sim idx (Ladder.empty.runAll symbol reqs).1 (after symbol reqs).1.orders
        (after symbol reqs).1.count ∧
      (after symbol reqs).2 = (Ladder.empty.runAll symbol reqs).2.filter OutMsg.isTrade := by
  refine Ladder.runAll_induction symbol (I := fun reqs L log => ∃ idx,
    Sim idx L (after symbol reqs).1.orders (after symbol reqs).1.count ∧
      (after symbol reqs).2 = log.filter OutMsg.isTrade) ?_ ?_ reqs
  · exact ⟨fun _ => 0, ⟨.refl _, fun _ => .nil, by simp [Ladder.empty, Ladder.all, Ladder.orders]⟩,
      rfl⟩
  · rintro reqs L log req now hwf - ⟨idx, hsim, hlog⟩
    obtain ⟨idx', hsim', hmsgs⟩ := hsim.process symbol req now hwf
    refine ⟨idx', ?_, ?_⟩
    · rw [after, List.map_append, List.map_cons, List.map_nil, Book.runAll_concat]
      exact hsim'
    · rw [after, List.map_append, List.map_cons, List.map_nil, Book.runAll_concat,
        List.filter_append, ← hlog, ← hmsgs]
      rfl

end Reference

end MatchingEngine
