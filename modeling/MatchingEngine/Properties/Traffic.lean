import MatchingEngine.Matcher.Capacity
import MatchingEngine.Properties.Trades

/-!
# How many messages a run can cause

A single request can sweep a whole side of the book, so no bound holds for one request.  Over a
run the resting orders pay for it: a trade uses up the resting order or the incoming one, and a
request puts at most one order on the book.  `Ladder.Step.traffic` is the account of one request,
with two messages of each kind saved for each resting order; `traffic_run` sums it up.
-/

namespace MatchingEngine

/-- The acceptances of a log. -/
def acceptedOf (log : List OutMsg) : List EngineOrderResponse :=
  (responsesOf log).filter fun r => decide (r.status = .accepted)

@[simp] lemma acceptedOf_append (log log' : List OutMsg) :
    acceptedOf (log ++ log') = acceptedOf log ++ acceptedOf log' := by simp [acceptedOf]

@[simp] lemma acceptedOf_response (r : EngineOrderResponse) (log : List OutMsg) :
    acceptedOf (.response r :: log) =
      if r.status = .accepted then r :: acceptedOf log else acceptedOf log := by
  simp [acceptedOf, List.filter_cons]

@[simp] lemma acceptedOf_update (u : BookUpdate) (log : List OutMsg) :
    acceptedOf (.update u :: log) = acceptedOf log := rfl

@[simp] lemma tradesOf_response (r : EngineOrderResponse) (log : List OutMsg) :
    tradesOf (.response r :: log) = tradesOf log := rfl

@[simp] lemma tradesOf_update (u : BookUpdate) (log : List OutMsg) :
    tradesOf (.update u :: log) = if u.type = .trade then u :: tradesOf log else tradesOf log := by
  simp [tradesOf, List.filter_cons]

/-! ## One sweep -/

/-- Each fill uses up an order: the one it meets, or the incoming one. -/
lemma Incoming.length_sweepOrders (i : Incoming) (os : List OrderRecord) (leaves : Qty) :
    (i.sweepOrders os leaves).fills.length + (i.sweepOrders os leaves).rest.length +
        (if (i.sweepOrders os leaves).leaves > 0 then 1 else 0) ≤
      os.length + if leaves > 0 then 1 else 0 := by
  induction os generalizing leaves with
  | nil => simp [sweepOrders]
  | cons o os ih =>
    by_cases hcond : i.eligible o ∧ leaves > 0
    · set f : Fill := ⟨o.price, o, leaves⟩ with hf
      have hrest := ih (leaves - f.qty)
      rw [sweepOrders_fill hcond hf, if_pos hcond.2]
      simp only [List.length_cons, List.length_append]
      by_cases hzero : f.restQty = 0
      · have hnone : f.remainder = none := if_pos hzero
        rw [hnone, Option.toList_none, List.length_nil]
        have hle : (if leaves - f.qty > 0 then 1 else 0) ≤ 1 := by split_ifs <;> omega
        omega
      · have hsome : f.remainder.toList.length ≤ 1 := by
          cases f.remainder <;> simp
        rw [Fill.leaves_sub_of_restQty_ne hzero] at hrest ⊢
        have hnot : ¬ (0 : Qty) > 0 := by decide
        rw [if_neg hnot] at hrest
        omega
    · have hrest := ih leaves
      rw [sweepOrders_pass hcond]
      simp only [List.length_cons]
      omega

namespace Ladder

variable {symbol : Symbol} {L L' : Ladder} {req : EngineOrderRequest} {now : Nanos}
  {msgs : List OutMsg} {i : Incoming} {qty : Qty}

lemma length_all (L : Ladder) (s : BookSide) :
    L.all.length = (L.orders s).length + (L.orders s.contra).length := by
  rw [(L.all_perm s).length_eq, List.length_append]

lemma WF.length_trade (h : L.WF) (i : Incoming) (qty : Qty) :
    (L.trade i qty).fills.length + (L.trade i qty).rest.all.length +
      (if (L.trade i qty).leaves > 0 then 1 else 0) ≤ L.all.length + 1 := by
  have hsweep := i.length_sweepOrders (L.orders i.target) qty
  have hle : (if qty > 0 then 1 else 0) ≤ 1 := by split_ifs <;> omega
  rw [h.fills_trade, h.leaves_trade, length_all _ i.target, length_all L i.target, h.orders_trade,
    orders_trade_of_ne i.target.contra_ne]
  omega

lemma WF.length_place (h : L.WF) (i : Incoming) (orderType : OrderType) (price : Price)
    (qty : Qty) (now : Nanos) :
    (L.trade i qty).fills.length + (L.place i orderType price qty now).1.all.length ≤
      L.all.length + 1 := by
  have htrade := h.length_trade i qty
  rw [Ladder.place]
  split_ifs with hpos
  · rw [(h.trade.all_rest _).length_eq, List.length_cons]
    rw [if_pos hpos] at htrade
    omega
  · rw [if_neg hpos] at htrade
    exact htrade

lemma WF.length_remove (h : L.WF) {id : OrderId} {o : OrderRecord} (ho : L.find id = some o) :
    (L.remove id).all.length + 1 = L.all.length := by
  rw [(h.all_split ho).length_eq, List.length_cons]

/-! ## The messages of a step -/

/-- A fill is two responses and two updates, one of which is a trade. -/
lemma volume_msgs (i : Incoming) (fills : List Fill) :
    (tradesOf (i.msgs fills)).length = fills.length ∧ acceptedOf (i.msgs fills) = [] ∧
      (responsesOf (i.msgs fills)).length = 2 * fills.length ∧
      (updatesOf (i.msgs fills)).length = 2 * fills.length := by
  induction fills with
  | nil => exact ⟨rfl, rfl, rfl, rfl⟩
  | cons f fills ih =>
    obtain ⟨htrades, haccepted, hresponses, hupdates⟩ := ih
    have hcons : i.msgs (f :: fills) = i.fillMsgs f ++ i.msgs fills := rfl
    have hone : (tradesOf (i.fillMsgs f)).length = 1 := by
      simp only [tradesOf, Incoming.fillMsgs, updatesOf_response, updatesOf_update, updatesOf_nil]
      split_ifs <;> rfl
    rw [hcons, tradesOf_append, acceptedOf_append, responsesOf_append, updatesOf_append,
      haccepted]
    refine ⟨?_, rfl, ?_, ?_⟩
    · rw [List.length_append, hone, htrades, List.length_cons, Nat.add_comm]
    · rw [List.length_append, hresponses, List.length_cons]
      exact Nat.add_comm 2 _
    · rw [List.length_append, hupdates, List.length_cons]
      exact Nat.add_comm 2 _

lemma volume_place (L : Ladder) (i : Incoming) (orderType : OrderType) (price : Price)
    (qty : Qty) (now : Nanos) :
    (tradesOf (L.place i orderType price qty now).2).length = (L.trade i qty).fills.length ∧
      acceptedOf (L.place i orderType price qty now).2 = [] ∧
      (responsesOf (L.place i orderType price qty now).2).length =
        2 * (L.trade i qty).fills.length ∧
      (updatesOf (L.place i orderType price qty now).2).length =
        2 * (L.trade i qty).fills.length + (if (L.trade i qty).leaves > 0 then 1 else 0) := by
  obtain ⟨htrades, haccepted, hresponses, hupdates⟩ := volume_msgs i (L.trade i qty).fills
  rw [Ladder.place]
  split_ifs
  · rw [tradesOf_append, acceptedOf_append, responsesOf_append, updatesOf_append, haccepted,
      List.length_append, List.length_append, List.length_append, htrades, hresponses, hupdates]
    exact ⟨rfl, rfl, rfl, rfl⟩
  · exact ⟨htrades, haccepted, hresponses, hupdates⟩

lemma volume_take (L : Ladder) (i : Incoming) (price : Price) (qty : Qty) :
    (tradesOf (L.take i price qty).2).length = (L.trade i qty).fills.length ∧
      acceptedOf (L.take i price qty).2 = [] ∧
      (responsesOf (L.take i price qty).2).length =
        2 * (L.trade i qty).fills.length + (if (L.trade i qty).leaves > 0 then 1 else 0) ∧
      (updatesOf (L.take i price qty).2).length = 2 * (L.trade i qty).fills.length := by
  obtain ⟨htrades, haccepted, hresponses, hupdates⟩ := volume_msgs i (L.trade i qty).fills
  rw [Ladder.take, tradesOf_append, acceptedOf_append, responsesOf_append, updatesOf_append,
    haccepted, List.length_append, List.length_append, List.length_append, htrades, hresponses,
    hupdates]
  split_ifs
  · exact ⟨rfl, rfl, rfl, rfl⟩
  · exact ⟨rfl, rfl, rfl, rfl⟩

/-- The messages of `k` requests that lead from `n` resting orders to `n'`, with two responses and
two updates saved for each resting order. -/
structure Paid (k n n' : ℕ) (log : List OutMsg) : Prop where
  trades : (tradesOf log).length + n' ≤ n + (acceptedOf log).length
  accepted : (acceptedOf log).length ≤ k
  responses : (responsesOf log).length + 2 * n' ≤ 2 * n + 3 * k
  updates : (updatesOf log).length + 2 * n' ≤ 2 * n + 3 * k

lemma Paid.append {k k' n n' n'' : ℕ} {log log' : List OutMsg} (h : Paid k n n' log)
    (h' : Paid k' n' n'' log') : Paid (k + k') n n'' (log ++ log') := by
  obtain ⟨htrades, haccepted, hresponses, hupdates⟩ := h
  obtain ⟨htrades', haccepted', hresponses', hupdates'⟩ := h'
  constructor
  · rw [tradesOf_append, acceptedOf_append, List.length_append, List.length_append]
    omega
  · rw [acceptedOf_append, List.length_append]
    omega
  · rw [responsesOf_append, List.length_append]
    omega
  · rw [updatesOf_append, List.length_append]
    omega

/-- A request that trades nothing. -/
lemma paid_of_silent {n n' : ℕ} {log : List OutMsg} (hle : n' ≤ n) (htrades : tradesOf log = [])
    (haccepted : acceptedOf log = []) (hresponses : (responsesOf log).length ≤ 1)
    (hupdates : (updatesOf log).length ≤ 1) : Paid 1 n n' log := by
  constructor
  · rw [htrades, haccepted]
    omega
  · rw [haccepted]
    exact Nat.zero_le _
  · omega
  · omega

/-- The orders that leave the book pay for what one request sends. -/
lemma Step.paid (h : L.WF) (hstep : Step symbol L req now L' msgs) :
    Paid 1 L.all.length L'.all.length msgs := by
  cases hstep with
  | reject r hr =>
    have hstatus : r.status ≠ .accepted := fun he => by rw [he] at hr; cases hr
    refine paid_of_silent (Nat.le_refl _) rfl ?_ (Nat.le_refl _) (Nat.zero_le _)
    rw [acceptedOf_response, if_neg hstatus]
    rfl
  | @limit i hi htype hsound hfree =>
    obtain ⟨htrades, haccepted, hresponses, hupdates⟩ :=
      L.volume_place i .limit req.price req.qty now
    have hplace := h.length_place i .limit req.price req.qty now
    have hbit : (if (L.trade i req.qty).leaves > 0 then 1 else 0) ≤ 1 := by split_ifs <;> omega
    constructor <;> simp only [ackMsg, tradesOf_response, acceptedOf_response,
      responsesOf_response, updatesOf_response, if_true, List.length_cons, htrades, haccepted,
      hresponses, hupdates, List.length_nil] <;> omega
  | @take i price limit hi hprice hqty hfree =>
    obtain ⟨htrades, haccepted, hresponses, hupdates⟩ := L.volume_take i price req.qty
    have htrade := h.length_trade i req.qty
    have hrest : (L.take i price req.qty).1 = (L.trade i req.qty).rest := rfl
    constructor <;> simp only [ackMsg, tradesOf_response, acceptedOf_response,
      responsesOf_response, updatesOf_response, if_true, List.length_cons, htrades, haccepted,
      hresponses, hupdates, List.length_nil, hrest] <;> omega
  | cancel htype hfind hclient =>
    have hremove := h.length_remove hfind
    exact paid_of_silent (by omega) rfl rfl (Nat.le_refl _) (Nat.le_refl _)
  | @reprice o i hi htype hfind hclient hprice hsound =>
    -- the order leaves the book, so its own trades are paid for by itself
    obtain ⟨htrades, haccepted, hresponses, hupdates⟩ :=
      (L.remove req.orderId).volume_place i o.orderType req.price req.qty now
    have hplace := (h.remove req.orderId).length_place i o.orderType req.price req.qty now
    have hremove := h.length_remove hfind
    have hbit : (if ((L.remove req.orderId).trade i req.qty).leaves > 0 then 1 else 0) ≤ 1 := by
      split_ifs <;> omega
    constructor <;> simp only [ackMsg, tradesOf_response, acceptedOf_response,
      responsesOf_response, updatesOf_response, reduceCtorEq, if_false, List.length_cons, htrades,
      haccepted, hresponses, hupdates, List.length_nil] <;> omega
  | shrink htype hfind hclient hprice hsound hlt =>
    refine paid_of_silent (Nat.le_of_eq ?_) rfl rfl (Nat.le_refl _) (Nat.le_refl _)
    rw [all_modify, List.length_map]
  | grow htype hfind hclient hprice hsound hgt =>
    have hremove := h.length_remove hfind
    refine paid_of_silent (Nat.le_of_eq ?_) rfl rfl (Nat.le_refl _) (Nat.le_refl _)
    rw [((h.remove _).all_rest _).length_eq, List.length_cons, hremove]
  | keep htype hfind hclient hprice hqty =>
    exact paid_of_silent (Nat.le_refl _) rfl rfl (Nat.le_refl _) (Nat.zero_le _)

lemma paid_runAll (symbol : Symbol) (reqs : List (EngineOrderRequest × Nanos)) :
    Paid reqs.length 0 (empty.runAll symbol reqs).1.all.length (empty.runAll symbol reqs).2 := by
  refine runAll_induction symbol (I := fun reqs L log => Paid reqs.length 0 L.all.length log)
    ⟨Nat.le_refl _, Nat.le_refl _, Nat.le_refl _, Nat.le_refl _⟩
    (fun reqs L log req now hwf _ ih => ?_) reqs
  rw [List.length_append]
  exact ih.append ((process_step symbol L req now).paid hwf)

end Ladder

/-- The messages of a run of the book are paid for. -/
lemma run_paid (symbol : Symbol) (reqs : List (EngineOrderRequest × Nanos)) :
    Reaches symbol reqs fun b => Ladder.Paid reqs.length 0
      ((b.resting .bid).length + (b.resting .ask).length) b.sent := by
  refine (run_refines symbol reqs).mono fun b ⟨S, hS⟩ => ?_
  have hpaid := Ladder.paid_runAll symbol reqs
  rwa [← hS.view, ← hS.sent, Ladder.all, List.length_append, ← hS.rep.resting_eq,
    ← hS.rep.resting_eq] at hpaid

/-- Over any run of the book there are no more trades than accepted orders that no longer rest, and
no more than three responses and three updates for each request, less two for each order that
rests at the end. -/
theorem traffic_run (symbol : Symbol) (reqs : List (EngineOrderRequest × Nanos)) :
    Reaches symbol reqs fun b =>
      (tradesOf b.sent).length + ((b.resting .bid).length + (b.resting .ask).length) ≤
        (acceptedOf b.sent).length ∧
      (acceptedOf b.sent).length ≤ reqs.length ∧
      (responsesOf b.sent).length + 2 * ((b.resting .bid).length + (b.resting .ask).length) ≤
        3 * reqs.length ∧
      (updatesOf b.sent).length + 2 * ((b.resting .bid).length + (b.resting .ask).length) ≤
        3 * reqs.length := by
  refine (run_paid symbol reqs).mono fun b hpaid => ?_
  obtain ⟨htrades, haccepted, hresponses, hupdates⟩ := hpaid
  exact ⟨by omega, haccepted, by omega, by omega⟩

/-! ## Short runs -/

/-- A run of fewer requests than there may be price levels exhausts no pool. -/
lemma exists_run_ok {symbol : Symbol} {reqs : List (EngineOrderRequest × Nanos)}
    (hfew : reqs.length < maxPriceLevels) : ∃ b, run (.new symbol) reqs = .ok b := by
  rw [run_ok_iff]
  intro pre hpre
  have hlength := hpre.length_le
  have hpaid := Ladder.paid_runAll symbol pre
  have hresting := hpaid.trades
  have haccepted := hpaid.accepted
  have hgapless := Ladder.gapless_runAll symbol pre
  have hbids := hgapless.length_le .bid
  have hasks := hgapless.length_le .ask
  have hall : (Ladder.empty.runAll symbol pre).1.all.length = _ := List.length_append
  have hsizes : maxPriceLevels < maxRestingOrders := by decide
  constructor
  · show _ < maxRestingOrders
    omega
  · show _ < maxPriceLevels
    omega

end MatchingEngine
