import MatchingEngine.Matcher.Runs

/-!
# The original quantity of a resting order

A resting order keeps two quantities, `qty_` and `original_qty_`.  Their difference is what was
filled of the order since its terms were last set: by the `ACCEPTED` response that opened it, or by
a `MODIFIED` response that changed its price or what was left of it.  A modify that changes neither
is acknowledged too, but does not touch the order.

`Terms` follows the responses that name one id: the price and the remaining quantity they report,
and the quantity filled since these were set.  `originalQty_run` says that over any run the two
quantities of every resting order agree with them.
-/

namespace MatchingEngine

/-! ## Following the responses of an order -/

/-- What the responses of an order say about it: its price, what is left of it, and how much of it
was filled since the one or the other was set. -/
structure Terms where
  price : Price
  leaves : Qty
  filled : ℕ

namespace Terms

/-- Read one response of the order.  A `MODIFIED` that reports the price and the quantity the order
already has sets nothing. -/
def read (t : Terms) (r : EngineOrderResponse) : Terms :=
  match r.status with
  | .accepted => ⟨r.price, r.leavesQty, 0⟩
  | .modified =>
    if r.price = t.price ∧ r.leavesQty = t.leaves then t else ⟨r.price, r.leavesQty, 0⟩
  | .filled => ⟨t.price, r.leavesQty, t.filled + r.execQty.toNat⟩
  | _ => t

/-- No response was read yet. -/
def none : Terms := ⟨invalidPrice, invalidQty, 0⟩

/-- What the responses of a log say about an id. -/
def ofLog (log : List OutMsg) (id : OrderId) : Terms :=
  ((responsesOf log).filter fun r => decide (r.clientOrderId = id)).foldl read none

end Terms

/-- The quantities of a resting order agree with its responses. -/
structure Terms.Holds (t : Terms) (o : OrderRecord) : Prop where
  price : t.price = o.price
  leaves : t.leaves = o.qty
  qty_pos : 0 < o.qty
  qty_le : o.qty ≤ o.originalQty
  original_lt : o.originalQty < invalidQty
  filled : o.originalQty.toNat - o.qty.toNat = t.filled

/-! ## All ids at once -/

/-- What is known about every id. -/
abbrev TermsTable := OrderId → Terms

namespace TermsTable

def read (T : TermsTable) (r : EngineOrderResponse) : TermsTable :=
  Function.update T r.clientOrderId ((T r.clientOrderId).read r)

/-- Read the responses of some messages. -/
def readAll (T : TermsTable) (msgs : List OutMsg) : TermsTable := (responsesOf msgs).foldl read T

@[simp] lemma readAll_nil (T : TermsTable) : T.readAll [] = T := rfl

@[simp] lemma readAll_response (T : TermsTable) (r : EngineOrderResponse) (msgs : List OutMsg) :
    T.readAll (.response r :: msgs) = (T.read r).readAll msgs := rfl

@[simp] lemma readAll_update (T : TermsTable) (u : BookUpdate) (msgs : List OutMsg) :
    T.readAll (.update u :: msgs) = T.readAll msgs := rfl

lemma readAll_append (T : TermsTable) (msgs msgs' : List OutMsg) :
    T.readAll (msgs ++ msgs') = (T.readAll msgs).readAll msgs' := by
  rw [readAll, responsesOf_append, List.foldl_append]
  rfl

/-- The table follows every id's own responses. -/
lemma foldl_read (rs : List EngineOrderResponse) (T : TermsTable) (id : OrderId) :
    rs.foldl read T id =
      (rs.filter fun r => decide (r.clientOrderId = id)).foldl Terms.read (T id) := by
  induction rs generalizing T with
  | nil => rfl
  | cons r rs ih =>
    rw [List.foldl_cons, ih, List.filter_cons, read]
    by_cases hid : r.clientOrderId = id
    · subst hid
      rw [Function.update_self, if_pos (decide_eq_true rfl), List.foldl_cons]
    · rw [Function.update_of_ne (Ne.symm hid), if_neg (by simpa using hid)]

lemma readAll_eq_ofLog (log : List OutMsg) (id : OrderId) :
    readAll (fun _ => .none) log id = Terms.ofLog log id :=
  foldl_read (responsesOf log) (fun _ => .none) id

/-- The table agrees with the index, away from an id that is being matched. -/
def HoldsOff (id₀ : OrderId) (T : TermsTable) (m : Index) : Prop :=
  ∀ id o, id ≠ id₀ → m id = some o → (T id).Holds o

/-- The table agrees with the index. -/
def Holds (T : TermsTable) (m : Index) : Prop := ∀ id o, m id = some o → (T id).Holds o

end TermsTable

open TermsTable

/-! ## Matching -/

/-- One fill: the resting order and its entry lose the traded quantity, as does the aggressor's. -/
lemma Fill.readAll {i : Incoming} {m : Index} {f : Fill} {T : TermsTable}
    (hrests : m f.order.orderId = some f.order) (hne : f.order.orderId ≠ i.orderId)
    (hT : HoldsOff i.orderId T m) :
    HoldsOff i.orderId (T.readAll (i.fillMsgs f)) (f.apply m) ∧
      T.readAll (i.fillMsgs f) i.orderId = ⟨(T i.orderId).price, f.leaves - f.qty,
        (T i.orderId).filled + f.qty.toNat⟩ := by
  have hT' : T.readAll (i.fillMsgs f) = Function.update
      (Function.update T i.orderId ⟨(T i.orderId).price, f.leaves - f.qty,
        (T i.orderId).filled + f.qty.toNat⟩)
      f.order.orderId ⟨(T f.order.orderId).price, f.restQty,
        (T f.order.orderId).filled + f.qty.toNat⟩ := by
    simp only [Incoming.fillMsgs, readAll_response, readAll_update, readAll_nil]
    rw [TermsTable.read, TermsTable.read, Function.update_of_ne hne]
    rfl
  rw [hT']
  refine ⟨fun id o hid ho => ?_, ?_⟩
  · rw [Fill.apply, Function.update_apply] at ho
    split_ifs at ho with hidf
    · subst hidf
      have hold := hT _ _ hne hrests
      have hs := Incoming.Fill.survives ho
      rw [Function.update_self]
      have hqty := f.toNat_qty
      have hrestQty := f.toNat_restQty
      have hle := hold.qty_le
      rw [Fill.remainder] at ho
      split_ifs at ho with hzero
      obtain rfl := Option.some.inj ho
      constructor
      case price => exact hold.price
      case leaves => rfl
      case qty_pos => exact hs.pos hold.qty_pos
      case qty_le => exact UInt64.le_trans hs.le hold.qty_le
      case original_lt => exact hold.original_lt
      case filled =>
        have hfilled := hold.filled
        rw [UInt64.le_iff_toNat_le] at hle
        change f.order.originalQty.toNat - f.restQty.toNat =
          (T f.order.orderId).filled + f.qty.toNat
        omega
    · rw [Function.update_of_ne hidf, Function.update_of_ne hid]
      exact hT id o hid ho
  · rw [Function.update_of_ne (Ne.symm hne), Function.update_self]

/-- A chain of fills takes the aggressor's entry from `leaves` down to `leaves'`. -/
lemma FillChain.readAll {i : Incoming} {m m' : Index} {leaves leaves' : Qty} {fills : List Fill}
    (h : FillChain i m leaves fills m' leaves') {T : TermsTable} (hfree : m i.orderId = none)
    (hT : HoldsOff i.orderId T m) (hleaves : (T i.orderId).leaves = leaves) :
    HoldsOff i.orderId (T.readAll (i.msgs fills)) m' ∧
      leaves' ≤ leaves ∧
      T.readAll (i.msgs fills) i.orderId = ⟨(T i.orderId).price, leaves',
        (T i.orderId).filled + (leaves.toNat - leaves'.toNat)⟩ := by
  induction h generalizing T with
  | nil leaves =>
    refine ⟨hT, UInt64.le_refl _, ?_⟩
    rw [Incoming.msgs_nil, readAll_nil, Nat.sub_self, Nat.add_zero, ← hleaves]
  | @cons m m' f fills leaves' hpos hrests _ hprice helig _ ih =>
    have hne : f.order.orderId ≠ i.orderId := fun he => by
      rw [he, hfree] at hrests
      cases hrests
    have hfree₁ : f.apply m i.orderId = none := by
      rw [Fill.apply, Function.update_of_ne (Ne.symm hne), hfree]
    obtain ⟨hT₁, hTi₁⟩ := Fill.readAll hrests hne hT
    obtain ⟨hT', hle, hTi'⟩ := ih hfree₁ hT₁ (by rw [hTi₁])
    have hmsgs : T.readAll (i.msgs (f :: fills)) =
        (T.readAll (i.fillMsgs f)).readAll (i.msgs fills) := by
      rw [Incoming.msgs, List.flatMap_cons, readAll_append]
      rfl
    have hsub := f.toNat_leaves_sub
    have hqty := f.toNat_qty
    rw [UInt64.le_iff_toNat_le] at hle ⊢
    rw [hmsgs]
    refine ⟨hT', by omega, ?_⟩
    rw [hTi', hTi₁]
    simp only [Terms.mk.injEq, true_and]
    omega

/-! ## Requests -/

/-- A response that is neither an acknowledgement nor a fill tells nothing new. -/
lemma TermsTable.read_other (T : TermsTable) {r : EngineOrderResponse}
    (haccepted : r.status ≠ .accepted) (hmodified : r.status ≠ .modified)
    (hfilled : r.status ≠ .filled) : T.read r = T := by
  have hread : (T r.clientOrderId).read r = T r.clientOrderId := by
    rw [Terms.read]
    cases hs : r.status with
    | accepted => exact absurd hs haccepted
    | modified => exact absurd hs hmodified
    | filled => exact absurd hs hfilled
    | _ => rfl
  rw [TermsTable.read, hread, Function.update_eq_self]

/-- The terms an order gets when it is acknowledged. -/
def Terms.fresh (price : Price) (qty : Qty) : Terms := ⟨price, qty, 0⟩

/-- An `ACCEPTED` sets the terms. -/
lemma TermsTable.readAll_accepted (T : TermsTable) (i : Incoming) (price : Price) (qty : Qty) :
    T.readAll [Ladder.ackMsg .accepted i price qty] =
      Function.update T i.orderId (.fresh price qty) := rfl

/-- A `MODIFIED` that changes something sets the terms. -/
lemma TermsTable.read_modified (T : TermsTable) {clientId : ClientId} {symbol : Symbol}
    {id : OrderId} {side : Side} {price : Price} {qty : Qty}
    (h : (T id).price ≠ price ∨ (T id).leaves ≠ qty) :
    T.read ⟨.modified, clientId, symbol, id, id, side, price, 0, qty⟩ =
      Function.update T id (.fresh price qty) := by
  refine congrArg (Function.update T id) (if_neg ?_)
  rintro ⟨hprice, hqty⟩
  rcases h with h | h
  · exact h hprice.symm
  · exact h hqty.symm

lemma TermsTable.Holds.update {T : TermsTable} {m : Index} (hT : T.Holds m) {id : OrderId}
    {t : Terms} {o : OrderRecord} (h : t.Holds o) :
    TermsTable.Holds (Function.update T id t) (Function.update m id (some o)) := by
  intro id' o' ho'
  rw [Function.update_apply] at ho' ⊢
  split_ifs at ho' ⊢ with hid
  · obtain rfl := Option.some.inj ho'
    exact h
  · exact hT id' o' ho'

/-- An order that rests with nothing filled of it yet. -/
lemma Terms.fresh_holds {price : Price} {qty : Qty} (h : Ladder.Sound price qty) {o : OrderRecord}
    (hprice : o.price = price) (hqty : o.qty = qty) (horiginal : o.originalQty = qty) :
    (Terms.fresh price qty).Holds o where
  price := hprice.symm
  leaves := hqty.symm
  qty_pos := hqty ▸ h.qty_pos
  qty_le := by
    rw [hqty, horiginal]
    exact UInt64.le_refl _
  original_lt := horiginal ▸ lt_invalidQty h.qty_ne
  filled := by
    rw [hqty, horiginal, Nat.sub_self]
    rfl

namespace Ladder

variable {symbol : Symbol} {L L' : Ladder} {req : EngineOrderRequest} {now : Nanos}
  {msgs : List OutMsg} {T : TermsTable} {i : Incoming}

/-- An acknowledgement that sets the terms of the incoming order, and the matching after it. -/
lemma WF.trade_terms (h : L.WF) (hfree : L.find i.orderId = none)
    (hT : HoldsOff i.orderId T L.find) {status : ResponseStatus} {price : Price} {qty : Qty}
    (hack : T.readAll [ackMsg status i price qty] =
      Function.update T i.orderId (.fresh price qty)) :
    HoldsOff i.orderId (T.readAll (ackMsg status i price qty :: i.msgs (L.trade i qty).fills))
        (L.trade i qty).rest.find ∧
      (L.trade i qty).leaves ≤ qty ∧
      T.readAll (ackMsg status i price qty :: i.msgs (L.trade i qty).fills) i.orderId =
        ⟨price, (L.trade i qty).leaves, qty.toNat - (L.trade i qty).leaves.toNat⟩ := by
  have hsplit : T.readAll (ackMsg status i price qty :: i.msgs (L.trade i qty).fills) =
      (T.readAll [ackMsg status i price qty]).readAll (i.msgs (L.trade i qty).fills) :=
    readAll_append T [ackMsg status i price qty] _
  have hT₁ : HoldsOff i.orderId (Function.update T i.orderId (.fresh price qty)) L.find :=
    fun id o hid ho => by
      rw [Function.update_of_ne hid]
      exact hT id o hid ho
  have hset : Function.update T i.orderId (.fresh price qty) i.orderId = .fresh price qty :=
    Function.update_self ..
  have hleaves : (Function.update T i.orderId (.fresh price qty) i.orderId).leaves = qty :=
    congrArg Terms.leaves hset
  obtain ⟨hoff, hle, hTi⟩ := h.fillChain_trade.readAll hfree hT₁ hleaves
  rw [hsplit, hack]
  refine ⟨hoff, hle, ?_⟩
  rw [hTi, hset]
  exact congrArg (Terms.mk price _) (Nat.zero_add _)

lemma WF.place_terms (h : L.WF) (hfree : L.find i.orderId = none)
    (hT : HoldsOff i.orderId T L.find) {status : ResponseStatus} {price : Price} {qty : Qty}
    (hsound : Sound price qty)
    (hack : T.readAll [ackMsg status i price qty] =
      Function.update T i.orderId (.fresh price qty))
    (orderType : OrderType) :
    (T.readAll (ackMsg status i price qty :: (L.place i orderType price qty now).2)).Holds
      (L.place i orderType price qty now).1.find := by
  obtain ⟨hoff, hle, hTi⟩ := h.trade_terms hfree hT hack
  have hfree' : (L.trade i qty).rest.find i.orderId = none := Rep.find_trade_eq_none h hfree
  rw [Ladder.place]
  by_cases hpos : (L.trade i qty).leaves > 0
  · rw [if_pos hpos, ← List.cons_append, readAll_append, readAll_update, readAll_nil]
    intro id o ho
    rw [h.trade.find_rest hfree', Function.update_apply] at ho
    split_ifs at ho with hid
    · obtain rfl := Option.some.inj ho
      subst hid
      rw [hTi]
      exact ⟨rfl, rfl, hpos, hle, lt_invalidQty hsound.qty_ne, rfl⟩
    · exact hoff id o hid ho
  · rw [if_neg hpos]
    intro id o ho
    have hid : id ≠ i.orderId := fun he => by
      rw [he, hfree'] at ho
      cases ho
    exact hoff id o hid ho

lemma WF.take_terms (h : L.WF) (hfree : L.find i.orderId = none)
    (hT : HoldsOff i.orderId T L.find) {price : Price} {qty : Qty} :
    (T.readAll (ackMsg .accepted i price qty :: (L.take i price qty).2)).Holds
      (L.take i price qty).1.find := by
  obtain ⟨hoff, -, -⟩ := h.trade_terms hfree hT (T.readAll_accepted i price qty)
  have hfree' : (L.trade i qty).rest.find i.orderId = none := Rep.find_trade_eq_none h hfree
  -- the cancellation of the remainder tells nothing new
  have hmsgs : T.readAll (ackMsg .accepted i price qty :: (L.take i price qty).2) =
      T.readAll (ackMsg .accepted i price qty :: i.msgs (L.trade i qty).fills) := by
    rw [Ladder.take, ← List.cons_append, readAll_append]
    split_ifs
    · exact TermsTable.read_other _ (by simp) (by simp) (by simp)
    · rfl
  rw [hmsgs]
  intro id o ho
  have hid : id ≠ i.orderId := fun he => by
    rw [he] at ho
    exact absurd (hfree'.symm.trans ho) (by simp)
  exact hoff id o hid ho

/-- Whatever a request does to the ladder, its responses say. -/
lemma Step.terms (h : L.WF) (hT : T.Holds L.find) (hstep : Step symbol L req now L' msgs) :
    (T.readAll msgs).Holds L'.find := by
  have hoff : HoldsOff req.orderId T L.find := fun id o _ ho => hT id o ho
  cases hstep with
  | reject r hr =>
    have hread : T.readAll [.response r] = T := by
      refine TermsTable.read_other T ?_ ?_ (ne_filled_of_isReject hr)
      · intro hs
        rw [hs] at hr
        cases hr
      · intro hs
        rw [hs] at hr
        cases hr
    rwa [hread]
  | limit hi htype hsound hfree =>
    subst hi
    exact h.place_terms hfree hoff hsound (T.readAll_accepted _ _ _) .limit
  | take hi hprice hqty hfree =>
    subst hi
    exact h.take_terms hfree hoff
  | @cancel o htype hfind hclient =>
    have hread : T.readAll [.response ⟨.canceled, req.clientId, symbol, req.orderId, req.orderId,
        o.side, o.price, 0, 0⟩, .update ⟨.cancel, req.orderId, symbol, o.side, o.price, o.qty⟩] =
        T := TermsTable.read_other T (by simp) (by simp) (by simp)
    rw [hread]
    intro id o' ho'
    rw [h.find_remove, Function.update_apply] at ho'
    split_ifs at ho'
    exact hT id o' ho'
  | @reprice o i hi htype hfind hclient hprice hsound =>
    subst hi
    have hprice' : (T req.orderId).price ≠ req.price := by
      rw [(hT _ _ hfind).price]
      exact hprice.symm
    refine (h.remove _).place_terms (find_remove_self L _) (fun id o' hid ho' => ?_) hsound
      (T.read_modified (.inl hprice')) o.orderType
    rw [h.find_remove, Function.update_of_ne hid] at ho'
    exact hT id o' ho'
  | @shrink o htype hfind hclient hprice hs hlt =>
    have hleaves : (T req.orderId).leaves ≠ req.qty := by
      rw [(hT _ _ hfind).leaves]
      exact (UInt64.ne_of_lt hlt).symm
    change (T.read _).Holds _
    rw [T.read_modified (.inr hleaves), h.find_setQty hfind]
    exact hT.update (Terms.fresh_holds (hprice ▸ hs) rfl rfl rfl)
  | @grow o htype hfind hclient hprice hs hgt =>
    have hleaves : (T req.orderId).leaves ≠ req.qty := by
      rw [(hT _ _ hfind).leaves]
      exact UInt64.ne_of_lt hgt
    change (T.read _).Holds _
    have hrequeue : ((L.remove req.orderId).rest ⟨req.orderId, req.clientId, symbol, o.orderType,
        o.side, o.price, req.qty, req.qty, now⟩).find = _ := h.find_requeue rfl
    rw [T.read_modified (.inr hleaves), hrequeue]
    exact hT.update (Terms.fresh_holds (hprice ▸ hs) rfl rfl rfl)
  | @keep o htype hfind hclient hprice hqty =>
    have hold := hT _ _ hfind
    have hread : T.readAll [.response ⟨.modified, req.clientId, symbol, req.orderId, req.orderId,
        o.side, o.price, 0, req.qty⟩] = T := by
      refine Function.update_eq_self_iff.mpr ?_
      exact if_pos ⟨hold.price.symm, hqty.trans hold.leaves.symm⟩
    rwa [hread]

end Ladder

/-! ## Runs -/

/-- After any requests, every resting order has something left, at most its original quantity, which
is a valid one; and what is missing from the original quantity is what the `FILLED` responses that
name it have reported since its terms were last set. -/
theorem originalQty_run (symbol : Symbol) (reqs : List (EngineOrderRequest × Nanos)) :
    Reaches symbol reqs fun b => ∀ s, ∀ o ∈ b.resting s,
      0 < o.qty ∧ o.qty ≤ o.originalQty ∧ o.originalQty < invalidQty ∧
        o.originalQty.toNat - o.qty.toNat = (Terms.ofLog b.sent o.orderId).filled := by
  have hrun := run_induction symbol
    (I := fun _ b => TermsTable.Holds (TermsTable.readAll (fun _ => .none) b.sent) b.restingOrder)
    (fun id o ho => by cases ho) ?_ reqs
  · refine hrun.mono fun b hb s o ho => ?_
    obtain ⟨⟨S, hS⟩, hT⟩ := hb
    rw [hS.rep.resting_eq] at ho
    have hfind : b.restingOrder o.orderId = some o := by
      rw [hS.rep.restingOrder_eq]
      exact hS.rep.view_wf.find_eq_some.mpr ⟨Ladder.mem_all.mpr ⟨s, ho⟩, rfl⟩
    have hold := hT _ _ hfind
    rw [TermsTable.readAll_eq_ofLog] at hold
    exact ⟨hold.qty_pos, hold.qty_le, hold.original_lt, hold.filled⟩
  intro reqs b S req now b' S' msgs hstep hT
  have hT' : TermsTable.Holds (TermsTable.readAll (fun _ => .none) b.sent) (view b S).find :=
    fun id o ho => hT id o (by rw [hstep.state.rep.restingOrder_eq]; exact ho)
  have hnext := hstep.step.terms hstep.state.rep.view_wf hT'
  rw [← TermsTable.readAll_append, ← hstep.sent] at hnext
  intro id o ho
  rw [hstep.state'.rep.restingOrder_eq] at ho
  exact hnext id o ho

end MatchingEngine
