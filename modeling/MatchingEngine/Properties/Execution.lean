import MatchingEngine.Properties.Trades

/-!
# How much is executed

The `FILLED` responses of a request tell every order it touched how much of it was executed.
For a chain of fills these reports add up, order by order: what the incoming order had is what
it is left with plus what was reported under its id, and the same holds of every resting order
(`FillChain.exec_incoming`, `FillChain.exec_resting`).
-/

namespace MatchingEngine

/-- The quantity the `FILLED` responses of a log report under an id. -/
def execQtyOf (id : OrderId) (log : List OutMsg) : ℕ :=
  (((filledOf log).filter fun r => decide (r.clientOrderId = id)).map fun r => r.execQty.toNat).sum

@[simp] lemma execQtyOf_nil (id : OrderId) : execQtyOf id [] = 0 := rfl

@[simp] lemma execQtyOf_append (id : OrderId) (log log' : List OutMsg) :
    execQtyOf id (log ++ log') = execQtyOf id log + execQtyOf id log' := by
  simp [execQtyOf]

lemma execQtyOf_of_silent {log : List OutMsg} (h : ∀ m ∈ log, m.isTrade = false) (id : OrderId) :
    execQtyOf id log = 0 := by
  rw [execQtyOf, (streams_of_silent h).1]
  rfl

lemma execQtyOf_of_unnamed {log : List OutMsg} {id : OrderId}
    (h : ∀ r ∈ filledOf log, r.clientOrderId ≠ id) : execQtyOf id log = 0 := by
  have hnone : (filledOf log).filter (fun r => decide (r.clientOrderId = id)) = [] :=
    List.filter_eq_nil_iff.mpr fun r hr => by simpa using h r hr
  rw [execQtyOf, hnone]
  rfl

lemma execQtyOf_append_silent (id : OrderId) (log : List OutMsg) {tail : List OutMsg}
    (h : ∀ m ∈ tail, m.isTrade = false) : execQtyOf id (log ++ tail) = execQtyOf id log := by
  rw [execQtyOf_append, execQtyOf_of_silent h, Nat.add_zero]

/-- The quantity that rests under an id. -/
def restingQty (m : Index) (id : OrderId) : ℕ := ((m id).map fun o => o.qty.toNat).getD 0

/-- A fill is reported under the two ids that trade. -/
lemma execQtyOf_fillMsgs (i : Incoming) (f : Fill) (id : OrderId)
    (hne : f.order.orderId ≠ i.orderId) :
    execQtyOf id (i.fillMsgs f) =
      if id = i.orderId ∨ id = f.order.orderId then f.qty.toNat else 0 := by
  have hfilled : filledOf (i.fillMsgs f) =
      [⟨.filled, i.clientId, i.symbol, i.orderId, i.orderId, i.side, f.price, f.qty,
          f.leaves - f.qty⟩,
        ⟨.filled, f.order.clientId, i.symbol, f.order.orderId, f.order.orderId, f.order.side,
          f.price, f.qty, f.restQty⟩] := rfl
  rw [execQtyOf, hfilled]
  by_cases hi : i.orderId = id
  · have hf : f.order.orderId ≠ id := fun he => hne (he.trans hi.symm)
    simp [hi, hf]
  · by_cases hf : f.order.orderId = id
    · simp [hi, hf]
    · simp [hi, hf, Ne.symm hi, Ne.symm hf]

lemma execQtyOf_msgs_cons (i : Incoming) (f : Fill) (fills : List Fill) (id : OrderId) :
    execQtyOf id (i.msgs (f :: fills)) =
      execQtyOf id (i.fillMsgs f) + execQtyOf id (i.msgs fills) := by
  rw [Incoming.msgs, List.flatMap_cons, execQtyOf_append]
  rfl

/-- A fill against a resting order leaves the ids that rest nowhere alone. -/
lemma Fill.apply_eq_none {f : Fill} {m : Index} {id : OrderId} (hid : m id = none)
    (hrests : m f.order.orderId = some f.order) :
    f.order.orderId ≠ id ∧ f.apply m id = none := by
  have hne : f.order.orderId ≠ id := fun he => by
    rw [he, hid] at hrests
    cases hrests
  exact ⟨hne, by rw [Fill.apply, Function.update_of_ne hne.symm, hid]⟩

namespace FillChain

variable {i : Incoming} {m m' : Index} {leaves leaves' : Qty} {fills : List Fill}

/-- An id that rests nowhere takes part in no fill, and does not come back. -/
lemma not_named (h : FillChain i m leaves fills m' leaves') {id : OrderId} (hid : m id = none) :
    m' id = none ∧ ∀ f ∈ fills, f.order.orderId ≠ id := by
  induction h with
  | nil => exact ⟨hid, by simp⟩
  | @cons m m' f fills leaves' hpos hrests _ _ _ _ ih =>
    obtain ⟨hne, hid'⟩ := Fill.apply_eq_none hid hrests
    obtain ⟨hnone, hall⟩ := ih hid'
    refine ⟨hnone, fun g hg => ?_⟩
    rcases List.mem_cons.mp hg with rfl | hg
    · exact hne
    · exact hall g hg

/-- Reports under an id come from fills that name it. -/
lemma exec_eq_zero (h : FillChain i m leaves fills m' leaves') (hfree : m i.orderId = none)
    {id : OrderId} (hi : id ≠ i.orderId) (hid : ∀ f ∈ fills, f.order.orderId ≠ id) :
    execQtyOf id (i.msgs fills) = 0 := by
  induction h with
  | nil => rfl
  | @cons m m' f fills leaves' hpos hrests _ _ _ htail ih =>
    obtain ⟨hne, hfree'⟩ := Fill.apply_eq_none hfree hrests
    have hf : id ≠ f.order.orderId := (hid f (by simp)).symm
    rw [execQtyOf_msgs_cons, execQtyOf_fillMsgs i f id hne,
      ih hfree' fun g hg => hid g (by simp [hg])]
    simp [hi, hf]

/-- What is left of the incoming order and what was reported under its id add up. -/
lemma exec_incoming (h : FillChain i m leaves fills m' leaves') (hfree : m i.orderId = none) :
    leaves'.toNat + execQtyOf i.orderId (i.msgs fills) = leaves.toNat := by
  induction h with
  | nil => rfl
  | @cons m m' f fills leaves' hpos hrests _ _ _ htail ih =>
    obtain ⟨hne, hfree'⟩ := Fill.apply_eq_none hfree hrests
    have htail' := ih hfree'
    have hqty := f.toNat_qty
    have hsub := f.toNat_leaves_sub
    rw [execQtyOf_msgs_cons, execQtyOf_fillMsgs i f _ hne, if_pos (.inl rfl)]
    omega

/-- A resting order loses exactly what is reported under its id, and leaves the book when that is
all of it.  If anything is reported, it could trade with the incoming order. -/
lemma exec_resting (h : FillChain i m leaves fills m' leaves') (hfree : m i.orderId = none)
    {id : OrderId} {o : OrderRecord} (hid : m id = some o) (hpos : 0 < o.qty) :
    ((m' id = none ∧ execQtyOf id (i.msgs fills) = o.qty.toNat) ∨
      ∃ q, m' id = some { o with qty := q } ∧ 0 < q ∧
        q.toNat + execQtyOf id (i.msgs fills) = o.qty.toNat) ∧
    (0 < execQtyOf id (i.msgs fills) → o.side.bookSide = i.target ∧ i.eligible o = true) := by
  have hi : id ≠ i.orderId := fun he => by
    rw [he, hfree] at hid
    cases hid
  induction h generalizing o with
  | nil m leaves => exact ⟨.inr ⟨o.qty, hid, hpos, rfl⟩, fun hlt => absurd hlt (by simp)⟩
  | @cons m m' f fills leaves' hleaves hrests hside hprice helig htail ih =>
    obtain ⟨hne, hfree'⟩ := Fill.apply_eq_none hfree hrests
    rw [execQtyOf_msgs_cons, execQtyOf_fillMsgs i f id hne]
    by_cases hf : id = f.order.orderId
    · -- this fill is against the order
      obtain rfl : f.order = o := by
        rw [hf, hrests] at hid
        exact Option.some.inj hid
      rw [if_pos (.inr hf)]
      have hafter : f.apply m id = f.remainder := by rw [hf, Fill.apply, Function.update_self]
      have hqty := f.toNat_qty
      have hrest := f.toNat_restQty
      refine ⟨?_, fun _ => ⟨hside, helig⟩⟩
      by_cases hzero : f.restQty = 0
      · have hnone : f.apply m id = none := by rw [hafter, Fill.remainder, if_pos hzero]
        obtain ⟨hnone', hall⟩ := htail.not_named hnone
        rw [htail.exec_eq_zero hfree' hi hall]
        rw [qty_eq_zero_iff] at hzero
        exact .inl ⟨hnone', by omega⟩
      · have hsome : f.apply m id = some { f.order with qty := f.restQty } := by
          rw [hafter, Fill.remainder, if_neg hzero]
        have hrestpos : 0 < f.restQty := (qty_pos_iff_ne _).mpr hzero
        rcases (ih hfree' hsome hrestpos).1 with ⟨hnone, hexec⟩ | ⟨q, hq, hqpos, hexec⟩
        · change _ = f.restQty.toNat at hexec
          exact .inl ⟨hnone, by omega⟩
        · change _ = f.restQty.toNat at hexec
          exact .inr ⟨q, hq, hqpos, by omega⟩
    · have hsome : f.apply m id = some o := by rw [Fill.apply, Function.update_of_ne hf, hid]
      rw [if_neg (not_or.mpr ⟨hi, hf⟩), Nat.zero_add]
      exact ih hfree' hsome hpos

/-- A resting order of which nothing is reported stays as it is. -/
lemma unreported (h : FillChain i m leaves fills m' leaves') (hfree : m i.orderId = none)
    {id : OrderId} {o : OrderRecord} (hid : m id = some o) (hpos : 0 < o.qty)
    (hzero : execQtyOf id (i.msgs fills) = 0) : m' id = some o := by
  have hqty := (qty_pos_iff _).mp hpos
  rcases (h.exec_resting hfree hid hpos).1 with ⟨-, hall⟩ | ⟨q, hq, -, hsum⟩
  · omega
  · have hqo : q = o.qty := by
      rw [← UInt64.toNat_inj]
      omega
    rw [hq, hqo]

/-- What rests under an id and what is reported under it add up to what rested there before. -/
lemma exec_total (h : FillChain i m leaves fills m' leaves') (hfree : m i.orderId = none)
    {id : OrderId} (hi : id ≠ i.orderId) :
    restingQty m' id + execQtyOf id (i.msgs fills) = restingQty m id := by
  induction h with
  | nil => rfl
  | @cons m m' f fills leaves' hpos hrests _ _ _ htail ih =>
    obtain ⟨hne, hfree'⟩ := Fill.apply_eq_none hfree hrests
    have htotal := ih hfree'
    rw [execQtyOf_msgs_cons, execQtyOf_fillMsgs i f id hne]
    by_cases hf : id = f.order.orderId
    · have hqty := f.toNat_qty
      have hrest := f.toNat_restQty
      have hafter : restingQty (f.apply m) id = f.restQty.toNat := by
        rw [restingQty, Fill.apply, hf, Function.update_self, Fill.remainder]
        split_ifs with hzero
        · rw [hzero]
          rfl
        · rfl
      have hbefore : restingQty m id = f.order.qty.toNat := by
        rw [restingQty, hf, hrests]
        rfl
      rw [if_pos (.inr hf), hbefore]
      omega
    · have hsame : restingQty (f.apply m) id = restingQty m id := by
        rw [restingQty, Fill.apply, Function.update_of_ne hf, restingQty]
      rw [if_neg (not_or.mpr ⟨hi, hf⟩)]
      omega

/-- A resting order is filled at its own price, which it keeps. -/
lemma price_of_filled (h : FillChain i m leaves fills m' leaves') {id : OrderId} {price : Price}
    (hi : id ≠ i.orderId) (hprice : ∀ x, m id = some x → x.price = price) :
    (∀ x, m' id = some x → x.price = price) ∧
      ∀ r ∈ filledOf (i.msgs fills), r.clientOrderId = id → r.price = price := by
  induction h with
  | nil => exact ⟨hprice, fun r hr => by cases hr⟩
  | @cons m m' f fills leaves' hpos hrests _ hfprice _ htail ih =>
    have hfill : id = f.order.orderId → f.order.price = price := fun he =>
      hprice f.order (he ▸ hrests)
    have hafter : ∀ x, f.apply m id = some x → x.price = price := by
      intro x hx
      by_cases hf : id = f.order.orderId
      · rw [Fill.apply, hf, Function.update_self] at hx
        rw [(Incoming.Fill.survives hx).eq]
        exact hfill hf
      · rw [Fill.apply, Function.update_of_ne hf] at hx
        exact hprice x hx
    obtain ⟨hlast, htrades⟩ := ih hafter
    refine ⟨hlast, fun r hr hid => ?_⟩
    rw [Incoming.msgs, List.flatMap_cons, filledOf_append, List.mem_append] at hr
    rcases hr with hr | hr
    · rcases List.mem_cons.mp hr with rfl | hr
      · exact absurd hid.symm hi
      · obtain rfl := List.mem_singleton.mp hr
        exact hfprice.trans (hfill hid.symm)
    · exact htrades r hr hid

end FillChain

end MatchingEngine
