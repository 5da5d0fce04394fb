import MatchingEngine.Matcher.Sweep

/-!
# Well-formed ladders

A ladder is well formed when its levels are in map order, every order stands on its own side
at its own price, and no id occurs twice.  On well-formed ladders the operations are simple on
the two things the theorems about books look at:

* the queue of a side, `Ladder.orders`: `orders_rest`, `orders_remove`, `orders_modify`,
  `orders_trade`;
* the id index, `Ladder.find`: `find_rest`, `find_remove`, `find_modify`, `fillChain_trade`.

All operations keep ladders well formed.  Conditions on single orders that do not depend on
where the order stands are carried along by `Ladder.Forall`.
-/

namespace MatchingEngine

open OrderedMaps

namespace Ladder

structure WF (L : Ladder) : Prop where
  sorted : ∀ s, (L s).Pairwise fun r r' => s.before r.1 r'.1
  placed : ∀ s, ∀ r ∈ L s, ∀ o ∈ r.2, o.side.bookSide = s ∧ o.price = r.1
  nodup : (L.all.map OrderRecord.orderId).Nodup

variable {L : Ladder}

lemma wf_empty : empty.WF := ⟨fun _ => .nil, by simp [empty], by simp [empty, all, orders]⟩

/-! ## Orders and ids -/

lemma mem_all {o : OrderRecord} : o ∈ L.all ↔ ∃ s, o ∈ L.orders s := by
  rw [all, List.mem_append]
  constructor
  · rintro (h | h)
    · exact ⟨.bid, h⟩
    · exact ⟨.ask, h⟩
  · rintro ⟨s, h⟩
    cases s
    · exact .inl h
    · exact .inr h

/-- The orders of a ladder, one side first. -/
lemma all_perm (L : Ladder) (s : BookSide) : L.all.Perm (L.orders s ++ L.orders s.contra) := by
  cases s
  · exact .refl _
  · exact List.perm_append_comm

lemma WF.side (h : L.WF) {s : BookSide} {o : OrderRecord} (ho : o ∈ L.orders s) :
    o.side.bookSide = s := by
  obtain ⟨r, hr, ho⟩ := List.mem_flatMap.mp ho
  exact (h.placed s r hr o ho).1

lemma WF.price (h : L.WF) (s : BookSide) : ∀ r ∈ L s, ∀ o ∈ r.2, o.price = r.1 :=
  fun r hr o ho => (h.placed s r hr o ho).2

lemma WF.mem_orders (h : L.WF) {s : BookSide} {o : OrderRecord} :
    o ∈ L.orders s ↔ o ∈ L.all ∧ o.side.bookSide = s := by
  constructor
  · exact fun ho => ⟨mem_all.mpr ⟨s, ho⟩, h.side ho⟩
  · rintro ⟨ho, rfl⟩
    obtain ⟨s, ho⟩ := mem_all.mp ho
    rwa [h.side ho]

lemma WF.nodup_orders (h : L.WF) (s : BookSide) :
    ((L.orders s).map OrderRecord.orderId).Nodup := by
  have := ((L.all_perm s).map OrderRecord.orderId).nodup_iff.mp h.nodup
  rw [List.map_append] at this
  exact (List.nodup_append.mp this).1

lemma find_eq_none {id : OrderId} : L.find id = none ↔ ∀ o ∈ L.all, o.orderId ≠ id := by
  simp [find]

lemma WF.find_eq_some (h : L.WF) {id : OrderId} {o : OrderRecord} :
    L.find id = some o ↔ o ∈ L.all ∧ o.orderId = id := by
  constructor
  · intro hfind
    exact ⟨List.mem_of_find?_eq_some hfind, by simpa using List.find?_some hfind⟩
  · rintro ⟨ho, rfl⟩
    cases hfind : L.find o.orderId with
    | none => exact absurd rfl (find_eq_none.mp hfind o ho)
    | some o' =>
      have hid : o'.orderId = o.orderId := by simpa using List.find?_some hfind
      rw [List.inj_on_of_nodup_map h.nodup (List.mem_of_find?_eq_some hfind) ho hid]

/-- The index of a well-formed ladder is determined by which orders it holds. -/
lemma WF.find_eq (h : L.WF) {m : Index} (hid : ∀ id o, m id = some o → o.orderId = id)
    (hm : ∀ o, m o.orderId = some o ↔ o ∈ L.all) : L.find = m := by
  funext id
  refine Option.ext fun o => ?_
  rw [h.find_eq_some]
  constructor
  · rintro ⟨ho, rfl⟩
    exact (hm o).mpr ho
  · intro ho
    have := hid id o ho
    subst this
    exact ⟨(hm o).mp ho, rfl⟩

/-! ## Conditions on single orders -/

/-- Every order of the ladder satisfies `P`. -/
def Forall (P : OrderRecord → Prop) (L : Ladder) : Prop := ∀ o ∈ L.all, P o

/-! ## Taking an order off -/

lemma orders_remove (L : Ladder) (id : OrderId) (s : BookSide) :
    (L.remove id).orders s = (L.orders s).filter fun o => decide (o.orderId ≠ id) := by
  rw [orders, orders, remove, List.filter_flatMap]
  induction L s with
  | nil => rfl
  | cons r rs ih =>
    rw [List.map_cons, List.filter_cons, List.flatMap_cons, ← ih]
    split_ifs with hr
    · rfl
    · have : r.2.filter (fun o => decide (o.orderId ≠ id)) = [] := by simpa using hr
      rw [this, List.nil_append]

lemma all_remove (L : Ladder) (id : OrderId) :
    (L.remove id).all = L.all.filter fun o => decide (o.orderId ≠ id) := by
  rw [all, all, List.filter_append, orders_remove, orders_remove]

lemma mem_all_remove {id : OrderId} {o : OrderRecord} :
    o ∈ (L.remove id).all ↔ o ∈ L.all ∧ o.orderId ≠ id := by
  rw [all_remove, List.mem_filter, decide_eq_true_eq]

lemma WF.remove (h : L.WF) (id : OrderId) : (L.remove id).WF where
  sorted s := by
    refine List.Pairwise.filter _ ?_
    rw [List.pairwise_map]
    exact h.sorted s
  placed s r hr o ho := by
    obtain ⟨r', hr', rfl⟩ := List.mem_map.mp (List.mem_of_mem_filter hr)
    exact h.placed s r' hr' o (List.mem_of_mem_filter ho)
  nodup := by
    rw [all_remove]
    exact h.nodup.sublist ((List.filter_sublist).map _)

lemma find_remove_self (L : Ladder) (id : OrderId) : (L.remove id).find id = none :=
  find_eq_none.mpr fun _ ho => (mem_all_remove.mp ho).2

lemma WF.find_remove (h : L.WF) (id : OrderId) :
    (L.remove id).find = Function.update L.find id none := by
  refine (h.remove id).find_eq (fun id' o hfind => ?_) fun o => ?_
  · rw [Function.update_apply] at hfind
    split_ifs at hfind
    exact (h.find_eq_some.mp hfind).2
  · rw [mem_all_remove, Function.update_apply]
    split_ifs with hid
    · simp [hid]
    · rw [h.find_eq_some]
      simp [hid]

/-- The order an id names, and the others. -/
lemma WF.all_split (h : L.WF) {id : OrderId} {o : OrderRecord} (ho : L.find id = some o) :
    L.all.Perm (o :: (L.remove id).all) := by
  obtain ⟨hmem, hid⟩ := h.find_eq_some.mp ho
  refine (List.perm_cons_erase hmem).trans (.cons _ (.of_eq ?_))
  rw [h.nodup.of_map.erase_eq_filter, all_remove]
  refine List.filter_congr fun x hx => ?_
  rw [Bool.eq_iff_iff, bne_iff_ne, decide_eq_true_eq, Ne, Ne, not_iff_not]
  constructor
  · rintro rfl
    exact hid
  · exact fun he => List.inj_on_of_nodup_map h.nodup hx hmem (he.trans hid.symm)

/-! ## Changing an order in place -/

lemma orders_modify (L : Ladder) (id : OrderId) (f : OrderRecord → OrderRecord) (s : BookSide) :
    (L.modify id f).orders s = (L.orders s).map fun o => if o.orderId = id then f o else o := by
  rw [orders, orders, modify, List.flatMap_map, List.map_flatMap]

lemma all_modify (L : Ladder) (id : OrderId) (f : OrderRecord → OrderRecord) :
    (L.modify id f).all = L.all.map fun o => if o.orderId = id then f o else o := by
  rw [all, all, List.map_append, orders_modify, orders_modify]

/-- A change that keeps id, side and price. -/
structure InPlace (f : OrderRecord → OrderRecord) : Prop where
  orderId : ∀ o, (f o).orderId = o.orderId
  side : ∀ o, (f o).side = o.side
  price : ∀ o, (f o).price = o.price

lemma WF.modify (h : L.WF) {id : OrderId} {f : OrderRecord → OrderRecord} (hf : InPlace f) :
    (L.modify id f).WF where
  sorted s := by
    rw [Ladder.modify, List.pairwise_map]
    exact h.sorted s
  placed s r hr o ho := by
    obtain ⟨r', hr', rfl⟩ := List.mem_map.mp hr
    obtain ⟨o', ho', rfl⟩ := List.mem_map.mp ho
    have := h.placed s r' hr' o' ho'
    split_ifs
    · rwa [hf.side, hf.price]
    · exact this
  nodup := by
    have hids : (L.modify id f).all.map OrderRecord.orderId = L.all.map OrderRecord.orderId := by
      rw [all_modify, List.map_map]
      refine List.map_congr_left fun o _ => ?_
      simp only [Function.comp]
      split_ifs
      · exact hf.orderId o
      · rfl
    rw [hids]
    exact h.nodup

lemma WF.find_modify (h : L.WF) {f : OrderRecord → OrderRecord} (hf : InPlace f) {id : OrderId}
    {o : OrderRecord} (ho : L.find id = some o) :
    (L.modify id f).find = Function.update L.find id (some (f o)) := by
  have hid := (h.find_eq_some.mp ho).2
  refine (h.modify hf).find_eq (fun id' o' hfind => ?_) fun o' => ?_
  · rw [Function.update_apply] at hfind
    split_ifs at hfind with he
    · rw [← Option.some.inj hfind, hf.orderId, he, hid]
    · exact (h.find_eq_some.mp hfind).2
  · rw [all_modify, List.mem_map, Function.update_apply]
    split_ifs with he
    · rw [Option.some.injEq]
      constructor
      · rintro rfl
        exact ⟨o, (h.find_eq_some.mp ho).1, if_pos hid⟩
      · rintro ⟨x, hx, rfl⟩
        have hxid : x.orderId = id := by
          by_contra hne
          rw [if_neg hne] at he
          exact hne he
        rw [if_pos hxid, List.inj_on_of_nodup_map h.nodup (h.find_eq_some.mp ho).1 hx
          (hid.trans hxid.symm)]
    · rw [h.find_eq_some]
      constructor
      · rintro ⟨hx, -⟩
        exact ⟨o', hx, if_neg he⟩
      · rintro ⟨x, hx, rfl⟩
        have hxid : x.orderId ≠ id := fun hxid => he (by rw [if_pos hxid, hf.orderId, hxid])
        rw [if_neg hxid]
        exact ⟨hx, rfl⟩

/-- A change of quantity. -/
lemma inPlace_setQty (qty : Qty) : InPlace fun x => { x with qty := qty, originalQty := qty } :=
  ⟨fun _ => rfl, fun _ => rfl, fun _ => rfl⟩

lemma WF.find_setQty (h : L.WF) {id : OrderId} {o : OrderRecord} (ho : L.find id = some o)
    (qty : Qty) :
    (L.modify id fun x => { x with qty := qty, originalQty := qty }).find =
      Function.update L.find id (some { o with qty := qty, originalQty := qty }) :=
  h.find_modify (inPlace_setQty qty) ho

/-! ## Resting an order -/

lemma ordersAt_cons (r : Rung) (rungs : List Rung) (price : Price) :
    ordersAt (r :: rungs) price = if r.1 = price then r.2 else ordersAt rungs price := by
  rw [ordersAt, List.find?_cons]
  by_cases h : r.1 = price
  · simp [h]
  · simp [h, ordersAt]

lemma ordersAt_eq_nil {rungs : List Rung} {price : Price} (h : ∀ r ∈ rungs, r.1 ≠ price) :
    ordersAt rungs price = [] := by
  have : rungs.find? (fun r => decide (r.1 = price)) = none := by simpa using h
  rw [ordersAt, this]
  rfl

/-- A level is the part of its side's queue that has its price. -/
lemma WF.ordersAt_eq (h : L.WF) (s : BookSide) (price : Price) :
    ordersAt (L s) price = (L.orders s).filter fun o => decide (o.price = price) := by
  have hsorted := h.sorted s
  have hprice := h.price s
  rw [orders]
  generalize L s = rungs at hsorted hprice ⊢
  induction rungs with
  | nil => rfl
  | cons r rungs ih =>
    obtain ⟨hfirst, hrest⟩ := List.pairwise_cons.mp hsorted
    have ih' := ih hrest fun r' hr' => hprice r' (by simp [hr'])
    rw [ordersAt_cons, List.flatMap_cons, List.filter_append, ← ih']
    by_cases heq : r.1 = price
    · have hlater : ordersAt rungs price = [] := ordersAt_eq_nil fun r' hr' he =>
        irrefl_of s.before r.1 (by simpa [he, heq] using hfirst r' hr')
      have hall : r.2.filter (fun o => decide (o.price = price)) = r.2 :=
        List.filter_eq_self.mpr fun o ho => by simp [hprice r (by simp) o ho, heq]
      rw [if_pos heq, hall, hlater, List.append_nil]
    · have hnone : r.2.filter (fun o => decide (o.price = price)) = [] :=
        List.filter_eq_nil_iff.mpr fun o ho => by simp [hprice r (by simp) o ho, heq]
      rw [if_neg heq, hnone, List.nil_append]

/-- Appending to a level puts the order behind all orders that are not at a worse price. -/
lemma flatMap_insertBy (c : BookSide) {rungs : List Rung}
    (hsorted : rungs.Pairwise fun r r' => c.before r.1 r'.1)
    (hprice : ∀ r ∈ rungs, ∀ o ∈ r.2, o.price = r.1) (price : Price) (x : OrderRecord) :
    (insertBy c.before Prod.fst (price, ordersAt rungs price ++ [x]) rungs).flatMap Prod.snd =
      (rungs.flatMap Prod.snd).filter (fun o => decide (¬ c.before price o.price)) ++
        x :: (rungs.flatMap Prod.snd).filter fun o => decide (c.before price o.price) := by
  -- a stretch of orders all on one side of `price`
  have hlow : ∀ os : List OrderRecord, (∀ o ∈ os, ¬ c.before price o.price) →
      os.filter (fun o => decide (¬ c.before price o.price)) = os ∧
        os.filter (fun o => decide (c.before price o.price)) = [] := fun os hos =>
    ⟨List.filter_eq_self.mpr (by simpa using hos), List.filter_eq_nil_iff.mpr (by simpa using hos)⟩
  have hhigh : ∀ os : List OrderRecord, (∀ o ∈ os, c.before price o.price) →
      os.filter (fun o => decide (¬ c.before price o.price)) = [] ∧
        os.filter (fun o => decide (c.before price o.price)) = os := fun os hos =>
    ⟨List.filter_eq_nil_iff.mpr (by simpa using hos), List.filter_eq_self.mpr (by simpa using hos)⟩
  induction rungs with
  | nil => rfl
  | cons r rungs ih =>
    obtain ⟨p, os⟩ := r
    obtain ⟨hfirst, hrest⟩ := List.pairwise_cons.mp hsorted
    have hos : ∀ o ∈ os, o.price = p := hprice (p, os) (by simp)
    have hrungs : ∀ r ∈ rungs, ∀ o ∈ r.2, o.price = r.1 := fun r hr => hprice r (by simp [hr])
    have hflat : ∀ o ∈ rungs.flatMap Prod.snd, c.before p o.price := fun o ho => by
      obtain ⟨r, hr, ho⟩ := List.mem_flatMap.mp ho
      rw [hrungs r hr o ho]
      exact hfirst r hr
    rw [ordersAt_cons, insertBy]
    by_cases heq : p = price
    · subst heq
      obtain ⟨h1, h2⟩ := hlow os fun o ho => by
        rw [hos o ho]
        exact irrefl_of c.before p
      obtain ⟨h3, h4⟩ := hhigh _ hflat
      simp only [if_true, List.flatMap_cons, List.filter_append, h1, h2, h3, h4]
      simp
    · rw [if_neg heq, if_neg heq]
      by_cases hlt : c.before price p
      · have hnil : ordersAt rungs price = [] := ordersAt_eq_nil fun r hr he =>
          irrefl_of c.before price (trans_of c.before hlt (he ▸ hfirst r hr))
        obtain ⟨h1, h2⟩ := hhigh ((((p, os) : Rung) :: rungs).flatMap Prod.snd) fun o ho => by
          rw [List.flatMap_cons] at ho
          rcases List.mem_append.mp ho with ho | ho
          · rw [hos o ho]
            exact hlt
          · exact trans_of c.before hlt (hflat o ho)
        rw [if_pos hlt, h1, h2, hnil]
        rfl
      · obtain ⟨h1, h2⟩ := hlow os fun o ho => by
          rw [hos o ho]
          exact hlt
        rw [if_neg hlt, List.flatMap_cons, List.flatMap_cons, List.filter_append,
          List.filter_append, h1, h2, ih hrest hrungs, List.append_assoc, List.nil_append]

lemma WF.orders_rest (h : L.WF) (x : OrderRecord) :
    (L.rest x).orders x.side.bookSide =
      (L.orders x.side.bookSide).filter
          (fun o => decide (¬ x.side.bookSide.before x.price o.price)) ++
        x :: (L.orders x.side.bookSide).filter
          fun o => decide (x.side.bookSide.before x.price o.price) := by
  rw [orders, rest, Function.update_self]
  exact flatMap_insertBy _ (h.sorted _) (h.price _) _ _

lemma orders_rest_of_ne (L : Ladder) (x : OrderRecord) {s : BookSide}
    (hs : s ≠ x.side.bookSide) : (L.rest x).orders s = L.orders s := by
  rw [orders, orders, rest, Function.update_of_ne hs]

lemma WF.all_rest (h : L.WF) (x : OrderRecord) : (L.rest x).all.Perm (x :: L.all) := by
  have hcontra := L.orders_rest_of_ne x x.side.bookSide.contra_ne
  refine ((L.rest x).all_perm x.side.bookSide).trans ?_
  rw [hcontra, h.orders_rest x, List.append_assoc, List.cons_append]
  refine List.perm_middle.trans (.cons x ?_)
  rw [← List.append_assoc]
  refine (List.Perm.append_right _ ?_).trans (L.all_perm x.side.bookSide).symm
  refine List.perm_append_comm.trans ?_
  have := List.filter_append_perm (fun o : OrderRecord =>
    decide (x.side.bookSide.before x.price o.price)) (L.orders x.side.bookSide)
  simpa using this

lemma WF.mem_all_rest (h : L.WF) {x o : OrderRecord} :
    o ∈ (L.rest x).all ↔ o = x ∨ o ∈ L.all := by
  rw [(h.all_rest x).mem_iff, List.mem_cons]

lemma WF.rest (h : L.WF) {x : OrderRecord} (hx : L.find x.orderId = none) : (L.rest x).WF where
  sorted s := by
    by_cases hs : s = x.side.bookSide
    · subst hs
      rw [Ladder.rest, Function.update_self]
      exact pairwise_insertBy _ _ (h.sorted _)
    · rw [Ladder.rest, Function.update_of_ne hs]
      exact h.sorted s
  placed s r hr o ho := by
    by_cases hs : s = x.side.bookSide
    · subst hs
      rw [Ladder.rest, Function.update_self] at hr
      rcases mem_insertBy_imp _ hr with rfl | hr
      · rcases List.mem_append.mp ho with ho | ho
        · obtain ⟨r, hfind, ho⟩ : ∃ r ∈ L x.side.bookSide, r.1 = x.price ∧ o ∈ r.2 := by
            rw [ordersAt] at ho
            cases hfind : (L x.side.bookSide).find? fun r => decide (r.1 = x.price) with
            | none => simp [hfind] at ho
            | some r =>
              exact ⟨r, List.mem_of_find?_eq_some hfind, by simpa using List.find?_some hfind,
                by simpa [hfind] using ho⟩
          have := h.placed _ r hfind o ho.2
          rwa [ho.1] at this
        · rw [List.mem_singleton.mp ho]
          exact ⟨rfl, rfl⟩
      · exact h.placed _ r hr o ho
    · rw [Ladder.rest, Function.update_of_ne hs] at hr
      exact h.placed s r hr o ho
  nodup := by
    rw [((h.all_rest x).map _).nodup_iff, List.map_cons, List.nodup_cons]
    refine ⟨fun hmem => ?_, h.nodup⟩
    obtain ⟨o, ho, hid⟩ := List.mem_map.mp hmem
    exact find_eq_none.mp hx o ho hid

lemma WF.find_rest (h : L.WF) {x : OrderRecord} (hx : L.find x.orderId = none) :
    (L.rest x).find = Function.update L.find x.orderId (some x) := by
  refine (h.rest hx).find_eq (fun id o hfind => ?_) fun o => ?_
  · rw [Function.update_apply] at hfind
    split_ifs at hfind with hid
    · rw [hid, Option.some.inj hfind]
    · exact (h.find_eq_some.mp hfind).2
  · rw [h.mem_all_rest, Function.update_apply]
    split_ifs with hid
    · rw [Option.some.injEq, eq_comm]
      refine ⟨.inl, fun ho => ho.resolve_right fun ho => ?_⟩
      exact find_eq_none.mp hx o ho hid
    · rw [h.find_eq_some]
      constructor
      · exact fun ho => .inr ho.1
      · rintro (rfl | ho)
        · exact absurd rfl hid
        · exact ⟨ho, rfl⟩

/-- Taking an order off and resting another one under its id. -/
lemma WF.find_requeue (h : L.WF) {id : OrderId} {x : OrderRecord} (hid : x.orderId = id) :
    ((L.remove id).rest x).find = Function.update L.find id (some x) := by
  subst hid
  rw [(h.remove _).find_rest (find_remove_self L _), h.find_remove, Function.update_idem]

/-! ## The order of a queue -/

/-- A queue goes from better to worse prices. -/
lemma WF.orders_sorted (h : L.WF) (s : BookSide) :
    (L.orders s).Pairwise fun a b => ¬ s.before b.price a.price := by
  rw [orders, List.pairwise_flatMap]
  constructor
  · intro r hr
    refine List.pairwise_of_forall_mem_list fun a ha b hb => ?_
    rw [h.price s r hr a ha, h.price s r hr b hb]
    exact irrefl_of s.before r.1
  · refine (h.sorted s).imp_of_mem fun {r r'} hr hr' hlt a ha b hb => ?_
    rw [h.price s r hr a ha, h.price s r' hr' b hb]
    exact asymm_of s.before hlt

/-- Levels without gaps are determined by the queue they form. -/
lemma rungs_ext {s : BookSide} {rungs rungs' : List Rung}
    (hsorted : rungs.Pairwise fun r r' => s.before r.1 r'.1)
    (hsorted' : rungs'.Pairwise fun r r' => s.before r.1 r'.1)
    (hprice : ∀ r ∈ rungs, ∀ o ∈ r.2, o.price = r.1)
    (hprice' : ∀ r ∈ rungs', ∀ o ∈ r.2, o.price = r.1)
    (hfull : ∀ r ∈ rungs, r.2 ≠ []) (hfull' : ∀ r ∈ rungs', r.2 ≠ [])
    (h : rungs.flatMap Prod.snd = rungs'.flatMap Prod.snd) : rungs = rungs' := by
  -- the first level of a side is the part of the queue with the first price
  have hfirst : ∀ {p : Price} {os : List OrderRecord} {rs : List Rung},
      ((p, os) :: rs).Pairwise (fun r r' => s.before r.1 r'.1) →
      (∀ r ∈ (p, os) :: rs, ∀ o ∈ r.2, o.price = r.1) →
      (((p, os) :: rs).flatMap Prod.snd).filter (fun o => decide (o.price = p)) = os ∧
        (((p, os) :: rs).flatMap Prod.snd).filter (fun o => decide (o.price ≠ p)) =
          rs.flatMap Prod.snd := by
    intro p os rs hs hp
    have hos : ∀ o ∈ os, o.price = p := hp (p, os) (by simp)
    have hrs : ∀ o ∈ rs.flatMap Prod.snd, o.price ≠ p := fun o ho he => by
      obtain ⟨r, hr, ho⟩ := List.mem_flatMap.mp ho
      have hlt := (List.pairwise_cons.mp hs).1 r hr
      rw [← hp r (by simp [hr]) o ho, he] at hlt
      exact irrefl_of s.before p hlt
    rw [List.flatMap_cons, List.filter_append, List.filter_append,
      List.filter_eq_self.mpr (by simpa using hos), List.filter_eq_nil_iff.mpr (by simpa using hrs),
      List.filter_eq_nil_iff.mpr (by simpa using hos), List.filter_eq_self.mpr (by simpa using hrs)]
    exact ⟨List.append_nil _, List.nil_append _⟩
  induction rungs generalizing rungs' with
  | nil =>
    cases rungs' with
    | nil => rfl
    | cons r' rs' =>
      rw [List.flatMap_nil, List.flatMap_cons, eq_comm, List.append_eq_nil_iff] at h
      exact absurd h.1 (hfull' r' (by simp))
  | cons r rs ih =>
    obtain ⟨p, os⟩ := r
    cases rungs' with
    | nil =>
      rw [List.flatMap_nil, List.flatMap_cons, List.append_eq_nil_iff] at h
      exact absurd h.1 (hfull _ (by simp))
    | cons r' rs' =>
      obtain ⟨p', os'⟩ := r'
      obtain rfl : p = p' := by
        obtain ⟨o, os₁, rfl⟩ := List.exists_cons_of_ne_nil (hfull (p, os) (by simp))
        obtain ⟨o', os₁', rfl⟩ := List.exists_cons_of_ne_nil (hfull' (p', os') (by simp))
        obtain rfl : o = o' := by simpa using congrArg List.head? h
        have hp : o.price = p := hprice (p, o :: os₁) (by simp) o (by simp)
        have hp' : o.price = p' := hprice' (p', o :: os₁') (by simp) o (by simp)
        rw [← hp, ← hp']
      obtain ⟨hos, hrs⟩ := hfirst hsorted hprice
      obtain ⟨hos', hrs'⟩ := hfirst hsorted' hprice'
      rw [← h] at hos' hrs'
      rw [hos] at hos'
      rw [hrs] at hrs'
      rw [hos', ih (List.pairwise_cons.mp hsorted).2 (List.pairwise_cons.mp hsorted').2
        (fun r hr => hprice r (by simp [hr])) (fun r hr => hprice' r (by simp [hr]))
        (fun r hr => hfull r (by simp [hr])) (fun r hr => hfull' r (by simp [hr])) hrs']

/-- A price cuts a queue in two. -/
lemma WF.orders_split (h : L.WF) (s : BookSide) (price : Price) :
    L.orders s = (L.orders s).filter (fun o => decide (¬ s.before price o.price)) ++
      (L.orders s).filter fun o => decide (s.before price o.price) := by
  have hsorted := h.orders_sorted s
  generalize L.orders s = queue at hsorted ⊢
  induction queue with
  | nil => rfl
  | cons o os ih =>
    obtain ⟨hfirst, hrest⟩ := List.pairwise_cons.mp hsorted
    by_cases ho : s.before price o.price
    · have hall : ∀ o' ∈ os, s.before price o'.price := fun o' ho' => by
        rcases trichotomous_of s.before o.price o'.price with hlt | heq | hgt
        · exact trans_of s.before ho hlt
        · rwa [← heq]
        · exact absurd hgt (hfirst o' ho')
      rw [List.filter_eq_nil_iff.mpr (by simpa [ho] using hall),
        List.filter_eq_self.mpr (by simpa [ho] using hall), List.nil_append]
    · rw [List.filter_cons_of_pos (by simpa using ho), List.filter_cons_of_neg (by simpa using ho),
        List.cons_append, ← ih hrest]

/-- A relation along a queue extends to a newly rested order that stands in it to its
neighbours. -/
lemma WF.pairwise_rest (h : L.WF) {R : OrderRecord → OrderRecord → Prop} {x : OrderRecord}
    (hL : (L.orders x.side.bookSide).Pairwise R)
    (hbelow : ∀ a ∈ L.orders x.side.bookSide, ¬ x.side.bookSide.before x.price a.price → R a x)
    (habove : ∀ a ∈ L.orders x.side.bookSide, x.side.bookSide.before x.price a.price → R x a) :
    ((L.rest x).orders x.side.bookSide).Pairwise R := by
  rw [h.orders_split _ x.price, List.pairwise_append] at hL
  obtain ⟨hlow, hhigh, hcross⟩ := hL
  rw [h.orders_rest, List.pairwise_append, List.pairwise_cons]
  refine ⟨hlow, ⟨fun b hb => ?_, hhigh⟩, fun a ha b hb => ?_⟩
  · rw [List.mem_filter, decide_eq_true_eq] at hb
    exact habove b hb.1 hb.2
  · rcases List.mem_cons.mp hb with rfl | hb
    · rw [List.mem_filter, decide_eq_true_eq] at ha
      exact hbelow a ha.1 ha.2
    · exact hcross a ha b hb

lemma pairwise_remove {R : OrderRecord → OrderRecord → Prop} {s : BookSide}
    (hL : (L.orders s).Pairwise R) (id : OrderId) : ((L.remove id).orders s).Pairwise R := by
  rw [orders_remove]
  exact hL.filter _

/-! ## Matching -/

section Trade

variable {i : Incoming} {qty : Qty}

lemma WF.trade_eq (h : L.WF) :
    (⟨(L.trade i qty).rest.orders i.target, (L.trade i qty).leaves, (L.trade i qty).fills⟩ :
      Incoming.Sweep (List OrderRecord)) = i.sweepOrders (L.orders i.target) qty := by
  have := Incoming.sweep_flatten (h.sorted i.target) (h.price i.target) qty
  rw [orders, orders, trade_rest_target, ← this]
  rfl

lemma WF.orders_trade (h : L.WF) :
    (L.trade i qty).rest.orders i.target = (i.sweepOrders (L.orders i.target) qty).rest :=
  congrArg Incoming.Sweep.rest h.trade_eq

lemma WF.leaves_trade (h : L.WF) :
    (L.trade i qty).leaves = (i.sweepOrders (L.orders i.target) qty).leaves :=
  congrArg Incoming.Sweep.leaves h.trade_eq

lemma WF.fills_trade (h : L.WF) :
    (L.trade i qty).fills = (i.sweepOrders (L.orders i.target) qty).fills :=
  congrArg Incoming.Sweep.fills h.trade_eq

lemma orders_trade_of_ne {s : BookSide} (hs : s ≠ i.target) :
    (L.trade i qty).rest.orders s = L.orders s := by
  rw [orders, orders, trade_rest_of_ne L i qty hs]

/-- Matching against nobody changes nothing. -/
lemma WF.trade_idle (h : L.WF) (qty : Qty)
    (hnone : ∀ y ∈ L.orders i.target, i.eligible y = false) :
    (∀ s, (L.trade i qty).rest.orders s = L.orders s) ∧ (L.trade i qty).leaves = qty ∧
      (L.trade i qty).fills = [] := by
  have hskip : i.sweepOrders (L.orders i.target) qty = ⟨L.orders i.target, qty, []⟩ :=
    Incoming.sweepOrders_skip fun y hy hc => by simp [hnone y hy] at hc
  refine ⟨fun s => ?_, by rw [h.leaves_trade, hskip], by rw [h.fills_trade, hskip]⟩
  by_cases hs : s = i.target
  · rw [hs, h.orders_trade, hskip]
  · exact orders_trade_of_ne hs

/-- A relation between orders that ignores quantities survives the matching. -/
lemma WF.pairwise_trade (h : L.WF) {R : OrderRecord → OrderRecord → Prop}
    (hR : ∀ a b q q', R a b → R { a with qty := q } { b with qty := q' }) {s : BookSide}
    (hL : (L.orders s).Pairwise R) : ((L.trade i qty).rest.orders s).Pairwise R := by
  by_cases hs : s = i.target
  · subst hs
    rw [h.orders_trade]
    exact Incoming.pairwise_rest hR hL qty
  · rwa [orders_trade_of_ne hs]

/-- Every order left after matching is what remains of one that was there. -/
lemma WF.survives_trade (h : L.WF) {s : BookSide} {o : OrderRecord}
    (ho : o ∈ (L.trade i qty).rest.orders s) : ∃ o₀ ∈ L.orders s, Incoming.Survives o₀ o := by
  by_cases hs : s = i.target
  · subst hs
    rw [h.orders_trade] at ho
    exact Incoming.survives_of_mem ho
  · rw [orders_trade_of_ne hs] at ho
    exact ⟨o, ho, .refl o⟩

end Trade

end Ladder

/-- The levels that stay are some of those that were there, thinned out. -/
lemma Incoming.rungs_sweep {i : Incoming} {rungs : List Rung}
    (hprice : ∀ r ∈ rungs, ∀ o ∈ r.2, o.price = r.1) (leaves : Qty) :
    ((i.sweep rungs leaves).rest.map Prod.fst).Sublist (rungs.map Prod.fst) ∧
      ∀ r ∈ (i.sweep rungs leaves).rest, ∃ r₀ ∈ rungs, r.1 = r₀.1 ∧
        ∀ o ∈ r.2, ∃ o₀ ∈ r₀.2, Survives o₀ o := by
  induction rungs generalizing leaves with
  | nil => exact ⟨.slnil, by simp [sweep]⟩
  | cons r rungs ih =>
    obtain ⟨price, os⟩ := r
    rw [sweep]
    split_ifs with hcond
    · obtain ⟨hsub, hmem⟩ := ih (fun r hr => hprice r (by simp [hr]))
        (i.sweepLevel price os leaves).leaves
      have hlevel := sweepLevel_eq (hprice (price, os) (by simp)) (by simpa using hcond.2) leaves
      have hmem' : ∀ r ∈ (i.sweep rungs (i.sweepLevel price os leaves).leaves).rest,
          ∃ r₀ ∈ (price, os) :: rungs, r.1 = r₀.1 ∧ ∀ o ∈ r.2, ∃ o₀ ∈ r₀.2, Survives o₀ o := by
        intro r hr
        obtain ⟨r₀, hr₀, h⟩ := hmem r hr
        exact ⟨r₀, by simp [hr₀], h⟩
      by_cases hnil : (i.sweepLevel price os leaves).rest = []
      · simp only [hnil, if_true]
        exact ⟨hsub.cons price, hmem'⟩
      · simp only [hnil, if_false]
        refine ⟨hsub.cons_cons price, fun r hr => ?_⟩
        rcases List.mem_cons.mp hr with rfl | hr
        · refine ⟨(price, os), by simp, rfl, fun o ho => ?_⟩
          rw [hlevel] at ho
          exact survives_of_mem ho
        · exact hmem' r hr
    · exact ⟨.refl _, fun r hr => ⟨r, hr, rfl, fun o ho => ⟨o, ho, .refl o⟩⟩⟩

/-- Matching leaves no empty level behind. -/
lemma Incoming.gapless_sweep {i : Incoming} {rungs : List Rung} (h : ∀ r ∈ rungs, r.2 ≠ [])
    (leaves : Qty) : ∀ r ∈ (i.sweep rungs leaves).rest, r.2 ≠ [] := by
  induction rungs generalizing leaves with
  | nil => simp [sweep]
  | cons r rungs ih =>
    obtain ⟨price, os⟩ := r
    have hrest := ih (fun r hr => h r (by simp [hr])) (i.sweepLevel price os leaves).leaves
    rw [sweep]
    split_ifs with hcond
    · by_cases hnil : (i.sweepLevel price os leaves).rest = []
      · simp only [hnil, if_true]
        exact hrest
      · simp only [hnil, if_false]
        intro r hr
        rcases List.mem_cons.mp hr with rfl | hr
        · exact hnil
        · exact hrest r hr
    · exact h

namespace Ladder

variable {L : Ladder} {i : Incoming} {qty : Qty}

lemma WF.trade (h : L.WF) : (L.trade i qty).rest.WF where
  sorted s := by
    by_cases hs : s = i.target
    · subst hs
      have hsub := (i.rungs_sweep (h.price i.target) qty).1
      have := h.sorted i.target
      rw [← List.pairwise_map] at this ⊢
      rw [trade_rest_target]
      exact this.sublist hsub
    · rw [trade_rest_of_ne L i qty hs]
      exact h.sorted s
  placed s r hr o ho := by
    by_cases hs : s = i.target
    · subst hs
      rw [trade_rest_target] at hr
      obtain ⟨r₀, hr₀, hprice, hsurv⟩ :=
        (i.rungs_sweep (h.price i.target) qty).2 r hr
      obtain ⟨o₀, ho₀, hs⟩ := hsurv o ho
      rw [hs.eq, hprice]
      exact h.placed _ r₀ hr₀ o₀ ho₀
    · rw [trade_rest_of_ne L i qty hs] at hr
      exact h.placed s r hr o ho
  nodup := by
    have hbefore := ((L.all_perm i.target).map OrderRecord.orderId).nodup_iff.mp h.nodup
    refine (((L.trade i qty).rest.all_perm i.target).map OrderRecord.orderId).nodup_iff.mpr ?_
    rw [List.map_append] at hbefore ⊢
    rw [orders_trade_of_ne i.target.contra_ne, h.orders_trade]
    exact hbefore.sublist ((Incoming.ids_rest_sublist _ _).append_right _)

/-- The fills of a trade, made one after the other on the index, lead to the index of the
ladder it leaves. -/
lemma WF.fillChain_trade (h : L.WF) :
    FillChain i L.find qty (L.trade i qty).fills (L.trade i qty).rest.find
      (L.trade i qty).leaves := by
  have hm : ∀ o ∈ L.orders i.target, L.find o.orderId = some o := fun o ho =>
    h.find_eq_some.mpr ⟨mem_all.mpr ⟨_, ho⟩, rfl⟩
  obtain ⟨m', hchain, hrest, honly, hframe⟩ :=
    Incoming.fillChain_sweepOrders (h.nodup_orders i.target) (fun o ho => h.side ho) qty hm
  -- the orders of the other side keep their ids to themselves
  have hother : ∀ {s o}, s ≠ i.target → o ∈ L.orders s →
      o.orderId ∉ (L.orders i.target).map OrderRecord.orderId := by
    intro s o hs ho hid
    obtain ⟨o', ho', he⟩ := List.mem_map.mp hid
    have := List.inj_on_of_nodup_map h.nodup (mem_all.mpr ⟨_, ho'⟩) (mem_all.mpr ⟨_, ho⟩) he
    exact hs (by rw [← h.side ho, ← this, h.side ho'])
  have hfind : (L.trade i qty).rest.find = m' := by
    refine h.trade.find_eq (fun id o ho => ?_) fun o => ⟨fun ho => ?_, fun ho => ?_⟩
    · by_cases hid : id ∈ (L.orders i.target).map OrderRecord.orderId
      · exact (honly id o ho hid).2
      · rw [hframe id hid] at ho
        exact (h.find_eq_some.mp ho).2
    · by_cases hid : o.orderId ∈ (L.orders i.target).map OrderRecord.orderId
      · refine mem_all.mpr ⟨i.target, ?_⟩
        rw [h.orders_trade]
        exact (honly _ o ho hid).1
      · rw [hframe _ hid] at ho
        obtain ⟨s, hs⟩ := mem_all.mp (h.find_eq_some.mp ho).1
        refine mem_all.mpr ⟨s, ?_⟩
        have hne : s ≠ i.target := by
          rintro rfl
          exact hid (List.mem_map.mpr ⟨o, hs, rfl⟩)
        rwa [orders_trade_of_ne hne]
    · obtain ⟨s, hs⟩ := mem_all.mp ho
      by_cases hne : s = i.target
      · subst hne
        rw [h.orders_trade] at hs
        exact hrest o hs
      · rw [orders_trade_of_ne hne] at hs
        rw [hframe _ (hother hne hs)]
        exact h.find_eq_some.mpr ⟨mem_all.mpr ⟨s, hs⟩, rfl⟩
  rw [hfind, h.fills_trade, h.leaves_trade]
  exact hchain

/-! ## No empty levels -/

/-- Every level of the ladder holds an order. -/
def Gapless (L : Ladder) : Prop := ∀ s, ∀ r ∈ L s, r.2 ≠ []

lemma gapless_empty : empty.Gapless := by simp [Gapless, empty]

lemma gapless_remove (L : Ladder) (id : OrderId) : (L.remove id).Gapless := by
  intro s r hr
  exact of_decide_eq_true (List.mem_filter.mp hr).2

lemma Gapless.modify (h : L.Gapless) (id : OrderId) (f : OrderRecord → OrderRecord) :
    (L.modify id f).Gapless := by
  intro s r hr
  obtain ⟨r₀, hr₀, rfl⟩ := List.mem_map.mp hr
  exact fun hnil => h s r₀ hr₀ (List.map_eq_nil_iff.mp hnil)

lemma Gapless.rest (h : L.Gapless) (o : OrderRecord) : (L.rest o).Gapless := by
  intro s r hr
  by_cases hs : s = o.side.bookSide
  · subst hs
    rw [Ladder.rest, Function.update_self] at hr
    rcases mem_insertBy_imp _ hr with rfl | hr
    · exact List.append_ne_nil_of_right_ne_nil _ (List.cons_ne_nil _ _)
    · exact h _ r hr
  · rw [Ladder.rest, Function.update_of_ne hs] at hr
    exact h s r hr

lemma Gapless.trade (h : L.Gapless) (i : Incoming) (qty : Qty) :
    (L.trade i qty).rest.Gapless := by
  intro s r hr
  by_cases hs : s = i.target
  · subst hs
    rw [trade_rest_target] at hr
    exact i.gapless_sweep (h i.target) qty r hr
  · rw [trade_rest_of_ne L i qty hs] at hr
    exact h s r hr

/-- There are no more levels than orders. -/
lemma Gapless.length_le (h : L.Gapless) (s : BookSide) : (L s).length ≤ (L.orders s).length := by
  have hfull := h s
  rw [orders]
  generalize L s = rungs at hfull ⊢
  induction rungs with
  | nil => exact Nat.le_refl 0
  | cons r rs ih =>
    have hr : 0 < r.2.length := List.length_pos_iff.mpr (hfull r (by simp))
    have hrs := ih fun r' hr' => hfull r' (by simp [hr'])
    rw [List.flatMap_cons, List.length_append, List.length_cons]
    omega

end Ladder

end MatchingEngine
