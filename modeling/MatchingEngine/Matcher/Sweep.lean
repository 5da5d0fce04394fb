import Mathlib.Algebra.GroupWithZero.Nat
import MatchingEngine.Matcher.Ladder

/-!
# The sweep on one queue of orders

A side of a ladder, read level by level, is one queue of orders.  On a well-formed side the
nested sweep is a single pass over that queue (`sweep_flatten`): `sweepOrders` visits the
orders in turn and fills against each one that is eligible, until nothing is left.  Everything
the rest of the development needs to know about matching is proved about this pass:

* what stays on the book is a thinned-out copy of what was there, with quantities reduced
  (`survives_of_mem`, `pairwise_rest`);
* if something is left of the incoming order, every order that could still have traded with it
  is gone (`not_eligible_of_leaves`);
* the fills act on the id index one after the other (`fillChain_sweepOrders`), which is what
  the two output streams report.
-/

namespace MatchingEngine

namespace Fill

/-- What a fill leaves of the resting order: nothing if it is exhausted. -/
def remainder (f : Fill) : Option OrderRecord :=
  if f.restQty = 0 then none else some { f.order with qty := f.restQty }

lemma toNat_qty (f : Fill) : f.qty.toNat = min f.leaves.toNat f.order.qty.toNat :=
  toNat_min _ _

lemma toNat_restQty (f : Fill) : f.restQty.toNat = f.order.qty.toNat - f.leaves.toNat :=
  toNat_sub_min_right _ _

lemma toNat_leaves_sub (f : Fill) :
    (f.leaves - f.qty).toNat = f.leaves.toNat - f.order.qty.toNat :=
  toNat_sub_min_left _ _

/-- A fill that does not exhaust the resting order exhausts the incoming one. -/
lemma leaves_sub_of_restQty_ne {f : Fill} (h : f.restQty ≠ 0) : f.leaves - f.qty = 0 := by
  rw [Ne, qty_eq_zero_iff, f.toNat_restQty] at h
  rw [qty_eq_zero_iff, f.toNat_leaves_sub]
  omega

end Fill

namespace Incoming

/-- The resting order may trade with the incoming one: it belongs to somebody else and its
price is within the limit. -/
def eligible (i : Incoming) (o : OrderRecord) : Bool :=
  o.clientId ≠ i.clientId ∧ ¬ i.blocked o.price

lemma eligible_iff {i : Incoming} {o : OrderRecord} :
    i.eligible o = true ↔ o.clientId ≠ i.clientId ∧ i.blocked o.price = false := by
  simp [eligible]

/-- Match against a queue of orders in one pass. -/
def sweepOrders (i : Incoming) : List OrderRecord → Qty → Sweep (List OrderRecord)
  | [], leaves => ⟨[], leaves, []⟩
  | o :: os, leaves =>
    if i.eligible o ∧ leaves > 0 then
      let f : Fill := ⟨o.price, o, leaves⟩
      let r := sweepOrders i os (leaves - f.qty)
      ⟨f.remainder.toList ++ r.rest, r.leaves, f :: r.fills⟩
    else
      let r := sweepOrders i os leaves
      ⟨o :: r.rest, r.leaves, r.fills⟩

variable {i : Incoming}

section Equations

variable {o : OrderRecord} {os : List OrderRecord} {leaves : Qty}

lemma sweepOrders_fill (h : i.eligible o ∧ leaves > 0) {f : Fill} (hf : f = ⟨o.price, o, leaves⟩) :
    i.sweepOrders (o :: os) leaves =
      ⟨f.remainder.toList ++ (i.sweepOrders os (leaves - f.qty)).rest,
        (i.sweepOrders os (leaves - f.qty)).leaves,
        f :: (i.sweepOrders os (leaves - f.qty)).fills⟩ := by
  rw [sweepOrders, if_pos h, hf]

lemma sweepOrders_pass (h : ¬ (i.eligible o ∧ leaves > 0)) :
    i.sweepOrders (o :: os) leaves =
      ⟨o :: (i.sweepOrders os leaves).rest, (i.sweepOrders os leaves).leaves,
        (i.sweepOrders os leaves).fills⟩ := by
  rw [sweepOrders, if_neg h]

end Equations

/-! ## One pass instead of two loops -/

lemma sweepOrders_append (xs ys : List OrderRecord) (leaves : Qty) :
    i.sweepOrders (xs ++ ys) leaves =
      ⟨(i.sweepOrders xs leaves).rest ++ (i.sweepOrders ys (i.sweepOrders xs leaves).leaves).rest,
        (i.sweepOrders ys (i.sweepOrders xs leaves).leaves).leaves,
        (i.sweepOrders xs leaves).fills ++
          (i.sweepOrders ys (i.sweepOrders xs leaves).leaves).fills⟩ := by
  induction xs generalizing leaves with
  | nil => rfl
  | cons o os ih =>
    simp only [List.cons_append, sweepOrders]
    split_ifs
    · simp [ih]
    · simp [ih]

/-- Orders that cannot trade are passed over. -/
lemma sweepOrders_skip {os : List OrderRecord} {leaves : Qty}
    (h : ∀ o ∈ os, ¬ (i.eligible o ∧ leaves > 0)) : i.sweepOrders os leaves = ⟨os, leaves, []⟩ := by
  induction os with
  | nil => rfl
  | cons o os ih =>
    rw [sweepOrders, if_neg (h o (by simp)), ih fun o' ho' => h o' (by simp [ho'])]

lemma sweepOrders_zero (os : List OrderRecord) : i.sweepOrders os 0 = ⟨os, 0, []⟩ :=
  sweepOrders_skip fun _ _ h => absurd h.2 (by decide)

/-- A sweep without fills has met nobody to trade with. -/
lemma not_eligible_of_fills {os : List OrderRecord} {leaves : Qty}
    (h : (i.sweepOrders os leaves).fills = []) : ∀ o ∈ os, ¬ (i.eligible o ∧ leaves > 0) := by
  induction os with
  | nil => simp
  | cons o os ih =>
    by_cases hcond : i.eligible o ∧ leaves > 0
    · rw [sweepOrders_fill hcond rfl] at h
      cases h
    · rw [sweepOrders_pass hcond] at h
      intro o' ho'
      rcases List.mem_cons.mp ho' with rfl | ho'
      · exact hcond
      · exact ih h o' ho'

/-- Fills are against orders of the queue. -/
lemma order_of_mem_fills {os : List OrderRecord} {leaves : Qty} {f : Fill}
    (hf : f ∈ (i.sweepOrders os leaves).fills) : f.order ∈ os := by
  induction os generalizing leaves with
  | nil => cases hf
  | cons o os ih =>
    by_cases hcond : i.eligible o ∧ leaves > 0
    · rw [sweepOrders_fill hcond rfl] at hf
      rcases List.mem_cons.mp hf with rfl | hf
      · exact List.mem_cons_self
      · exact List.mem_cons_of_mem _ (ih hf)
    · rw [sweepOrders_pass hcond] at hf
      exact List.mem_cons_of_mem _ (ih hf)

/-- The sweep sees of the incoming order only which orders it may trade with. -/
lemma sweepOrders_congr {i' : Incoming} {os : List OrderRecord}
    (h : ∀ o ∈ os, i.eligible o = i'.eligible o) (leaves : Qty) :
    i.sweepOrders os leaves = i'.sweepOrders os leaves := by
  induction os generalizing leaves with
  | nil => rfl
  | cons o os ih =>
    rw [sweepOrders, sweepOrders, h o (by simp)]
    simp only [ih fun o' ho' => h o' (by simp [ho'])]

/-- Within a level at an admissible price only ownership decides. -/
lemma sweepLevel_eq {price : Price} {os : List OrderRecord} (hprice : ∀ o ∈ os, o.price = price)
    (hblock : i.blocked price = false) (leaves : Qty) :
    i.sweepLevel price os leaves = i.sweepOrders os leaves := by
  induction os generalizing leaves with
  | nil => rfl
  | cons o os ih =>
    obtain rfl : o.price = price := hprice o (by simp)
    have hos : ∀ o' ∈ os, o'.price = o.price := fun o' ho' => hprice o' (by simp [ho'])
    have helig : i.eligible o ↔ o.clientId ≠ i.clientId := by
      rw [eligible_iff]
      simp [hblock]
    rw [sweepLevel, sweepOrders]
    by_cases hcond : o.clientId ≠ i.clientId ∧ leaves > 0
    · rw [if_pos hcond, if_pos ⟨helig.mpr hcond.1, hcond.2⟩]
      simp only [ih hos, Fill.remainder]
      split_ifs <;> rfl
    · rw [if_neg hcond, if_neg fun h => hcond ⟨helig.mp h.1, h.2⟩, ih hos]

/-- Beyond a level the limit excludes, it excludes every level. -/
lemma blocked_of_before {p q : Price} (hp : i.blocked p = true) (hpq : i.target.before p q) :
    i.blocked q = true := by
  rw [blocked] at hp ⊢
  cases hlim : i.limit with
  | none => simp [hlim] at hp
  | some l =>
    simp only [hlim, decide_eq_true_eq] at hp ⊢
    exact trans_of i.target.before hp hpq

/-- The sweep of a side is one pass over its orders. -/
lemma sweep_flatten {rungs : List Rung}
    (hsorted : rungs.Pairwise fun r r' => i.target.before r.1 r'.1)
    (hprice : ∀ r ∈ rungs, ∀ o ∈ r.2, o.price = r.1) (leaves : Qty) :
    (⟨(i.sweep rungs leaves).rest.flatMap Prod.snd, (i.sweep rungs leaves).leaves,
        (i.sweep rungs leaves).fills⟩ : Sweep (List OrderRecord)) =
      i.sweepOrders (rungs.flatMap Prod.snd) leaves := by
  induction rungs generalizing leaves with
  | nil => rfl
  | cons r rungs ih =>
    obtain ⟨price, os⟩ := r
    obtain ⟨hfirst, hrest⟩ := List.pairwise_cons.mp hsorted
    have hos : ∀ o ∈ os, o.price = price := hprice (price, os) (by simp)
    have hrungs : ∀ r ∈ rungs, ∀ o ∈ r.2, o.price = r.1 := fun r hr => hprice r (by simp [hr])
    rw [sweep]
    by_cases hcond : leaves > 0 ∧ ¬ i.blocked price
    · have hblock : i.blocked price = false := by simpa using hcond.2
      have := ih hrest hrungs (i.sweepLevel price os leaves).leaves
      rw [if_pos hcond, List.flatMap_cons, sweepOrders_append, ← sweepLevel_eq hos hblock, ← this]
      simp only [Sweep.mk.injEq, and_true]
      split_ifs with hnil
      · simp [hnil]
      · simp
    · -- everything from here on is blocked, unless nothing is left to trade
      rw [if_neg hcond, sweepOrders_skip]
      intro o ho helig
      obtain ⟨r, hr, hor⟩ := List.mem_flatMap.mp ho
      have hblock : i.blocked price = true := by
        by_contra hb
        exact hcond ⟨helig.2, hb⟩
      have hro : o.price = r.1 := hprice r hr o hor
      have : i.blocked o.price = true := by
        rcases List.mem_cons.mp hr with rfl | hr
        · rw [hro]; exact hblock
        · rw [hro]; exact blocked_of_before hblock (hfirst r hr)
      rw [eligible_iff, this] at helig
      exact absurd helig.1.2 (by simp)

/-! ## What stays -/

/-- `o` is what remains of `o₀` after some of it traded. -/
structure Survives (o₀ o : OrderRecord) : Prop where
  eq : o = { o₀ with qty := o.qty }
  pos : 0 < o₀.qty → 0 < o.qty
  le : o.qty ≤ o₀.qty

lemma Survives.refl (o : OrderRecord) : Survives o o := ⟨rfl, fun h => h, UInt64.le_refl _⟩

lemma Fill.survives {f : Fill} {o : OrderRecord} (h : f.remainder = some o) :
    Survives f.order o := by
  unfold Fill.remainder at h
  split_ifs at h with hzero
  obtain rfl := Option.some.inj h
  refine ⟨rfl, fun _ => ?_, ?_⟩
  · rw [qty_eq_zero_iff] at hzero
    rw [qty_pos_iff]
    exact Nat.pos_of_ne_zero hzero
  · rw [UInt64.le_iff_toNat_le, f.toNat_restQty]
    omega

/-- What stays is, in the same order, part of what was there with reduced quantities. -/
lemma rest_sublist (os : List OrderRecord) (leaves : Qty) :
    ∃ os', os'.Sublist os ∧ List.Forall₂ Survives os' (i.sweepOrders os leaves).rest := by
  induction os generalizing leaves with
  | nil => exact ⟨[], .slnil, .nil⟩
  | cons o os ih =>
    by_cases hcond : i.eligible o ∧ leaves > 0
    · rw [sweepOrders_fill hcond rfl]
      obtain ⟨os', hsub, hall⟩ := ih (leaves - (⟨o.price, o, leaves⟩ : Fill).qty)
      cases hrem : (⟨o.price, o, leaves⟩ : Fill).remainder with
      | none => exact ⟨os', hsub.cons o, by simpa [hrem] using hall⟩
      | some o' =>
        refine ⟨o :: os', hsub.cons_cons o, ?_⟩
        simp only [Option.toList_some, List.cons_append, List.nil_append]
        exact .cons (Fill.survives hrem) hall
    · rw [sweepOrders_pass hcond]
      obtain ⟨os', hsub, hall⟩ := ih leaves
      exact ⟨o :: os', hsub.cons_cons o, .cons (.refl o) hall⟩

/-- What is read off the orders without their quantities is thinned out by the sweep. -/
lemma keys_rest_sublist {β : Type} {key : OrderRecord → β}
    (hkey : ∀ o q, key { o with qty := q } = key o) (os : List OrderRecord) (leaves : Qty) :
    ((i.sweepOrders os leaves).rest.map key).Sublist (os.map key) := by
  obtain ⟨os', hsub, hall⟩ := rest_sublist (i := i) os leaves
  have hkeys : (i.sweepOrders os leaves).rest.map key = os'.map key := by
    generalize (i.sweepOrders os leaves).rest = rest at hall ⊢
    clear hsub
    induction hall with
    | nil => rfl
    | cons hs _ ih => rw [List.map_cons, List.map_cons, ih, hs.eq, hkey]
  rw [hkeys]
  exact hsub.map _

lemma ids_rest_sublist (os : List OrderRecord) (leaves : Qty) :
    ((i.sweepOrders os leaves).rest.map OrderRecord.orderId).Sublist
      (os.map OrderRecord.orderId) :=
  keys_rest_sublist (fun _ _ => rfl) os leaves

lemma exists_survives {os os' : List OrderRecord} (h : List.Forall₂ Survives os os')
    {o : OrderRecord} (ho : o ∈ os') : ∃ o₀ ∈ os, Survives o₀ o := by
  induction h with
  | nil => simp at ho
  | cons hs _ ih =>
    rcases List.mem_cons.mp ho with rfl | ho
    · exact ⟨_, by simp, hs⟩
    · obtain ⟨o₀, ho₀, hs⟩ := ih ho
      exact ⟨o₀, by simp [ho₀], hs⟩

lemma survives_of_mem {os : List OrderRecord} {leaves : Qty} {o : OrderRecord}
    (ho : o ∈ (i.sweepOrders os leaves).rest) : ∃ o₀ ∈ os, Survives o₀ o := by
  obtain ⟨os', hsub, hall⟩ := rest_sublist (i := i) os leaves
  obtain ⟨o₀, ho₀, hs⟩ := exists_survives hall ho
  exact ⟨o₀, hsub.subset ho₀, hs⟩

/-- A relation between orders that ignores quantities survives the sweep. -/
lemma pairwise_rest {R : OrderRecord → OrderRecord → Prop}
    (hR : ∀ a b q q', R a b → R { a with qty := q } { b with qty := q' })
    {os : List OrderRecord} (h : os.Pairwise R) (leaves : Qty) :
    (i.sweepOrders os leaves).rest.Pairwise R := by
  obtain ⟨os', hsub, hall⟩ := rest_sublist (i := i) os leaves
  have h' := h.sublist hsub
  clear hsub
  generalize (i.sweepOrders os leaves).rest = rest at hall ⊢
  induction hall with
  | nil => exact .nil
  | cons hs hall ih =>
    obtain ⟨hhead, htail⟩ := List.pairwise_cons.mp h'
    refine List.pairwise_cons.mpr ⟨fun b hb => ?_, ih htail⟩
    obtain ⟨b₀, hb₀, hsb⟩ := exists_survives hall hb
    rw [hs.eq, hsb.eq]
    exact hR _ _ _ _ (hhead b₀ hb₀)

/-! ## What is left of the incoming order -/

/-- The quantity an incoming order finds in a queue. -/
def available (i : Incoming) (os : List OrderRecord) : ℕ :=
  ((os.filter i.eligible).map fun o => o.qty.toNat).sum

/-- The sweep trades as much as is available. -/
lemma toNat_leaves (os : List OrderRecord) (leaves : Qty) :
    (i.sweepOrders os leaves).leaves.toNat = leaves.toNat - i.available os := by
  induction os generalizing leaves with
  | nil => rfl
  | cons o os ih =>
    by_cases hcond : i.eligible o ∧ leaves > 0
    · have hleaves := (⟨o.price, o, leaves⟩ : Fill).toNat_leaves_sub
      rw [sweepOrders_fill hcond rfl, ih, hleaves]
      simp only [available, List.filter_cons, hcond.1, if_true, List.map_cons, List.sum_cons]
      omega
    · rw [sweepOrders_pass hcond]
      by_cases helig : i.eligible o = true
      · have hzero : leaves.toNat = 0 := by
          by_contra hne
          exact hcond ⟨helig, (qty_pos_iff _).mpr (Nat.pos_of_ne_zero hne)⟩
        rw [ih, hzero, Nat.zero_sub, Nat.zero_sub]
      · rw [ih, available, available, List.filter_cons, if_neg helig]

lemma leaves_le (os : List OrderRecord) (leaves : Qty) :
    (i.sweepOrders os leaves).leaves ≤ leaves := by
  rw [UInt64.le_iff_toNat_le, toNat_leaves]
  exact Nat.sub_le _ _

/-- If something is left, no eligible order is. -/
lemma not_eligible_of_leaves {os : List OrderRecord} {leaves : Qty}
    (h : 0 < (i.sweepOrders os leaves).leaves) {o : OrderRecord}
    (ho : o ∈ (i.sweepOrders os leaves).rest) : i.eligible o = false := by
  induction os generalizing leaves with
  | nil => simp [sweepOrders] at ho
  | cons o' os ih =>
    by_cases hcond : i.eligible o' ∧ leaves > 0
    · rw [sweepOrders_fill hcond rfl] at h ho
      rcases List.mem_append.mp ho with hrem | ho
      · -- a remainder would have exhausted the incoming order
        have hne : (⟨o'.price, o', leaves⟩ : Fill).restQty ≠ 0 := by
          intro hzero
          simp [Fill.remainder, hzero] at hrem
        have hzero : leaves - _ = 0 := Fill.leaves_sub_of_restQty_ne hne
        rw [hzero, sweepOrders_zero] at h
        exact absurd h (UInt64.lt_irrefl 0)
      · exact ih h ho
    · rw [sweepOrders_pass hcond] at h ho
      rcases List.mem_cons.mp ho with rfl | ho
      · by_contra helig
        have hpos : 0 < leaves := UInt64.lt_of_lt_of_le h (leaves_le os leaves)
        exact hcond ⟨by simpa using helig, hpos⟩
      · exact ih h ho

/-! ## Two sweeps in a row -/

/-- What a fill with `leaves` to trade leaves of an order. -/
lemma remainder_eq {o : OrderRecord} {leaves : Qty} :
    (⟨o.price, o, leaves⟩ : Fill).remainder =
      if o.qty.toNat ≤ leaves.toNat then none else some { o with qty := o.qty - leaves } := by
  set f : Fill := ⟨o.price, o, leaves⟩ with hf
  have hrest : f.restQty.toNat = o.qty.toNat - leaves.toNat := f.toNat_restQty
  have hzero : f.restQty = 0 ↔ o.qty.toNat ≤ leaves.toNat := by
    rw [qty_eq_zero_iff, hrest]
    omega
  rw [Fill.remainder]
  by_cases hle : o.qty.toNat ≤ leaves.toNat
  · rw [if_pos (hzero.mpr hle), if_pos hle]
  · have hsub : f.restQty = o.qty - leaves := by
      rw [← UInt64.toNat_inj, hrest, UInt64.toNat_sub_of_le]
      rw [UInt64.le_iff_toNat_le]
      omega
    rw [if_neg (fun h => hle (hzero.mp h)), if_neg hle, hsub]

/-- What a fill leaves of the incoming order. -/
lemma toNat_sub_fill (o : OrderRecord) (leaves : Qty) :
    (leaves - (⟨o.price, o, leaves⟩ : Fill).qty).toNat = leaves.toNat - o.qty.toNat :=
  (⟨o.price, o, leaves⟩ : Fill).toNat_leaves_sub

/-- What a fill with `q₁` leaves of an order, filled with `q₂`, is what a fill with both leaves. -/
lemma remainder_split {o : OrderRecord} {q₁ q₂ : Qty} (hlt : q₁.toNat < o.qty.toNat)
    (hsum : (q₁ + q₂).toNat = q₁.toNat + q₂.toNat) :
    (⟨o.price, { o with qty := o.qty - q₁ }, q₂⟩ : Fill).remainder =
      (⟨o.price, o, q₁ + q₂⟩ : Fill).remainder := by
  have hsub : (o.qty - q₁).toNat = o.qty.toNat - q₁.toNat :=
    UInt64.toNat_sub_of_le _ _ (UInt64.le_iff_toNat_le.mpr (Nat.le_of_lt hlt))
  have hleft : (⟨o.price, { o with qty := o.qty - q₁ }, q₂⟩ : Fill).remainder =
      if (o.qty - q₁).toNat ≤ q₂.toNat then none
        else some { o with qty := o.qty - q₁ - q₂ } :=
    remainder_eq (o := { o with qty := o.qty - q₁ })
  rw [hleft, remainder_eq, hsub, hsum]
  by_cases hle : o.qty.toNat ≤ q₁.toNat + q₂.toNat
  · rw [if_pos (by omega), if_pos hle]
  · have htwice : (o.qty - q₁ - q₂).toNat = (o.qty - q₁).toNat - q₂.toNat := by
      refine UInt64.toNat_sub_of_le _ _ (UInt64.le_iff_toNat_le.mpr ?_)
      omega
    have honce : (o.qty - (q₁ + q₂)).toNat = o.qty.toNat - (q₁ + q₂).toNat := by
      refine UInt64.toNat_sub_of_le _ _ (UInt64.le_iff_toNat_le.mpr ?_)
      omega
    have hqty : o.qty - q₁ - q₂ = o.qty - (q₁ + q₂) := by
      rw [← UInt64.toNat_inj]
      omega
    rw [if_neg (by omega), if_neg hle, hqty]

/-- Sweeping a queue for `q₁` and then what stays of it for `q₂` leaves the same queue as one sweep
for both together. -/
lemma sweepOrders_split (os : List OrderRecord) {q₁ q₂ : Qty}
    (hq : q₁.toNat + q₂.toNat < 2 ^ 64) :
    (i.sweepOrders (i.sweepOrders os q₁).rest q₂).rest = (i.sweepOrders os (q₁ + q₂)).rest := by
  induction os generalizing q₁ q₂ with
  | nil => rfl
  | cons o os ih =>
    have hsum : (q₁ + q₂).toNat = q₁.toNat + q₂.toNat := by
      rw [UInt64.toNat_add, Nat.mod_eq_of_lt hq]
    by_cases helig : i.eligible o = true
    swap
    · have hpass : ∀ q : Qty, ¬ (i.eligible o = true ∧ q > 0) := fun q h => helig h.1
      rw [sweepOrders_pass (hpass q₁), sweepOrders_pass (hpass q₂), sweepOrders_pass (hpass _),
        ih hq]
    by_cases hzero : q₁ = 0
    · rw [hzero, sweepOrders_zero, UInt64.zero_add]
    have hpos₁ : q₁ > 0 := (qty_pos_iff_ne _).mpr hzero
    have hpos : q₁ + q₂ > 0 := by
      rw [gt_iff_lt, qty_pos_iff] at hpos₁ ⊢
      omega
    have hfill₁ := toNat_sub_fill o q₁
    have hfill := toNat_sub_fill o (q₁ + q₂)
    rw [sweepOrders_fill ⟨helig, hpos₁⟩ rfl, sweepOrders_fill ⟨helig, hpos⟩ rfl]
    by_cases hle : o.qty.toNat ≤ q₁.toNat
    · -- the first sweep takes all of the order
      have hrest : q₁ + q₂ - (⟨o.price, o, q₁ + q₂⟩ : Fill).qty =
          q₁ - (⟨o.price, o, q₁⟩ : Fill).qty + q₂ := by
        rw [← UInt64.toNat_inj, UInt64.toNat_add, hfill, hfill₁, hsum, Nat.mod_eq_of_lt (by omega)]
        omega
      rw [remainder_eq, if_pos hle, remainder_eq, if_pos (by omega), hrest]
      exact ih (by omega)
    · -- it takes a part and ends there; the second goes on with what is left of the order
      have hdone : q₁ - (⟨o.price, o, q₁⟩ : Fill).qty = 0 := by
        rw [qty_eq_zero_iff]
        omega
      rw [remainder_eq, if_neg hle, hdone, sweepOrders_zero, Option.toList_some,
        List.singleton_append, ← remainder_split (Nat.lt_of_not_le hle) hsum]
      have hsub : (o.qty - q₁).toNat = o.qty.toNat - q₁.toNat :=
        UInt64.toNat_sub_of_le _ _ (UInt64.le_iff_toNat_le.mpr (by omega))
      have hfill₂ : (q₂ - (⟨o.price, { o with qty := o.qty - q₁ }, q₂⟩ : Fill).qty).toNat =
          q₂.toNat - (o.qty - q₁).toNat := toNat_sub_fill { o with qty := o.qty - q₁ } q₂
      have hrest : q₁ + q₂ - (⟨o.price, o, q₁ + q₂⟩ : Fill).qty =
          q₂ - (⟨o.price, { o with qty := o.qty - q₁ }, q₂⟩ : Fill).qty := by
        rw [← UInt64.toNat_inj]
        omega
      rw [hrest]
      by_cases hzero₂ : q₂ = 0
      · subst hzero₂
        have hkeep : (⟨o.price, { o with qty := o.qty - q₁ }, 0⟩ : Fill).remainder =
            some { o with qty := o.qty - q₁ } := by
          refine (remainder_eq (o := { o with qty := o.qty - q₁ })).trans ?_
          rw [if_neg (by simp only [UInt64.toNat_zero]; omega), UInt64.sub_zero]
        have hzero' : (0 : Qty) - (⟨o.price, { o with qty := o.qty - q₁ }, 0⟩ : Fill).qty = 0 := by
          rw [qty_eq_zero_iff, hfill₂]
          exact Nat.zero_sub _
        rw [hkeep, hzero', sweepOrders_zero, sweepOrders_zero]
        rfl
      · have hcond : i.eligible { o with qty := o.qty - q₁ } = true ∧ q₂ > 0 :=
          ⟨helig, (qty_pos_iff_ne _).mpr hzero₂⟩
        change (i.sweepOrders ({ o with qty := o.qty - q₁ } :: os) q₂).rest = _
        rw [sweepOrders_fill hcond rfl]

end Incoming

/-! ## Fills on the id index -/

/-- The id index of a book: the resting order of each id. -/
abbrev Index := OrderId → Option OrderRecord

/-- A fill replaces the resting order by its remainder. -/
def Fill.apply (f : Fill) (m : Index) : Index := Function.update m f.order.orderId f.remainder

/-- `FillChain i m leaves fills m' leaves'`: the fills, made one after the other, take the
index from `m` to `m'` and the incoming order from `leaves` to `leaves'`.  Each is against the
order the index holds at that moment, for as much as both sides allow. -/
inductive FillChain (i : Incoming) : Index → Qty → List Fill → Index → Qty → Prop
  | nil (m : Index) (leaves : Qty) : FillChain i m leaves [] m leaves
  | cons {m m' : Index} {f : Fill} {fills : List Fill} {leaves' : Qty} (hpos : 0 < f.leaves)
      (hrests : m f.order.orderId = some f.order) (hside : f.order.side.bookSide = i.target)
      (hprice : f.price = f.order.price) (helig : i.eligible f.order = true)
      (htail : FillChain i (f.apply m) (f.leaves - f.qty) fills m' leaves') :
      FillChain i m f.leaves (f :: fills) m' leaves'

namespace Incoming

variable {i : Incoming}

/-- One pass over a queue whose orders the index holds is a chain of fills; the index
afterwards holds what stays of the queue, and is unchanged elsewhere. -/
lemma fillChain_sweepOrders {os : List OrderRecord}
    (hnodup : (os.map OrderRecord.orderId).Nodup)
    (hside : ∀ o ∈ os, o.side.bookSide = i.target) (leaves : Qty) {m : Index}
    (hm : ∀ o ∈ os, m o.orderId = some o) :
    ∃ m', FillChain i m leaves (i.sweepOrders os leaves).fills m'
        (i.sweepOrders os leaves).leaves ∧
      (∀ o ∈ (i.sweepOrders os leaves).rest, m' o.orderId = some o) ∧
      (∀ id o, m' id = some o → id ∈ os.map OrderRecord.orderId →
        o ∈ (i.sweepOrders os leaves).rest ∧ o.orderId = id) ∧
      ∀ id, id ∉ os.map OrderRecord.orderId → m' id = m id := by
  induction os generalizing leaves m with
  | nil => exact ⟨m, .nil m leaves, by simp [sweepOrders], by simp, fun _ _ => rfl⟩
  | cons o os ih =>
    obtain ⟨hnotin, hnodup'⟩ := List.nodup_cons.mp hnodup
    have hne : ∀ o' ∈ os, o'.orderId ≠ o.orderId := fun o' ho' he =>
      hnotin (List.mem_map.mpr ⟨o', ho', he⟩)
    have hside' : ∀ o' ∈ os, o'.side.bookSide = i.target := fun o' ho' => hside o' (by simp [ho'])
    by_cases hcond : i.eligible o ∧ leaves > 0
    · set f : Fill := ⟨o.price, o, leaves⟩ with hf
      rw [sweepOrders_fill hcond hf]
      have hm₁ : ∀ o' ∈ os, f.apply m o'.orderId = some o' := fun o' ho' => by
        rw [Fill.apply, Function.update_of_ne (hne o' ho')]
        exact hm o' (by simp [ho'])
      obtain ⟨m', hchain, hrest, honly, hframe⟩ := ih hnodup' hside' (leaves - f.qty) hm₁
      have hself : m' o.orderId = f.remainder :=
        (hframe _ hnotin).trans (Function.update_self ..)
      refine ⟨m', .cons hcond.2 (hm o (by simp)) (hside o (by simp)) rfl hcond.1 hchain, ?_, ?_, ?_⟩
      · intro o' ho'
        rcases List.mem_append.mp ho' with hrem | ho'
        · have hrem' : f.remainder = some o' := by simpa using hrem
          have hid : o'.orderId = o.orderId := by rw [(Fill.survives hrem').eq]
          rw [hid, hself, hrem']
        · exact hrest o' ho'
      · intro id o' hid hmem
        rcases List.mem_cons.mp hmem with rfl | hmem
        · rw [hself] at hid
          exact ⟨by simp [hid], by rw [(Fill.survives hid).eq]⟩
        · exact ⟨List.mem_append_right _ (honly id o' hid hmem).1, (honly id o' hid hmem).2⟩
      · intro id hid
        rw [List.map_cons, List.mem_cons, not_or] at hid
        rw [hframe id hid.2, Fill.apply, Function.update_of_ne hid.1]
    · rw [sweepOrders_pass hcond]
      obtain ⟨m', hchain, hrest, honly, hframe⟩ :=
        ih hnodup' hside' leaves fun o' ho' => hm o' (by simp [ho'])
      have hself : m' o.orderId = some o := (hframe _ hnotin).trans (hm o (by simp))
      refine ⟨m', hchain, ?_, ?_, ?_⟩
      · intro o' ho'
        rcases List.mem_cons.mp ho' with rfl | ho'
        · exact hself
        · exact hrest o' ho'
      · intro id o' hid hmem
        rcases List.mem_cons.mp hmem with rfl | hmem
        · rw [hself] at hid
          simp [Option.some.inj hid]
        · exact ⟨List.mem_cons_of_mem _ (honly id o' hid hmem).1, (honly id o' hid hmem).2⟩
      · intro id hid
        rw [List.map_cons, List.mem_cons, not_or] at hid
        exact hframe id hid.2

end Incoming

end MatchingEngine
