import Mathlib.Data.List.Perm.Subperm
import MatchingEngine.Matcher.View

/-!
# The matching loops refine the sweep

`matchIncoming` on a represented book computes `Ladder.trade` on its view
(`Rep.matchIncoming`).  The work is in its two nested loops.  Their invariants are stated on
shapes.  The inner loop stands in a level whose nodes are `done ++ rest`, with `rest` still to
visit (`Rep.matchLevel`); nodes may have left `done`, and when none is left on either part
the level is gone from the map, which `keep` expresses.  The outer loop stands in a side
`pre ++ todo` (`Rep.matchLevels`), and the argument that `upper_bound` finds the head of
`todo` again is that all of `pre` and the level just left are not after that level's price.

Along the way the loops record where each fill happened: `Fills` is the chain of `fillNode`
calls a run of the loops makes, each with the book just before it.
-/

namespace MatchingEngine

open OrderedMaps LinkedLists

/-! ## The chain of fills -/

/-- One fill of the matching loop: the book just before it, the level's price, the resting
node, and what the incoming order had left. -/
structure FillSite where
  book : SymbolOrderBook
  price : Price
  node : ℕ
  leaves : Qty

/-- What the ladder records of a fill. -/
def FillSite.toFill (f : FillSite) : Fill := ⟨f.price, f.book.record f.node, f.leaves⟩

/-- `Fills i b leaves fs b' leaves'`: from `b` with `leaves` to trade, the fills `fs` happen
one after the other and lead to `b'` with `leaves'` to trade.  Each is against a node that
rests on the target side at that moment, at that node's own price, and belongs to somebody
else. -/
inductive Fills (i : Incoming) :
    SymbolOrderBook → Qty → List FillSite → SymbolOrderBook → Qty → Prop
  | nil (b : SymbolOrderBook) (leaves : Qty) : Fills i b leaves [] b leaves
  | cons {b b₁ b₂ : SymbolOrderBook} {leaves leaves₁ leaves₂ : Qty} {price : Price} {node : ℕ}
      {fs : List FillSite} (hpos : 0 < leaves) (hrests : node ∈ b.nodesOf i.target)
      (hprice : (b.record node).price = price) (hblock : i.blocked price = false)
      (hclient : (b.record node).clientId ≠ i.clientId)
      (hstep : b.fillNode i.clientId i.orderId i.side price node leaves = .ok (b₁, leaves₁))
      (htail : Fills i b₁ leaves₁ fs b₂ leaves₂) :
      Fills i b leaves (⟨b, price, node, leaves⟩ :: fs) b₂ leaves₂

lemma Fills.append {i : Incoming} {b b₁ b₂ : SymbolOrderBook} {l l₁ l₂ : Qty}
    {fs gs : List FillSite} (h : Fills i b l fs b₁ l₁) (h' : Fills i b₁ l₁ gs b₂ l₂) :
    Fills i b l (fs ++ gs) b₂ l₂ := by
  induction h with
  | nil => exact h'
  | cons hpos hrests hprice hblock hclient hstep _ ih =>
    exact .cons hpos hrests hprice hblock hclient hstep (ih h')

/-! ## One fill -/

namespace Rep

variable {b : SymbolOrderBook} {S : Shape}

lemma executeFill (h : Rep b S) (clientId : ClientId) (orderId : OrderId) (side : Side)
    (price : Price) (p : ℕ) (fillQty leaves : Qty) :
    Rep (b.executeFill clientId orderId side price p fillQty leaves) S ∧
      ∀ q, (b.executeFill clientId orderId side price p fillQty leaves).record q =
        if q = p then { b.record q with qty := (b.record p).qty - fillQty } else b.record q := by
  set f : BookOrder → BookOrder := fun x => { x with qty := (b.order p).qty - fillQty } with hf
  refine ⟨(((h.updateOrder p (f := f) fun o => ⟨rfl, rfl, rfl, rfl, rfl⟩).withSent _).withSent
    _).withSent _, fun q => ?_⟩
  change (b.updateOrder p f).record q = _
  rw [record_updateOrder]
  rfl

/-- `fillNode` trades against the node, drops it if it is exhausted, and writes the messages of
the fill. -/
lemma fillNode (h : Rep b S) {p : ℕ} (hp : S.Mem p) {i : Incoming} (hsym : b.symbol = i.symbol)
    {price : Price} {leaves : Qty} {f : Fill} (hf : f = ⟨price, b.record p, leaves⟩) :
    ∃ b', b.fillNode i.clientId i.orderId i.side price p leaves = .ok (b', leaves - f.qty) ∧
      Rep b' (if f.restQty = 0 then S.erase p else S) ∧
      b'.record p = { b.record p with qty := f.restQty } ∧
      (∀ q, q ≠ p → b'.record q = b.record q) ∧ b'.sent = b.sent ++ i.fillMsgs f ∧
      b'.symbol = b.symbol ∧ b'.orderPool.size = b.orderPool.size := by
  have hqty : f.qty = min leaves (b.record p).qty := by rw [hf]; rfl
  have hrest : f.restQty = (b.record p).qty - f.qty := by rw [hf]; rfl
  set b₁ := b.executeFill i.clientId i.orderId i.side price p f.qty (leaves - f.qty) with hb₁
  obtain ⟨hrep₁, hrec₁⟩ := h.executeFill i.clientId i.orderId i.side price p f.qty
    (leaves - f.qty)
  have hfill : b.fillNode i.clientId i.orderId i.side price p leaves =
      if f.restQty = 0 then
        (b₁.removeOrder p).bind fun b' =>
          .ok (b'.sendBookUpdate .cancel (b.record p).orderId (b.record p).side price 0,
            leaves - f.qty)
      else .ok (b₁.sendBookUpdate .modify (b.record p).orderId (b.record p).side price f.restQty,
        leaves - f.qty) := by
    rw [hb₁, hrest, hqty]
    rfl
  have hmsgs : ∀ u : BookUpdate,
      u = (if f.restQty = 0 then
          ⟨.cancel, (b.record p).orderId, b.symbol, (b.record p).side, price, 0⟩
        else ⟨.modify, (b.record p).orderId, b.symbol, (b.record p).side, price, f.restQty⟩) →
      b₁.sent ++ [.update u] = b.sent ++ i.fillMsgs f := by
    intro u hu
    have hsent₁ : b₁.sent =
        ((b.sent ++ [.response ⟨.filled, i.clientId, b.symbol, i.orderId, i.orderId, i.side,
            price, f.qty, leaves - f.qty⟩]) ++
          [.response ⟨.filled, (b.record p).clientId, b.symbol, (b.record p).orderId,
            (b.record p).orderId, (b.record p).side, price, f.qty, f.restQty⟩]) ++
          [.update ⟨.trade, (b.record p).orderId, b.symbol, (b.record p).side, price, f.qty⟩] := by
      rw [hrest]
      rfl
    have horder : f.order = b.record p := by rw [hf]
    have hprice : f.price = price := by rw [hf]
    have hleaves : f.leaves = leaves := by rw [hf]
    rw [hsent₁, hu, hsym, Incoming.fillMsgs, horder, hprice, hleaves]
    simp only [List.append_assoc, List.cons_append, List.nil_append]
  rw [hfill]
  by_cases hzero : f.restQty = 0
  · obtain ⟨b₂, hrem, hrep₂, hrec₂, hsent₂, hsymb₂, hsize₂⟩ := hrep₁.removeOrder hp
    refine ⟨b₂.sendBookUpdate .cancel (b.record p).orderId (b.record p).side price 0,
      by rw [if_pos hzero, hrem]; rfl, ?_, ?_, fun q hq => ?_, ?_, hsymb₂, hsize₂⟩
    · rw [if_pos hzero]
      exact hrep₂.withSent _
    · exact (hrec₂ p).trans ((hrec₁ p).trans (by rw [if_pos rfl, hrest]))
    · exact (hrec₂ q).trans ((hrec₁ q).trans (if_neg hq))
    · rw [← hmsgs _ (if_pos hzero).symm, ← hsent₂]
      change b₂.sent ++ [.update ⟨_, _, b₂.symbol, _, _, _⟩] = _
      rw [hsymb₂]
      rfl
  · refine ⟨b₁.sendBookUpdate .modify (b.record p).orderId (b.record p).side price f.restQty,
      by rw [if_neg hzero], ?_, ?_, fun q hq => ?_, ?_, rfl, rfl⟩
    · rw [if_neg hzero]
      exact hrep₁.withSent _
    · exact (hrec₁ p).trans (by rw [if_pos rfl, hrest])
    · exact (hrec₁ q).trans (if_neg hq)
    · rw [← hmsgs _ (if_neg hzero).symm]
      rfl

/-! ## The inner loop -/

/-- A level that disappears when it has no node. -/
def keep (l : LevelShape) : List LevelShape := if l.nodes = [] then [] else [l]

/-- The rung a level shows in the view. -/
def rungOf (b : SymbolOrderBook) (l : LevelShape) : Rung := (l.price, l.nodes.map b.record)

lemma view_eq (s : BookSide) : view b S s = (S s).map (rungOf b) := rfl

/-- A node of one level of a side is in no other level of that side. -/
lemma notMem_of_split (h : Rep b S) {c : BookSide} {pre post : List LevelShape} {l : LevelShape}
    (hsplit : S c = pre ++ l :: post) {p : ℕ} (hp : p ∈ l.nodes) :
    (∀ l' ∈ pre, p ∉ l'.nodes) ∧ ∀ l' ∈ post, p ∉ l'.nodes := by
  have hsorted := h.sorted c
  rw [hsplit, List.pairwise_append, List.pairwise_cons] at hsorted
  obtain ⟨-, ⟨hpost, -⟩, hpre⟩ := hsorted
  have hl : l ∈ S c := by simp [hsplit]
  constructor
  · intro l' hl' hp'
    have hmem : l' ∈ S c := by simp [hsplit, hl']
    obtain ⟨-, rfl⟩ := h.location hl hp hmem hp'
    exact irrefl_of c.before l.price (hpre l hl' l (by simp))
  · intro l' hl' hp'
    have hmem : l' ∈ S c := by simp [hsplit, hl']
    obtain ⟨-, rfl⟩ := h.location hl hp hmem hp'
    exact irrefl_of c.before l.price (hpost l hl')

/-- Taking a node out of one level of a side leaves the rest of the shape alone. -/
lemma erase_split (h : Rep b S) {c : BookSide} {pre post : List LevelShape} {l : LevelShape}
    (hsplit : S c = pre ++ l :: post) {p : ℕ} (xs ys : List ℕ) (hnodes : l.nodes = xs ++ p :: ys) :
    S.erase p c = pre ++ keep { l with nodes := xs ++ ys } ++ post ∧
      ∀ s, s ≠ c → S.erase p s = S s := by
  have hp : p ∈ l.nodes := by simp [hnodes]
  have hl : l ∈ S c := by simp [hsplit]
  have hkeep : ∀ (s : BookSide) (ls : List LevelShape), (∀ l' ∈ ls, l' ∈ S s) →
      (∀ l' ∈ ls, p ∉ l'.nodes) →
      (ls.map fun l' => l'.erase p).filter (fun l' => decide (l'.nodes ≠ [])) = ls := by
    intro s ls hmem hnot
    have hid : ls.map (fun l' => l'.erase p) = ls := by
      conv_rhs => rw [← List.map_id ls]
      exact List.map_congr_left fun l' hl' => LevelShape.erase_of_notMem (hnot l' hl')
    rw [hid, List.filter_eq_self]
    intro l' hl'
    simpa using (h.level s l' (hmem l' hl')).nonempty
  obtain ⟨hpre, hpost⟩ := h.notMem_of_split hsplit hp
  constructor
  · have herase : l.erase p = { l with nodes := xs ++ ys } := by
      have := LevelShape.nodes_erase_mid hnodes (h.level c l hl).list.nodup
      rw [← this]
      rfl
    rw [Shape.erase, hsplit, List.map_append, List.filter_append, List.map_cons,
      List.filter_cons, hkeep c pre (fun l' hl' => by simp [hsplit, hl']) hpre,
      hkeep c post (fun l' hl' => by simp [hsplit, hl']) hpost, herase, List.append_assoc, keep]
    by_cases hnil : xs ++ ys = []
    · simp [hnil]
    · simp only [ne_eq, hnil, not_false_eq_true, decide_true, if_true, if_false]
      rfl
  · intro s hs
    refine hkeep s (S s) (fun _ h => h) fun l' hl' hp' => hs ?_
    exact ((h.location hl hp hl' hp').1).symm

/-- What a stretch of the matching loop has done to the book: it made the ladder's fills, wrote
their messages, and changed only the orders at `touched`. -/
structure Progress (i : Incoming) (b : SymbolOrderBook) (leaves : Qty) (fills : List Fill)
    (touched : ℕ → Prop) (b' : SymbolOrderBook) (leaves' : Qty) : Prop where
  record : ∀ q, ¬ touched q → b'.record q = b.record q
  sent : b'.sent = b.sent ++ i.msgs fills
  symbol : b'.symbol = b.symbol
  size : b'.orderPool.size = b.orderPool.size
  sites : ∃ fs, Fills i b leaves fs b' leaves' ∧ fs.map FillSite.toFill = fills

lemma Progress.refl (i : Incoming) (b : SymbolOrderBook) (leaves : Qty) (touched : ℕ → Prop) :
    Progress i b leaves [] touched b leaves :=
  ⟨fun _ _ => rfl, by simp, rfl, rfl, [], .nil b leaves, rfl⟩

lemma Progress.trans {i : Incoming} {b₁ b₂ : SymbolOrderBook} {l l₁ l₂ : Qty}
    {fills fills' : List Fill} {t t' u : ℕ → Prop} (h : Progress i b l fills t b₁ l₁)
    (h' : Progress i b₁ l₁ fills' t' b₂ l₂) (ht : ∀ q, t q → u q) (ht' : ∀ q, t' q → u q) :
    Progress i b l (fills ++ fills') u b₂ l₂ := by
  obtain ⟨fs, hfs, hmap⟩ := h.sites
  obtain ⟨gs, hgs, hmap'⟩ := h'.sites
  exact ⟨fun q hq => (h'.record q fun hh => hq (ht' q hh)).trans
      (h.record q fun hh => hq (ht q hh)),
    by rw [h'.sent, h.sent, List.append_assoc, i.msgs_append], h'.symbol.trans h.symbol,
    h'.size.trans h.size, fs ++ gs, hfs.append hgs, by rw [List.map_append, hmap, hmap']⟩

/-- The inner loop, standing between the nodes `done` it has passed and the nodes `rest` it
has yet to visit, does `sweepLevel` on the latter. -/
lemma matchLevel {i : Incoming} {price : Price} (hblock : i.blocked price = false) (ptr : ℕ)
    (pre post : List LevelShape) (rest : List ℕ) :
    ∀ (done : List ℕ) (leaves : Qty) {b : SymbolOrderBook} {S : Shape} {fuel : ℕ}, Rep b S →
      b.symbol = i.symbol → S i.target = pre ++ keep ⟨price, ptr, done ++ rest⟩ ++ post →
      rest.length ≤ fuel →
      ∃ b' S' kept,
        SymbolOrderBook.matchLevel i.clientId i.orderId i.side price fuel rest.head? b leaves =
          .ok (b', (i.sweepLevel price (rest.map b.record) leaves).leaves) ∧
        Rep b' S' ∧ S' i.target = pre ++ keep ⟨price, ptr, done ++ kept⟩ ++ post ∧
        (∀ s, s ≠ i.target → S' s = S s) ∧ (∀ q ∈ kept, q ∈ rest) ∧
        kept.map b'.record = (i.sweepLevel price (rest.map b.record) leaves).rest ∧
        Progress i b leaves (i.sweepLevel price (rest.map b.record) leaves).fills (· ∈ rest) b'
          (i.sweepLevel price (rest.map b.record) leaves).leaves := by
  induction rest with
  | nil =>
    intro done leaves b S fuel h hsym hS _
    refine ⟨b, S, [], ?_, h, hS, fun _ _ => rfl, by simp, rfl, Progress.refl i b leaves _⟩
    cases fuel <;> rfl
  | cons p ps ih =>
    intro done leaves b S fuel h hsym hS hfuel
    obtain ⟨fuel, rfl⟩ : ∃ n, fuel = n + 1 := ⟨fuel - 1, by simp at hfuel; omega⟩
    have hfuel' : ps.length ≤ fuel := by simpa using hfuel
    set l : LevelShape := ⟨price, ptr, done ++ p :: ps⟩ with hl
    have hkeep : keep l = [l] := by simp [keep, hl]
    have hsplit : S i.target = pre ++ l :: post := by simpa [hkeep] using hS
    have hmem : l ∈ S i.target := by simp [hsplit]
    have hrep := h.level _ l hmem
    have hp : S.Mem p := ⟨i.target, l, hmem, by simp [hl]⟩
    have hpps : p ∉ ps := (List.nodup_cons.mp (List.nodup_append.mp hrep.list.nodup).2.1).1
    -- the successor, read before anything is written
    have hnext : (b.order p).next = ps.head? := hrep.list.links_mid.2
    have hprice : (b.record p).price = price := (h.node _ l hmem p (by simp [hl])).2
    -- the level as the loop sees it once `p` is behind it and has stayed
    have hpassed : S i.target = pre ++ keep ⟨price, ptr, (done ++ [p]) ++ ps⟩ ++ post := by
      rw [List.append_assoc done]
      exact hS
    rw [List.head?_cons, SymbolOrderBook.matchLevel, List.map_cons, Incoming.sweepLevel]
    by_cases hcond : (b.record p).clientId ≠ i.clientId ∧ leaves > 0
    · -- a fill
      have hcond' : (b.order p).clientId ≠ i.clientId ∧ leaves > 0 := hcond
      set f : Fill := ⟨price, b.record p, leaves⟩ with hf
      obtain ⟨b₁, hfill, hrep₁, hrecp, hrec, hsent, hsymb, hsize⟩ := h.fillNode hp hsym hf
      have hprog : Progress i b leaves [f] (· = p) b₁ (leaves - f.qty) :=
        ⟨hrec, by simpa [Incoming.msgs] using hsent, hsymb, hsize, _,
          .cons hcond.2 (h.mem_nodesOf.mpr ⟨l, hmem, by simp [hl]⟩) hprice hblock hcond.1 hfill
            (.nil _ _), rfl⟩
      have hmap : ps.map b₁.record = ps.map b.record :=
        List.map_congr_left fun q hq => hrec q fun he => hpps (he ▸ hq)
      rw [if_pos hcond', if_pos hcond, hfill, hnext]
      simp only [bind, Except.bind]
      by_cases hzero : f.restQty = 0
      · -- the node is exhausted and leaves the level
        rw [if_pos hzero] at hrep₁ ⊢
        obtain ⟨herase, hother⟩ := h.erase_split hsplit done ps rfl
        obtain ⟨b₂, S₂, kept, hrun, hrep₂, hS₂, hside, hsub, hkept, hprog₂⟩ :=
          ih done (leaves - f.qty) hrep₁ (hsymb.trans hsym) herase hfuel'
        rw [hmap] at hrun hkept hprog₂
        refine ⟨b₂, S₂, kept, hrun, hrep₂, hS₂, fun s hs => (hside s hs).trans (hother s hs),
          fun q hq => by simp [hsub q hq], hkept, ?_⟩
        exact hprog.trans hprog₂ (fun q hq => by simp [hq]) (fun q hq => by simp [hq])
      · -- a partial fill: the node stays
        rw [if_neg hzero] at hrep₁ ⊢
        obtain ⟨b₂, S₂, kept, hrun, hrep₂, hS₂, hside, hsub, hkept, hprog₂⟩ :=
          ih (done ++ [p]) (leaves - f.qty) hrep₁ (hsymb.trans hsym) hpassed hfuel'
        rw [hmap] at hrun hkept hprog₂
        refine ⟨b₂, S₂, p :: kept, hrun, hrep₂, by simpa using hS₂, hside,
          List.cons_subset_cons p hsub, ?_, ?_⟩
        · rw [List.map_cons, hkept, hprog₂.record p hpps, hrecp]
        · exact hprog.trans hprog₂ (fun q hq => by simp [hq]) (fun q hq => by simp [hq])
    · -- own order, or nothing left to trade
      have hcond' : ¬ ((b.order p).clientId ≠ i.clientId ∧ leaves > 0) := hcond
      obtain ⟨b₂, S₂, kept, hrun, hrep₂, hS₂, hside, hsub, hkept, hprog₂⟩ :=
        ih (done ++ [p]) leaves h hsym hpassed hfuel'
      rw [if_neg hcond', if_neg hcond, hnext]
      refine ⟨b₂, S₂, p :: kept, hrun, hrep₂, by simpa using hS₂, hside,
        List.cons_subset_cons p hsub, ?_, ?_⟩
      · rw [List.map_cons, hkept, hprog₂.record p hpps]
      · exact (Progress.refl i b leaves (fun _ => False)).trans hprog₂ (fun _ h => h.elim)
          (fun q hq => by simp [hq])

/-! ## The outer loop -/

/-- The flag and the price the loop is called with say the same as the limit. -/
lemma blocked_iff {i : Incoming} {limitPrice : Price} {hasLimitPrice : Bool}
    (hlim : i.limit = if hasLimitPrice then some limitPrice else none) (price : Price) :
    i.blocked price = true ↔
      hasLimitPrice = true ∧ i.side.bookSide.contra.before limitPrice price := by
  rw [Incoming.blocked, hlim]
  cases hasLimitPrice
  · simp
  · simp only [if_true, true_and, decide_eq_true_eq]
    rfl

/-- A level has no more nodes than the pool has blocks. -/
lemma length_nodes_le (h : Rep b S) {s : BookSide} {l : LevelShape} (hl : l ∈ S s) :
    l.nodes.length ≤ b.orderPool.size := by
  have hsub : l.nodes ⊆ List.range b.orderPool.size := fun p hp =>
    List.mem_range.mpr ((h.orderInUse p).mpr ⟨s, l, hl, hp⟩).1
  simpa using (List.subperm_of_subset (h.level s l hl).list.nodup hsub).length_le

/-- After the level at `l.price` has been worked through, `upper_bound` finds the next one. -/
lemma upperBound_after (h : Rep b S) {S₁ : Shape} {b₁ : SymbolOrderBook} (h₁ : Rep b₁ S₁)
    {c : BookSide} {pre post : List LevelShape} {l : LevelShape} {kept : List ℕ}
    (hS : S c = pre ++ l :: post) (hS₁ : S₁ c = pre ++ keep { l with nodes := kept } ++ post) :
    (b₁.levels c).upperBound l.price = post.head?.map fun l => (l.price, l.ptr) := by
  have hsorted := h.sorted c
  rw [hS, List.pairwise_append, List.pairwise_cons] at hsorted
  obtain ⟨-, ⟨hpost, -⟩, hpre⟩ := hsorted
  have hentries := h₁.entries c
  rw [hS₁, List.map_append] at hentries
  rw [OrderedMap.upperBound_eq_head? hentries, List.head?_map]
  · intro e he
    obtain ⟨l', hl', rfl⟩ := List.mem_map.mp he
    rcases List.mem_append.mp hl' with hl' | hl'
    · exact asymm_of c.before (hpre l' hl' l (by simp))
    · have : l'.price = l.price := by
        rw [keep] at hl'
        split_ifs at hl'
        · simp at hl'
        · rw [List.mem_singleton.mp hl']
      rw [this]
      exact irrefl_of c.before l.price
  · intro e he
    obtain ⟨l', hl', rfl⟩ := List.mem_map.mp he
    exact hpost l' hl'

/-- The outer loop, standing before the levels `todo`, does `sweep` on them. -/
lemma matchLevels {i : Incoming} {limitPrice : Price} {hasLimitPrice : Bool}
    (hlim : i.limit = if hasLimitPrice then some limitPrice else none) (todo : List LevelShape) :
    ∀ (pre : List LevelShape) (leaves : Qty) {b : SymbolOrderBook} {S : Shape} {fuel : ℕ},
      Rep b S → b.symbol = i.symbol → S i.target = pre ++ todo → todo.length < fuel →
      ∃ b' S' kept,
        SymbolOrderBook.matchLevels i.clientId i.orderId i.side limitPrice hasLimitPrice fuel
            (todo.head?.map fun l => (l.price, l.ptr)) b leaves =
          .ok (b', (i.sweep (todo.map (rungOf b)) leaves).leaves) ∧
        Rep b' S' ∧ S' i.target = pre ++ kept ∧ (∀ s, s ≠ i.target → S' s = S s) ∧
        kept.map (rungOf b') = (i.sweep (todo.map (rungOf b)) leaves).rest ∧
        Progress i b leaves (i.sweep (todo.map (rungOf b)) leaves).fills
          (fun q => ∃ l ∈ todo, q ∈ l.nodes) b' (i.sweep (todo.map (rungOf b)) leaves).leaves := by
  induction todo with
  | nil =>
    intro pre leaves b S fuel h hsym hS hfuel
    obtain ⟨fuel, rfl⟩ : ∃ n, fuel = n + 1 := ⟨fuel - 1, by simp at hfuel; omega⟩
    refine ⟨b, S, [], ?_, h, hS, fun _ _ => rfl, rfl, Progress.refl i b leaves _⟩
    simp only [SymbolOrderBook.matchLevels]
    split_ifs <;> rfl
  | cons l ls ih =>
    intro pre leaves b S fuel h hsym hS hfuel
    obtain ⟨fuel, rfl⟩ : ∃ n, fuel = n + 1 := ⟨fuel - 1, by simp at hfuel; omega⟩
    have hfuel' : ls.length < fuel := by simpa using hfuel
    have hmem : l ∈ S i.target := by simp [hS]
    simp only [List.head?_cons, Option.map_some, List.map_cons, SymbolOrderBook.matchLevels]
    rw [rungOf, Incoming.sweep]
    by_cases hpos : leaves > 0
    swap
    · rw [if_neg hpos, if_neg fun hh => hpos hh.1]
      exact ⟨b, S, l :: ls, rfl, h, hS, fun _ _ => rfl, rfl, Progress.refl i b leaves _⟩
    rw [if_pos hpos]
    by_cases hblock : i.blocked l.price = true
    · -- the limit excludes this level, and the loop stops
      rw [if_pos ((blocked_iff hlim l.price).mp hblock), if_neg fun hh => hh.2 hblock]
      exact ⟨b, S, l :: ls, rfl, h, hS, fun _ _ => rfl, rfl, Progress.refl i b leaves _⟩
    rw [if_neg fun hh => hblock ((blocked_iff hlim l.price).mpr hh), if_pos ⟨hpos, hblock⟩]
    -- the level itself
    have hkeep : keep l = [l] := by simp [keep, (h.level _ l hmem).nonempty]
    obtain ⟨b₁, S₁, kept₁, hrun₁, hrep₁, hS₁, hside₁, hsub₁, hkept₁, hprog₁⟩ :=
      matchLevel (by simpa using hblock) l.ptr pre ls l.nodes [] leaves h hsym
        (by simpa [hkeep] using hS) (h.length_nodes_le hmem)
    rw [(h.level _ l hmem).list.head_eq, hrun₁]
    simp only [bind, Except.bind, List.nil_append] at hS₁ ⊢
    -- the levels after it
    have hafter : ∀ l' ∈ ls, ∀ q ∈ l.nodes, q ∉ l'.nodes := fun l' hl' q hq =>
      (h.notMem_of_split hS hq).2 l' hl'
    have hls : ls.map (rungOf b₁) = ls.map (rungOf b) := by
      refine List.map_congr_left fun l' hl' => ?_
      rw [rungOf, rungOf, Prod.mk.injEq]
      exact ⟨rfl, List.map_congr_left fun q hq =>
        hprog₁.record q fun hq' => hafter l' hl' q hq' hq⟩
    obtain ⟨b₂, S₂, kept₂, hrun₂, hrep₂, hS₂, hside₂, hkept₂, hprog₂⟩ :=
      ih (pre ++ keep { l with nodes := kept₁ })
        (i.sweepLevel l.price (l.nodes.map b.record) leaves).leaves hrep₁
        (hprog₁.symbol.trans hsym) hS₁ hfuel'
    rw [hls] at hrun₂ hkept₂ hprog₂
    have hup := h.upperBound_after hrep₁ hS hS₁
    refine ⟨b₂, S₂, keep { l with nodes := kept₁ } ++ kept₂, ?_, hrep₂, ?_,
      fun s hs => (hside₂ s hs).trans (hside₁ s hs), ?_, ?_⟩
    · rw [← hrun₂, ← hup]
      rfl
    · rw [hS₂, List.append_assoc]
    · have hrec : kept₁.map b₂.record =
          (i.sweepLevel l.price (l.nodes.map b.record) leaves).rest := by
        rw [← hkept₁]
        refine List.map_congr_left fun q hq => hprog₂.record q ?_
        rintro ⟨l', hl', hq'⟩
        exact hafter l' hl' q (hsub₁ q hq) hq'
      rw [List.map_append, hkept₂, ← hrec, keep]
      by_cases hnil : kept₁ = []
      · simp [hnil]
      · simp [hnil, rungOf]
    · exact hprog₁.trans hprog₂ (fun q hq => ⟨l, by simp, hq⟩)
        (fun q ⟨l', hl', hq⟩ => ⟨l', by simp [hl'], hq⟩)

/-- `matchIncoming` is `Ladder.trade`. -/
lemma matchIncoming (h : Rep b S) {i : Incoming} (hsym : b.symbol = i.symbol) {limitPrice : Price}
    {hasLimitPrice : Bool} (hlim : i.limit = if hasLimitPrice then some limitPrice else none)
    (qty : Qty) :
    ∃ b' S', b.matchIncoming i.clientId i.orderId i.side limitPrice hasLimitPrice qty =
        .ok (b', ((view b S).trade i qty).leaves) ∧
      Rep b' S' ∧ view b' S' = ((view b S).trade i qty).rest ∧
      Progress i b qty ((view b S).trade i qty).fills (fun q => ∃ l ∈ S i.target, q ∈ l.nodes) b'
        ((view b S).trade i qty).leaves := by
  obtain ⟨b', S', kept, hrun, hrep, hS, hside, hkept, hprog⟩ :=
    matchLevels hlim (S i.target) [] qty h hsym rfl (Nat.lt_succ_self _)
  refine ⟨b', S', ?_, hrep, ?_, hprog⟩
  · have hbegin : (b.levels i.target).begin =
        (S i.target).head?.map fun l => (l.price, l.ptr) := by
      rw [OrderedMap.begin, h.entries, List.head?_map]
    have hlen : (b.levels i.target).entries.length = (S i.target).length := by
      rw [h.entries, List.length_map]
    refine Eq.trans ?_ hrun
    rw [← hbegin, ← hlen]
    rfl
  · funext s
    by_cases hs : s = i.target
    · subst hs
      rw [Ladder.trade_rest_target, view_eq, hS]
      exact hkept
    · rw [Ladder.trade_rest_of_ne _ _ _ hs, view, view, hside s hs]
      refine List.map_congr_left fun l hl => ?_
      rw [Prod.mk.injEq]
      refine ⟨rfl, List.map_congr_left fun q hq => hprog.record q ?_⟩
      rintro ⟨l', hl', hq'⟩
      exact hs (h.location hl hq hl' hq').1

end Rep

end MatchingEngine
