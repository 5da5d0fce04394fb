import MatchingEngine.Matcher.Ladder
import MatchingEngine.Matcher.Memory

/-!
# The representation relation

`Rep b S` says that the memory of the book `b` has the shape `S`: for each side the levels in
map order, and for each level its pool block and the pool blocks of its nodes in list order.
It ties the four redundant structures of the book together: the two maps, the linked lists,
the id index and the two memory pools.  `view` reads the ladder off a represented book.

The location of a node is not a separate clause.  A node stores its own side and price, and a
side has one level per price, so a node lies in one place only (`Rep.location`); the same
argument through the level's stored price gives that a level block belongs to one entry
(`Rep.level_location`), except across sides, which is the clause `sides`.

The file ends with the specifications of the two structural operations: `removeOrder`
(`Rep.removeOrder`) and `restOrder` (`Rep.restOrder`).  Each says which shape results, and
`restOrder` that the only way to fail is an exhausted pool.
-/

namespace MatchingEngine

open OrderedMaps LinkedLists

/-! ## Shapes -/

/-- One price level in memory: its key, its block, and the blocks of its nodes in order. -/
structure LevelShape where
  price : Price
  ptr : ℕ
  nodes : List ℕ

/-- The levels of both sides, in map order. -/
abbrev Shape := BookSide → List LevelShape

/-- The level without node `p`. -/
def LevelShape.erase (l : LevelShape) (p : ℕ) : LevelShape :=
  { l with nodes := l.nodes.filter fun q => decide (q ≠ p) }

namespace Shape

/-- Block `p` is a node of some level. -/
def Mem (S : Shape) (p : ℕ) : Prop := ∃ s, ∃ l ∈ S s, p ∈ l.nodes

/-- Take a node out; an emptied level disappears. -/
def erase (S : Shape) (p : ℕ) : Shape := fun s =>
  ((S s).map fun l => l.erase p).filter fun l => decide (l.nodes ≠ [])

lemma mem_erase {S : Shape} {p : ℕ} {s : BookSide} {l : LevelShape} :
    l ∈ S.erase p s ↔ ∃ l₀ ∈ S s, l₀.erase p = l ∧ l.nodes ≠ [] := by
  simp only [erase, List.mem_filter, List.mem_map, decide_eq_true_eq]
  constructor
  · rintro ⟨⟨l₀, h, rfl⟩, hne⟩
    exact ⟨l₀, h, rfl, hne⟩
  · rintro ⟨l₀, h, rfl, hne⟩
    exact ⟨⟨l₀, h, rfl⟩, hne⟩

lemma Mem.erase_iff {S : Shape} {p q : ℕ} : (S.erase p).Mem q ↔ S.Mem q ∧ q ≠ p := by
  constructor
  · rintro ⟨s, l, hl, hq⟩
    obtain ⟨l₀, hl₀, rfl, -⟩ := mem_erase.mp hl
    have := List.mem_filter.mp hq
    exact ⟨⟨s, l₀, hl₀, this.1⟩, by simpa using this.2⟩
  · rintro ⟨⟨s, l, hl, hq⟩, hne⟩
    have hq' : q ∈ (l.erase p).nodes := List.mem_filter.mpr ⟨hq, by simpa using hne⟩
    exact ⟨s, l.erase p, mem_erase.mpr ⟨l, hl, rfl, List.ne_nil_of_mem hq'⟩, hq'⟩

/-- The map entries of a side after a removal: those of the levels that keep a node. -/
lemma map_erase {β : Type} (S : Shape) (p : ℕ) (s : BookSide) (f : LevelShape → β)
    (hf : ∀ l, f (l.erase p) = f l) :
    (S.erase p s).map f = ((S s).filter fun l => decide ((l.erase p).nodes ≠ [])).map f := by
  rw [erase, List.filter_map, List.map_map]
  exact List.map_congr_left fun l _ => hf l

end Shape

/-- The nodes of the level at `price`, none if there is no such level. -/
def nodesAt (ls : List LevelShape) (price : Price) : List ℕ :=
  ((ls.find? fun l => decide (l.price = price)).map LevelShape.nodes).getD []

/-- Append node `p` to the level at `price`, held in block `m`. -/
def Shape.rest (S : Shape) (s : BookSide) (price : Price) (m p : ℕ) : Shape :=
  Function.update S s
    (insertBy s.before LevelShape.price ⟨price, m, nodesAt (S s) price ++ [p]⟩ (S s))

lemma LevelShape.erase_of_notMem {l : LevelShape} {p : ℕ} (h : p ∉ l.nodes) : l.erase p = l := by
  have : l.nodes.filter (fun q => decide (q ≠ p)) = l.nodes := by
    rw [List.filter_eq_self]
    intro q hq
    simpa using fun he : q = p => h (he ▸ hq)
  rw [LevelShape.erase, this]

/-- Around an inner node, erasing it leaves the two sides of the split. -/
lemma LevelShape.nodes_erase_mid {l : LevelShape} {p : ℕ} {xs ys : List ℕ}
    (h : l.nodes = xs ++ p :: ys) (hnd : l.nodes.Nodup) : (l.erase p).nodes = xs ++ ys := by
  rw [h] at hnd
  obtain ⟨-, hy, hdisj⟩ := List.nodup_append.mp hnd
  have hxs : xs.filter (fun q => decide (q ≠ p)) = xs := by
    rw [List.filter_eq_self]
    intro q hq
    simpa using hdisj q hq p (by simp)
  have hys : ys.filter (fun q => decide (q ≠ p)) = ys := by
    rw [List.filter_eq_self]
    intro q hq
    simpa using fun he : q = p => (List.nodup_cons.mp hy).1 (he ▸ hq)
  rw [LevelShape.erase, h]
  simp only [List.filter_append, List.filter_cons, hxs, hys]
  simp

/-! ## The relation -/

/-- The block of a level holds its price and count, and the links form its list of nodes. -/
structure LevelRep (b : SymbolOrderBook) (l : LevelShape) : Prop where
  nonempty : l.nodes ≠ []
  price : (b.level l.ptr).price = l.price
  count : (b.level l.ptr).orderCount = l.nodes.length
  list : IsDList b.prevOf b.nextOf (b.level l.ptr).head (b.level l.ptr).tail l.nodes

/-- The memory of `b` has shape `S`. -/
structure Rep (b : SymbolOrderBook) (S : Shape) : Prop where
  entries : ∀ s, (b.levels s).entries = (S s).map fun l => (l.price, l.ptr)
  level : ∀ s, ∀ l ∈ S s, LevelRep b l
  node : ∀ s, ∀ l ∈ S s, ∀ p ∈ l.nodes,
    (b.record p).side.bookSide = s ∧ (b.record p).price = l.price
  sides : ∀ l ∈ S .bid, ∀ l' ∈ S .ask, l.ptr ≠ l'.ptr
  index : ∀ id p, b.orderIndex id = some p ↔ S.Mem p ∧ (b.record p).orderId = id
  orderPool : b.orderPool.WF
  levelPool : b.levelPool.WF
  orderInUse : ∀ p, b.orderPool.InUse p ↔ S.Mem p
  levelInUse : ∀ m, b.levelPool.InUse m ↔ ∃ s, ∃ l ∈ S s, l.ptr = m
  missed : b.missedRemovals = 0

/-- The ladder a book of shape `S` holds. -/
def view (b : SymbolOrderBook) (S : Shape) : Ladder := fun s =>
  (S s).map fun l => (l.price, l.nodes.map b.record)

/-- A fresh book has no levels. -/
lemma rep_ofCapacity {n m : ℕ} (hn : 0 < n) (hm : 0 < m) (symbol : Symbol) :
    Rep (.ofCapacity n m symbol) fun _ => [] where
  entries s := by cases s <;> rfl
  level := by simp
  node := by simp
  sides := by simp
  index := by simp [SymbolOrderBook.ofCapacity, Shape.Mem]
  orderPool := MemPool.wf_new hn
  levelPool := MemPool.wf_new hm
  orderInUse p := by
    refine ⟨fun h => absurd h (MemPool.not_inUse_new n p), ?_⟩
    simp [Shape.Mem]
  levelInUse p := by
    refine ⟨fun h => absurd h (MemPool.not_inUse_new m p), ?_⟩
    simp
  missed := rfl

namespace Rep

variable {b : SymbolOrderBook} {S : Shape}

/-! ### Where things are -/

lemma sorted (h : Rep b S) (s : BookSide) :
    (S s).Pairwise fun l l' => s.before l.price l'.price := by
  have := (b.levels s).sorted
  rw [h.entries s, List.pairwise_map] at this
  exact this

lemma level_eq (h : Rep b S) {s : BookSide} {l l' : LevelShape} (hl : l ∈ S s) (hl' : l' ∈ S s)
    (he : l.price = l'.price) : l = l' :=
  eq_of_key_eq s.before (h.sorted s) hl hl' he

/-- A node lies in one level of one side. -/
lemma location (h : Rep b S) {s s' : BookSide} {l l' : LevelShape} {p : ℕ} (hl : l ∈ S s)
    (hp : p ∈ l.nodes) (hl' : l' ∈ S s') (hp' : p ∈ l'.nodes) : s = s' ∧ l = l' := by
  obtain ⟨hs, hprice⟩ := h.node s l hl p hp
  obtain ⟨hs', hprice'⟩ := h.node s' l' hl' p hp'
  obtain rfl : s = s' := hs.symm.trans hs'
  exact ⟨rfl, h.level_eq hl hl' (hprice.symm.trans hprice')⟩

/-- A level block belongs to one map entry. -/
lemma level_location (h : Rep b S) {s s' : BookSide} {l l' : LevelShape} (hl : l ∈ S s)
    (hl' : l' ∈ S s') (he : l.ptr = l'.ptr) : s = s' ∧ l = l' := by
  have hs : s = s' := by
    cases s <;> cases s'
    · rfl
    · exact absurd he (h.sides l hl l' hl')
    · exact absurd he.symm (h.sides l' hl' l hl)
    · rfl
  subst hs
  refine ⟨rfl, h.level_eq hl hl' ?_⟩
  rw [← (h.level s l hl).price, ← (h.level s l' hl').price, he]

/-- Ids are unique among the nodes. -/
lemma eq_of_orderId (h : Rep b S) {p q : ℕ} (hp : S.Mem p) (hq : S.Mem q)
    (he : (b.record p).orderId = (b.record q).orderId) : p = q := by
  have h1 := (h.index _ p).mpr ⟨hp, rfl⟩
  have h2 := (h.index _ q).mpr ⟨hq, rfl⟩
  rw [he, h2] at h1
  exact (Option.some.inj h1).symm

lemma find_level (h : Rep b S) {s : BookSide} {l : LevelShape} (hl : l ∈ S s) :
    (b.levels s).find l.price = some l.ptr := by
  rw [OrderedMap.find_eq_some, h.entries s]
  exact List.mem_map.mpr ⟨l, hl, rfl⟩

/-- A neighbour of a node is a node of the same level. -/
lemma neighbour_mem (h : Rep b S) {s : BookSide} {l : LevelShape} {p q : ℕ} (hl : l ∈ S s)
    (hp : p ∈ l.nodes) (hq : some q = b.prevOf p ∨ some q = b.nextOf p) : q ∈ l.nodes := by
  obtain ⟨xs, ys, hsplit⟩ := List.append_of_mem hp
  have hlist := (h.level s l hl).list
  rw [hsplit] at hlist ⊢
  obtain ⟨hprev, hnext⟩ := hlist.links_mid
  rcases hq with hq | hq
  · rw [hprev] at hq
    simp [List.mem_of_getLast? hq.symm]
  · rw [hnext] at hq
    simp [List.mem_of_head? hq.symm]

/-! ### Removing a node -/

/-- The book after node `p` has left level `l` of side `s`. -/
def without (b : SymbolOrderBook) (s : BookSide) (l : LevelShape) (p : ℕ) : SymbolOrderBook :=
  let u := b.unlink p l.ptr
  let b' := if l.nodes.length = 1 then
      { u.setLevels s ((u.levels s).erase l.price) with
        levelPool := u.levelPool.release l.ptr }
    else u
  { b' with orderIndex := Function.update b.orderIndex (b.record p).orderId none,
            orderPool := u.orderPool.release p }

lemma removeOrder_eq (h : Rep b S) {s : BookSide} {l : LevelShape} {p : ℕ} (hl : l ∈ S s)
    (hp : p ∈ l.nodes) : b.removeOrder p = .ok (without b s l p) := by
  obtain ⟨hside, hprice⟩ := h.node s l hl p hp
  have hsame := b.sameBlocks_unlink p l.ptr
  have hfind : (b.levels (b.order p).side.bookSide).find (b.order p).price = some l.ptr := by
    have := h.find_level hl
    rw [← hprice] at this
    rw [← hside] at this
    exact this
  have hcount : ((b.unlink p l.ptr).level l.ptr).orderCount = l.nodes.length - 1 := by
    rw [b.level_unlink p l.ptr l.ptr, if_pos rfl, (h.level s l hl).count]
  have hpos : 0 < l.nodes.length := List.length_pos_of_mem hp
  have hlevelUse : (b.unlink p l.ptr).levelPool.InUse l.ptr :=
    (hsame.levelPool_inUse _).mpr ((h.levelInUse _).mpr ⟨s, l, hl, rfl⟩)
  have horderUse : (b.unlink p l.ptr).orderPool.InUse p :=
    (hsame.orderPool_inUse _).mpr ((h.orderInUse _).mpr ⟨s, l, hl, hp⟩)
  subst hside
  by_cases hone : l.nodes.length = 1
  · simp only [SymbolOrderBook.removeOrder, hfind, hcount, if_true,
      SymbolOrderBook.dropLevel, MemPool.deallocate_spec hlevelUse, bind, Except.bind, pure,
      Except.pure, SymbolOrderBook.orderPool_setLevels, MemPool.deallocate_spec horderUse,
      without, hone]
    simp only [SymbolOrderBook.orderIndex_setLevels, hsame.orderIndex, SymbolOrderBook.record,
      ← hprice]
  · have hne : l.nodes.length - 1 ≠ 0 := by omega
    simp only [SymbolOrderBook.removeOrder, hfind, hcount, hne, if_false, bind, Except.bind,
      pure, Except.pure, MemPool.deallocate_spec horderUse, without, hone, hsame.orderIndex,
      SymbolOrderBook.record]

section Without

variable (b : SymbolOrderBook) (s : BookSide) (l : LevelShape) (p : ℕ)

lemma order_without (q : ℕ) : (without b s l p).order q = (b.unlink p l.ptr).order q :=
  MemPool.get_release _ _ _

lemma level_without (m : ℕ) : (without b s l p).level m = (b.unlink p l.ptr).level m := by
  simp only [without, SymbolOrderBook.level]
  split_ifs
  · exact MemPool.get_release _ _ _
  · rfl

@[simp] lemma record_without (q : ℕ) : (without b s l p).record q = b.record q := by
  rw [SymbolOrderBook.record, order_without, b.order_unlink]
  rfl

lemma entries_without (s' : BookSide) :
    ((without b s l p).levels s').entries =
      if s' = s ∧ l.nodes.length = 1 then
        (b.levels s').entries.filter fun e => decide (e.1 ≠ l.price)
      else (b.levels s').entries := by
  have hsame := b.sameBlocks_unlink p l.ptr
  have hlevels : ∀ (x : SymbolOrderBook) (i : OrderId → Option ℕ) (o : MemPool BookOrder)
      (v : MemPool PriceLevel), ({ x with orderIndex := i, orderPool := o }.levels s' =
        x.levels s') ∧ { x with levelPool := v }.levels s' = x.levels s' := by
    intro x i o v
    cases s' <;> exact ⟨rfl, rfl⟩
  rw [without, (hlevels _ _ _ b.levelPool).1]
  by_cases hone : l.nodes.length = 1
  · rw [if_pos hone, (hlevels _ b.orderIndex b.orderPool _).2]
    by_cases hs : s' = s
    · subst hs
      simp only [SymbolOrderBook.levels_setLevels_self, OrderedMap.erase, hsame.levels, hone,
        and_self, if_true]
    · rw [SymbolOrderBook.levels_setLevels_of_ne _ _ hs, hsame.levels, if_neg (fun h => hs h.1)]
  · rw [if_neg hone, hsame.levels, if_neg (fun h => hone h.2)]

lemma levelPool_without :
    (without b s l p).levelPool =
      if l.nodes.length = 1 then (b.unlink p l.ptr).levelPool.release l.ptr
      else (b.unlink p l.ptr).levelPool := by
  simp only [without]
  split_ifs <;> rfl

@[simp] lemma sent_without : (without b s l p).sent = b.sent := by
  have hsame := b.sameBlocks_unlink p l.ptr
  simp only [without]
  split_ifs
  · exact (SymbolOrderBook.sent_setLevels _ _).trans hsame.sent
  · exact hsame.sent

@[simp] lemma symbol_without : (without b s l p).symbol = b.symbol := by
  have hsame := b.sameBlocks_unlink p l.ptr
  simp only [without]
  split_ifs
  · exact (SymbolOrderBook.symbol_setLevels _ _).trans hsame.symbol
  · exact hsame.symbol

lemma missed_without : (without b s l p).missedRemovals = b.missedRemovals := by
  have hsame := b.sameBlocks_unlink p l.ptr
  simp only [without]
  split_ifs
  · exact (SymbolOrderBook.missedRemovals_setLevels _ _).trans hsame.missed
  · exact hsame.missed

lemma orderPool_size_without : (without b s l p).orderPool.size = b.orderPool.size :=
  (b.sameBlocks_unlink p l.ptr).orderSize

end Without

/-- After the removal the remaining levels are represented. -/
lemma level_rep_without (h : Rep b S) {s s' : BookSide} {l l₀ : LevelShape} {p : ℕ}
    (hl : l ∈ S s) (hp : p ∈ l.nodes) (hl₀ : l₀ ∈ S s') (hne : (l₀.erase p).nodes ≠ []) :
    LevelRep (without b s l p) (l₀.erase p) := by
  have hrep := h.level s' l₀ hl₀
  have hprev : ∀ q, (without b s l p).prevOf q =
      if some q = b.nextOf p then b.prevOf p else b.prevOf q := by
    intro q
    rw [SymbolOrderBook.prevOf, order_without, b.order_unlink]
    rfl
  have hnext : ∀ q, (without b s l p).nextOf q =
      if some q = b.prevOf p then b.nextOf p else b.nextOf q := by
    intro q
    rw [SymbolOrderBook.nextOf, order_without, b.order_unlink]
    rfl
  by_cases hmem : p ∈ l₀.nodes
  · -- the level the node leaves
    obtain ⟨rfl, rfl⟩ := h.location hl hp hl₀ hmem
    obtain ⟨xs, ys, hsplit⟩ := List.append_of_mem hp
    have hnodes := LevelShape.nodes_erase_mid hsplit hrep.list.nodup
    have hlevel : (without b s l p).level (l.erase p).ptr =
        { b.level l.ptr with
          head := if b.prevOf p = none then b.nextOf p else (b.level l.ptr).head
          tail := if b.nextOf p = none then b.prevOf p else (b.level l.ptr).tail
          orderCount := (b.level l.ptr).orderCount - 1 } := by
      rw [level_without, show (l.erase p).ptr = l.ptr from rfl, b.level_unlink, if_pos rfl]
      rfl
    refine ⟨hne, by rw [hlevel]; exact hrep.price, ?_, ?_⟩
    · rw [hlevel, hnodes]
      simp only [hrep.count, hsplit, List.length_append, List.length_cons]
      omega
    · have hlist := hrep.list
      rw [hlevel, hnodes]
      rw [hsplit] at hlist
      exact hlist.unlink (fun q _ => hprev q) (fun q _ => hnext q)
  · -- any other level: no neighbour of the node lies in it
    rw [LevelShape.erase_of_notMem hmem]
    have hother : ∀ q ∈ l₀.nodes, some q ≠ b.prevOf p ∧ some q ≠ b.nextOf p := by
      intro q hq
      have hnot : q ∉ l.nodes := fun hq' => by
        obtain ⟨rfl, rfl⟩ := h.location hl hq' hl₀ hq
        exact hmem hp
      exact ⟨fun he => hnot (h.neighbour_mem hl hp (.inl he)),
        fun he => hnot (h.neighbour_mem hl hp (.inr he))⟩
    have hptr : l₀.ptr ≠ l.ptr := fun he => by
      obtain ⟨rfl, rfl⟩ := h.level_location hl₀ hl he
      exact hmem hp
    have hlevel : (without b s l p).level l₀.ptr = b.level l₀.ptr := by
      rw [level_without, b.level_unlink, if_neg hptr]
    refine ⟨hrep.nonempty, by rw [hlevel]; exact hrep.price, by rw [hlevel]; exact hrep.count, ?_⟩
    rw [hlevel]
    exact hrep.list.congr (fun q hq => by rw [hprev, if_neg (hother q hq).2])
      (fun q hq => by rw [hnext, if_neg (hother q hq).1])

/-- Whether a level survives the removal of `p` from `l`. -/
lemma erase_nodes_ne_nil (h : Rep b S) {s s' : BookSide} {l l₀ : LevelShape} {p : ℕ}
    (hl : l ∈ S s) (hp : p ∈ l.nodes) (hl₀ : l₀ ∈ S s') :
    (l₀.erase p).nodes ≠ [] ↔ ¬ (s' = s ∧ l₀.price = l.price ∧ l.nodes.length = 1) := by
  have hrep := h.level s' l₀ hl₀
  by_cases hmem : p ∈ l₀.nodes
  · obtain ⟨rfl, rfl⟩ := h.location hl hp hl₀ hmem
    obtain ⟨xs, ys, hsplit⟩ := List.append_of_mem hp
    rw [LevelShape.nodes_erase_mid hsplit hrep.list.nodup, hsplit]
    simp only [ne_eq, ← List.length_eq_zero_iff, List.length_append, List.length_cons, true_and]
    omega
  · rw [LevelShape.erase_of_notMem hmem]
    refine ⟨fun _ => ?_, fun _ => hrep.nonempty⟩
    rintro ⟨rfl, hprice, -⟩
    exact hmem (h.level_eq hl₀ hl hprice ▸ hp)

section Clauses

variable {s : BookSide} {l : LevelShape} {p : ℕ} (hl : l ∈ S s) (hp : p ∈ l.nodes)
include hl hp

lemma entries_erase (h : Rep b S) (s' : BookSide) :
    ((without b s l p).levels s').entries = (S.erase p s').map fun l => (l.price, l.ptr) := by
  rw [entries_without, Shape.map_erase _ _ _ _ (fun _ => rfl), h.entries s']
  have hfilter : (S s').filter (fun l₀ => decide ((l₀.erase p).nodes ≠ [])) =
      (S s').filter fun l₀ => decide (¬ (s' = s ∧ l₀.price = l.price ∧ l.nodes.length = 1)) :=
    List.filter_congr fun l₀ hl₀ => by rw [decide_eq_decide]; exact h.erase_nodes_ne_nil hl hp hl₀
  rw [hfilter]
  split_ifs with hcond
  · rw [List.filter_map]
    congr 1
    exact List.filter_congr fun l₀ _ => by simp [hcond]
  · rw [List.filter_eq_self.mpr]
    intro l₀ _
    simp only [decide_eq_true_eq]
    exact fun h => hcond ⟨h.1, h.2.2⟩

/-- The index loses the id of the node, which no other node carries. -/
lemma index_erase (h : Rep b S) (id : OrderId) (q : ℕ) :
    (without b s l p).orderIndex id = some q ↔
      (S.erase p).Mem q ∧ ((without b s l p).record q).orderId = id := by
  rw [Shape.Mem.erase_iff, record_without]
  change Function.update b.orderIndex (b.record p).orderId none id = some q ↔ _
  by_cases hid : id = (b.record p).orderId
  · subst hid
    rw [Function.update_self]
    refine ⟨fun hbad => (by simp at hbad), ?_⟩
    rintro ⟨⟨hq, hne⟩, he⟩
    exact absurd (h.eq_of_orderId hq ⟨s, l, hl, hp⟩ he) hne
  · rw [Function.update_of_ne hid, h.index]
    constructor
    · rintro ⟨hq, he⟩
      exact ⟨⟨hq, fun hqp => hid (hqp ▸ he.symm)⟩, he⟩
    · rintro ⟨⟨hq, -⟩, he⟩
      exact ⟨hq, he⟩

/-- The blocks of the levels that are left. -/
lemma exists_erase_iff (h : Rep b S) (m : ℕ) :
    (∃ s', ∃ l' ∈ S.erase p s', l'.ptr = m) ↔
      ∃ s', ∃ l₀ ∈ S s', l₀.ptr = m ∧
        ¬ (s' = s ∧ l₀.price = l.price ∧ l.nodes.length = 1) := by
  constructor
  · rintro ⟨s', l', hl', rfl⟩
    obtain ⟨l₀, hl₀, rfl, hne⟩ := Shape.mem_erase.mp hl'
    exact ⟨s', l₀, hl₀, rfl, (h.erase_nodes_ne_nil hl hp hl₀).mp hne⟩
  · rintro ⟨s', l₀, hl₀, rfl, hne⟩
    exact ⟨s', l₀.erase p, Shape.mem_erase.mpr
      ⟨l₀, hl₀, rfl, (h.erase_nodes_ne_nil hl hp hl₀).mpr hne⟩, rfl⟩

/-- The level's block is released exactly if the node was its last. -/
lemma levelInUse_erase (h : Rep b S) (m : ℕ) :
    (without b s l p).levelPool.InUse m ↔ ∃ s', ∃ l' ∈ S.erase p s', l'.ptr = m := by
  have hsame := b.sameBlocks_unlink p l.ptr
  rw [h.exists_erase_iff hl hp, levelPool_without]
  by_cases hone : l.nodes.length = 1
  · rw [if_pos hone, MemPool.inUse_release, hsame.levelPool_inUse, h.levelInUse]
    constructor
    · rintro ⟨⟨s', l₀, hl₀, rfl⟩, hne⟩
      refine ⟨s', l₀, hl₀, rfl, ?_⟩
      rintro ⟨rfl, hprice, -⟩
      exact hne (congrArg _ (h.level_eq hl₀ hl hprice))
    · rintro ⟨s', l₀, hl₀, rfl, hne⟩
      refine ⟨⟨s', l₀, hl₀, rfl⟩, fun he => hne ?_⟩
      obtain ⟨rfl, rfl⟩ := h.level_location hl₀ hl he
      exact ⟨rfl, rfl, hone⟩
  · rw [if_neg hone, hsame.levelPool_inUse, h.levelInUse]
    constructor
    · rintro ⟨s', l₀, hl₀, rfl⟩
      exact ⟨s', l₀, hl₀, rfl, fun h => hone h.2.2⟩
    · rintro ⟨s', l₀, hl₀, rfl, -⟩
      exact ⟨s', l₀, hl₀, rfl⟩

/-- The book without the node has the shape without the node. -/
lemma rep_without (h : Rep b S) : Rep (without b s l p) (S.erase p) where
  entries := h.entries_erase hl hp
  level s' l' hl' := by
    obtain ⟨l₀, hl₀, rfl, hne⟩ := Shape.mem_erase.mp hl'
    exact h.level_rep_without hl hp hl₀ hne
  node s' l' hl' q hq := by
    obtain ⟨l₀, hl₀, rfl, -⟩ := Shape.mem_erase.mp hl'
    rw [record_without]
    exact h.node s' l₀ hl₀ q (List.mem_filter.mp hq).1
  sides l₁ hl₁ l₂ hl₂ := by
    obtain ⟨m₁, hm₁, rfl, -⟩ := Shape.mem_erase.mp hl₁
    obtain ⟨m₂, hm₂, rfl, -⟩ := Shape.mem_erase.mp hl₂
    exact h.sides m₁ hm₁ m₂ hm₂
  index := h.index_erase hl hp
  orderPool := ((b.sameBlocks_unlink p l.ptr).orderPool_wf h.orderPool).release p
  levelPool := by
    have hwf := (b.sameBlocks_unlink p l.ptr).levelPool_wf h.levelPool
    rw [levelPool_without]
    split_ifs
    · exact hwf.release _
    · exact hwf
  orderInUse q := by
    rw [Shape.Mem.erase_iff, ← h.orderInUse, ← (b.sameBlocks_unlink p l.ptr).orderPool_inUse q]
    exact MemPool.inUse_release _ _ _
  levelInUse := h.levelInUse_erase hl hp
  missed := by rw [missed_without, h.missed]

end Clauses

/-- `removeOrder` of a node succeeds, takes exactly that node out, and leaves every order's
fields and the output streams alone. -/
lemma removeOrder (h : Rep b S) {p : ℕ} (hp : S.Mem p) :
    ∃ b', b.removeOrder p = .ok b' ∧ Rep b' (S.erase p) ∧ (∀ q, b'.record q = b.record q) ∧
      b'.sent = b.sent ∧ b'.symbol = b.symbol ∧ b'.orderPool.size = b.orderPool.size := by
  obtain ⟨s, l, hl, hpl⟩ := hp
  exact ⟨without b s l p, h.removeOrder_eq hl hpl, h.rep_without hl hpl, record_without b s l p,
    sent_without b s l p, symbol_without b s l p, orderPool_size_without b s l p⟩

/-! ### Adding a node -/

lemma nodesAt_eq (h : Rep b S) {s : BookSide} {l : LevelShape} (hl : l ∈ S s) :
    nodesAt (S s) l.price = l.nodes := by
  cases hfind : (S s).find? (fun l' => decide (l'.price = l.price)) with
  | none => simpa using List.find?_eq_none.mp hfind l hl
  | some l' =>
    have hprice : l'.price = l.price := by simpa using List.find?_some hfind
    rw [nodesAt, hfind, ← h.level_eq (List.mem_of_find?_eq_some hfind) hl hprice]
    rfl

lemma nodesAt_eq_nil {ls : List LevelShape} {price : Price} (h : ∀ l ∈ ls, l.price ≠ price) :
    nodesAt ls price = [] := by
  have : ls.find? (fun l => decide (l.price = price)) = none :=
    List.find?_eq_none.mpr fun l hl => by simpa using h l hl
  rw [nodesAt, this]
  rfl

lemma mem_nodesAt {ls : List LevelShape} {price : Price} {q : ℕ} (h : q ∈ nodesAt ls price) :
    ∃ l ∈ ls, l.price = price ∧ q ∈ l.nodes := by
  cases hfind : ls.find? (fun l => decide (l.price = price)) with
  | none => simp [nodesAt, hfind] at h
  | some l =>
    exact ⟨l, List.mem_of_find?_eq_some hfind, by simpa using List.find?_some hfind,
      by simpa [nodesAt, hfind] using h⟩

/-- What `findOrAddLevel` establishes: block `m` is the level of `price`, either the one that
was there or a fresh empty one. -/
structure LevelReady (b : SymbolOrderBook) (S : Shape) (s : BookSide) (price : Price) (m : ℕ)
    (b' : SymbolOrderBook) : Prop where
  symbol : b'.symbol = b.symbol
  orderIndex : b'.orderIndex = b.orderIndex
  sent : b'.sent = b.sent
  missed : b'.missedRemovals = b.missedRemovals
  levelPool : b'.levelPool.WF
  inUse : ∀ i, b'.levelPool.InUse i ↔ b.levelPool.InUse i ∨ i = m
  entries : ∀ s', (b'.levels s').entries =
    if s' = s then insertBy s'.before Prod.fst (price, m) (b.levels s').entries
    else (b.levels s').entries
  other : ∀ i, i ≠ m → b'.level i = b.level i
  present : ∀ l ∈ S s, l.price = price → l.ptr = m ∧ b'.level m = b.level m
  absent : (∀ l ∈ S s, l.price ≠ price) →
    b'.level m = { price := price } ∧ ¬ b.levelPool.InUse m

lemma findOrAddLevel (h : Rep b S) (pool : MemPool BookOrder) (s : BookSide) (price : Price) :
    (∃ m b', { b with orderPool := pool }.findOrAddLevel s price = .ok (m, b') ∧
        b'.orderPool = pool ∧ LevelReady b S s price m b') ∨
      { b with orderPool := pool }.findOrAddLevel s price = .error .outOfSpace := by
  have hlevels : ∀ (x : SymbolOrderBook) (o : MemPool BookOrder) (v : MemPool PriceLevel) s',
      { x with orderPool := o }.levels s' = x.levels s' ∧
        { x with orderPool := o, levelPool := v }.levels s' = x.levels s' := by
    intro x o v s'
    cases s' <;> exact ⟨rfl, rfl⟩
  simp only [SymbolOrderBook.findOrAddLevel, (hlevels b pool b.levelPool s).1]
  cases hfind : (b.levels s).find price with
  | some m =>
    obtain ⟨l, hl, hle⟩ := List.mem_map.mp (h.entries s ▸ OrderedMap.find_eq_some.mp hfind)
    obtain ⟨rfl, rfl⟩ := Prod.mk.inj hle
    refine .inl ⟨l.ptr, _, rfl, rfl, ⟨rfl, rfl, rfl, rfl, h.levelPool, fun i => ?_, fun s' => ?_,
      fun _ _ => rfl, fun l' hl' hp => ?_, fun hno => absurd rfl (hno l hl)⟩⟩
    · exact ⟨.inl, fun hi => hi.elim id fun he => he ▸ (h.levelInUse _).mpr ⟨s, l, hl, rfl⟩⟩
    · rw [(hlevels b pool b.levelPool s').1]
      split_ifs with hs
      · subst hs
        exact (insertBy_of_mem s'.before (b.levels s').sorted
          (OrderedMap.find_eq_some.mp hfind)).symm
      · rfl
    · exact ⟨congrArg _ (h.level_eq hl' hl hp), rfl⟩
  | none =>
    have habsent : ∀ l ∈ S s, l.price ≠ price := by
      intro l hl
      have := OrderedMap.find_eq_none.mp hfind (l.price, l.ptr)
        (h.entries s ▸ List.mem_map.mpr ⟨l, hl, rfl⟩)
      exact this
    rcases MemPool.allocate_spec h.levelPool { price := price } with
      ⟨pool', hok, halloc⟩ | ⟨herr, -⟩
    · refine .inl ⟨b.levelPool.nextFreeIndex, _, by simp only [hok]; rfl, ?_, ?_⟩
      · exact SymbolOrderBook.orderPool_setLevels _ _
      · constructor
        case symbol => exact SymbolOrderBook.symbol_setLevels _ _
        case orderIndex => exact SymbolOrderBook.orderIndex_setLevels _ _
        case sent => exact SymbolOrderBook.sent_setLevels _ _
        case missed => exact SymbolOrderBook.missedRemovals_setLevels _ _
        case levelPool => rw [SymbolOrderBook.levelPool_setLevels]; exact halloc.wf
        case inUse =>
          intro i
          rw [SymbolOrderBook.levelPool_setLevels]
          exact halloc.inUse_iff h.levelPool i
        case entries =>
          intro s'
          by_cases hs : s' = s
          · subst hs
            rw [SymbolOrderBook.levels_setLevels_self, if_pos rfl]
            rfl
          · rw [SymbolOrderBook.levels_setLevels_of_ne _ _ hs, (hlevels b pool pool' s').2,
              if_neg hs]
        case other =>
          intro i hi
          rw [SymbolOrderBook.level, SymbolOrderBook.levelPool_setLevels]
          exact (halloc.get_eq i).trans (if_neg hi)
        case present => exact fun l hl hp => absurd hp (habsent l hl)
        case absent =>
          intro _
          refine ⟨?_, h.levelPool.not_inUse_next⟩
          rw [SymbolOrderBook.level, SymbolOrderBook.levelPool_setLevels]
          exact (halloc.get_eq _).trans (if_pos rfl)
    · exact .inr (by simp only [herr]; rfl)

/-- The levels after a node was added: the level it was added to, and the others. -/
lemma mem_rest (h : Rep b S) {s s' : BookSide} {price : Price} {m p : ℕ} {l : LevelShape} :
    l ∈ S.rest s price m p s' ↔
      s' = s ∧ l = ⟨price, m, nodesAt (S s) price ++ [p]⟩ ∨
        l ∈ S s' ∧ ¬ (s' = s ∧ l.price = price) := by
  by_cases hs : s' = s
  · subst hs
    rw [Shape.rest, Function.update_self, mem_insertBy s'.before (h.sorted s')]
    simp
  · rw [Shape.rest, Function.update_of_ne hs]
    simp [hs]

lemma mem_nodes_rest (h : Rep b S) {s : BookSide} {price : Price} {m p q : ℕ} :
    (S.rest s price m p).Mem q ↔ S.Mem q ∨ q = p := by
  constructor
  · rintro ⟨s', l, hl, hq⟩
    rcases h.mem_rest.mp hl with ⟨rfl, rfl⟩ | ⟨hl, -⟩
    · rcases List.mem_append.mp hq with hq | hq
      · obtain ⟨l, hl, -, hq⟩ := mem_nodesAt hq
        exact .inl ⟨s', l, hl, hq⟩
      · exact .inr (List.mem_singleton.mp hq)
    · exact .inl ⟨s', l, hl, hq⟩
  · rintro (⟨s', l, hl, hq⟩ | rfl)
    · by_cases hat : s' = s ∧ l.price = price
      · obtain ⟨rfl, rfl⟩ := hat
        refine ⟨s', _, h.mem_rest.mpr (.inl ⟨rfl, rfl⟩), ?_⟩
        rw [h.nodesAt_eq hl]
        exact List.mem_append.mpr (.inl hq)
      · exact ⟨s', l, h.mem_rest.mpr (.inr ⟨hl, hat⟩), hq⟩
    · exact ⟨s, _, h.mem_rest.mpr (.inl ⟨rfl, rfl⟩), by simp⟩

/-- The tail of a level is one of its nodes. -/
lemma tail_mem (h : Rep b S) {s : BookSide} {l : LevelShape} {t : ℕ} (hl : l ∈ S s)
    (ht : (b.level l.ptr).tail = some t) : t ∈ l.nodes := by
  have := (h.level s l hl).list.tail_eq
  rw [ht] at this
  exact List.mem_of_getLast? this.symm

section Rest

variable {s : BookSide} {price : Price} {m p : ℕ} {b' : SymbolOrderBook}

/-- The block of the level at `price` belongs to no other level. -/
lemma LevelReady.ptr_ne (h : Rep b S) (hr : LevelReady b S s price m b') {s' : BookSide}
    {l : LevelShape} (hl : l ∈ S s') (hat : ¬ (s' = s ∧ l.price = price)) : l.ptr ≠ m := by
  intro he
  by_cases habs : ∀ l' ∈ S s, l'.price ≠ price
  · exact (hr.absent habs).2 (he ▸ (h.levelInUse _).mpr ⟨s', l, hl, rfl⟩)
  · push Not at habs
    obtain ⟨l', hl', hp'⟩ := habs
    obtain ⟨rfl, rfl⟩ := h.level_location hl hl' (he.trans (hr.present l' hl' hp').1.symm)
    exact hat ⟨rfl, hp'⟩

/-- The old tail of the level at `price` is a node of no other level. -/
lemma LevelReady.tail_notMem (h : Rep b S) (hr : LevelReady b S s price m b') {s' : BookSide}
    {l : LevelShape} (hl : l ∈ S s') (hat : ¬ (s' = s ∧ l.price = price)) {q : ℕ}
    (hq : q ∈ l.nodes) : some q ≠ (b'.level m).tail := by
  intro he
  by_cases habs : ∀ l' ∈ S s, l'.price ≠ price
  · rw [(hr.absent habs).1] at he
    exact absurd he (by simp)
  · push Not at habs
    obtain ⟨l', hl', hp'⟩ := habs
    obtain ⟨rfl, hsame⟩ := hr.present l' hl' hp'
    rw [hsame] at he
    obtain ⟨rfl, rfl⟩ := h.location hl hq hl' (h.tail_mem hl' he.symm)
    exact hat ⟨rfl, hp'⟩

/-- What `restOrder` has established before it links the new node: block `p` is fresh and holds
the order `o`, and block `m` is the level of its price. -/
structure NodeReady (b : SymbolOrderBook) (S : Shape) (o : BookOrder) (m p : ℕ)
    (b' : SymbolOrderBook) : Prop where
  level : LevelReady b S o.side.bookSide o.price m b'
  fresh : ¬ S.Mem p
  order : ∀ q, b'.order q = if q = p then o else b.order q
  orderPool : b'.orderPool.WF
  size : b'.orderPool.size = b.orderPool.size
  inUse : ∀ q, b'.orderPool.InUse q ↔ b.orderPool.InUse q ∨ q = p

/-- The book after the new node was linked and entered into the index. -/
def withNode (b' : SymbolOrderBook) (o : BookOrder) (m p : ℕ) : SymbolOrderBook :=
  { b'.link p m with
    orderIndex := Function.update (b'.link p m).orderIndex o.orderId (some p) }

namespace NodeReady

variable {o : BookOrder} (hn : NodeReady b S o m p b')
include hn

lemma order_of_ne {q : ℕ} (hq : q ≠ p) : b'.order q = b.order q := (hn.order q).trans (if_neg hq)

lemma record_withNode (q : ℕ) :
    (withNode b' o m p).record q = if q = p then o.toOrderRecord else b.record q := by
  have hlink : (withNode b' o m p).record q = (b'.order q).toOrderRecord := by
    rw [SymbolOrderBook.record, withNode]
    change ((b'.link p m).order q).toOrderRecord = _
    rw [b'.order_link]
  rw [hlink, hn.order]
  split_ifs <;> rfl

/-- Linking a fresh node leaves every other level represented. -/
lemma levelRep_other (h : Rep b S) {s' : BookSide} {l : LevelShape} (hl : l ∈ S s')
    (hat : ¬ (s' = o.side.bookSide ∧ l.price = o.price)) : LevelRep (b'.link p m) l := by
  have hrep := h.level s' l hl
  have hptr := hn.level.ptr_ne h hl hat
  have hlevel : (b'.link p m).level l.ptr = b.level l.ptr := by
    rw [b'.level_link, if_neg hptr, hn.level.other _ hptr]
  have hlinks : ∀ q ∈ l.nodes, (b'.link p m).order q = b.order q := by
    intro q hq
    have hqp : q ≠ p := fun he => hn.fresh (he ▸ ⟨s', l, hl, hq⟩)
    rw [b'.order_link, if_neg (hn.level.tail_notMem h hl hat hq), if_neg hqp, if_neg hqp,
      hn.order_of_ne hqp]
  refine ⟨hrep.nonempty, by rw [hlevel]; exact hrep.price, by rw [hlevel]; exact hrep.count, ?_⟩
  rw [hlevel]
  exact hrep.list.congr (fun q hq => congrArg BookOrder.prev (hlinks q hq))
    (fun q hq => congrArg BookOrder.next (hlinks q hq))

/-- Linking a fresh node extends the list of its level. -/
lemma levelRep_self (h : Rep b S) :
    LevelRep (b'.link p m) ⟨o.price, m, nodesAt (S o.side.bookSide) o.price ++ [p]⟩ := by
  -- the level before linking, whether it was there or is fresh
  have hbefore : (b'.level m).price = o.price ∧
      (b'.level m).orderCount = (nodesAt (S o.side.bookSide) o.price).length ∧
      IsDList b.prevOf b.nextOf (b'.level m).head (b'.level m).tail
        (nodesAt (S o.side.bookSide) o.price) ∧
      p ∉ nodesAt (S o.side.bookSide) o.price := by
    by_cases habs : ∀ l ∈ S o.side.bookSide, l.price ≠ o.price
    · rw [(hn.level.absent habs).1, nodesAt_eq_nil habs]
      exact ⟨rfl, rfl, ⟨rfl, rfl, List.nodup_nil, trivial⟩, by simp⟩
    · push Not at habs
      obtain ⟨l, hl, hprice⟩ := habs
      obtain ⟨rfl, hsame⟩ := hn.level.present l hl hprice
      have hrep := h.level _ l hl
      rw [hsame, ← hprice, h.nodesAt_eq hl]
      exact ⟨hrep.price, hrep.count, hrep.list, fun hmem => hn.fresh ⟨_, l, hl, hmem⟩⟩
  obtain ⟨hprice, hcount, hlist, hnot⟩ := hbefore
  have hne : ∀ q ∈ nodesAt (S o.side.bookSide) o.price, q ≠ p := fun q hq he => hnot (he ▸ hq)
  have htail : some p ≠ (b'.level m).tail := fun he =>
    hnot (List.mem_of_getLast? (hlist.tail_eq ▸ he.symm))
  have hlevel := b'.level_link p m m
  rw [if_pos rfl] at hlevel
  refine ⟨by simp, by rw [hlevel]; exact hprice, ?_, ?_⟩
  · rw [hlevel]
    simp only [List.length_append, List.length_singleton]
    omega
  · rw [hlevel]
    refine hlist.append hnot ?_ ?_ (fun q hq => ?_) (fun q hq => ?_)
    · simp [SymbolOrderBook.prevOf, b'.order_link]
    · simp [SymbolOrderBook.nextOf, b'.order_link, htail]
    · simp [SymbolOrderBook.prevOf, b'.order_link, hne q hq, hn.order_of_ne (hne q hq)]
    · simp [SymbolOrderBook.nextOf, b'.order_link, hne q hq, hn.order_of_ne (hne q hq)]

lemma entries_withNode (h : Rep b S) (s : BookSide) :
    ((withNode b' o m p).levels s).entries =
      (S.rest o.side.bookSide o.price m p s).map fun l => (l.price, l.ptr) := by
  have hlevels : (withNode b' o m p).levels s = b'.levels s := by
    rw [← (b'.sameBlocks_link p m).levels s]
    cases s <;> rfl
  rw [hlevels, hn.level.entries]
  by_cases hs : s = o.side.bookSide
  · subst hs
    rw [if_pos rfl, Shape.rest, Function.update_self, h.entries]
    exact (map_insertBy o.side.bookSide.before LevelShape.price Prod.fst
      (fun l => (l.price, l.ptr)) (fun _ => rfl)
      ⟨o.price, m, nodesAt (S o.side.bookSide) o.price ++ [p]⟩ (S o.side.bookSide)).symm
  · rw [if_neg hs, Shape.rest, Function.update_of_ne hs, h.entries]

lemma node_withNode (h : Rep b S) {s : BookSide} {l : LevelShape}
    (hl : l ∈ S.rest o.side.bookSide o.price m p s) {q : ℕ} (hq : q ∈ l.nodes) :
    ((withNode b' o m p).record q).side.bookSide = s ∧
      ((withNode b' o m p).record q).price = l.price := by
  rw [hn.record_withNode]
  rcases h.mem_rest.mp hl with ⟨rfl, rfl⟩ | ⟨hl, -⟩
  · rcases List.mem_append.mp hq with hq | hq
    · obtain ⟨l, hl, hprice, hq⟩ := mem_nodesAt hq
      rw [if_neg fun he : q = p => hn.fresh (he ▸ ⟨_, l, hl, hq⟩), ← hprice]
      exact h.node _ l hl q hq
    · rw [if_pos (List.mem_singleton.mp hq)]
      exact ⟨rfl, rfl⟩
  · rw [if_neg fun he : q = p => hn.fresh (he ▸ ⟨s, l, hl, hq⟩)]
    exact h.node s l hl q hq

/-- The index gains the new id, which was free, and nothing else. -/
lemma index_withNode (h : Rep b S) (hid : b.orderIndex o.orderId = none) (id : OrderId) (q : ℕ) :
    (withNode b' o m p).orderIndex id = some q ↔
      (S.rest o.side.bookSide o.price m p).Mem q ∧ ((withNode b' o m p).record q).orderId = id := by
  have hindex : (withNode b' o m p).orderIndex =
      Function.update b.orderIndex o.orderId (some p) := by
    rw [withNode, (b'.sameBlocks_link p m).orderIndex, hn.level.orderIndex]
  rw [hindex, h.mem_nodes_rest, hn.record_withNode, Function.update_apply]
  by_cases hqp : q = p
  · -- the new node carries the new id
    subst hqp
    rw [if_pos rfl]
    split_ifs with hid'
    · exact ⟨fun _ => ⟨.inr rfl, hid'.symm⟩, fun _ => rfl⟩
    · exact ⟨fun he => absurd ((h.index id q).mp he).1 hn.fresh, fun he => absurd he.2.symm hid'⟩
  · rw [if_neg hqp, or_iff_left hqp, ← h.index]
    split_ifs with hid'
    · subst hid'
      rw [hid]
      exact ⟨fun he => absurd (Option.some.inj he).symm hqp, fun he => by cases he⟩
    · rfl

lemma levelInUse_withNode (h : Rep b S) (i : ℕ) :
    (withNode b' o m p).levelPool.InUse i ↔
      ∃ s, ∃ l ∈ S.rest o.side.bookSide o.price m p s, l.ptr = i := by
  refine (((b'.sameBlocks_link p m).levelPool_inUse i).trans (hn.level.inUse i)).trans ?_
  rw [h.levelInUse]
  constructor
  · rintro (⟨s, l, hl, rfl⟩ | rfl)
    · by_cases hat : s = o.side.bookSide ∧ l.price = o.price
      · obtain ⟨rfl, hprice⟩ := hat
        exact ⟨_, _, h.mem_rest.mpr (.inl ⟨rfl, rfl⟩), (hn.level.present l hl hprice).1.symm⟩
      · exact ⟨s, l, h.mem_rest.mpr (.inr ⟨hl, hat⟩), rfl⟩
    · exact ⟨_, _, h.mem_rest.mpr (.inl ⟨rfl, rfl⟩), rfl⟩
  · rintro ⟨s, l, hl, rfl⟩
    rcases h.mem_rest.mp hl with ⟨rfl, rfl⟩ | ⟨hl, -⟩
    · exact .inr rfl
    · exact .inl ⟨s, l, hl, rfl⟩

/-- The book with the new node has the shape with the new node. -/
lemma rep_withNode (h : Rep b S) (hid : b.orderIndex o.orderId = none) :
    Rep (withNode b' o m p) (S.rest o.side.bookSide o.price m p) where
  entries := hn.entries_withNode h
  level s l hl := by
    rcases h.mem_rest.mp hl with ⟨rfl, rfl⟩ | ⟨hl, hat⟩
    · obtain ⟨h1, h2, h3, h4⟩ := hn.levelRep_self h
      exact ⟨h1, h2, h3, h4⟩
    · obtain ⟨h1, h2, h3, h4⟩ := hn.levelRep_other h hl hat
      exact ⟨h1, h2, h3, h4⟩
  node s l hl q hq := hn.node_withNode h hl hq
  sides l hl l' hl' := by
    rcases h.mem_rest.mp hl with ⟨hs, rfl⟩ | ⟨hl, hat⟩ <;>
      rcases h.mem_rest.mp hl' with ⟨hs', rfl⟩ | ⟨hl', hat'⟩
    · rw [← hs] at hs'
      exact absurd hs' (by decide)
    · exact fun he => hn.level.ptr_ne h hl' hat' he.symm
    · exact hn.level.ptr_ne h hl hat
    · exact h.sides l hl l' hl'
  index := hn.index_withNode h hid
  orderPool := (b'.sameBlocks_link p m).orderPool_wf hn.orderPool
  levelPool := (b'.sameBlocks_link p m).levelPool_wf hn.level.levelPool
  orderInUse q := by
    rw [h.mem_nodes_rest, ← h.orderInUse]
    exact ((b'.sameBlocks_link p m).orderPool_inUse q).trans (hn.inUse q)
  levelInUse := hn.levelInUse_withNode h
  missed := (b'.sameBlocks_link p m).missed.trans (hn.level.missed.trans h.missed)

end NodeReady

end Rest

/-- `restOrder` with a free id appends one fresh node carrying the given order to the level of
its price, or stops the process because a pool is exhausted. -/
lemma restOrder (h : Rep b S) {orderId : OrderId} (hid : b.orderIndex orderId = none)
    (clientId : ClientId) (orderType : OrderType) (side : Side) (price : Price)
    (originalQty qty : Qty) (priorityTs : Nanos) :
    (∃ b' m p,
        b.restOrder clientId orderId orderType side price originalQty qty priorityTs = .ok b' ∧
        Rep b' (S.rest side.bookSide price m p) ∧ ¬ S.Mem p ∧
        b'.record p = ⟨orderId, clientId, b.symbol, orderType, side, price, originalQty, qty,
          priorityTs⟩ ∧
        (∀ q, q ≠ p → b'.record q = b.record q) ∧ b'.sent = b.sent ∧ b'.symbol = b.symbol ∧
        b'.orderPool.size = b.orderPool.size) ∨
      b.restOrder clientId orderId orderType side price originalQty qty priorityTs =
        .error .outOfSpace := by
  set o : BookOrder :=
    { orderId, clientId, symbol := b.symbol, orderType, side, price, originalQty, qty,
      priorityTs } with ho
  rcases MemPool.allocate_spec h.orderPool o with ⟨pool, hok, halloc⟩ | ⟨herr, -⟩
  swap
  · exact .inr (by simp only [SymbolOrderBook.restOrder, ← ho, herr]; rfl)
  rcases h.findOrAddLevel pool side.bookSide price with ⟨m, b₁, hlv, hpool, hr⟩ | herr
  swap
  · exact .inr (by
      simp only [SymbolOrderBook.restOrder, ← ho, hok, bind, Except.bind, herr])
  set p := b.orderPool.nextFreeIndex
  have hn : NodeReady b S o m p b₁ :=
    { level := hr
      fresh := fun hmem => h.orderPool.not_inUse_next ((h.orderInUse p).mpr hmem)
      order := fun q => by
        rw [SymbolOrderBook.order, hpool, halloc.get_eq]
        rfl
      orderPool := hpool ▸ halloc.wf
      size := by rw [hpool, halloc.size]
      inUse := fun q => by rw [hpool, halloc.inUse_iff h.orderPool] }
  have hsame := b₁.sameBlocks_link p m
  refine .inl ⟨withNode b₁ o m p, m, p, ?_, hn.rep_withNode h hid, hn.fresh,
    (hn.record_withNode p).trans (if_pos rfl),
    fun q hq => (hn.record_withNode q).trans (if_neg hq), hsame.sent.trans hr.sent,
    hsame.symbol.trans hr.symbol, hsame.orderSize.trans hn.size⟩
  simp only [SymbolOrderBook.restOrder, ← ho, hok, bind, Except.bind, hlv]
  rfl

end Rep

end MatchingEngine
