import MatchingEngine.Matcher.OrderBook

/-!
# Reads after writes

What each write of `Matcher/OrderBook.lean` changes, and that it changes nothing else.
`SameBlocks` is the frame of a write to the contents of pool blocks: maps, index, logs and
free flags stay as they are.  `link` and `unlink` are accounted for by the links they write
(`order_link`, `order_unlink`) and the level fields they write (`level_link`,
`level_unlink`).
-/

namespace MatchingEngine

open OrderedMaps

namespace SymbolOrderBook

/-! ## Reading a book -/

/-- The links of the nodes, as functions on pointers. -/
def prevOf (b : SymbolOrderBook) (p : ℕ) : Option ℕ := (b.order p).prev
def nextOf (b : SymbolOrderBook) (p : ℕ) : Option ℕ := (b.order p).next

/-- The order a pointer designates, without its links. -/
def record (b : SymbolOrderBook) (p : ℕ) : OrderRecord := (b.order p).toOrderRecord

/-! ## Writes to block contents -/

/-- `b'` arises from `b` by writing to the contents of pool blocks only. -/
structure SameBlocks (b b' : SymbolOrderBook) : Prop where
  symbol : b'.symbol = b.symbol
  levels : ∀ s, b'.levels s = b.levels s
  orderIndex : b'.orderIndex = b.orderIndex
  sent : b'.sent = b.sent
  missed : b'.missedRemovals = b.missedRemovals
  orderSize : b'.orderPool.size = b.orderPool.size
  orderNext : b'.orderPool.nextFreeIndex = b.orderPool.nextFreeIndex
  orderFree : ∀ i, (b'.orderPool.store i).isFree = (b.orderPool.store i).isFree
  levelSize : b'.levelPool.size = b.levelPool.size
  levelNext : b'.levelPool.nextFreeIndex = b.levelPool.nextFreeIndex
  levelFree : ∀ i, (b'.levelPool.store i).isFree = (b.levelPool.store i).isFree

namespace SameBlocks

variable {b b' b'' : SymbolOrderBook}

lemma trans (h : SameBlocks b b') (h' : SameBlocks b' b'') : SameBlocks b b'' where
  symbol := h'.symbol.trans h.symbol
  levels s := (h'.levels s).trans (h.levels s)
  orderIndex := h'.orderIndex.trans h.orderIndex
  sent := h'.sent.trans h.sent
  missed := h'.missed.trans h.missed
  orderSize := h'.orderSize.trans h.orderSize
  orderNext := h'.orderNext.trans h.orderNext
  orderFree i := (h'.orderFree i).trans (h.orderFree i)
  levelSize := h'.levelSize.trans h.levelSize
  levelNext := h'.levelNext.trans h.levelNext
  levelFree i := (h'.levelFree i).trans (h.levelFree i)

lemma orderPool_wf (h : SameBlocks b b') (hb : b.orderPool.WF) : b'.orderPool.WF :=
  ⟨by rw [h.orderNext, h.orderSize]; exact hb.next_lt,
    by rw [h.orderNext, h.orderFree]; exact hb.next_free⟩

lemma levelPool_wf (h : SameBlocks b b') (hb : b.levelPool.WF) : b'.levelPool.WF :=
  ⟨by rw [h.levelNext, h.levelSize]; exact hb.next_lt,
    by rw [h.levelNext, h.levelFree]; exact hb.next_free⟩

lemma orderPool_inUse (h : SameBlocks b b') (i : ℕ) :
    b'.orderPool.InUse i ↔ b.orderPool.InUse i := by
  rw [MemPool.InUse, MemPool.InUse, h.orderSize, h.orderFree]

lemma levelPool_inUse (h : SameBlocks b b') (i : ℕ) :
    b'.levelPool.InUse i ↔ b.levelPool.InUse i := by
  rw [MemPool.InUse, MemPool.InUse, h.levelSize, h.levelFree]

end SameBlocks

section Writes

variable (b : SymbolOrderBook) (p l : ℕ) (f : BookOrder → BookOrder)
  (g : PriceLevel → PriceLevel)

lemma sameBlocks_updateOrder : SameBlocks b (b.updateOrder p f) :=
  ⟨rfl, fun s => by cases s <;> rfl, rfl, rfl, rfl, rfl, rfl,
    fun i => MemPool.isFree_modify _ _ _ _, rfl, rfl, fun _ => rfl⟩

lemma sameBlocks_updateLevel : SameBlocks b (b.updateLevel l g) :=
  ⟨rfl, fun s => by cases s <;> rfl, rfl, rfl, rfl, rfl, rfl, fun _ => rfl, rfl, rfl,
    fun i => MemPool.isFree_modify _ _ _ _⟩

lemma order_updateOrder (q : ℕ) :
    (b.updateOrder p f).order q = if q = p then f (b.order q) else b.order q := by
  split_ifs with h
  · subst h
    exact MemPool.get_modify_self _ _ _
  · exact MemPool.get_modify_of_ne _ _ h

lemma level_updateLevel (m : ℕ) :
    (b.updateLevel l g).level m = if m = l then g (b.level m) else b.level m := by
  split_ifs with h
  · subst h
    exact MemPool.get_modify_self _ _ _
  · exact MemPool.get_modify_of_ne _ _ h

@[simp] lemma order_updateLevel (q : ℕ) : (b.updateLevel l g).order q = b.order q := rfl
@[simp] lemma level_updateOrder (m : ℕ) : (b.updateOrder p f).level m = b.level m := rfl

end Writes

/-! ## Appending and unlinking nodes -/

section Links

variable (b : SymbolOrderBook) (p l : ℕ) (node n : Option ℕ)

lemma sameBlocks_setNext : SameBlocks b (b.setNext node l n) := by
  cases node with
  | none => exact sameBlocks_updateLevel _ _ _
  | some p => exact sameBlocks_updateOrder _ _ _

lemma sameBlocks_setPrev : SameBlocks b (b.setPrev node l n) := by
  cases node with
  | none => exact sameBlocks_updateLevel _ _ _
  | some p => exact sameBlocks_updateOrder _ _ _

lemma order_setNext (q : ℕ) :
    (b.setNext node l n).order q =
      { b.order q with next := if some q = node then n else (b.order q).next } := by
  cases node with
  | none => simp [setNext]
  | some p =>
    simp only [setNext, order_updateOrder, Option.some.injEq]
    split_ifs <;> rfl

lemma order_setPrev (q : ℕ) :
    (b.setPrev node l n).order q =
      { b.order q with prev := if some q = node then n else (b.order q).prev } := by
  cases node with
  | none => simp [setPrev]
  | some p =>
    simp only [setPrev, order_updateOrder, Option.some.injEq]
    split_ifs <;> rfl

lemma level_setNext (m : ℕ) :
    (b.setNext node l n).level m =
      { b.level m with head := if node = none ∧ m = l then n else (b.level m).head } := by
  cases node with
  | none =>
    simp only [setNext, level_updateLevel, true_and]
    split_ifs <;> rfl
  | some p => simp [setNext]

lemma level_setPrev (m : ℕ) :
    (b.setPrev node l n).level m =
      { b.level m with tail := if node = none ∧ m = l then n else (b.level m).tail } := by
  cases node with
  | none =>
    simp only [setPrev, level_updateLevel, true_and]
    split_ifs <;> rfl
  | some p => simp [setPrev]

lemma sameBlocks_link : SameBlocks b (b.link p l) :=
  ((sameBlocks_updateOrder _ _ _).trans (sameBlocks_setNext _ _ _ _)).trans
    (sameBlocks_updateLevel _ _ _)

lemma sameBlocks_unlink : SameBlocks b (b.unlink p l) :=
  ((sameBlocks_setNext _ _ _ _).trans (sameBlocks_setPrev _ _ _ _)).trans
    (sameBlocks_updateLevel _ _ _)

/-- Linking writes the links of the new node and of the old tail only. -/
lemma order_link (q : ℕ) :
    (b.link p l).order q =
      { b.order q with
        prev := if q = p then (b.level l).tail else (b.order q).prev
        next := if some q = (b.level l).tail then some p
          else if q = p then none else (b.order q).next } := by
  simp only [link, order_updateLevel, order_setNext, order_updateOrder]
  split_ifs <;> rfl

lemma level_link (m : ℕ) :
    (b.link p l).level m =
      if m = l then
        { b.level m with
          head := if (b.level l).tail = none then some p else (b.level l).head
          tail := some p
          orderCount := (b.level l).orderCount + 1 }
      else b.level m := by
  simp only [link, level_updateLevel, level_setNext, level_updateOrder]
  by_cases h : m = l <;> simp [h]

/-- Unlinking writes the facing links of the two neighbours only. -/
lemma order_unlink (q : ℕ) :
    (b.unlink p l).order q =
      { b.order q with
        prev := if some q = (b.order p).next then (b.order p).prev else (b.order q).prev
        next := if some q = (b.order p).prev then (b.order p).next
          else (b.order q).next } := by
  simp only [unlink, order_updateLevel, order_setPrev, order_setNext]

lemma level_unlink (m : ℕ) :
    (b.unlink p l).level m =
      if m = l then
        { b.level m with
          head := if (b.order p).prev = none then (b.order p).next else (b.level l).head
          tail := if (b.order p).next = none then (b.order p).prev else (b.level l).tail
          orderCount := (b.level l).orderCount - 1 }
      else b.level m := by
  simp only [unlink, level_updateLevel, level_setPrev, level_setNext]
  by_cases h : m = l <;> simp [h]

end Links

/-! ## Replacing a map -/

section Maps

variable (b : SymbolOrderBook) {s : BookSide} (m : OrderedMap Price ℕ s.before)

@[simp] lemma levels_setLevels_self : (b.setLevels s m).levels s = m := by cases s <;> rfl

lemma levels_setLevels_of_ne {s' : BookSide} (h : s' ≠ s) :
    (b.setLevels s m).levels s' = b.levels s' := by
  cases s <;> cases s' <;> first | rfl | exact absurd rfl h

@[simp] lemma symbol_setLevels : (b.setLevels s m).symbol = b.symbol := by cases s <;> rfl
@[simp] lemma orderIndex_setLevels : (b.setLevels s m).orderIndex = b.orderIndex := by
  cases s <;> rfl
@[simp] lemma orderPool_setLevels : (b.setLevels s m).orderPool = b.orderPool := by
  cases s <;> rfl
@[simp] lemma levelPool_setLevels : (b.setLevels s m).levelPool = b.levelPool := by
  cases s <;> rfl
@[simp] lemma sent_setLevels : (b.setLevels s m).sent = b.sent := by cases s <;> rfl
@[simp] lemma missedRemovals_setLevels :
    (b.setLevels s m).missedRemovals = b.missedRemovals := by cases s <;> rfl

end Maps

end SymbolOrderBook

end MatchingEngine
