import MatchingEngine.Matcher.Runs

/-!
# When the pools suffice

No operation changes the size of a pool (`capacity_processRequest`), and a book needs one block
for each resting order, one for each price level, and one more of each kind that stays free.  So a
request goes through exactly if the ladder it leads to fits into the pools
(`Rep.processRequest_ok_iff`), and a run exactly if all the ladders on its way do (`run_ok_iff`).
Whether a run stops is thereby a question about ladders, like everything else about it.
-/

namespace MatchingEngine

open OrderedMaps LinkedLists

/-! ## What a computation yields -/

/-- The value the computation returns, if it returns one, satisfies `P`. -/
def Yields {α : Type} (x : Except Fault α) (P : α → Prop) : Prop :=
  match x with
  | .ok a => P a
  | .error _ => True

section Yields

variable {α β : Type} {P : α → Prop} {Q : β → Prop}

lemma Yields.of_ok {x : Except Fault α} {a : α} (h : Yields x P) (hx : x = .ok a) : P a := by
  subst hx
  exact h

lemma yields_ok {a : α} (h : P a) : Yields (.ok a) P := h

lemma yields_true (x : Except Fault α) : Yields x fun _ => True := by
  cases x <;> exact trivial

lemma Yields.bind {x : Except Fault α} {f : α → Except Fault β} (hx : Yields x P)
    (hf : ∀ a, P a → Yields (f a) Q) : Yields (x >>= f) Q := by
  cases x with
  | error e => exact trivial
  | ok a => exact hf a hx

end Yields

lemma MemPool.yields_allocate {T : Type} (p : MemPool T) (object : T) :
    Yields (p.allocate object) fun r => r.2.size = p.size := by
  rw [p.allocate_eq object rfl]
  split_ifs
  · exact (yields_true _).bind fun i _ => yields_ok rfl
  · exact trivial

lemma MemPool.yields_deallocate {T : Type} (p : MemPool T) (i : ℕ) :
    Yields (p.deallocate i) fun p' => p'.size = p.size := by
  unfold deallocate
  by_cases hlt : i < p.size
  · by_cases hfree : (p.store i).isFree = true
    · simp only [hlt, hfree]
      exact trivial
    · simp only [hlt, hfree]
      exact yields_ok rfl
  · simp only [hlt]
    exact trivial

namespace SymbolOrderBook

/-- The sizes of the order pool and of the level pool. -/
def capacity (b : SymbolOrderBook) : ℕ × ℕ := (b.orderPool.size, b.levelPool.size)

/-- The computation returns books with pools of the sizes `c`. -/
abbrev Keeps (c : ℕ × ℕ) (x : Except Fault SymbolOrderBook) : Prop :=
  Yields x fun b => b.capacity = c

lemma SameBlocks.capacity {b b' : SymbolOrderBook} (h : SameBlocks b b') :
    b'.capacity = b.capacity := by
  rw [SymbolOrderBook.capacity, h.orderSize, h.levelSize]
  rfl

variable (b : SymbolOrderBook)

lemma capacity_setLevels {s : BookSide} (m : OrderedMap Price ℕ s.before) :
    (b.setLevels s m).capacity = b.capacity := by
  cases s <;> rfl

/-! ## Book maintenance -/

lemma capacity_findOrAddLevel (s : BookSide) (price : Price) :
    Yields (b.findOrAddLevel s price) fun r => r.2.capacity = b.capacity := by
  unfold findOrAddLevel
  cases (b.levels s).find price with
  | some level => exact yields_ok rfl
  | none =>
    refine (b.levelPool.yields_allocate _).bind fun r hr => yields_ok ?_
    rw [capacity_setLevels, SymbolOrderBook.capacity, hr]
    rfl

lemma capacity_restOrder (clientId : ClientId) (orderId : OrderId) (orderType : OrderType)
    (side : Side) (price : Price) (originalQty qty : Qty) (now : Nanos) :
    Keeps b.capacity
      (b.restOrder clientId orderId orderType side price originalQty qty now) := by
  unfold restOrder
  refine (b.orderPool.yields_allocate _).bind fun r hr => ?_
  refine (capacity_findOrAddLevel _ side.bookSide price).bind fun r' hr' => yields_ok ?_
  refine ((r'.2.sameBlocks_link r.1 r'.1).capacity.trans hr').trans ?_
  rw [SymbolOrderBook.capacity, hr]
  rfl

lemma capacity_dropLevel (s : BookSide) (price : Price) (level : ℕ) :
    Keeps b.capacity (b.dropLevel s price level) := by
  refine (b.levelPool.yields_deallocate level).bind fun pool hpool => yields_ok ?_
  rw [SymbolOrderBook.capacity, hpool]
  exact congrArg (fun pool => (pool.size, b.levelPool.size)) (b.orderPool_setLevels _)

lemma capacity_removeOrder (order : ℕ) : Keeps b.capacity (b.removeOrder order) := by
  have hfree : ∀ (b' : SymbolOrderBook) (index : OrderId → Option ℕ),
      b'.capacity = b.capacity →
      Keeps b.capacity (b'.orderPool.deallocate order >>= fun orderPool =>
        pure { b' with orderIndex := index, orderPool := orderPool }) := by
    intro b' index hb'
    refine (b'.orderPool.yields_deallocate order).bind fun pool hpool => yields_ok ?_
    rw [← hb', SymbolOrderBook.capacity, hpool]
    rfl
  unfold removeOrder
  dsimp only
  cases (b.levels (b.order order).side.bookSide).find (b.order order).price with
  | none => exact yields_ok rfl
  | some level =>
    have hunlink := (b.sameBlocks_unlink order level).capacity
    dsimp only
    split_ifs
    · refine ((b.unlink order level).capacity_dropLevel _ _ level).bind fun b' hb' => ?_
      exact hfree b' _ (hb'.trans hunlink)
    · exact hfree _ _ hunlink

/-! ## Matching -/

section Matching

variable (clientId : ClientId) (orderId : OrderId) (side : Side)

lemma capacity_fillNode (price : Price) (node : ℕ) (leaves : Qty) :
    Yields (b.fillNode clientId orderId side price node leaves) fun r =>
      r.1.capacity = b.capacity := by
  unfold fillNode
  dsimp only
  split_ifs
  · exact (capacity_removeOrder _ node).bind fun b' hb' => yields_ok hb'
  · exact yields_ok rfl

lemma capacity_matchLevel (price : Price) (fuel : ℕ) (node : Option ℕ) (leaves : Qty) :
    Yields (matchLevel clientId orderId side price fuel node b leaves) fun r =>
      r.1.capacity = b.capacity := by
  induction fuel generalizing b node leaves with
  | zero =>
    cases node with
    | none => exact yields_ok rfl
    | some node => exact trivial
  | succ fuel ih =>
    cases node with
    | none => exact yields_ok rfl
    | some node =>
      unfold matchLevel
      dsimp only
      split_ifs
      · refine (b.capacity_fillNode clientId orderId side price node leaves).bind fun r hr => ?_
        rw [← hr]
        exact ih r.1 _ r.2
      · exact ih b _ leaves

lemma capacity_matchLevels (limitPrice : Price) (hasLimitPrice : Bool) (fuel : ℕ)
    (it : Option (Price × ℕ)) (leaves : Qty) :
    Yields (matchLevels clientId orderId side limitPrice hasLimitPrice fuel it b leaves) fun r =>
      r.1.capacity = b.capacity := by
  induction fuel generalizing b it leaves with
  | zero => exact trivial
  | succ fuel ih =>
    unfold matchLevels
    split_ifs
    · cases it with
      | none => exact yields_ok rfl
      | some it =>
        dsimp only
        split_ifs
        · exact yields_ok rfl
        · refine (b.capacity_matchLevel clientId orderId side it.1 _ _ leaves).bind fun r hr => ?_
          rw [← hr]
          exact ih r.1 _ r.2
    · exact yields_ok rfl

lemma capacity_matchIncoming (limitPrice : Price) (hasLimitPrice : Bool) (leaves : Qty) :
    Yields (b.matchIncoming clientId orderId side limitPrice hasLimitPrice leaves) fun r =>
      r.1.capacity = b.capacity :=
  b.capacity_matchLevels clientId orderId side limitPrice hasLimitPrice _ _ leaves

end Matching

/-! ## Requests -/

lemma capacity_placeOrder (i : Incoming) (orderType : OrderType) (price : Price) (qty : Qty)
    (now : Nanos) : Keeps b.capacity (Rep.placeOrder b i orderType price qty now) := by
  unfold Rep.placeOrder
  refine (b.capacity_matchIncoming ..).bind fun r hr => ?_
  dsimp only
  split_ifs
  · refine (r.1.capacity_restOrder ..).bind fun b' hb' => yields_ok ?_
    exact hb'.trans hr
  · exact yields_ok hr

lemma capacity_takeOrder (i : Incoming) (price : Price) (hasLimitPrice : Bool) (qty : Qty) :
    Keeps b.capacity (Rep.takeOrder b i price hasLimitPrice qty) := by
  unfold Rep.takeOrder
  refine (b.capacity_matchIncoming ..).bind fun r hr => ?_
  dsimp only
  split_ifs
  · exact yields_ok hr
  · exact yields_ok hr

lemma capacity_cancelOrder (clientId : ClientId) (orderId : OrderId) :
    Keeps b.capacity (b.cancelOrder clientId orderId) := by
  unfold cancelOrder
  cases b.orderIndex orderId with
  | none => exact yields_ok rfl
  | some order =>
    dsimp only
    split_ifs
    · exact yields_ok rfl
    · exact (b.capacity_removeOrder order).bind fun b' hb' => yields_ok hb'

lemma capacity_modifyOrder (clientId : ClientId) (orderId : OrderId) (newPrice : Price)
    (newQty : Qty) (now : Nanos) :
    Keeps b.capacity (b.modifyOrder clientId orderId newPrice newQty now) := by
  unfold modifyOrder
  cases b.orderIndex orderId with
  | none => exact yields_ok rfl
  | some order =>
    dsimp only
    split_ifs
    · exact yields_ok rfl
    · exact yields_ok rfl
    · refine (b.capacity_removeOrder order).bind fun b' hb' => ?_
      rw [← hb']
      exact capacity_placeOrder (b'.sendResponse _)
        ⟨b.symbol, clientId, orderId, (b.order order).side, some newPrice⟩ _ newPrice newQty now
    · exact yields_ok rfl
    · refine (b.capacity_removeOrder order).bind fun b' hb' => ?_
      refine (b'.capacity_restOrder ..).bind fun b'' hb'' => yields_ok ?_
      exact hb''.trans hb'
    · exact yields_ok rfl

end SymbolOrderBook

open SymbolOrderBook in
/-- No request changes the size of a pool. -/
lemma capacity_processRequest (b : SymbolOrderBook) (req : EngineOrderRequest) (now : Nanos) :
    Keeps b.capacity (processRequest b req now) := by
  have hopen : ∀ (dup : Bool) (r r' : EngineOrderResponse)
      (f : SymbolOrderBook → Except Fault SymbolOrderBook),
      (∀ b', Keeps b'.capacity (f b')) →
      Keeps b.capacity (if dup then .ok (b.sendResponse r) else f (b.sendResponse r')) := by
    intro dup r r' f hf
    split_ifs
    · exact yields_ok rfl
    · exact hf (b.sendResponse r')
  let i : Incoming := Ladder.incomingOf b.symbol req
  unfold processRequest
  split_ifs
  · exact yields_ok rfl
  · exact yields_ok rfl
  · cases req.orderType with
    | invalid => exact yields_ok rfl
    | limit =>
      exact hopen _ _ _ (fun b => Rep.placeOrder b i .limit req.price req.qty now) fun b' =>
        b'.capacity_placeOrder ..
    | market =>
      exact hopen _ _ _ (fun b => Rep.takeOrder b i invalidPrice false req.qty) fun b' =>
        b'.capacity_takeOrder ..
    | ioc =>
      exact hopen _ _ _ (fun b => Rep.takeOrder b i req.price true req.qty) fun b' =>
        b'.capacity_takeOrder ..
    | cancel => exact b.capacity_cancelOrder ..
    | modify => exact b.capacity_modifyOrder ..

/-! ## Ladders that fit -/

/-- Pools of the sizes `c` hold the ladder: a block for each order and for each level, and one of
each kind to spare. -/
def Ladder.Fits (c : ℕ × ℕ) (L : Ladder) : Prop :=
  L.all.length < c.1 ∧ (L .bid).length + (L .ask).length < c.2

instance (c : ℕ × ℕ) (L : Ladder) : Decidable (L.Fits c) := inferInstanceAs (Decidable (_ ∧ _))

namespace Rep

variable {b : SymbolOrderBook} {S : Shape}

lemma length_nodes (h : Rep b S) :
    (b.nodesOf .bid ++ b.nodesOf .ask).length = (view b S).all.length := by
  rw [Ladder.all, ← h.resting_eq, ← h.resting_eq, SymbolOrderBook.resting, SymbolOrderBook.resting,
    ← List.map_append, List.length_map]

lemma length_levels (h : Rep b S) :
    ((b.levels .bid).entries.map Prod.snd ++ (b.levels .ask).entries.map Prod.snd).length =
      (view b S .bid).length + (view b S .ask).length := by
  simp [h.entries, view]

/-- A book holds what fits into its pools. -/
lemma fits (h : Rep b S) : (view b S).Fits b.capacity where
  left := by
    rw [← h.length_nodes]
    exact h.orderPool.length_lt h.nodup_nodes fun p hp => (h.orderInUse p).mpr (h.mem_nodes.mp hp)
  right := by
    rw [← h.length_levels]
    exact h.levelPool.length_lt h.nodup_levels fun m hm =>
      (h.levelInUse m).mpr (h.mem_levels.mp hm)

lemma findOrAddLevel_of_fits (h : Rep b S) (pool : MemPool BookOrder) {o : OrderRecord}
    (hfits : ((view b S).rest o).Fits b.capacity) :
    ∃ r, { b with orderPool := pool }.findOrAddLevel o.side.bookSide o.price = .ok r := by
  have hlevels : { b with orderPool := pool }.levels o.side.bookSide =
      b.levels o.side.bookSide := by
    cases o.side.bookSide <;> rfl
  unfold SymbolOrderBook.findOrAddLevel
  rw [hlevels]
  cases hfind : (b.levels o.side.bookSide).find o.price with
  | some level => exact ⟨_, rfl⟩
  | none =>
    rcases h.levelPool.allocate_cases h.nodup_levels
      (fun m => h.mem_levels.trans (h.levelInUse m).symm) { price := o.price } with
      ⟨-, pool', hok, -⟩ | ⟨hfull, -⟩
    · exact ⟨_, by simp only [hok]; rfl⟩
    · -- the order would open the level that takes the last block
      have hnew : ∀ r ∈ view b S o.side.bookSide, r.1 ≠ o.price := by
        intro r hr
        obtain ⟨l, hl, rfl⟩ := List.mem_map.mp hr
        have hmem : (l.price, l.ptr) ∈ (b.levels o.side.bookSide).entries := by
          rw [h.entries]
          exact List.mem_map.mpr ⟨l, hl, rfl⟩
        exact OrderedMap.find_eq_none.mp hfind _ hmem
      have hself : ((view b S).rest o o.side.bookSide).length =
          (view b S o.side.bookSide).length + 1 := by
        rw [Ladder.rest, Function.update_self]
        exact length_insertBy _ hnew
      have hother : ∀ s, s ≠ o.side.bookSide → (view b S).rest o s = view b S s := fun s hs =>
        Function.update_of_ne hs ..
      have hlt : ((view b S).rest o .bid).length + ((view b S).rest o .ask).length <
        b.levelPool.size := hfits.2
      rw [h.length_levels] at hfull
      cases hs : o.side.bookSide with
      | bid =>
        rw [hs] at hself
        rw [hself, hother .ask (by simp [hs])] at hlt
        omega
      | ask =>
        rw [hs] at hself
        rw [hself, hother .bid (by simp [hs])] at hlt
        omega

/-- An order can be rested if the pools hold the ladder with it. -/
lemma restOrder_of_fits (h : Rep b S) {o : OrderRecord} (hsymb : o.symbol = b.symbol)
    (hfits : ((view b S).rest o).Fits b.capacity) :
    ∃ b', b.restOrder o.clientId o.orderId o.orderType o.side o.price o.originalQty o.qty
      o.priorityTs = .ok b' := by
  have hlt : ((view b S).rest o).all.length < b.orderPool.size := hfits.1
  rw [(h.view_wf.all_rest o).length_eq, List.length_cons, ← h.length_nodes] at hlt
  rcases h.orderPool.allocate_cases h.nodup_nodes
    (fun p => h.mem_nodes.trans (h.orderInUse p).symm) ⟨o, none, none⟩ with
    ⟨-, pool, hok, -⟩ | ⟨hfull, -⟩
  · obtain ⟨r, hlevel⟩ := h.findOrAddLevel_of_fits pool hfits
    have horder : (⟨o, none, none⟩ : BookOrder) =
        { orderId := o.orderId, clientId := o.clientId, symbol := b.symbol,
          orderType := o.orderType, side := o.side, price := o.price,
          originalQty := o.originalQty, qty := o.qty, priorityTs := o.priorityTs } := by
      rw [← hsymb]
    rw [SymbolOrderBook.restOrder, ← horder, hok]
    change ∃ b', ({ b with orderPool := pool }.findOrAddLevel o.side.bookSide o.price >>= _) =
      .ok b'
    rw [hlevel]
    exact ⟨_, rfl⟩
  · omega

/-- Placing an order goes through if the ladder it leads to fits. -/
lemma placeOrder_of_fits (h : Rep b S) {i : Incoming} (hsym : b.symbol = i.symbol) {price : Price}
    (hlim : i.limit = some price) {orderType : OrderType} {qty : Qty} {now : Nanos}
    (hfits : ((view b S).place i orderType price qty now).1.Fits b.capacity) :
    ∃ b', placeOrder b i orderType price qty now = .ok b' := by
  have hlim' : i.limit = if true then some price else none := by simpa using hlim
  obtain ⟨b₁, S₁, hrun, hrep₁, hview₁, hprog⟩ := h.matchIncoming hsym hlim' qty
  have hcap₁ : b₁.capacity = b.capacity := (b.capacity_matchIncoming ..).of_ok hrun
  rw [placeOrder, hrun]
  change ∃ b', (if ((view b S).trade i qty).leaves > 0 then _ else _) = Except.ok b'
  rw [Ladder.place] at hfits
  by_cases hpos : ((view b S).trade i qty).leaves > 0
  · rw [if_pos hpos, ← hview₁, ← hcap₁] at hfits
    obtain ⟨b₂, hok⟩ := hrep₁.restOrder_of_fits (hprog.symbol.trans hsym).symm hfits
    rw [if_pos hpos, hok]
    exact ⟨_, rfl⟩
  · rw [if_neg hpos]
    exact ⟨_, rfl⟩

variable {req : EngineOrderRequest} {now : Nanos}

/-- An opening request: answered if the id is taken, otherwise acknowledged and passed on. -/
lemma exists_ok_open {dup : Bool} {r : SymbolOrderBook} {x : Except Fault SymbolOrderBook}
    (h : dup = false → ∃ b', x = .ok b') : ∃ b', (if dup then .ok r else x) = .ok b' := by
  cases dup with
  | true => exact ⟨r, rfl⟩
  | false => exact h rfl

lemma addLimitOrder_of_fits (h : Rep b S) (htype : req.orderType = .limit)
    (hfits : ((view b S).open_ b.symbol req now).1.Fits b.capacity) :
    ∃ b', b.addLimitOrder req.clientId req.orderId req.side req.price req.qty now = .ok b' := by
  have hmarket : req.orderType ≠ .market := by simp [htype]
  refine exists_ok_open fun hdup => ?_
  rw [Ladder.open_, h.isSome_find_view, hdup] at hfits
  simp only [if_pos htype] at hfits
  exact (h.withSent _).placeOrder_of_fits (i := Ladder.incomingOf b.symbol req) rfl
    (if_neg hmarket) hfits

lemma addMarketOrder_ok (h : Rep b S) (htype : req.orderType = .market) :
    ∃ b', b.addMarketOrder req.clientId req.orderId req.side req.qty = .ok b' := by
  refine exists_ok_open fun _ => ?_
  have hlim : (Ladder.incomingOf b.symbol req).limit =
      if false then some invalidPrice else none := by simp [Ladder.incomingOf, htype]
  obtain ⟨b', -, hok, -⟩ := (h.withSent _).takeOrder_ok rfl hlim req.qty
  exact ⟨b', hok⟩

lemma addIOCOrder_ok (h : Rep b S) (htype : req.orderType = .ioc) :
    ∃ b', b.addIOCOrder req.clientId req.orderId req.side req.price req.qty = .ok b' := by
  refine exists_ok_open fun _ => ?_
  have hlim : (Ladder.incomingOf b.symbol req).limit =
      if true then some req.price else none := by simp [Ladder.incomingOf, htype]
  obtain ⟨b', -, hok, -⟩ := (h.withSent _).takeOrder_ok rfl hlim req.qty
  exact ⟨b', hok⟩

lemma cancelOrder_ok (h : Rep b S) (clientId : ClientId) (orderId : OrderId) :
    ∃ b', b.cancelOrder clientId orderId = .ok b' := by
  unfold SymbolOrderBook.cancelOrder
  cases hidx : b.orderIndex orderId with
  | none => exact ⟨_, rfl⟩
  | some p =>
    dsimp only
    split_ifs
    · exact ⟨_, rfl⟩
    · obtain ⟨hp, hid, -⟩ := h.index_eq_some hidx
      obtain ⟨b₁, -, hok, -⟩ := h.removeOrder_view hp hid
      rw [hok]
      exact ⟨_, rfl⟩

lemma modifyOrder_of_fits (h : Rep b S)
    (hfits : ((view b S).modifyNamed b.symbol req now).1.Fits b.capacity) :
    ∃ b', b.modifyOrder req.clientId req.orderId req.price req.qty now = .ok b' := by
  unfold SymbolOrderBook.modifyOrder
  rw [Ladder.modifyNamed] at hfits
  cases hidx : b.orderIndex req.orderId with
  | none => exact ⟨_, rfl⟩
  | some p =>
    obtain ⟨hp, hid, hfind⟩ := h.index_eq_some hidx
    obtain ⟨b₁, S₁, hok, hrep₁, hview₁, -, -, hsymb₁⟩ := h.removeOrder_view hp hid
    have hcap₁ : b₁.capacity = b.capacity := (b.capacity_removeOrder p).of_ok hok
    rw [hfind] at hfits
    change (if (b.record p).clientId ≠ req.clientId then _ else _ : Ladder × _).1.Fits _ at hfits
    change ∃ b', (if (b.record p).clientId ≠ req.clientId then _
      else if req.qty = 0 ∨ req.qty = invalidQty ∨ req.price ≤ 0 then _
      else if req.price ≠ (b.record p).price then _ else if req.qty < (b.record p).qty then _
      else if req.qty > (b.record p).qty then _ else _) = Except.ok b'
    by_cases hclient : (b.record p).clientId ≠ req.clientId
    · rw [if_pos hclient]
      exact ⟨_, rfl⟩
    rw [if_neg hclient, Ladder.amend] at hfits
    rw [if_neg hclient]
    split_ifs with hinvalid hprice hlt hgt
    · exact ⟨_, rfl⟩
    · -- a new price
      simp only [if_pos hprice, ← hview₁, ← hcap₁] at hfits
      rw [hok]
      exact (hrep₁.withSent (b₁.sent ++ [.response ⟨.modified, req.clientId, b₁.symbol, req.orderId,
        req.orderId, (b.record p).side, req.price, 0, req.qty⟩])).placeOrder_of_fits
        (i := ⟨b.symbol, req.clientId, req.orderId, (b.record p).side, some req.price⟩) hsymb₁ rfl
        hfits
    · exact ⟨_, rfl⟩
    · -- a larger quantity
      simp only [if_neg hprice, if_neg hlt, if_pos hgt, ← hview₁, ← hcap₁] at hfits
      obtain ⟨b₂, hok₂⟩ := hrep₁.restOrder_of_fits hsymb₁.symm hfits
      rw [hok]
      change ∃ b', (b₁.restOrder req.clientId req.orderId (b.record p).orderType
        (b.record p).side (b.record p).price req.qty req.qty now >>= _) = Except.ok b'
      rw [hok₂]
      exact ⟨_, rfl⟩
    · exact ⟨_, rfl⟩

/-- A request goes through exactly if the ladder it leads to fits into the pools. -/
theorem processRequest_ok_iff (h : Rep b S) (req : EngineOrderRequest) (now : Nanos) :
    (∃ b', MatchingEngine.processRequest b req now = .ok b') ↔
      ((view b S).process b.symbol req now).1.Fits b.capacity := by
  constructor
  · rintro ⟨b', hok⟩
    obtain ⟨S', hrep', hview', -⟩ := (h.processRequest req now).of_ok hok
    rw [← hview', ← (capacity_processRequest b req now).of_ok hok]
    exact hrep'.fits
  · intro hfits
    unfold MatchingEngine.processRequest
    split_ifs with hqty hprice
    · exact ⟨_, rfl⟩
    · exact ⟨_, rfl⟩
    rw [Ladder.process] at hfits
    have hvalid : Ladder.invalidReq req = true ↔ req.orderType = .invalid := by
      simp only [Ladder.invalidReq, decide_eq_true_eq]
      exact ⟨fun hor => hor.resolve_right (not_or.mpr ⟨hqty, hprice⟩), .inl⟩
    cases htype : req.orderType with
    | invalid => exact ⟨_, rfl⟩
    | limit =>
      simp only [htype, hvalid, reduceCtorEq, if_false] at hfits
      exact h.addLimitOrder_of_fits htype hfits
    | market => exact h.addMarketOrder_ok htype
    | ioc => exact h.addIOCOrder_ok htype
    | cancel => exact h.cancelOrder_ok ..
    | modify =>
      simp only [htype, hvalid, reduceCtorEq, if_false] at hfits
      exact h.modifyOrder_of_fits hfits

end Rep

/-! ## Runs -/

/-- The ladder fits into the pools of a fresh book. -/
abbrev Ladder.FitsNew (L : Ladder) : Prop := L.Fits (maxRestingOrders, maxPriceLevels)

/-- The pools of a book after a run have the sizes they were created with. -/
lemma capacity_run {symbol : Symbol} {reqs : List (EngineOrderRequest × Nanos)}
    {b : SymbolOrderBook} (hb : run (.new symbol) reqs = .ok b) :
    b.capacity = (maxRestingOrders, maxPriceLevels) := by
  have hrun := run_induction symbol
    (I := fun _ b => b.capacity = (maxRestingOrders, maxPriceLevels)) rfl
    (fun _ b _ req now b' _ _ hs ih =>
      ((capacity_processRequest b req now).of_ok hs.process).trans ih) reqs
  exact (hrun.of_ok hb).2

/-- A run from the empty book goes through exactly if all ladders on its way fit into the pools. -/
theorem run_ok_iff (symbol : Symbol) (reqs : List (EngineOrderRequest × Nanos)) :
    (∃ b, run (.new symbol) reqs = .ok b) ↔
      ∀ pre, pre <+: reqs → (Ladder.empty.runAll symbol pre).1.FitsNew := by
  induction reqs using List.reverseRecOn with
  | nil =>
    refine ⟨fun _ pre hpre => ?_, fun _ => ⟨_, rfl⟩⟩
    rw [List.prefix_nil.mp hpre]
    change Ladder.empty.FitsNew
    decide
  | append_singleton reqs r ih =>
    obtain ⟨req, now⟩ := r
    have hsplit : (∀ pre, pre <+: reqs ++ [(req, now)] →
        (Ladder.empty.runAll symbol pre).1.FitsNew) ↔
        (∀ pre, pre <+: reqs → (Ladder.empty.runAll symbol pre).1.FitsNew) ∧
          (Ladder.empty.runAll symbol (reqs ++ [(req, now)])).1.FitsNew := by
      simp only [List.prefix_concat_iff]
      constructor
      · exact fun h => ⟨fun pre hpre => h pre (.inr hpre), h _ (.inl rfl)⟩
      · rintro ⟨h, hlast⟩ pre (rfl | hpre)
        · exact hlast
        · exact h pre hpre
    rw [hsplit, ← ih, run_append]
    cases hrun : run (.new symbol) reqs with
    | error e => simp [Except.bind]
    | ok b =>
      obtain ⟨S, hS⟩ := (run_refines symbol reqs).of_ok hrun
      have hstep := hS.rep.processRequest_ok_iff req now
      rw [capacity_run hrun, hS.view, hS.symbol] at hstep
      have hone : (Except.ok b).bind (fun b => run b [(req, now)]) = processRequest b req now := by
        change (processRequest b req now).bind Except.ok = _
        cases processRequest b req now <;> rfl
      rw [hone, hstep, Ladder.runAll_concat]
      exact ⟨fun hfits => ⟨⟨b, rfl⟩, hfits⟩, fun hfits => hfits.2⟩

end MatchingEngine
