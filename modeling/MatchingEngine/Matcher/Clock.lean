import MatchingEngine.Matcher.MatchingCore

/-!
# The clock does not matter

The book stamps every order it rests with the time, and never looks at the stamps again.
`SymbolOrderBook.untimed` wipes them, and every operation commutes with wiping: on the wiped
book it reads the same values, takes the same branches, hands out the same blocks and writes the
same messages.  So two books that have processed the same requests differ in their time stamps
only, whatever the clock read (`run_untimed`).
-/

namespace MatchingEngine

open OrderedMaps

/-- Two computations in sequence commute with a change of their values if each of them does. -/
lemma map_bind_of_map {ε α α' β β' : Type} {g : α → α'} {h : β → β'} {x : Except ε α}
    {x' : Except ε α'} {f : α → Except ε β} {f' : α' → Except ε β'} (hx : g <$> x = x')
    (hf : ∀ a, h <$> f a = f' (g a)) : h <$> (x >>= f) = x' >>= f' := by
  subst hx
  cases x with
  | error e => rfl
  | ok a => exact hf a

def BookOrder.untimed (o : BookOrder) : BookOrder := { o with priorityTs := 0 }

namespace SymbolOrderBook

/-- The book with the time stamps of all orders, live and freed, wiped. -/
def untimed (b : SymbolOrderBook) : SymbolOrderBook :=
  { b with orderPool := b.orderPool.map BookOrder.untimed }

variable (b : SymbolOrderBook)

/-! ## Reads -/

@[simp] lemma levels_untimed (s : BookSide) : b.untimed.levels s = b.levels s := by
  cases s <;> rfl

@[simp] lemma orderIndex_untimed : b.untimed.orderIndex = b.orderIndex := rfl

@[simp] lemma level_untimed (l : ℕ) : b.untimed.level l = b.level l := rfl

@[simp] lemma order_untimed (p : ℕ) : b.untimed.order p = (b.order p).untimed := rfl

/-! ## Writes -/

lemma untimed_setLevels (s : BookSide) (m : OrderedMap Price ℕ s.before) :
    (b.setLevels s m).untimed = b.untimed.setLevels s m := by
  cases s <;> rfl

lemma untimed_updateOrder (p : ℕ) {f : BookOrder → BookOrder}
    (hf : ∀ o, (f o).untimed = f o.untimed) :
    (b.updateOrder p f).untimed = b.untimed.updateOrder p f := by
  rw [updateOrder, untimed, MemPool.map_modify _ _ hf]
  rfl

lemma untimed_updateLevel (l : ℕ) (f : PriceLevel → PriceLevel) :
    (b.updateLevel l f).untimed = b.untimed.updateLevel l f := rfl

lemma untimed_sendResponse (r : EngineOrderResponse) :
    (b.sendResponse r).untimed = b.untimed.sendResponse r := rfl

lemma untimed_sendBookUpdate (type : MarketUpdateType) (orderId : OrderId) (side : Side)
    (price : Price) (qty : Qty) :
    (b.sendBookUpdate type orderId side price qty).untimed =
      b.untimed.sendBookUpdate type orderId side price qty := rfl

/-! ## Book maintenance -/

lemma untimed_findOrAddLevel (s : BookSide) (price : Price) :
    Prod.map id untimed <$> b.findOrAddLevel s price = b.untimed.findOrAddLevel s price := by
  unfold findOrAddLevel
  rw [levels_untimed]
  cases (b.levels s).find price with
  | some level => rfl
  | none =>
    change _ = b.levelPool.allocate { price := price } >>= _
    cases b.levelPool.allocate { price := price } with
    | error e => rfl
    | ok r =>
      refine congrArg (fun b => Except.ok (r.1, b)) ?_
      exact untimed_setLevels { b with levelPool := r.2 } s _

lemma untimed_setNext (node : Option ℕ) (level : ℕ) (n : Option ℕ) :
    (b.setNext node level n).untimed = b.untimed.setNext node level n := by
  cases node with
  | none => rfl
  | some p => exact b.untimed_updateOrder p fun o => rfl

lemma untimed_setPrev (node : Option ℕ) (level : ℕ) (n : Option ℕ) :
    (b.setPrev node level n).untimed = b.untimed.setPrev node level n := by
  cases node with
  | none => rfl
  | some p => exact b.untimed_updateOrder p fun o => rfl

lemma untimed_link (order level : ℕ) :
    (b.link order level).untimed = b.untimed.link order level := by
  unfold link
  rw [untimed_updateLevel, untimed_setNext, untimed_updateOrder b order, level_untimed]
  exact fun o => rfl

lemma untimed_unlink (order level : ℕ) :
    (b.unlink order level).untimed = b.untimed.unlink order level := by
  unfold unlink
  rw [untimed_updateLevel, untimed_setPrev, untimed_setNext, order_untimed]
  rfl

lemma untimed_restOrder (clientId : ClientId) (orderId : OrderId) (orderType : OrderType)
    (side : Side) (price : Price) (originalQty qty : Qty) (now : Nanos) :
    untimed <$> b.restOrder clientId orderId orderType side price originalQty qty now =
      b.untimed.restOrder clientId orderId orderType side price originalQty qty 0 := by
  unfold restOrder
  refine map_bind_of_map (b.orderPool.map_allocate BookOrder.untimed _) fun r => ?_
  refine map_bind_of_map (untimed_findOrAddLevel { b with orderPool := r.2 } side.bookSide price)
    fun r' => ?_
  obtain ⟨level, b'⟩ := r'
  change Except.ok { (b'.link r.1 level).untimed with
    orderIndex := Function.update (b'.link r.1 level).untimed.orderIndex orderId (some r.1) } = _
  rw [untimed_link]
  rfl

lemma untimed_dropLevel (s : BookSide) (price : Price) (level : ℕ) :
    untimed <$> b.dropLevel s price level = b.untimed.dropLevel s price level := by
  unfold dropLevel
  refine map_bind_of_map (g := id) (id_map _) fun levelPool => ?_
  cases s <;> rfl

lemma untimed_removeOrder (order : ℕ) :
    untimed <$> b.removeOrder order = b.untimed.removeOrder order := by
  have hfree : ∀ (b : SymbolOrderBook) (id : OrderId),
      untimed <$> (b.orderPool.deallocate order >>= fun orderPool =>
        pure { b with
          orderIndex := Function.update b.orderIndex id none, orderPool := orderPool }) =
        (b.untimed.orderPool.deallocate order >>= fun orderPool =>
          pure { b.untimed with orderIndex := Function.update b.orderIndex id none,
                                orderPool := orderPool }) := fun b id =>
    map_bind_of_map (b.orderPool.map_deallocate BookOrder.untimed order) fun _ => rfl
  unfold removeOrder
  simp only [order_untimed, BookOrder.untimed, levels_untimed]
  cases (b.levels (b.order order).side.bookSide).find (b.order order).price with
  | none => rfl
  | some level =>
    simp only [← untimed_unlink, level_untimed]
    split_ifs
    · exact map_bind_of_map (untimed_dropLevel _ _ _ _) fun b' => hfree b' _
    · exact hfree _ _

/-! ## Matching -/

section Matching

variable (clientId : ClientId) (orderId : OrderId) (side : Side)

lemma untimed_executeFill (price : Price) (node : ℕ) (fillQty leaves : Qty) :
    (b.executeFill clientId orderId side price node fillQty leaves).untimed =
      b.untimed.executeFill clientId orderId side price node fillQty leaves := by
  unfold executeFill
  rw [untimed_sendBookUpdate, untimed_sendResponse, untimed_sendResponse,
    untimed_updateOrder b node]
  · rfl
  · exact fun o => rfl

lemma untimed_fillNode (price : Price) (node : ℕ) (leaves : Qty) :
    Prod.map untimed id <$> b.fillNode clientId orderId side price node leaves =
      b.untimed.fillNode clientId orderId side price node leaves := by
  unfold fillNode
  simp only [order_untimed, ← untimed_executeFill]
  change _ = if (b.order node).qty - min leaves (b.order node).qty = 0 then _ else _
  split_ifs
  · exact map_bind_of_map (untimed_removeOrder _ _) fun b' => rfl
  · rfl

lemma untimed_matchLevel (price : Price) (fuel : ℕ) (node : Option ℕ) (leaves : Qty) :
    Prod.map untimed id <$> matchLevel clientId orderId side price fuel node b leaves =
      matchLevel clientId orderId side price fuel node b.untimed leaves := by
  induction fuel generalizing b node leaves with
  | zero => cases node <;> rfl
  | succ fuel ih =>
    cases node with
    | none => rfl
    | some node =>
      unfold matchLevel
      simp only [order_untimed]
      change _ = if (b.order node).clientId ≠ clientId ∧ leaves > 0 then _ else _
      split_ifs
      · exact map_bind_of_map (untimed_fillNode ..) fun r => ih r.1 _ r.2
      · exact ih b _ leaves

lemma untimed_matchLevels (limitPrice : Price) (hasLimitPrice : Bool) (fuel : ℕ)
    (it : Option (Price × ℕ)) (leaves : Qty) :
    Prod.map untimed id <$>
        matchLevels clientId orderId side limitPrice hasLimitPrice fuel it b leaves =
      matchLevels clientId orderId side limitPrice hasLimitPrice fuel it b.untimed leaves := by
  induction fuel generalizing b it leaves with
  | zero => rfl
  | succ fuel ih =>
    unfold matchLevels
    split_ifs
    · cases it with
      | none => rfl
      | some it =>
        obtain ⟨levelPrice, level⟩ := it
        dsimp only
        split_ifs
        · rfl
        · refine map_bind_of_map (untimed_matchLevel b clientId orderId side levelPrice _ _ leaves)
            fun r => ?_
          simp only [Prod.map_fst, levels_untimed]
          exact ih r.1 _ r.2
    · rfl

lemma untimed_matchIncoming (limitPrice : Price) (hasLimitPrice : Bool) (leaves : Qty) :
    Prod.map untimed id <$>
        b.matchIncoming clientId orderId side limitPrice hasLimitPrice leaves =
      b.untimed.matchIncoming clientId orderId side limitPrice hasLimitPrice leaves := by
  unfold matchIncoming
  rw [untimed_matchLevels, levels_untimed]

end Matching

/-! ## Requests -/

lemma untimed_addLimitOrder (clientId : ClientId) (orderId : OrderId) (side : Side)
    (price : Price) (qty : Qty) (now : Nanos) :
    untimed <$> b.addLimitOrder clientId orderId side price qty now =
      b.untimed.addLimitOrder clientId orderId side price qty 0 := by
  unfold addLimitOrder
  rw [orderIndex_untimed]
  split_ifs
  · rfl
  · refine map_bind_of_map (untimed_matchIncoming ..) fun r => ?_
    obtain ⟨b', leaves⟩ := r
    change untimed <$> (if leaves > 0 then _ else _) = if leaves > 0 then _ else _
    split_ifs
    · exact map_bind_of_map (untimed_restOrder ..) fun b'' => rfl
    · rfl

lemma untimed_addMarketOrder (clientId : ClientId) (orderId : OrderId) (side : Side) (qty : Qty) :
    untimed <$> b.addMarketOrder clientId orderId side qty =
      b.untimed.addMarketOrder clientId orderId side qty := by
  unfold addMarketOrder
  rw [orderIndex_untimed]
  split_ifs
  · rfl
  · refine map_bind_of_map (untimed_matchIncoming ..) fun r => ?_
    obtain ⟨b', leaves⟩ := r
    change untimed <$> (if leaves > 0 then _ else _) = if leaves > 0 then _ else _
    split_ifs <;> rfl

lemma untimed_addIOCOrder (clientId : ClientId) (orderId : OrderId) (side : Side) (price : Price)
    (qty : Qty) :
    untimed <$> b.addIOCOrder clientId orderId side price qty =
      b.untimed.addIOCOrder clientId orderId side price qty := by
  unfold addIOCOrder
  rw [orderIndex_untimed]
  split_ifs
  · rfl
  · refine map_bind_of_map (untimed_matchIncoming ..) fun r => ?_
    obtain ⟨b', leaves⟩ := r
    change untimed <$> (if leaves > 0 then _ else _) = if leaves > 0 then _ else _
    split_ifs <;> rfl

lemma untimed_cancelOrder (clientId : ClientId) (orderId : OrderId) :
    untimed <$> b.cancelOrder clientId orderId = b.untimed.cancelOrder clientId orderId := by
  unfold cancelOrder
  rw [orderIndex_untimed]
  cases b.orderIndex orderId with
  | none => rfl
  | some order =>
    simp only [order_untimed]
    change _ = if (b.order order).clientId ≠ clientId then _ else _
    split_ifs
    · rfl
    · exact map_bind_of_map (untimed_removeOrder ..) fun b' => rfl

lemma untimed_modifyOrder (clientId : ClientId) (orderId : OrderId) (newPrice : Price)
    (newQty : Qty) (now : Nanos) :
    untimed <$> b.modifyOrder clientId orderId newPrice newQty now =
      b.untimed.modifyOrder clientId orderId newPrice newQty 0 := by
  unfold modifyOrder
  rw [orderIndex_untimed]
  cases b.orderIndex orderId with
  | none => rfl
  | some order =>
    simp only [order_untimed]
    change _ = if (b.order order).clientId ≠ clientId then _
      else if newQty = 0 ∨ newQty = invalidQty ∨ newPrice ≤ 0 then _
      else if newPrice ≠ (b.order order).price then _
      else if newQty < (b.order order).qty then _
      else if newQty > (b.order order).qty then _ else _
    split_ifs
    · rfl
    · rfl
    · refine map_bind_of_map (untimed_removeOrder ..) fun b' => ?_
      refine map_bind_of_map (untimed_matchIncoming ..) fun r => ?_
      obtain ⟨b', leaves⟩ := r
      change untimed <$> (if leaves > 0 then _ else _) = if leaves > 0 then _ else _
      split_ifs
      · exact map_bind_of_map (untimed_restOrder ..) fun b'' => rfl
      · rfl
    · rw [← untimed_updateOrder b order]
      · rfl
      · exact fun o => rfl
    · refine map_bind_of_map (untimed_removeOrder ..) fun b' => ?_
      exact map_bind_of_map (untimed_restOrder ..) fun b'' => rfl
    · rfl

end SymbolOrderBook

open SymbolOrderBook

/-- Processing a request commutes with wiping the time stamps. -/
lemma processRequest_untimed (b : SymbolOrderBook) (req : EngineOrderRequest) (now : Nanos) :
    untimed <$> processRequest b req now = processRequest b.untimed req 0 := by
  unfold processRequest
  split_ifs
  · rfl
  · rfl
  · cases req.orderType with
    | invalid => rfl
    | limit => exact b.untimed_addLimitOrder ..
    | market => exact b.untimed_addMarketOrder ..
    | ioc => exact b.untimed_addIOCOrder ..
    | cancel => exact b.untimed_cancelOrder ..
    | modify => exact b.untimed_modifyOrder ..

/-- Two runs over the same requests reach, up to time stamps, the same book: it is the book
reached when the clock always reads zero. -/
theorem run_untimed (b : SymbolOrderBook) (reqs : List (EngineOrderRequest × Nanos)) :
    untimed <$> run b reqs = run b.untimed (reqs.map fun r => (r.1, 0)) := by
  induction reqs generalizing b with
  | nil => rfl
  | cons r reqs ih => exact map_bind_of_map (processRequest_untimed b r.1 r.2) ih

/-- Runs over the same requests at different times: both stop for the same reason, or both reach
the same book up to time stamps. -/
lemma run_clock (b : SymbolOrderBook) {reqs reqs' : List (EngineOrderRequest × Nanos)}
    (h : reqs.map Prod.fst = reqs'.map Prod.fst) :
    untimed <$> run b reqs = untimed <$> run b reqs' := by
  have hzero : ∀ reqs : List (EngineOrderRequest × Nanos),
      reqs.map (fun r => (r.1, (0 : Nanos))) = (reqs.map Prod.fst).map fun req => (req, 0) := by
    intro reqs
    rw [List.map_map]
    rfl
  rw [run_untimed, run_untimed, hzero, hzero, h]

end MatchingEngine
