import MatchingEngine.Matcher.Clock
import MatchingEngine.Matcher.Runs

/-!
# Calling the operations of a book

The operations of a book overlap: an order can be changed by a modify or by a cancel and a new
order, and can be taken off the market by an immediate order or by a limit order that is cancelled
at once.  To compare such ways, this module says when two books are the same to every caller
(`SameBook`) and what a single call makes of a represented book: it runs out of memory, or returns
the book and the messages of a ladder (`Attempts`, and `Returns` for the calls that cannot fail).

Two represented books are the same as soon as the queues of their sides are (`Rep.sameBook`), so
the comparisons themselves are about lists of orders.
-/

namespace MatchingEngine

variable {b b' : SymbolOrderBook} {S S' : Shape}

/-! ## Books that cannot be told apart -/

/-- The levels, the orders of each level with all their fields, and the id index are the same; the
blocks of the pools that hold them may differ. -/
structure SameBook (b b' : SymbolOrderBook) : Prop where
  symbol : b.symbol = b'.symbol
  ladder : b.ladder = b'.ladder
  index : ∀ id, (b.orderIndex id).map b.record = (b'.orderIndex id).map b'.record

lemma Rep.sameBook (h : Rep b S) (h' : Rep b' S') (hsymb : b.symbol = b'.symbol)
    (horders : ∀ s, (view b S).orders s = (view b' S').orders s) : SameBook b b' where
  symbol := hsymb
  ladder := by
    rw [h.ladder_eq, h'.ladder_eq]
    exact h.view_ext h' horders
  index id := by
    rw [← h.find_view, ← h'.find_view, h.view_ext h' horders]

def OrderRecord.untimed (o : OrderRecord) : OrderRecord := { o with priorityTs := 0 }

lemma SymbolOrderBook.ladder_untimed (b : SymbolOrderBook) (s : BookSide) :
    b.untimed.ladder s = (b.ladder s).map fun r => (r.1, r.2.map OrderRecord.untimed) := by
  rw [ladder, ladder, levels_untimed, List.map_map]
  refine List.map_congr_left fun e _ => ?_
  simp only [Function.comp, List.map_map]
  rfl

lemma SymbolOrderBook.index_untimed (b : SymbolOrderBook) (id : OrderId) :
    (b.untimed.orderIndex id).map b.untimed.record =
      ((b.orderIndex id).map b.record).map OrderRecord.untimed := by
  rw [Option.map_map]
  rfl

/-- Wiping the time stamps keeps books the same. -/
lemma SameBook.untimed (h : SameBook b b') : SameBook b.untimed b'.untimed where
  symbol := h.symbol
  ladder := by
    funext s
    rw [b.ladder_untimed, b'.ladder_untimed, h.ladder]
  index id := by rw [b.index_untimed, b'.index_untimed, h.index]

/-! ## What a call does -/

/-- The call on `b` returns a book that represents the ladder of `out`, and has sent the messages
of `out`. -/
def Returns (b : SymbolOrderBook) (r : Except Fault SymbolOrderBook) (out : Ladder × List OutMsg) :
    Prop :=
  ∃ b' S', r = .ok b' ∧ Rep b' S' ∧ view b' S' = out.1 ∧ b'.sent = b.sent ++ out.2 ∧
    b'.symbol = b.symbol

/-- The call on `b` returns, unless a pool is exhausted. -/
def Attempts (b : SymbolOrderBook) (r : Except Fault SymbolOrderBook) (out : Ladder × List OutMsg) :
    Prop :=
  r = .error .outOfSpace ∨ Returns b r out

lemma Refines.attempts {req : EngineOrderRequest} {r : Except Fault SymbolOrderBook}
    {out : Ladder × List OutMsg} (h : Refines req b r out) : Attempts b r out := by
  rcases h with herr | ⟨b', S', hok, hrep, hview, hsent, hsymb, -⟩
  · exact .inl herr
  · exact .inr ⟨b', S', hok, hrep, hview, hsent, hsymb⟩

section Sequence

variable {r : Except Fault SymbolOrderBook} {out out' : Ladder × List OutMsg}
  {f : SymbolOrderBook → Except Fault SymbolOrderBook}

/-- A call on the book an earlier call has led to. -/
lemma Returns.after {b₁ : SymbolOrderBook} {msgs : List OutMsg} (h : Returns b₁ r out)
    (hsent₁ : b₁.sent = b.sent ++ msgs) (hsymb₁ : b₁.symbol = b.symbol) :
    Returns b r (out.1, msgs ++ out.2) := by
  obtain ⟨b₂, S₂, hok, hrep₂, hview₂, hsent₂, hsymb₂⟩ := h
  exact ⟨b₂, S₂, hok, hrep₂, hview₂, by rw [hsent₂, hsent₁, List.append_assoc],
    hsymb₂.trans hsymb₁⟩

lemma Returns.bind (h : Returns b r out)
    (hf : ∀ b₁ S₁, Rep b₁ S₁ → view b₁ S₁ = out.1 → b₁.symbol = b.symbol →
      Returns b₁ (f b₁) out') :
    Returns b (r >>= f) (out'.1, out.2 ++ out'.2) := by
  obtain ⟨b₁, S₁, rfl, hrep₁, hview₁, hsent₁, hsymb₁⟩ := h
  exact (hf b₁ S₁ hrep₁ hview₁ hsymb₁).after hsent₁ hsymb₁

lemma Attempts.bind (h : Attempts b r out)
    (hf : ∀ b₁ S₁, Rep b₁ S₁ → view b₁ S₁ = out.1 → b₁.symbol = b.symbol →
      Attempts b₁ (f b₁) out') :
    Attempts b (r >>= f) (out'.1, out.2 ++ out'.2) := by
  rcases h with rfl | ⟨b₁, S₁, rfl, hrep₁, hview₁, hsent₁, hsymb₁⟩
  · exact .inl rfl
  · rcases hf b₁ S₁ hrep₁ hview₁ hsymb₁ with herr | hret
    · exact .inl herr
    · exact .inr (hret.after hsent₁ hsymb₁)

end Sequence

/-! ## The calls -/

namespace Rep

variable {clientId : ClientId} {orderId : OrderId} {side : Side} {price : Price} {qty : Qty}

lemma call_addLimitOrder (h : Rep b S) (hfree : (view b S).find orderId = none)
    (clientId : ClientId) (side : Side) (price : Price) (qty : Qty) (now : Nanos) {i : Incoming}
    (hi : i = ⟨b.symbol, clientId, orderId, side, some price⟩) :
    Attempts b (b.addLimitOrder clientId orderId side price qty now)
      (((view b S).place i .limit price qty now).1,
        Ladder.ackMsg .accepted i price qty :: ((view b S).place i .limit price qty now).2) := by
  subst hi
  let req : EngineOrderRequest := ⟨.limit, clientId, b.symbol, orderId, side, price, qty, 0⟩
  have hcall : Refines req b (b.addLimitOrder clientId orderId side price qty now)
      ((view b S).open_ b.symbol req now) := h.addLimitOrder_refines rfl now
  rw [Ladder.open_, if_neg (by simp [req, hfree])] at hcall
  exact hcall.attempts

/-- The calls that match and cancel the remainder. -/
lemma call_take (h : Rep b S) (price : Price) (hasLimitPrice : Bool) (qty : Qty) {i : Incoming}
    (hi : i = ⟨b.symbol, clientId, orderId, side, if hasLimitPrice then some price else none⟩) :
    Returns b
      (takeOrder (b.sendResponse
        ⟨.accepted, clientId, b.symbol, orderId, orderId, side, price, 0, qty⟩) i price
          hasLimitPrice qty)
      (((view b S).trade i qty).rest,
        Ladder.ackMsg .accepted i price qty :: ((view b S).take i price qty).2) := by
  have h₁ := h.withSent (b.sent ++ [Ladder.ackMsg .accepted i price qty])
  obtain ⟨b', S', hok, hrep, hview, hsent, hsymb, -⟩ :=
    h₁.takeOrder_ok (i := i) (by rw [hi]) (by rw [hi]) qty
  subst hi
  refine ⟨b', S', hok, hrep, hview, ?_, hsymb⟩
  rw [hsent, List.append_assoc]
  rfl

lemma call_addIOCOrder (h : Rep b S) (hfree : (view b S).find orderId = none) (qty : Qty)
    {i : Incoming} (hi : i = ⟨b.symbol, clientId, orderId, side, some price⟩) :
    Returns b (b.addIOCOrder clientId orderId side price qty)
      (((view b S).trade i qty).rest,
        Ladder.ackMsg .accepted i price qty :: ((view b S).take i price qty).2) := by
  have hcall := h.call_take price true qty hi
  subst hi
  rw [SymbolOrderBook.addIOCOrder, if_neg (by simp [h.index_eq_none.mpr hfree])]
  exact hcall

lemma call_addMarketOrder (h : Rep b S) (hfree : (view b S).find orderId = none) (qty : Qty)
    {i : Incoming} (hi : i = ⟨b.symbol, clientId, orderId, side, none⟩) :
    Returns b (b.addMarketOrder clientId orderId side qty)
      (((view b S).trade i qty).rest,
        Ladder.ackMsg .accepted i invalidPrice qty ::
          ((view b S).take i invalidPrice qty).2) := by
  have hcall := h.call_take invalidPrice false qty hi
  subst hi
  rw [SymbolOrderBook.addMarketOrder, if_neg (by simp [h.index_eq_none.mpr hfree])]
  exact hcall

/-- A cancel by the owner. -/
lemma call_cancelOrder (h : Rep b S) {o : OrderRecord} (hfind : (view b S).find orderId = some o)
    (howner : o.clientId = clientId) :
    Attempts b (b.cancelOrder clientId orderId)
      ((view b S).remove orderId,
        [ .response ⟨.canceled, clientId, b.symbol, orderId, orderId, o.side, o.price, 0, 0⟩,
          .update ⟨.cancel, orderId, b.symbol, o.side, o.price, o.qty⟩ ]) := by
  let req : EngineOrderRequest := ⟨.cancel, clientId, b.symbol, orderId, .invalid, 0, 0, 0⟩
  have hcall : Refines req b (b.cancelOrder clientId orderId) ((view b S).cancel b.symbol req) :=
    h.cancelOrder_refines
  have hfind' : (view b S).find req.orderId = some o := hfind
  rw [Ladder.cancel, hfind'] at hcall
  change Refines req b _ (if o.clientId ≠ clientId then _ else _) at hcall
  rw [if_neg (not_not.mpr howner)] at hcall
  exact hcall.attempts

/-- A cancel of an id that does not rest. -/
lemma call_cancelOrder_unnamed (h : Rep b S) (hfind : (view b S).find orderId = none) :
    Returns b (b.cancelOrder clientId orderId)
      (view b S,
        [ .response ⟨.cancelRejected, clientId, b.symbol, orderId, invalidOrderId, .invalid,
            invalidPrice, invalidQty, invalidQty⟩ ]) := by
  rw [SymbolOrderBook.cancelOrder, h.index_eq_none.mpr hfind]
  exact ⟨_, S, rfl, h.withSent _, rfl, rfl, rfl⟩

/-- A valid modify by the owner. -/
lemma call_modifyOrder (h : Rep b S) {o : OrderRecord} (hfind : (view b S).find orderId = some o)
    (howner : o.clientId = clientId) (hvalid : ¬ (qty = 0 ∨ qty = invalidQty ∨ price ≤ 0))
    (now : Nanos) {req : EngineOrderRequest}
    (hreq : req = ⟨.modify, clientId, b.symbol, orderId, .invalid, price, qty, 0⟩) :
    Attempts b (b.modifyOrder clientId orderId price qty now)
      ((view b S).amend b.symbol o req now) := by
  have hfind' : (view b S).find req.orderId = some o := by rw [hreq, hfind]
  have howner' : o.clientId = req.clientId := by rw [hreq, howner]
  have hcall : Refines req b (b.modifyOrder clientId orderId price qty now)
      ((view b S).modifyNamed b.symbol req now) := by
    subst hreq
    exact h.modifyOrder_refines (by simp) hvalid now
  rw [Ladder.modifyNamed, hfind'] at hcall
  simp only [if_neg (not_not.mpr howner')] at hcall
  exact hcall.attempts

end Rep

end MatchingEngine
