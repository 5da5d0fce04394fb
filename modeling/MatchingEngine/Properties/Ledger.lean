import MatchingEngine.Matcher.Runs

/-!
# The response stream is a ledger of the book

The `ACCEPTED`, `FILLED`, `MODIFIED` and `CANCELED` responses that name one order id split into
lifetimes.  `Lifetime.step` is the automaton that reads them: it is a partial function, and a
stream that is not a sequence of lifetimes is one it gets stuck on.  `ledger_run` says that over
any run it never gets stuck, for any id, and that afterwards the id rests in the book exactly
when its last lifetime is open, with the quantity, client and side the lifetime ends in.

Some of what a lifetime must satisfy refers to requests (the submitted quantity, the requested
new quantity, the type of the order), so the automaton reads each response together with the
request during which it was written (`taggedResponses`).

The proof follows all ids at once: `Tracks` moves a table of lifetimes along the stream, and
`FillChain.tracks` does so for the fills of one matching, which touch the aggressor's lifetime
and one resting order's lifetime each.
-/

namespace MatchingEngine

/-! ## Lifetimes -/

/-- A response, and the request during which it was written. -/
abbrev Tagged := EngineOrderRequest × EngineOrderResponse

/-- The statuses that belong to a lifetime; the others answer a refused request. -/
def ResponseStatus.inLedger : ResponseStatus → Bool
  | .accepted | .filled | .modified | .canceled => true
  | _ => false

/-- An open lifetime: who and which side, the request that opened it, and what is left. -/
structure Lifetime where
  clientId : ClientId
  side : Side
  orderType : OrderType
  submitted : Qty
  leaves : Qty
  deriving DecidableEq, Repr

namespace Lifetime

/-- The lifetime with `leaves` to go, closed if that is nothing. -/
def withLeaves (l : Lifetime) (leaves : Qty) : Option Lifetime :=
  if leaves = 0 then none else some { l with leaves := leaves }

/-- The lifetime of an order that cannot rest. -/
def immediate (l : Lifetime) : Bool := l.orderType = .market ∨ l.orderType = .ioc

/-- Read one response of an id.  `none` in the argument is "no lifetime open"; `none` as the
result means that the response is not allowed there. -/
def step : Option Lifetime → Tagged → Option (Option Lifetime)
  | none, (req, r) =>
    if r.status = .accepted ∧ r.leavesQty = req.qty then
      some (some ⟨r.clientId, r.side, req.orderType, req.qty, r.leavesQty⟩)
    else none
  | some l, (req, r) =>
    if r.clientId = l.clientId ∧ r.side = l.side then
      match r.status with
      | .filled =>
        if 0 < r.execQty ∧ r.execQty ≤ l.leaves ∧ r.leavesQty = l.leaves - r.execQty then
          some (l.withLeaves r.leavesQty)
        else none
      | .modified =>
        if r.leavesQty = req.qty then some (some { l with leaves := r.leavesQty }) else none
      | .canceled =>
        if l.immediate → r.leavesQty = l.leaves ∧ r.execQty = l.submitted - l.leaves then some none
        else none
      | _ => none
    else none

/-- Read the responses of an id from the state `st`. -/
def replay (st : Option Lifetime) (es : List Tagged) : Option (Option Lifetime) :=
  es.foldlM step st

/-- The lifetime is that of the resting order `o`. -/
structure Carries (l : Lifetime) (o : OrderRecord) : Prop where
  qty : o.qty = l.leaves
  clientId : o.clientId = l.clientId
  side : o.side = l.side
  limit : l.orderType = .limit

end Lifetime

/-- The response belongs to the ledger of `id`. -/
def names (id : OrderId) (e : Tagged) : Bool := e.2.status.inLedger ∧ e.2.clientOrderId = id

/-- The responses a run writes, with their requests. -/
def taggedResponses : SymbolOrderBook → List (EngineOrderRequest × Nanos) → List Tagged
  | _, [] => []
  | b, (req, now) :: reqs =>
    match processRequest b req now with
    | .error _ => []
    | .ok b' =>
      (responsesOf (b'.sent.drop b.sent.length)).map (fun r => (req, r)) ++ taggedResponses b' reqs

/-! ## All ids at once -/

open Lifetime

/-- `Tracks T es T'`: reading `es` takes the table of lifetimes from `T` to `T'`. -/
inductive Tracks : (OrderId → Option Lifetime) → List Tagged → (OrderId → Option Lifetime) → Prop
  | nil (T : OrderId → Option Lifetime) : Tracks T [] T
  | skip {T T' : OrderId → Option Lifetime} {e : Tagged} {es : List Tagged}
      (he : e.2.status.inLedger = false) (htail : Tracks T es T') : Tracks T (e :: es) T'
  | read {T T' : OrderId → Option Lifetime} {e : Tagged} {es : List Tagged}
      {st : Option Lifetime} (hstep : step (T e.2.clientOrderId) e = some st)
      (htail : Tracks (Function.update T e.2.clientOrderId st) es T') : Tracks T (e :: es) T'

lemma Tracks.append {T T₁ T₂ : OrderId → Option Lifetime} {es fs : List Tagged}
    (h : Tracks T es T₁) (h' : Tracks T₁ fs T₂) : Tracks T (es ++ fs) T₂ := by
  induction h with
  | nil => exact h'
  | skip he _ ih => exact .skip he (ih h')
  | read hstep _ ih => exact .read hstep (ih h')

/-- An open lifetime reads only responses of its ledger. -/
lemma inLedger_of_step {st st' : Option Lifetime} {e : Tagged} (h : step st e = some st') :
    e.2.status.inLedger = true := by
  obtain ⟨req, r⟩ := e
  cases st with
  | none =>
    simp only [step] at h
    split_ifs at h with hc
    simp [hc.1, ResponseStatus.inLedger]
  | some l =>
    simp only [step] at h
    by_cases hc : r.clientId = l.clientId ∧ r.side = l.side
    · rw [if_pos hc] at h
      cases hs : r.status <;> simp [hs, ResponseStatus.inLedger] at h ⊢
    · rw [if_neg hc] at h
      cases h

/-- The table follows every id's own stream. -/
lemma Tracks.replay {T T' : OrderId → Option Lifetime} {es : List Tagged} (h : Tracks T es T')
    (id : OrderId) : Lifetime.replay (T id) (es.filter (names id)) = some (T' id) := by
  induction h with
  | nil T => rfl
  | skip he _ ih =>
    rw [List.filter_cons_of_neg (by simp [names, he])]
    exact ih
  | @read T T' e es st hstep _ ih =>
    by_cases hid : e.2.clientOrderId = id
    · subst hid
      rw [List.filter_cons_of_pos (by simp [names, inLedger_of_step hstep])]
      rw [Function.update_self] at ih
      simp only [Lifetime.replay, List.foldlM_cons, hstep]
      exact ih
    · rw [List.filter_cons_of_neg (by simp [names, hid])]
      rw [Function.update_of_ne (Ne.symm hid)] at ih
      exact ih

/-! ## One step of the automaton -/

/-- An id that rests has an open lifetime. -/
lemma exists_carries {st : Option Lifetime} {o : OrderRecord}
    (h : Option.Rel Carries st (some o)) : ∃ l, st = some l ∧ Carries l o := by
  cases h with
  | some hc => exact ⟨_, rfl, hc⟩

/-- An id that does not rest has none. -/
lemma eq_none_of_rel {st : Option Lifetime} (h : Option.Rel Carries st none) : st = none := by
  cases h with
  | none => rfl

lemma step_filled {l : Lifetime} {req : EngineOrderRequest} {symbol : Symbol} {id id' : OrderId}
    {price : Price} {exec : Qty} (hpos : 0 < exec) (hle : exec ≤ l.leaves) :
    step (some l) (req, ⟨.filled, l.clientId, symbol, id, id', l.side, price, exec,
      l.leaves - exec⟩) = some (l.withLeaves (l.leaves - exec)) := by
  simp [step, hpos, hle]

/-- The responses of a list of messages, with their request. -/
def tag (req : EngineOrderRequest) (msgs : List OutMsg) : List Tagged :=
  (responsesOf msgs).map fun r => (req, r)

@[simp] lemma tag_append (req : EngineOrderRequest) (msgs msgs' : List OutMsg) :
    tag req (msgs ++ msgs') = tag req msgs ++ tag req msgs' := by simp [tag]

@[simp] lemma tag_response (req : EngineOrderRequest) (r : EngineOrderResponse)
    (msgs : List OutMsg) : tag req (.response r :: msgs) = (req, r) :: tag req msgs := rfl

@[simp] lemma tag_update (req : EngineOrderRequest) (u : BookUpdate) (msgs : List OutMsg) :
    tag req (.update u :: msgs) = tag req msgs := rfl

@[simp] lemma tag_nil (req : EngineOrderRequest) : tag req [] = [] := rfl

/-! ## Matching -/

/-- Away from the incoming order's id, the table agrees with the index. -/
def AgreeOff (id₀ : OrderId) (T : OrderId → Option Lifetime) (m : Index) : Prop :=
  ∀ id, id ≠ id₀ → Option.Rel Carries (T id) (m id)

/-- The index holds orders under their own ids, with something left of each. -/
def Filed (m : Index) : Prop := ∀ id o, m id = some o → o.orderId = id ∧ 0 < o.qty

lemma Filed.apply {m : Index} (hm : Filed m) {f : Fill}
    (hrests : m f.order.orderId = some f.order) : Filed (f.apply m) := by
  intro id o ho
  rw [Fill.apply, Function.update_apply] at ho
  split_ifs at ho with hid
  · have hs := Incoming.Fill.survives ho
    refine ⟨?_, hs.pos (hm _ _ hrests).2⟩
    rw [hs.eq, hid]
  · exact hm id o ho

/-- The two responses of a fill take the aggressor's lifetime and the resting order's down by the
traded quantity. -/
lemma Fill.tracks {i : Incoming} {m : Index} {f : Fill} (req : EngineOrderRequest) {l : Lifetime}
    (hclient : l.clientId = i.clientId) (hside : l.side = i.side) {T : OrderId → Option Lifetime}
    (hpos : 0 < f.leaves) (hrests : m f.order.orderId = some f.order) (hposq : 0 < f.order.qty)
    (hne : f.order.orderId ≠ i.orderId) (hT : AgreeOff i.orderId T m)
    (hTi : T i.orderId = l.withLeaves f.leaves) :
    ∃ T', Tracks T (tag req (i.fillMsgs f)) T' ∧ AgreeOff i.orderId T' (f.apply m) ∧
      T' i.orderId = l.withLeaves (f.leaves - f.qty) := by
  have hqty : 0 < f.qty ∧ f.qty ≤ f.leaves ∧ f.qty ≤ f.order.qty := by
    have := f.toNat_qty
    rw [qty_pos_iff] at hpos hposq ⊢
    rw [UInt64.le_iff_toNat_le, UInt64.le_iff_toNat_le]
    omega
  -- the aggressor's response
  have hne0 : f.leaves ≠ 0 := (qty_pos_iff_ne _).mp hpos
  rw [withLeaves, if_neg hne0] at hTi
  set T₁ := Function.update T i.orderId (l.withLeaves (f.leaves - f.qty)) with hT₁
  have hread₁ : step (T i.orderId) (req, ⟨.filled, i.clientId, i.symbol, i.orderId, i.orderId,
      i.side, f.price, f.qty, f.leaves - f.qty⟩) = some (l.withLeaves (f.leaves - f.qty)) := by
    rw [hTi, ← hclient, ← hside]
    exact step_filled (l := { l with leaves := f.leaves }) hqty.1 hqty.2.1
  -- the resting order's response
  obtain ⟨l', hl', hc⟩ := exists_carries (hrests ▸ hT f.order.orderId hne)
  have hrestQty : f.restQty = l'.leaves - f.qty := by rw [← hc.qty]; rfl
  set T₂ := Function.update T₁ f.order.orderId (l'.withLeaves f.restQty) with hT₂
  have hread₂ : step (T₁ f.order.orderId) (req, ⟨.filled, f.order.clientId, i.symbol,
      f.order.orderId, f.order.orderId, f.order.side, f.price, f.qty, f.restQty⟩) =
        some (l'.withLeaves f.restQty) := by
    rw [hT₁, Function.update_of_ne hne, hl', hc.clientId, hc.side, hrestQty]
    exact step_filled hqty.1 (hc.qty ▸ hqty.2.2)
  refine ⟨T₂, .read hread₁ (.read hread₂ (.nil T₂)), fun id hid => ?_, ?_⟩
  · by_cases hidf : id = f.order.orderId
    · subst hidf
      rw [hT₂, Function.update_self, Fill.apply, Function.update_self, withLeaves, Fill.remainder]
      split_ifs
      · exact .none
      · exact .some ⟨rfl, hc.clientId, hc.side, hc.limit⟩
    · rw [hT₂, Function.update_of_ne hidf, hT₁, Function.update_of_ne hid, Fill.apply,
        Function.update_of_ne hidf]
      exact hT id hid
  · rw [hT₂, Function.update_of_ne (Ne.symm hne), hT₁, Function.update_self]

/-- The responses of a chain of fills take the aggressor's lifetime down from `leaves` to
`leaves'` and each resting order's lifetime along with the index. -/
lemma FillChain.tracks {i : Incoming} {m m' : Index} {leaves leaves' : Qty} {fills : List Fill}
    (h : FillChain i m leaves fills m' leaves') (req : EngineOrderRequest) {l : Lifetime}
    (hclient : l.clientId = i.clientId) (hside : l.side = i.side) {T : OrderId → Option Lifetime}
    (hfree : m i.orderId = none) (hfiled : Filed m) (hT : AgreeOff i.orderId T m)
    (hTi : T i.orderId = l.withLeaves leaves) :
    ∃ T', Tracks T (tag req (i.msgs fills)) T' ∧ AgreeOff i.orderId T' m' ∧
      T' i.orderId = l.withLeaves leaves' := by
  induction h generalizing T with
  | nil => exact ⟨T, .nil T, hT, hTi⟩
  | @cons m m' f fills leaves' hpos hrests _ hprice helig _ ih =>
    have hne : f.order.orderId ≠ i.orderId := fun he => by
      rw [he, hfree] at hrests
      exact absurd hrests (by simp)
    have hfree₁ : f.apply m i.orderId = none := by
      rw [Fill.apply, Function.update_of_ne (Ne.symm hne), hfree]
    obtain ⟨T₁, htracks₁, hagree₁, hTi₁⟩ :=
      Fill.tracks req hclient hside hpos hrests (hfiled _ _ hrests).2 hne hT hTi
    obtain ⟨T', htracks, hagree, hTi'⟩ := ih hfree₁ (hfiled.apply hrests) hagree₁ hTi₁
    refine ⟨T', ?_, hagree, hTi'⟩
    rw [Incoming.msgs, List.flatMap_cons, tag_append]
    exact htracks₁.append htracks

/-! ## Requests -/

/-- The table agrees with the index. -/
def Agree (T : OrderId → Option Lifetime) (m : Index) : Prop :=
  ∀ id, Option.Rel Carries (T id) (m id)

/-- A response about a resting order that is neither matched nor re-priced: its lifetime and the
order change together. -/
lemma Agree.update {T : OrderId → Option Lifetime} {m : Index} (hT : Agree T m) {id : OrderId}
    {st : Option Lifetime} {o : Option OrderRecord} (h : Option.Rel Carries st o) :
    Agree (Function.update T id st) (Function.update m id o) := by
  intro id'
  rw [Function.update_apply, Function.update_apply]
  split_ifs
  · exact h
  · exact hT id'

/-- A `MODIFIED` that no matching follows: the lifetime goes on with the new quantity, and so
does the order. -/
lemma Agree.modified {T : OrderId → Option Lifetime} {m m' : Index} (hT : Agree T m)
    {symbol : Symbol} {req : EngineOrderRequest} {msgs : List OutMsg} {o o' : OrderRecord}
    (hfind : m req.orderId = some o) (hclient : o.clientId = req.clientId)
    (hmsgs : tag req msgs = [(req, ⟨.modified, req.clientId, symbol, req.orderId, req.orderId,
      o.side, o.price, 0, req.qty⟩)])
    (hm' : m' = Function.update m req.orderId (some o')) (hqty : o'.qty = req.qty)
    (hclient' : o'.clientId = o.clientId) (hside' : o'.side = o.side) :
    ∃ T', Tracks T (tag req msgs) T' ∧ Agree T' m' := by
  obtain ⟨l, hl, hc⟩ := exists_carries (hfind ▸ hT req.orderId)
  refine ⟨Function.update T req.orderId (some { l with leaves := req.qty }), ?_, ?_⟩
  · rw [hmsgs]
    refine .read ?_ (.nil _)
    change step (T req.orderId) _ = _
    rw [hl]
    simp [step, ← hc.clientId, ← hc.side, hclient]
  · rw [hm']
    exact hT.update (.some ⟨hqty, hclient'.trans hc.clientId, hside'.trans hc.side, hc.limit⟩)

namespace Ladder

variable {symbol : Symbol} {L L' : Ladder} {req : EngineOrderRequest} {now : Nanos}
  {msgs : List OutMsg} {T : OrderId → Option Lifetime}

lemma WF.filed (h : L.WF) (hsound : L.Forall SoundOrder) : Filed L.find := fun _ _ ho =>
  ⟨(h.find_eq_some.mp ho).2, (hsound _ (h.find_eq_some.mp ho).1).qty_pos⟩

/-- An acknowledgement that opens the incoming order's lifetime, or sets it, to `qty`, and the
matching after it. -/
lemma WF.trade_tracks (h : L.WF) (hsound : L.Forall SoundOrder) {i : Incoming}
    (hfree : L.find i.orderId = none) (hT : AgreeOff i.orderId T L.find) {status : ResponseStatus}
    {price : Price} {qty : Qty} (hqty : 0 < qty) {l : Lifetime} (hclient : l.clientId = i.clientId)
    (hside : l.side = i.side)
    (hread : step (T i.orderId) (req, ⟨status, i.clientId, i.symbol, i.orderId, i.orderId, i.side,
      price, 0, qty⟩) = some (some { l with leaves := qty })) :
    ∃ T', Tracks T (tag req (ackMsg status i price qty :: i.msgs (L.trade i qty).fills)) T' ∧
      AgreeOff i.orderId T' (L.trade i qty).rest.find ∧
      T' i.orderId = l.withLeaves (L.trade i qty).leaves := by
  have hT₁ : AgreeOff i.orderId (Function.update T i.orderId (some { l with leaves := qty }))
      L.find := fun id hid => by
    rw [Function.update_of_ne hid]
    exact hT id hid
  obtain ⟨T', htracks, hagree, hTi⟩ := h.fillChain_trade.tracks req hclient hside hfree
    (h.filed hsound) hT₁
    (by rw [Function.update_self, withLeaves, if_neg ((qty_pos_iff_ne _).mp hqty)])
  exact ⟨T', .read hread htracks, hagree, hTi⟩

lemma WF.place_tracks (h : L.WF) (hsound : L.Forall SoundOrder) {i : Incoming}
    (hfree : L.find i.orderId = none) (hT : AgreeOff i.orderId T L.find) {status : ResponseStatus}
    {price : Price} {qty : Qty} (hqty : 0 < qty) {l : Lifetime} (hclient : l.clientId = i.clientId)
    (hside : l.side = i.side) (hlimit : l.orderType = .limit)
    (hread : step (T i.orderId) (req, ⟨status, i.clientId, i.symbol, i.orderId, i.orderId, i.side,
      price, 0, qty⟩) = some (some { l with leaves := qty })) (orderType : OrderType) :
    ∃ T', Tracks T
        (tag req (ackMsg status i price qty :: (L.place i orderType price qty now).2)) T' ∧
      Agree T' (L.place i orderType price qty now).1.find := by
  obtain ⟨T', htracks, hagree, hTi⟩ := h.trade_tracks hsound hfree hT hqty hclient hside hread
  have hfree' : (L.trade i qty).rest.find i.orderId = none := Rep.find_trade_eq_none h hfree
  rw [Ladder.place]
  by_cases hpos : (L.trade i qty).leaves > 0
  · have hne : (L.trade i qty).leaves ≠ 0 := (qty_pos_iff_ne _).mp hpos
    rw [if_pos hpos]
    refine ⟨T', ?_, fun id => ?_⟩
    · rw [← List.cons_append, tag_append, tag_update, tag_nil, List.append_nil]
      exact htracks
    rw [h.trade.find_rest hfree', Function.update_apply]
    split_ifs with hid
    · rw [hid, hTi, withLeaves, if_neg hne]
      exact .some ⟨rfl, hclient.symm, hside.symm, hlimit⟩
    · exact hagree id hid
  · have hzero : (L.trade i qty).leaves = 0 := not_not.mp ((qty_pos_iff_ne _).not.mp hpos)
    rw [if_neg hpos]
    refine ⟨T', htracks, fun id => ?_⟩
    by_cases hid : id = i.orderId
    · rw [hid, hTi, hfree', withLeaves, if_pos hzero]
      exact .none
    · exact hagree id hid

lemma WF.take_tracks (h : L.WF) (hsound : L.Forall SoundOrder) {i : Incoming}
    (hfree : L.find i.orderId = none) (hT : AgreeOff i.orderId T L.find) {status : ResponseStatus}
    {price : Price} {qty : Qty} (hqty : 0 < qty) {l : Lifetime} (hclient : l.clientId = i.clientId)
    (hside : l.side = i.side) (hsubmitted : l.submitted = qty)
    (hread : step (T i.orderId) (req, ⟨status, i.clientId, i.symbol, i.orderId, i.orderId, i.side,
      price, 0, qty⟩) = some (some { l with leaves := qty })) :
    ∃ T', Tracks T (tag req (ackMsg status i price qty :: (L.take i price qty).2)) T' ∧
      Agree T' (L.take i price qty).1.find := by
  obtain ⟨T', htracks, hagree, hTi⟩ := h.trade_tracks hsound hfree hT hqty hclient hside hread
  have hfree' : (L.trade i qty).rest.find i.orderId = none := Rep.find_trade_eq_none h hfree
  rw [Ladder.take]
  by_cases hpos : (L.trade i qty).leaves > 0
  · have hne : (L.trade i qty).leaves ≠ 0 := (qty_pos_iff_ne _).mp hpos
    rw [withLeaves, if_neg hne] at hTi
    -- the remainder is reported as cancelled
    have hcancel : step (T' i.orderId) (req, ⟨.canceled, i.clientId, i.symbol, i.orderId, i.orderId,
        i.side, price, qty - (L.trade i qty).leaves, (L.trade i qty).leaves⟩) = some none := by
      rw [hTi, ← hclient, ← hside, ← hsubmitted]
      simp [step]
    rw [if_pos hpos]
    refine ⟨Function.update T' i.orderId none, ?_, fun id => ?_⟩
    · rw [← List.cons_append, tag_append]
      exact htracks.append (.read hcancel (.nil _))
    · rw [Function.update_apply]
      split_ifs with hid
      · rw [hid]
        change Option.Rel _ _ ((L.trade i qty).rest.find i.orderId)
        rw [hfree']
        exact .none
      · exact hagree id hid
  · have hzero : (L.trade i qty).leaves = 0 := not_not.mp ((qty_pos_iff_ne _).not.mp hpos)
    rw [if_neg hpos, List.append_nil]
    refine ⟨T', htracks, fun id => ?_⟩
    by_cases hid : id = i.orderId
    · rw [hid, hTi, withLeaves, if_pos hzero]
      change Option.Rel _ _ ((L.trade i qty).rest.find i.orderId)
      rw [hfree']
      exact .none
    · exact hagree id hid

/-- Whatever a request does to the ladder, its responses do to the table of lifetimes. -/
lemma Step.tracks (h : L.WF) (hsound : L.Forall SoundOrder) (hT : Agree T L.find)
    (hstep : Step symbol L req now L' msgs) :
    ∃ T', Tracks T (tag req msgs) T' ∧ Agree T' L'.find := by
  cases hstep with
  | reject r hr =>
    refine ⟨T, .skip ?_ (.nil T), hT⟩
    change r.status.inLedger = false
    cases hs : r.status <;> simp [hs, ResponseStatus.isReject, ResponseStatus.inLedger] at hr ⊢
  | limit hi htype hs hfree =>
    subst hi
    have hTi : T req.orderId = none := eq_none_of_rel (hfree ▸ hT req.orderId)
    refine h.place_tracks hsound hfree (fun id _ => hT id) hs.qty_pos
      (l := ⟨req.clientId, req.side, req.orderType, req.qty, req.qty⟩) rfl rfl htype ?_ .limit
    rw [hTi]
    simp [step]
  | take hi hprice hqty hfree =>
    subst hi
    have hTi : T req.orderId = none := eq_none_of_rel (hfree ▸ hT req.orderId)
    refine h.take_tracks hsound hfree (fun id _ => hT id) hqty
      (l := ⟨req.clientId, req.side, req.orderType, req.qty, req.qty⟩) rfl rfl rfl ?_
    rw [hTi]
    simp [step]
  | cancel htype hfind hclient =>
    obtain ⟨l, hl, hc⟩ := exists_carries (hfind ▸ hT req.orderId)
    refine ⟨Function.update T req.orderId none, .read ?_ (.nil _), ?_⟩
    · change step (T req.orderId) _ = _
      rw [hl]
      simp [step, immediate, hc.limit, ← hc.clientId, ← hc.side, hclient]
    · rw [h.find_remove]
      exact hT.update .none
  | @reprice o i hi htype hfind hclient hprice hs =>
    subst hi
    obtain ⟨l, hl, hc⟩ := exists_carries (hfind ▸ hT req.orderId)
    refine (h.remove _).place_tracks (Forall.remove hsound _) (find_remove_self L _)
      (fun id hid => ?_) hs.qty_pos (l := l) (hc.clientId ▸ hclient) hc.side.symm hc.limit ?_
      o.orderType
    · rw [h.find_remove, Function.update_of_ne hid]
      exact hT id
    · rw [hl]
      simp [step, ← hc.clientId, ← hc.side, hclient]
  | shrink htype hfind hclient hprice hs hlt =>
    exact hT.modified hfind hclient rfl (h.find_setQty hfind req.qty) rfl rfl rfl
  | grow htype hfind hclient hprice hs hgt =>
    exact hT.modified hfind hclient rfl (h.find_requeue rfl) rfl hclient.symm rfl
  | keep htype hfind hclient hprice hqty =>
    refine hT.modified hfind hclient rfl ?_ hqty.symm rfl rfl
    rw [← hfind, Function.update_eq_self]

end Ladder

/-! ## Runs -/

lemma taggedResponses_append {b b' : SymbolOrderBook} {reqs : List (EngineOrderRequest × Nanos)}
    (hrun : run b reqs = .ok b') (reqs' : List (EngineOrderRequest × Nanos)) :
    taggedResponses b (reqs ++ reqs') = taggedResponses b reqs ++ taggedResponses b' reqs' := by
  induction reqs generalizing b with
  | nil =>
    obtain rfl := Except.ok.inj hrun
    rfl
  | cons r reqs ih =>
    obtain ⟨req, now⟩ := r
    change (processRequest b req now).bind (fun b => run b reqs) = .ok b' at hrun
    simp only [List.cons_append, taggedResponses]
    cases hp : processRequest b req now with
    | error e => simp [hp, Except.bind] at hrun
    | ok b₁ =>
      rw [hp] at hrun
      simp only [ih hrun, List.append_assoc]

/-- What one request of a run adds to the tagged stream. -/
lemma RunStep.taggedResponses {symbol : Symbol} {reqs : List (EngineOrderRequest × Nanos)}
    {b b' : SymbolOrderBook} {S S' : Shape} {req : EngineOrderRequest} {now : Nanos}
    {msgs : List OutMsg} (h : RunStep symbol reqs b S req now b' S' msgs) :
    MatchingEngine.taggedResponses (.new symbol) (reqs ++ [(req, now)]) =
      MatchingEngine.taggedResponses (.new symbol) reqs ++ tag req msgs := by
  rw [taggedResponses_append h.reached]
  simp only [MatchingEngine.taggedResponses, h.process, h.sent, List.drop_left, List.append_nil,
    tag]

/-- After any requests, the responses of every order id are a sequence of lifetimes, and the id
rests in the book exactly when the last of them is open, with its quantity, client and side. -/
theorem ledger_run (symbol : Symbol) (reqs : List (EngineOrderRequest × Nanos)) :
    Reaches symbol reqs fun b =>
      responsesOf b.sent = (taggedResponses (.new symbol) reqs).map Prod.snd ∧
      ∀ id, ∃ st, replay none ((taggedResponses (.new symbol) reqs).filter (names id)) = some st ∧
        Option.Rel Carries st (b.restingOrder id) := by
  have hrun := run_induction symbol (I := fun reqs b =>
    responsesOf b.sent = (taggedResponses (.new symbol) reqs).map Prod.snd ∧
    ∃ T, Tracks (fun _ => none) (taggedResponses (.new symbol) reqs) T ∧ Agree T b.restingOrder)
    ⟨rfl, _, .nil _, fun _ => .none⟩ ?_ reqs
  · refine hrun.mono fun b ⟨_, hlog, T, htracks, hagree⟩ => ⟨hlog, fun id => ?_⟩
    exact ⟨T id, htracks.replay id, hagree id⟩
  intro reqs b S req now b' S' msgs hstep ⟨hlog, T, htracks, hagree⟩
  have hsound := hstep.state.sound
  have hagree' : Agree T (view b S).find := fun id => by
    rw [← hstep.state.rep.restingOrder_eq]
    exact hagree id
  obtain ⟨T', htracks', hT'⟩ := hstep.step.tracks hstep.state.rep.view_wf hsound hagree'
  rw [hstep.taggedResponses]
  refine ⟨?_, T', htracks.append htracks', fun id => ?_⟩
  · rw [hstep.sent, responsesOf_append, hlog, List.map_append, tag, List.map_map]
    congr 1
    exact (List.map_id _).symm
  · rw [hstep.state'.rep.restingOrder_eq]
    exact hT' id

end MatchingEngine
