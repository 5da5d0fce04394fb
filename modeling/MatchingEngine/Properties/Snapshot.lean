import MatchingEngine.Framework.Interleaving
import MatchingEngine.MarketData.SnapshotService
import MatchingEngine.Matcher.Runs

/-!
# The snapshot mirror and the live books

The mirror is rebuilt from the book updates alone, so it is right exactly as long as every
change of a book is announced.  One path announces nothing: a modify that changes the price of
a resting order takes it off the book silently and matches it like a new order, and only the
remainder, if there is one, is added again.  If the order trades completely, the mirror keeps
its old entry.  `vanishes` is the condition under which a request does this, read off the book
before the request; `snapshot_exact_iff` shows that it is the only way to go wrong: over any
requests to any symbols, and for every order in which the feed may pick the updates of the
symbols, the snapshots are exact after each request if and only if no request makes an order
vanish.

The argument is per symbol and per id: `Mirrors` compares the mirror with the book's id index,
`FillChain.mirrors` follows the fills of one matching and `Step.mirrors` one request.
-/

namespace MatchingEngine

open Interleavings

/-! ## What a snapshot should hold -/

/-- The entry a resting order should have. -/
def OrderRecord.entry (o : OrderRecord) : SnapshotEntry := ⟨o.orderId, o.side, o.price, o.qty⟩

/-- One entry for each resting order. -/
def SymbolOrderBook.restingEntries (b : SymbolOrderBook) : List SnapshotEntry :=
  (b.resting .bid ++ b.resting .ask).map OrderRecord.entry

/-- The requests that `routeRequest` hands to the thread of `symbol`, when the engine runs
`symbols`. -/
def routedTo (symbols : List Symbol) (symbol : Symbol) (reqs : List (EngineOrderRequest × Nanos)) :
    List (EngineOrderRequest × Nanos) :=
  reqs.filter fun r => decide (r.1.symbol = symbol ∧ symbol ∈ symbols)

/-- However the feed picked the updates the books have written, the snapshot of every symbol
holds one entry for each order of its book, and no other. -/
def SnapshotsExact (symbols : List Symbol) (reqs : List (EngineOrderRequest × Nanos)) : Prop :=
  ∀ (books : Symbol → SymbolOrderBook) (picks : List (Symbol × BookUpdate)),
    (∀ s, run (.new s) (routedTo symbols s reqs) = .ok (books s)) →
    Interleaves (fun s => updatesOf (books s).sent) picks →
    ∀ s, ((Mirror.empty.applyUpdates (picks.map Prod.snd)).snapshotFor s).Perm
      (books s).restingEntries

/-- The request re-prices an order of its client to where other clients' orders can fill all of
it: `named` is the order with the request's id, `resting` the orders of each side. -/
def vanishes (req : EngineOrderRequest) (named : Option OrderRecord)
    (resting : BookSide → List OrderRecord) : Bool :=
  match named with
  | none => false
  | some o =>
    let i : Incoming := ⟨req.symbol, req.clientId, req.orderId, o.side, some req.price⟩
    decide (Ladder.invalidReq req = false ∧ req.orderType = .modify ∧ o.clientId = req.clientId ∧
      req.price ≠ o.price ∧ req.qty.toNat ≤ i.available (resting i.target))

/-- After `reqs`, the request makes an order vanish from its book unannounced. -/
def Vanishes (symbols : List Symbol) (reqs : List (EngineOrderRequest × Nanos))
    (req : EngineOrderRequest) : Prop :=
  req.symbol ∈ symbols ∧ ∃ b, run (.new req.symbol) (routedTo symbols req.symbol reqs) = .ok b ∧
    vanishes req (b.restingOrder req.orderId) b.resting = true

/-! ## The mirror of one symbol -/

/-- The mirror holds the entry of each order of the index. -/
def Mirrors (M : MirrorBook) (m : Index) : Prop :=
  ∀ id, M.lookup id = (m id).map OrderRecord.entry

/-- Entries are stored under their own ids. -/
def MirrorBook.Filed (M : MirrorBook) : Prop := ∀ id e, M.lookup id = some e → e.orderId = id

lemma MirrorBook.Filed.apply {M : MirrorBook} (h : M.Filed) (u : BookUpdate) :
    (M.apply u).Filed := by
  intro id e he
  by_cases hid : id = u.orderId
  · subst hid
    cases ht : u.type with
    | add =>
      rw [lookup_apply_add _ _ ht] at he
      rw [← Option.some.inj he]
    | modify =>
      rw [lookup_apply_modify _ _ ht, Option.map_eq_some_iff] at he
      obtain ⟨e', he', rfl⟩ := he
      exact h _ e' he'
    | cancel =>
      rw [lookup_apply_cancel _ _ ht] at he
      cases he
    | trade =>
      rw [apply_trade ht] at he
      exact h _ _ he
    | invalid =>
      simp only [MirrorBook.apply, ht] at he
      exact h _ _ he
  · rw [lookup_apply_of_ne hid] at he
    exact h _ _ he

lemma MirrorBook.Filed.applyAll {M : MirrorBook} (h : M.Filed) (us : List BookUpdate) :
    (M.applyAll us).Filed := by
  induction us generalizing M with
  | nil => exact h
  | cons u us ih => exact ih (h.apply u)

lemma MirrorBook.filed_empty : (∅ : MirrorBook).Filed := fun id e he => by simp at he

lemma MirrorBook.Filed.orderId_of_mem {M : MirrorBook} (h : M.Filed)
    {x : Sigma fun _ : OrderId => SnapshotEntry} (hx : x ∈ M.entries) : x.2.orderId = x.1 :=
  h _ _ (AList.mem_lookup_iff.mpr hx)

lemma MirrorBook.Filed.mem_entries {M : MirrorBook} (h : M.Filed) {e : SnapshotEntry} :
    e ∈ M.entries.map Sigma.snd ↔ M.lookup e.orderId = some e := by
  rw [List.mem_map]
  constructor
  · rintro ⟨x, hx, rfl⟩
    rw [h.orderId_of_mem hx]
    exact AList.mem_lookup_iff.mpr hx
  · intro he
    exact ⟨_, AList.mem_lookup_iff.mp he, rfl⟩

/-- The ids of a snapshot are distinct. -/
lemma MirrorBook.Filed.nodup_ids {M : MirrorBook} (h : M.Filed) :
    ((M.entries.map Sigma.snd).map SnapshotEntry.orderId).Nodup := by
  rw [List.map_map]
  refine M.nodupKeys.nodup.map_on fun x hx y hy he => ?_
  have hid : x.1 = y.1 := by rw [← h.orderId_of_mem hx, ← h.orderId_of_mem hy]; exact he
  obtain ⟨id, e⟩ := x
  obtain rfl : id = y.1 := hid
  exact M.nodupKeys.eq_of_mk_mem hx hy ▸ rfl

lemma MirrorBook.Filed.nodup_entries {M : MirrorBook} (h : M.Filed) :
    (M.entries.map Sigma.snd).Nodup :=
  h.nodup_ids.of_map

namespace Ladder

variable {L L' : Ladder} {M : MirrorBook}

/-- The entry of an id, seen from the list of resting orders. -/
lemma WF.mem_entries (h : L.WF) {e : SnapshotEntry} :
    e ∈ L.all.map OrderRecord.entry ↔ (L.find e.orderId).map OrderRecord.entry = some e := by
  rw [List.mem_map, Option.map_eq_some_iff]
  constructor
  · rintro ⟨o, ho, rfl⟩
    exact ⟨o, h.find_eq_some.mpr ⟨ho, rfl⟩, rfl⟩
  · rintro ⟨o, ho, he⟩
    exact ⟨o, (h.find_eq_some.mp ho).1, he⟩

/-- The snapshot is exact when the mirror agrees with the index. -/
lemma WF.snapshot_perm_iff (h : L.WF) (hM : M.Filed) :
    (M.entries.map Sigma.snd).Perm (L.all.map OrderRecord.entry) ↔ Mirrors M L.find := by
  have hnodup' : (L.all.map OrderRecord.entry).Nodup := by
    refine List.Nodup.of_map SnapshotEntry.orderId ?_
    rw [List.map_map]
    exact h.nodup
  rw [List.perm_ext_iff_of_nodup hM.nodup_entries hnodup']
  simp only [hM.mem_entries, h.mem_entries]
  constructor
  · intro hiff id
    refine Option.ext fun e => ⟨fun he => ?_, fun he => ?_⟩
    · have := hM id e he
      subst this
      exact (hiff e).mp he
    · obtain ⟨o, ho, rfl⟩ := Option.map_eq_some_iff.mp he
      have := (h.find_eq_some.mp ho).2
      subst this
      exact (hiff o.entry).mpr he
  · intro hmirrors e
    rw [hmirrors e.orderId]

end Ladder

/-! ## Matching -/

/-- Away from one id, the mirror agrees with the index. -/
def MirrorsOff (id₀ : OrderId) (M : MirrorBook) (m : Index) : Prop :=
  ∀ id, id ≠ id₀ → M.lookup id = (m id).map OrderRecord.entry

lemma MirrorsOff.mirrors {id₀ : OrderId} {M : MirrorBook} {m : Index} (h : MirrorsOff id₀ M m)
    (hid : M.lookup id₀ = (m id₀).map OrderRecord.entry) : Mirrors M m := by
  intro id
  by_cases hne : id = id₀
  · rw [hne, hid]
  · exact h id hne

/-- The updates of a fill keep the mirror in step with the index. -/
lemma MirrorsOff.fill {i : Incoming} {M : MirrorBook} {m : Index} {f : Fill}
    (h : MirrorsOff i.orderId M m) (hrests : m f.order.orderId = some f.order)
    (hne : f.order.orderId ≠ i.orderId) :
    MirrorsOff i.orderId (M.applyAll (updatesOf (i.fillMsgs f))) (f.apply m) ∧
      (M.applyAll (updatesOf (i.fillMsgs f))).lookup i.orderId = M.lookup i.orderId := by
  have hlookup : M.lookup f.order.orderId = some f.order.entry := by rw [h _ hne, hrests]; rfl
  -- the TRADE update has no effect; the other is a CANCEL or a MODIFY of the resting order
  obtain ⟨u, hu, hid, hself⟩ : ∃ u : BookUpdate, M.applyAll (updatesOf (i.fillMsgs f)) = M.apply u ∧
      u.orderId = f.order.orderId ∧
      (M.apply u).lookup f.order.orderId = f.remainder.map OrderRecord.entry := by
    unfold Fill.remainder
    split_ifs with hzero
    · set u : BookUpdate := ⟨.cancel, f.order.orderId, i.symbol, f.order.side, f.price, 0⟩ with hu
      refine ⟨u, ?_, rfl, M.lookup_apply_cancel u rfl⟩
      simp [Incoming.fillMsgs, hzero, MirrorBook.apply_trade, hu]
    · set u : BookUpdate :=
        ⟨.modify, f.order.orderId, i.symbol, f.order.side, f.price, f.restQty⟩ with hu
      refine ⟨u, ?_, rfl, ?_⟩
      · simp [Incoming.fillMsgs, hzero, MirrorBook.apply_trade, hu]
      · rw [show f.order.orderId = u.orderId from rfl, M.lookup_apply_modify u rfl]
        exact congrArg _ hlookup
  rw [hu]
  refine ⟨fun id hid' => ?_, MirrorBook.lookup_apply_of_ne (hid ▸ hne.symm)⟩
  by_cases hidf : id = f.order.orderId
  · rw [hidf, hself, Fill.apply, Function.update_self]
  · rw [MirrorBook.lookup_apply_of_ne (hid ▸ hidf), Fill.apply, Function.update_of_ne hidf]
    exact h id hid'

/-- The updates of a chain of fills keep the mirror in step with the index, and do not touch the
incoming order's entry. -/
lemma FillChain.mirrors {i : Incoming} {m m' : Index} {leaves leaves' : Qty} {fills : List Fill}
    (h : FillChain i m leaves fills m' leaves') {M : MirrorBook} (hfree : m i.orderId = none)
    (hM : MirrorsOff i.orderId M m) :
    MirrorsOff i.orderId (M.applyAll (updatesOf (i.msgs fills))) m' ∧
      (M.applyAll (updatesOf (i.msgs fills))).lookup i.orderId = M.lookup i.orderId := by
  induction h generalizing M with
  | nil => exact ⟨hM, rfl⟩
  | @cons m m' f fills leaves' hpos hrests _ hprice helig _ ih =>
    have hne : f.order.orderId ≠ i.orderId := fun he => by
      rw [he, hfree] at hrests
      exact absurd hrests (by simp)
    obtain ⟨hoff, hself⟩ := hM.fill hrests hne
    have hfree' : f.apply m i.orderId = none := by
      rw [Fill.apply, Function.update_of_ne (Ne.symm hne), hfree]
    have hmsgs : updatesOf (i.msgs (f :: fills)) =
        updatesOf (i.fillMsgs f) ++ updatesOf (i.msgs fills) := by
      simp [Incoming.msgs]
    rw [hmsgs, MirrorBook.applyAll_append, ← hself]
    exact ih hfree' hoff

/-! ## Requests -/

/-- An update of one id, with the change of the index it announces. -/
lemma MirrorsOff.update {M : MirrorBook} {m : Index} {u : BookUpdate} {o : Option OrderRecord}
    (h : MirrorsOff u.orderId M m)
    (hself : (M.apply u).lookup u.orderId = o.map OrderRecord.entry) :
    Mirrors (M.apply u) (Function.update m u.orderId o) := by
  intro id
  by_cases hid : id = u.orderId
  · rw [hid, hself, Function.update_self]
  · rw [MirrorBook.lookup_apply_of_ne hid, Function.update_of_ne hid]
    exact h id hid

/-- A `MODIFY` update of a resting order whose quantity is all that changes. -/
lemma Mirrors.modify {M : MirrorBook} {m : Index} (h : Mirrors M m) {u : BookUpdate}
    (ht : u.type = .modify) {o o' : OrderRecord} (ho : m u.orderId = some o)
    (ho' : o'.entry = { o.entry with qty := u.qty }) :
    Mirrors (M.apply u) (Function.update m u.orderId (some o')) := by
  refine MirrorsOff.update (fun id _ => h id) ?_
  rw [M.lookup_apply_modify u ht, h, ho]
  exact congrArg some ho'.symm

namespace Ladder

variable {L L' : Ladder} {M : MirrorBook} {symbol : Symbol} {req : EngineOrderRequest} {now : Nanos}
  {msgs : List OutMsg}

/-- A placed order that keeps a remainder, or had no entry, leaves the mirror in step. -/
lemma WF.place_mirrors (h : L.WF) {i : Incoming} (hfree : L.find i.orderId = none)
    (hM : MirrorsOff i.orderId M L.find) {price : Price} {qty : Qty}
    (hor : (L.trade i qty).leaves > 0 ∨ M.lookup i.orderId = none) (orderType : OrderType) :
    Mirrors (M.applyAll (updatesOf (L.place i orderType price qty now).2))
      (L.place i orderType price qty now).1.find := by
  have hchain : FillChain i L.find qty (L.trade i qty).fills _ _ := h.fillChain_trade
  obtain ⟨hoff, hself⟩ := hchain.mirrors hfree hM
  have hfree' : (L.trade i qty).rest.find i.orderId = none := Rep.find_trade_eq_none h hfree
  rw [Ladder.place]
  by_cases hpos : (L.trade i qty).leaves > 0
  · simp only [if_pos hpos]
    rw [updatesOf_append, MirrorBook.applyAll_append, h.trade.find_rest hfree']
    set u : BookUpdate := ⟨.add, i.orderId, i.symbol, i.side, price, (L.trade i qty).leaves⟩
    have hoff' : MirrorsOff u.orderId _ _ := hoff
    exact hoff'.update (MirrorBook.lookup_apply_add _ u rfl)
  · simp only [if_neg hpos]
    refine hoff.mirrors ?_
    rw [hself, hor.resolve_left hpos, hfree']
    rfl

/-- An order that is placed and trades completely keeps the entry it had. -/
lemma WF.place_lookup (h : L.WF) {i : Incoming} (hfree : L.find i.orderId = none)
    (hM : MirrorsOff i.orderId M L.find) {qty : Qty} (hzero : ¬ (L.trade i qty).leaves > 0)
    (orderType : OrderType) (price : Price) (now : Nanos) :
    (M.applyAll (updatesOf (L.place i orderType price qty now).2)).lookup i.orderId =
        M.lookup i.orderId ∧
      (L.place i orderType price qty now).1.find i.orderId = none := by
  have hchain : FillChain i L.find qty (L.trade i qty).fills _ _ := h.fillChain_trade
  rw [Ladder.place]
  simp only [if_neg hzero]
  exact ⟨(hchain.mirrors hfree hM).2, Rep.find_trade_eq_none h hfree⟩

/-- Taking an order off its side does not change the other side. -/
lemma WF.orders_remove_contra (h : L.WF) {id : OrderId} {o : OrderRecord}
    (ho : L.find id = some o) :
    (L.remove id).orders o.side.bookSide.contra = L.orders o.side.bookSide.contra := by
  rw [orders_remove, List.filter_eq_self]
  intro o' ho'
  refine decide_eq_true fun hid => ?_
  have hfind : L.find id = some o' := h.find_eq_some.mpr ⟨mem_all.mpr ⟨_, ho'⟩, hid⟩
  obtain rfl : o = o' := Option.some.inj (ho.symm.trans hfind)
  exact o.side.bookSide.contra_ne (h.side ho').symm

/-- Nothing is left of a re-priced order exactly if the contra side can fill all of it. -/
lemma WF.leaves_reprice (h : L.WF) {o : OrderRecord} (ho : L.find req.orderId = some o)
    {i : Incoming} (hside : i.side = o.side) :
    ¬ ((L.remove req.orderId).trade i req.qty).leaves > 0 ↔
      req.qty.toNat ≤ i.available (L.orders i.target) := by
  rw [(h.remove _).leaves_trade, gt_iff_lt, qty_pos_iff, Incoming.toNat_leaves, Incoming.target,
    hside, h.orders_remove_contra ho]
  omega

/-- What it means for a request to make the order it names vanish. -/
lemma vanishes_some {o : OrderRecord} {i : Incoming}
    (hi : i = ⟨symbol, req.clientId, req.orderId, o.side, some req.price⟩) :
    vanishes req (some o) L.orders = true ↔
      invalidReq req = false ∧ req.orderType = .modify ∧ o.clientId = req.clientId ∧
        req.price ≠ o.price ∧ req.qty.toNat ≤ i.available (L.orders i.target) := by
  subst hi
  exact decide_eq_true_iff

/-- A request that makes no order vanish keeps the mirror in step. -/
lemma Step.mirrors (h : L.WF) (hM : Mirrors M L.find)
    (hvan : vanishes req (L.find req.orderId) L.orders = false)
    (hstep : Step symbol L req now L' msgs) :
    Mirrors (M.applyAll (updatesOf msgs)) L'.find := by
  cases hstep with
  | reject => exact hM
  | limit hi htype hsound hfree =>
    subst hi
    have hnone : M.lookup req.orderId = none := by rw [hM, hfree]; rfl
    exact h.place_mirrors hfree (fun id _ => hM id) (.inr hnone) .limit
  | @take i price limit hi hprice hqty hfree =>
    have hid : i.orderId = req.orderId := by rw [hi]
    rw [← hid] at hfree
    have hchain : FillChain i L.find req.qty (L.trade i req.qty).fills _ _ := h.fillChain_trade
    obtain ⟨hoff, hself⟩ := hchain.mirrors hfree fun id _ => hM id
    rw [ackMsg, updatesOf_response, updatesOf_take]
    refine hoff.mirrors ?_
    rw [hself, hM, hfree, Rep.find_trade_eq_none h hfree]
  | @cancel o htype hfind hclient =>
    set u : BookUpdate := ⟨.cancel, req.orderId, symbol, o.side, o.price, o.qty⟩
    rw [h.find_remove]
    exact MirrorsOff.update (u := u) (fun id _ => hM id) (M.lookup_apply_cancel u rfl)
  | @reprice o i hi htype hfind hclient hprice hsound =>
    -- the only place where the condition matters: something is left and is added again
    have hpos : ((L.remove req.orderId).trade i req.qty).leaves > 0 := by
      by_contra hzero
      have hall := (h.leaves_reprice hfind (by rw [hi])).mp hzero
      have := (vanishes_some hi).mpr ⟨valid_of_sound htype hsound, htype, hclient, hprice, hall⟩
      rw [hfind, this] at hvan
      cases hvan
    subst hi
    refine (h.remove _).place_mirrors (find_remove_self L _) (fun id hid => ?_) (.inl hpos)
      o.orderType
    rw [h.find_remove, Function.update_of_ne hid]
    exact hM id
  | @shrink o htype hfind hclient hprice hsound hlt =>
    rw [h.find_setQty hfind]
    exact hM.modify (u := ⟨.modify, req.orderId, symbol, o.side, o.price, req.qty⟩) rfl hfind rfl
  | @grow o htype hfind hclient hprice hsound hgt =>
    rw [h.find_requeue]
    · refine hM.modify (u := ⟨.modify, req.orderId, symbol, o.side, o.price, req.qty⟩) rfl hfind ?_
      rw [OrderRecord.entry, OrderRecord.entry, (h.find_eq_some.mp hfind).2]
    · rfl
  | keep => exact hM

/-- A request that makes an order vanish leaves its entry behind. -/
lemma process_not_mirrors (h : L.WF) (hM : Mirrors M L.find)
    (hvan : vanishes req (L.find req.orderId) L.orders = true) :
    ¬ Mirrors (M.applyAll (updatesOf (L.process symbol req now).2))
      (L.process symbol req now).1.find := by
  cases hfind : L.find req.orderId with
  | none =>
    rw [hfind] at hvan
    cases hvan
  | some o =>
    set i : Incoming := ⟨symbol, req.clientId, req.orderId, o.side, some req.price⟩ with hi
    rw [hfind] at hvan
    obtain ⟨hvalid, htype, hclient, hprice, hall⟩ := (vanishes_some hi).mp hvan
    have hzero := (h.leaves_reprice hfind (by rw [hi])).mpr hall
    have hprocess : L.process symbol req now =
        (((L.remove req.orderId).place i o.orderType req.price req.qty now).1,
          ackMsg .modified i req.price req.qty ::
            ((L.remove req.orderId).place i o.orderType req.price req.qty now).2) := by
      simp [process, hvalid, htype, modifyNamed, hfind, hclient, amend, hprice, hi]
    have hoff : MirrorsOff i.orderId M (L.remove req.orderId).find := fun id hid => by
      rw [h.find_remove, Function.update_of_ne hid]
      exact hM id
    have hfree : (L.remove req.orderId).find i.orderId = none := find_remove_self L req.orderId
    obtain ⟨hlookup, hgone⟩ :=
      (h.remove req.orderId).place_lookup hfree hoff hzero o.orderType req.price now
    intro hmirrors
    have hentry := hmirrors i.orderId
    rw [hprocess, hgone] at hentry
    change AList.lookup i.orderId (M.applyAll (updatesOf (place ..).2)) = none at hentry
    rw [hlookup, hM, show L.find i.orderId = some o from hfind] at hentry
    cases hentry

end Ladder

/-! ## Runs -/

/-- The updates a book has written rebuild its index. -/
def SymbolOrderBook.Mirrored (b : SymbolOrderBook) : Prop :=
  Mirrors ((∅ : MirrorBook).applyAll (updatesOf b.sent)) b.restingOrder

/-- One request keeps the mirror exact if and only if it makes no order vanish. -/
lemma mirrored_iff {symbol : Symbol} {reqs : List (EngineOrderRequest × Nanos)}
    {req : EngineOrderRequest} {now : Nanos} {b b' : SymbolOrderBook}
    (hb : run (.new symbol) reqs = .ok b) (hb' : run (.new symbol) (reqs ++ [(req, now)]) = .ok b')
    (hM : b.Mirrored) :
    b'.Mirrored ↔ vanishes req (b.restingOrder req.orderId) b.resting = false := by
  obtain ⟨S, hS⟩ := (run_refines symbol reqs).of_ok hb
  obtain ⟨S', hS'⟩ := (run_refines symbol (reqs ++ [(req, now)])).of_ok hb'
  have hfind : b.restingOrder = (view b S).find := funext hS.rep.restingOrder_eq
  have hfind' : b'.restingOrder = (view b' S').find := funext hS'.rep.restingOrder_eq
  have hresting : b.resting = (view b S).orders := funext hS.rep.resting_eq
  have hview : view b' S' = ((view b S).process symbol req now).1 := by
    rw [hS'.view, Ladder.runAll_concat, hS.view]
  have hsent : b'.sent = b.sent ++ ((view b S).process symbol req now).2 := by
    rw [hS'.sent, Ladder.runAll_concat, hS.view, hS.sent]
  rw [SymbolOrderBook.Mirrored, hfind] at hM
  rw [SymbolOrderBook.Mirrored, hfind', hfind, hresting, hview, hsent, updatesOf_append,
    MirrorBook.applyAll_append]
  constructor
  · intro hM'
    by_contra hvan
    exact Ladder.process_not_mirrors hS.rep.view_wf hM (by simpa using hvan) hM'
  · intro hvan
    exact (Ladder.process_step symbol _ req now).mirrors hS.rep.view_wf hM hvan

lemma routedTo_of_notMem {symbols : List Symbol} {s : Symbol} (hs : s ∉ symbols)
    (reqs : List (EngineOrderRequest × Nanos)) : routedTo symbols s reqs = [] := by
  simp [routedTo, hs]

lemma routedTo_concat (symbols : List Symbol) (s : Symbol)
    (reqs : List (EngineOrderRequest × Nanos)) (req : EngineOrderRequest) (now : Nanos) :
    routedTo symbols s (reqs ++ [(req, now)]) =
      if req.symbol = s ∧ s ∈ symbols then routedTo symbols s reqs ++ [(req, now)]
      else routedTo symbols s reqs := by
  rw [routedTo, List.filter_append]
  split_ifs with h <;> simp [routedTo, h]

/-- Every book of the engine is there after each of the requests. -/
lemma exists_run_of_prefix {symbols : List Symbol} {reqs pre : List (EngineOrderRequest × Nanos)}
    (hok : ∀ s, ∃ b, run (.new s) (routedTo symbols s reqs) = .ok b) (hpre : pre <+: reqs) :
    ∃ books : Symbol → SymbolOrderBook,
      ∀ s, run (.new s) (routedTo symbols s pre) = .ok (books s) := by
  have h : ∀ s, ∃ b, run (.new s) (routedTo symbols s pre) = .ok b := by
    intro s
    obtain ⟨b, hb⟩ := hok s
    exact run_ok_of_prefix (hpre.filter _) hb
  exact ⟨fun s => (h s).choose, fun s => (h s).choose_spec⟩

/-- On the books a run leads to, exactness of the snapshots is a property of each book. -/
lemma snapshotsExact_iff {symbols : List Symbol} {reqs : List (EngineOrderRequest × Nanos)}
    {books : Symbol → SymbolOrderBook}
    (hbooks : ∀ s, run (.new s) (routedTo symbols s reqs) = .ok (books s)) :
    SnapshotsExact symbols reqs ↔ ∀ s, (books s).Mirrored := by
  have hone : ∀ picks, Interleaves (fun s => updatesOf (books s).sent) picks → ∀ s,
      ((Mirror.empty.applyUpdates (picks.map Prod.snd)).snapshotFor s).Perm
        (books s).restingEntries ↔ (books s).Mirrored := by
    intro picks hpicks s
    obtain ⟨S, hS⟩ := (run_refines s (routedTo symbols s reqs)).of_ok (hbooks s)
    have hsymbol : ∀ p ∈ picks, p.2.symbol = p.1 := fun p hp =>
      symbol_of_mem_sent (hbooks p.1) (hpicks.mem hp)
    rw [Mirror.snapshotFor, Mirror.applyUpdates_apply, filter_map_snd hsymbol, hpicks s,
      SymbolOrderBook.restingEntries, hS.rep.resting_eq, hS.rep.resting_eq,
      SymbolOrderBook.Mirrored,
      show (books s).restingOrder = (view (books s) S).find from funext hS.rep.restingOrder_eq]
    exact hS.rep.view_wf.snapshot_perm_iff (MirrorBook.filed_empty.applyAll _)
  constructor
  · intro hexact s
    obtain ⟨picks, hpicks⟩ := exists_interleaves (fun s => updatesOf (books s).sent)
      symbols fun s hs => by
        have hnew := hbooks s
        rw [routedTo_of_notMem hs] at hnew
        rw [← Except.ok.inj hnew]
        rfl
    exact (hone picks hpicks s).mp (hexact books picks hbooks hpicks s)
  · intro hM books' picks hbooks' hpicks s
    have : books' = books := funext fun s => Except.ok.inj ((hbooks' s).symm.trans (hbooks s))
    subst this
    exact (hone picks hpicks s).mpr (hM s)

/-- After each of the requests the snapshots are exact, if and only if none of the requests makes
an order vanish. -/
theorem snapshot_exact_iff (symbols : List Symbol) (reqs : List (EngineOrderRequest × Nanos))
    (hok : ∀ s, ∃ b, run (.new s) (routedTo symbols s reqs) = .ok b) :
    (∀ pre, pre <+: reqs → SnapshotsExact symbols pre) ↔
      ∀ pre req now, pre ++ [(req, now)] <+: reqs → ¬ Vanishes symbols pre req := by
  constructor
  · rintro hexact pre req now hpre ⟨hmem, b, hb, hvan⟩
    obtain ⟨books, hbooks⟩ := exists_run_of_prefix hok ((List.prefix_append _ _).trans hpre)
    obtain ⟨books', hbooks'⟩ := exists_run_of_prefix hok hpre
    obtain rfl : b = books req.symbol := Except.ok.inj (hb.symm.trans (hbooks req.symbol))
    have hM := (snapshotsExact_iff hbooks).mp (hexact pre ((List.prefix_append _ _).trans hpre))
    have hM' := (snapshotsExact_iff hbooks').mp (hexact _ hpre)
    have hrun' := hbooks' req.symbol
    rw [routedTo_concat, if_pos ⟨rfl, hmem⟩] at hrun'
    have := (mirrored_iff hb hrun' (hM _)).mp (hM' _)
    rw [hvan] at this
    cases this
  · intro hnone pre
    induction pre using List.reverseRecOn with
    | nil =>
      intro _
      have hnew : ∀ s, run (.new s) (routedTo symbols s []) = .ok (.new s) := fun _ => rfl
      exact (snapshotsExact_iff hnew).mpr fun s id => rfl
    | append_singleton pre r ih =>
      intro hpre
      obtain ⟨req, now⟩ := r
      have hpre' : pre <+: reqs := (List.prefix_append _ _).trans hpre
      obtain ⟨books, hbooks⟩ := exists_run_of_prefix hok hpre'
      obtain ⟨books', hbooks'⟩ := exists_run_of_prefix hok hpre
      have hM := (snapshotsExact_iff hbooks).mp (ih hpre')
      refine (snapshotsExact_iff hbooks').mpr fun s => ?_
      have hrun' := hbooks' s
      rw [routedTo_concat] at hrun'
      split_ifs at hrun' with hs
      · obtain ⟨rfl, hmem⟩ := hs
        refine (mirrored_iff (hbooks _) hrun' (hM _)).mpr ?_
        by_contra hvan
        exact hnone pre req now hpre ⟨hmem, _, hbooks _, by simpa using hvan⟩
      · -- the request was for another book
        have hsame : books s = books' s := Except.ok.inj ((hbooks s).symm.trans hrun')
        exact hsame ▸ hM s

/-- A buy order re-priced to trade completely: 5 at 110 offered by one client, 5 at 100 bid by
another, who then raises the bid to 110. -/
def phantomReqs : List (EngineOrderRequest × Nanos) :=
  [ (⟨.limit, 1, "ACME", 1, .sell, 110, 5, 0⟩, 1),
    (⟨.limit, 2, "ACME", 2, .buy, 100, 5, 0⟩, 2),
    (⟨.modify, 2, "ACME", 2, .buy, 110, 5, 0⟩, 3) ]

/-- The book `phantomReqs` lead to is empty, and its updates leave an entry for order 2. -/
lemma phantomReqs_book : ∃ b, run (.new "ACME") phantomReqs = .ok b ∧
    decide (b.restingOrder 2 = none ∧ ((∅ : MirrorBook).applyAll (updatesOf b.sent)).lookup 2 =
      some ⟨2, .buy, 100, 5⟩) = true :=
  exists_ok_of_check (by decide +kernel)

/-- The requests to the only symbol of an engine, and the book they lead to. -/
lemma run_single {symbol : Symbol} {reqs : List (EngineOrderRequest × Nanos)} {b : SymbolOrderBook}
    (hreqs : ∀ r ∈ reqs, r.1.symbol = symbol) (hb : run (.new symbol) reqs = .ok b) (s : Symbol) :
    run (.new s) (routedTo [symbol] s reqs) = .ok (if s = symbol then b else .new s) := by
  split_ifs with hs
  · subst hs
    have : routedTo [s] s reqs = reqs :=
      List.filter_eq_self.mpr fun r hr => decide_eq_true ⟨hreqs r hr, by simp⟩
    rw [this, hb]
  · rw [routedTo_of_notMem (by simpa using hs)]
    rfl

theorem snapshot_phantom : ¬ SnapshotsExact ["ACME"] phantomReqs := by
  obtain ⟨b, hb, hcheck⟩ := phantomReqs_book
  obtain ⟨hgone, hkept⟩ := of_decide_eq_true hcheck
  intro hexact
  have hentry := (snapshotsExact_iff (run_single (by decide) hb)).mp hexact "ACME" 2
  rw [if_pos rfl, hkept, hgone] at hentry
  cases hentry

/-- Only a modify makes an order vanish. -/
lemma modify_of_vanishes {req : EngineOrderRequest} {named : Option OrderRecord}
    {resting : BookSide → List OrderRecord} (h : vanishes req named resting = true) :
    req.orderType = .modify := by
  cases named with
  | none => cases h
  | some o => exact (of_decide_eq_true h).2.1

/-- The snapshots are exact up to the re-pricing. -/
theorem snapshot_exact_before_phantom : SnapshotsExact ["ACME"] (phantomReqs.take 2) := by
  obtain ⟨b, hb, -⟩ : ∃ b, run (.new "ACME") (phantomReqs.take 2) = .ok b ∧ true = true :=
    exists_ok_of_check (by decide +kernel)
  refine (snapshot_exact_iff ["ACME"] (phantomReqs.take 2)
    fun s => ⟨_, run_single (by decide) hb s⟩).mpr ?_ _ (List.prefix_refl _)
  rintro pre req now hpre ⟨_, b', _, hvan⟩
  have hmem : (req, now) ∈ phantomReqs.take 2 := hpre.subset (by simp)
  have hlimit : ∀ r ∈ phantomReqs.take 2, r.1.orderType = .limit := by decide
  have := modify_of_vanishes hvan
  rw [hlimit _ hmem] at this
  cases this

end MatchingEngine
