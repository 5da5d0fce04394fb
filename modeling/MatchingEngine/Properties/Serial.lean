import MatchingEngine.Exchange.ExchangeMain
import MatchingEngine.Matcher.Clock
import MatchingEngine.Properties.Delivery
import MatchingEngine.Properties.Sequencing

/-!
# One order for everything

Any number of threads may submit requests, each symbol has a thread of its own, and the gateway, the
feed and the snapshot service have theirs.  What comes out of it is nevertheless what one thread
would do that handled all requests in one order, the order in which they were routed: every book is
the one its requests lead to in that order, and whatever the callbacks, the subscribers and the
mirror have seen is what it emits (`exchange_serial`).  No condition on receive times is needed for
that, so that the clock may even be set back, nor that the requests name symbols with books.

`Serves` is the invariant: it ties the ends of the stages to each other, from the line in the
gateway to what was routed to each symbol and what the two callbacks were handed, and is kept by
every step that writes to no full queue.
-/

namespace MatchingEngine

open Transitions

/-! ## Messages carry their symbol -/

def OutMsg.symbol : OutMsg → Symbol
  | .response r => r.symbol
  | .update u => u.symbol

namespace Ladder

lemma symbol_of_mem_fills {i : Incoming} {fills : List Fill} {m : OutMsg}
    (hm : m ∈ i.msgs fills) : m.symbol = i.symbol := by
  obtain ⟨f, -, hm⟩ := List.mem_flatMap.mp hm
  simp only [Incoming.fillMsgs, List.mem_cons, List.not_mem_nil, or_false] at hm
  rcases hm with rfl | rfl | rfl | rfl
  · rfl
  · rfl
  · rfl
  · simp only [OutMsg.symbol]
    split_ifs <;> rfl

lemma symbol_of_mem_placed {L : Ladder} {i : Incoming} {orderType : OrderType} {price : Price}
    {qty : Qty} {now : Nanos} {m : OutMsg} (hm : m ∈ (L.place i orderType price qty now).2) :
    m.symbol = i.symbol := by
  rw [place] at hm
  split_ifs at hm
  · rcases List.mem_append.mp hm with hm | hm
    · exact symbol_of_mem_fills hm
    · rw [List.mem_singleton.mp hm]
      rfl
  · exact symbol_of_mem_fills hm

lemma symbol_of_mem_taken {L : Ladder} {i : Incoming} {price : Price} {qty : Qty} {m : OutMsg}
    (hm : m ∈ (L.take i price qty).2) : m.symbol = i.symbol := by
  rw [take] at hm
  rcases List.mem_append.mp hm with hm | hm
  · exact symbol_of_mem_fills hm
  · split_ifs at hm
    · rw [List.mem_singleton.mp hm]
      rfl
    · cases hm

lemma symbol_of_mem_amend {L : Ladder} {symbol : Symbol} {o : OrderRecord}
    {req : EngineOrderRequest} {now : Nanos} {m : OutMsg}
    (hm : m ∈ (L.amend symbol o req now).2) : m.symbol = symbol := by
  rw [amend] at hm
  split_ifs at hm
  · rcases List.mem_cons.mp hm with rfl | hm
    · rfl
    · exact symbol_of_mem_placed hm
  · simp only [List.mem_cons, List.not_mem_nil, or_false] at hm
    rcases hm with rfl | rfl <;> rfl
  · simp only [List.mem_cons, List.not_mem_nil, or_false] at hm
    rcases hm with rfl | rfl <;> rfl
  · rw [List.mem_singleton.mp hm]
    rfl

/-- A request for the ladder's symbol is answered under it. -/
lemma symbol_of_mem_process {L : Ladder} {symbol : Symbol} {req : EngineOrderRequest}
    {now : Nanos} (hreq : req.symbol = symbol) {m : OutMsg}
    (hm : m ∈ (L.process symbol req now).2) : m.symbol = symbol := by
  have hopen : m ∈ (L.open_ symbol req now).2 → m.symbol = symbol := by
    intro hm
    by_cases hdup : (L.find req.orderId).isSome = true
    · rw [open_, if_pos hdup] at hm
      rw [List.mem_singleton.mp hm]
      rfl
    · rw [open_, if_neg hdup] at hm
      rcases List.mem_cons.mp hm with rfl | hm
      · rfl
      · by_cases hlimit : req.orderType = .limit
        · rw [if_pos hlimit] at hm
          exact symbol_of_mem_placed hm
        · rw [if_neg hlimit] at hm
          exact symbol_of_mem_taken hm
  rw [process] at hm
  split_ifs at hm
  · rw [List.mem_singleton.mp hm]
    exact hreq
  · split at hm
    · rw [cancel] at hm
      split at hm
      · rw [List.mem_singleton.mp hm]
        rfl
      · split_ifs at hm
        · rw [List.mem_singleton.mp hm]
          rfl
        · simp only [List.mem_cons, List.not_mem_nil, or_false] at hm
          rcases hm with rfl | rfl <;> rfl
    · rw [modifyNamed] at hm
      split at hm
      · rw [List.mem_singleton.mp hm]
        rfl
      · split_ifs at hm
        · rw [List.mem_singleton.mp hm]
          rfl
        · exact symbol_of_mem_amend hm
    · exact hopen hm

end Ladder

/-- What a book emits for requests for its symbol carries the symbol. -/
lemma symbol_of_mem_run {symbol : Symbol} {reqs : List (EngineOrderRequest × Nanos)}
    {b : SymbolOrderBook} (hb : run (.new symbol) reqs = .ok b)
    (hreqs : ∀ r ∈ reqs, r.1.symbol = symbol) {m : OutMsg} (hm : m ∈ b.sent) :
    m.symbol = symbol := by
  obtain ⟨S, hS⟩ := (run_refines symbol reqs).of_ok hb
  rw [hS.sent] at hm
  clear hS hb
  induction reqs using List.reverseRecOn with
  | nil => simp [Ladder.runAll] at hm
  | append_singleton reqs q ih =>
    rw [Ladder.runAll_concat] at hm
    rcases List.mem_append.mp hm with hm | hm
    · exact ih (fun r hr => hreqs r (List.mem_append_left _ hr)) hm
    · exact Ladder.symbol_of_mem_process (hreqs q (by simp)) hm

lemma symbol_of_mem_responses {symbol : Symbol} {reqs : List (EngineOrderRequest × Nanos)}
    {b : SymbolOrderBook} (hb : run (.new symbol) reqs = .ok b)
    (hreqs : ∀ r ∈ reqs, r.1.symbol = symbol) {r : EngineOrderResponse}
    (hr : r ∈ responsesOf b.sent) : r.symbol = symbol := by
  obtain ⟨m, hm, hmr⟩ := List.mem_filterMap.mp hr
  have hsymbol := symbol_of_mem_run hb hreqs hm
  cases m with
  | update u => cases hmr
  | response r' =>
    obtain rfl := Option.some.inj hmr
    exact hsymbol

/-! ## What a step leaves alone -/

lemma Channel.history_updateReadIndex {α : Type} {c c' : Channel α}
    (h : c.updateReadIndex = .ok c') : c'.written = c.written ∧ c'.read = c.read := by
  obtain ⟨q, -, rfl⟩ := Pipeline.exists_of_map_eq_ok h.symm
  exact ⟨rfl, rfl⟩

namespace Pipeline

variable {symbols : List Symbol} {p p' : Pipeline} {a : Action}

lemma contexts_setContext_of_ne (p : Pipeline) {s t : Symbol} (c : SymbolContext) (h : t ≠ s) :
    (p.setContext s c).contexts t = p.contexts t :=
  Function.update_of_ne h ..

/-- Nothing is routed, and nothing is handed to a callback. -/
structure Frame (p p' : Pipeline) : Prop where
  routed : ∀ s, (p'.contexts s).requestQueue.written = (p.contexts s).requestQueue.written
  answered : ∀ s, (p'.contexts s).responseQueue.read = (p.contexts s).responseQueue.read
  unknown : p'.unknownSymbolResponses.written = p.unknownSymbolResponses.written
  shown : p'.snapshotFeed.written ++ p'.feed.inHand = p.snapshotFeed.written ++ p.feed.inHand

lemma frame_setContext (p : Pipeline) {s : Symbol} {c : SymbolContext}
    (hwritten : c.requestQueue.written = (p.contexts s).requestQueue.written)
    (hread : c.responseQueue.read = (p.contexts s).responseQueue.read) :
    Frame p (p.setContext s c) := by
  refine ⟨fun t => ?_, fun t => ?_, rfl, rfl⟩
  all_goals
    by_cases ht : t = s
    · subst ht
      rw [contexts_setContext]
      assumption
    · rw [contexts_setContext_of_ne p c ht]

lemma Next.frame (h : Next symbols p a p') (ha : Exchange.silent a = true) : Frame p p' := by
  unfold Next at h
  generalize hr : Except.ok p' = r at h
  cases h with
  | route | routeUnknown | readResponse | readReject | readUpdate => cases ha
  | process hc =>
    subst hc
    obtain ⟨b, -, rfl⟩ := exists_of_map_eq_ok hr
    exact p.frame_setContext rfl rfl
  | @send s m outbox c hc =>
    subst hc
    rw [Except.ok.inj hr]
    exact p.frame_setContext (by cases m <;> rfl) (by cases m <;> rfl)
  | advance hc =>
    subst hc
    obtain ⟨ch, hch, rfl⟩ := exists_of_map_eq_ok hr
    exact p.frame_setContext (Channel.history_updateReadIndex hch).1 rfl
  | @ackResponse s c _ hc =>
    subst hc
    obtain ⟨ch, hch, rfl⟩ := exists_of_map_eq_ok hr
    have hframe := p.frame_setContext (s := s) (c := { p.contexts s with responseQueue := ch }) rfl
      (Channel.history_updateReadIndex hch).2
    exact ⟨hframe.routed, hframe.answered, rfl, rfl⟩
  | ackReject =>
    obtain ⟨ch, hch, rfl⟩ := exists_of_map_eq_ok hr
    exact ⟨fun _ => rfl, fun _ => rfl, (Channel.history_updateReadIndex hch).1, rfl⟩
  | @forward s u hpos =>
    rw [Except.ok.inj hr]
    refine ⟨fun _ => rfl, fun _ => rfl, rfl, ?_⟩
    show (p.snapshotFeed.written ++ [u]) ++ [] = p.snapshotFeed.written ++ p.feed.inHand
    rw [hpos, List.append_nil]
    rfl
  | @ackUpdate s c hpos hc =>
    subst hc
    obtain ⟨ch, hch, rfl⟩ := exists_of_map_eq_ok hr
    have hframe := p.frame_setContext (s := s) (c := { p.contexts s with updateQueue := ch })
      rfl rfl
    refine ⟨hframe.routed, hframe.answered, rfl, ?_⟩
    show p.snapshotFeed.written ++ [] = p.snapshotFeed.written ++ p.feed.inHand
    rw [hpos]
    rfl
  | applyUpdate =>
    rw [Except.ok.inj hr]
    exact ⟨fun _ => rfl, fun _ => rfl, rfl, rfl⟩
  | ackSnapshot =>
    obtain ⟨ch, hch, rfl⟩ := exists_of_map_eq_ok hr
    refine ⟨fun _ => rfl, fun _ => rfl, rfl, ?_⟩
    show ch.written ++ _ = _
    rw [(Channel.history_updateReadIndex hch).1]

end Pipeline

/-- Only `drainResponses` reads the queue for unknown symbols. -/
lemma Pipeline.Next.unknown_read {symbols : List Symbol} {p p' : Pipeline} {a : Pipeline.Action}
    (h : p.Next symbols a p') (ha : ∀ q, a ≠ .readResponse q) :
    p'.unknownSymbolResponses.read = p.unknownSymbolResponses.read := by
  unfold Pipeline.Next at h
  generalize hr : Except.ok p' = r at h
  cases h with
  | readResponse | readReject => exact absurd rfl (ha _)
  | process | advance | ackResponse | ackUpdate | ackSnapshot =>
    obtain ⟨_, -, rfl⟩ := exists_of_map_eq_ok hr
    rfl
  | ackReject =>
    obtain ⟨ch, hch, rfl⟩ := exists_of_map_eq_ok hr
    exact (Channel.history_updateReadIndex hch).2
  | route | routeUnknown | send | readUpdate | forward | applyUpdate =>
    obtain rfl := Except.ok.inj hr
    rfl

/-! ## What the gateway routes -/

namespace OrderGatewayServer

variable {g g' : OrderGatewayServer} {a : Action}

/-- What a step routes is appended to what was routed. -/
lemma Next.routed_extends (h : Next g a g') : g.routed <+: g'.routed := by
  obtain ⟨p, now, request, -, -, -, rfl⟩ | ⟨p, x, -, -, rfl⟩ | ⟨-, -, hmoves⟩ := h.moves
  · exact List.prefix_rfl
  · exact List.prefix_rfl
  · cases hmoves with
    | shift _ _ hflushes => exact ⟨[], by simp only [routed, hflushes, List.append_nil]⟩
    | flush _ _ hflushes =>
      rw [routed_of_flushes hflushes]
      exact List.prefix_append _ _

/-- Everything pushed is in the line, and between a flush and the next `drainInbox` the buffer is
empty. -/
structure Tidy (g : OrderGatewayServer) : Prop where
  accounted : g.Accounted
  between : g.phase = .drain → g.sequencer.pendingSize = 0

lemma tidy_init : Tidy {} := ⟨⟨.refl _, Nat.zero_le _, by simp⟩, fun _ => rfl⟩

/-- What the clock reads does not matter. -/
lemma Tidy.setClock (h : Tidy g) (now : Nanos) : Tidy (g.setClock now) :=
  ⟨⟨h.accounted.line, h.accounted.size, h.accounted.sorted⟩, h.between⟩

lemma Tidy.next (h : Tidy g) (hn : Next g a g') : Tidy g' := by
  refine ⟨h.accounted.next hn, ?_⟩
  unfold Next at hn
  generalize hr : Except.ok g' = r at hn
  cases hn with
  | readClock | push =>
    obtain rfl := Except.ok.inj hr
    exact h.between
  | drainInbox =>
    obtain rfl := Except.ok.inj hr
    intro hphase
    cases hphase
  | enqueue =>
    obtain ⟨s, -, rfl⟩ := Pipeline.exists_of_map_eq_ok hr
    intro hphase
    cases hphase
  | flush _ hflush =>
    obtain rfl := Except.ok.inj hr
    exact fun _ => hflush.spec.2.2

lemma Reachable.tidy (h : Reachable g) : Tidy g :=
  h.invariant tidy_init fun _ _ _ hn hI => hI.next hn

/-- Between a flush and the next `drainInbox`, what waits is the inbox. -/
lemma Tidy.waiting_eq (h : Tidy g) (hphase : g.phase = .drain) :
    g.waiting = g.inbox.map TimedRequest.tagged := by
  rw [waiting, RequestSequencer.window_eq_nil (h.between hphase), hphase]
  rfl

end OrderGatewayServer

namespace Exchange

/-! ## The sequential run -/

/-- The orders for one symbol, in file order. -/
def ordersFor (s : Symbol) (orders : List EngineOrderRequest) : List EngineOrderRequest :=
  orders.filter fun o => decide (o.symbol = s)

/-- One book processes the orders one after the other; the clock stands still. -/
def playAlone (s : Symbol) (orders : List EngineOrderRequest) : Except Fault SymbolOrderBook :=
  run (.new s) (orders.map fun o => (o, 0))

/-- The request without its receive time. -/
def unstamped (q : EngineOrderRequest) : EngineOrderRequest := { q with recvTime := 0 }

/-- The book never looks at the receive time. -/
lemma run_unstamped (b : SymbolOrderBook) (reqs : List (EngineOrderRequest × Nanos)) :
    run b (reqs.map fun r => (unstamped r.1, r.2)) = run b reqs := by
  induction reqs generalizing b with
  | nil => rfl
  | cons r reqs ih =>
    change (processRequest b (unstamped r.1) r.2).bind (fun b => run b _) =
      (processRequest b r.1 r.2).bind fun b => run b reqs
    rw [show processRequest b (unstamped r.1) r.2 = processRequest b r.1 r.2 from rfl]
    cases processRequest b r.1 r.2 with
    | error f => rfl
    | ok b' => exact ih b'

/-- What a book of the exchange has become of its requests, if these are the given orders up to
their receive times. -/
lemma playAlone_eq {s : Symbol} {reqs : List (EngineOrderRequest × Nanos)}
    {orders : List EngineOrderRequest}
    (h : (reqs.map Prod.fst).map unstamped = orders.map unstamped) :
    playAlone s orders = SymbolOrderBook.untimed <$> run (.new s) reqs := by
  have hnew : (SymbolOrderBook.new s).untimed = .new s := rfl
  rw [playAlone, ← run_unstamped, run_untimed, hnew, ← run_unstamped (.new s) (reqs.map _)]
  congr 1
  rw [List.map_map] at h
  rw [List.map_map, List.map_map]
  calc orders.map (fun o => (unstamped o, (0 : Nanos)))
      = (orders.map unstamped).map fun o => (o, 0) := by rw [List.map_map]; rfl
    _ = reqs.map fun r => (unstamped r.1, 0) := by rw [← h, List.map_map]; rfl

/-! ## The invariant -/

variable {symbols : List Symbol} {x x' : Exchange}

/-- The requests that have been routed for a symbol, in the order of routing. -/
def routedFor (x : Exchange) (s : Symbol) : List EngineOrderRequest :=
  ordersFor s (x.gateway.routed.map Submission.request)

/-- The requests of `passed` that the queue of a symbol gets. -/
def shareOf (symbols : List Symbol) (passed : List Submission) (s : Symbol) :
    List EngineOrderRequest :=
  (passed.map Submission.request).filter fun q => decide (q.symbol = s ∧ q.symbol ∈ symbols)

/-- The requests of `passed` that are for no book. -/
def astray (symbols : List Symbol) (passed : List Submission) : List EngineOrderRequest :=
  (passed.map Submission.request).filter fun q => decide (q.symbol ∉ symbols)

/-- How the stages fit together when anybody submits anything; `passed` is what the router has
distributed. -/
structure Serves (symbols : List Symbol) (x : Exchange) (passed : List Submission) : Prop where
  gateway : x.gateway.Tidy
  pipeline : x.pipeline.Ok
  routed : x.gateway.routed = passed ++ x.unrouted
  requests : ∀ s, (x.pipeline.contexts s).requestQueue.written = shareOf symbols passed s
  unknown : x.pipeline.unknownSymbolResponses.written = (astray symbols passed).map rejection
  responses : ∀ s ∈ symbols, x.responses.filter (fun r => decide (r.symbol = s)) =
    (x.pipeline.contexts s).responseQueue.read
  rejected : x.responses.filter (fun r => decide (r.symbol ∉ symbols)) =
    x.pipeline.unknownSymbolResponses.read
  updates : x.updates = x.pipeline.snapshotFeed.written ++ x.pipeline.feed.inHand

lemma serves_init (symbols : List Symbol) : Serves symbols { unsubmitted := [] } [] where
  gateway := OrderGatewayServer.tidy_init
  pipeline := Pipeline.ok_init
  routed := rfl
  requests _ := rfl
  unknown := rfl
  responses _ _ := rfl
  rejected := rfl
  updates := rfl

variable {passed : List Submission}

/-- A symbol's thread is given requests for its symbol, and none if it has no book. -/
lemma Serves.of_read (h : Serves symbols x passed) {s : Symbol} {q : EngineOrderRequest}
    (hq : q ∈ (x.pipeline.contexts s).requestQueue.read) : q.symbol = s ∧ s ∈ symbols := by
  have hmem := (h.pipeline.contexts s).requests.read_prefix.subset hq
  rw [h.requests s] at hmem
  obtain ⟨hsymbol, hknown⟩ := of_decide_eq_true (List.mem_filter.mp hmem).2
  exact ⟨hsymbol, hsymbol ▸ hknown⟩

/-- A response of a symbol's thread carries the symbol, and there is none without a book. -/
lemma Serves.of_response (h : Serves symbols x passed) {s : Symbol} {r : EngineOrderResponse}
    (hr : r ∈ (x.pipeline.contexts s).responseQueue.written) : r.symbol = s ∧ s ∈ symbols := by
  obtain ⟨reqs, hreqs, hrun⟩ := (h.pipeline.contexts s).book
  have hread : ∀ q ∈ reqs, q.1.symbol = s ∧ s ∈ symbols := by
    intro q hq
    refine h.of_read ?_
    rw [← hreqs]
    exact List.mem_map_of_mem hq
  have hsent : r ∈ responsesOf (x.pipeline.contexts s).book.sent := by
    rw [(h.pipeline.contexts s).sentResponses]
    exact List.mem_append_left _ hr
  refine ⟨symbol_of_mem_responses hrun (fun q hq => (hread q hq).1) hsent, ?_⟩
  cases reqs with
  | nil =>
    rw [← Except.ok.inj hrun] at hsent
    cases hsent
  | cons q reqs => exact (hread q List.mem_cons_self).2

/-- A rejection carries the unknown symbol. -/
lemma Serves.of_rejection (h : Serves symbols x passed) {r : EngineOrderResponse}
    (hr : r ∈ x.pipeline.unknownSymbolResponses.written) : r.symbol ∉ symbols := by
  rw [h.unknown] at hr
  obtain ⟨q, hq, rfl⟩ := List.mem_map.mp hr
  exact of_decide_eq_true (List.mem_filter.mp hq).2

/-! ## Steps -/

/-- A step of a producer routes nothing. -/
lemma routed_of_producer {g g' : OrderGatewayServer} {b : OrderGatewayServer.Action}
    (hproducer : ofGateway b = false) (hnext : g.Next b g') : g'.routed = g.routed := by
  obtain ⟨p, now, request, -, -, -, rfl⟩ | ⟨p, t, -, -, rfl⟩ | ⟨-, hpush, hmoves⟩ := hnext.moves
  · rfl
  · rfl
  · cases b with
    | readClock p =>
      cases hmoves with
      | shift _ _ hflushes => rw [OrderGatewayServer.routed, hflushes]; rfl
      | flush hroutes => cases hroutes
    | push p => exact absurd rfl (hpush p)
    | drainInbox | enqueue | flush => cases hproducer

lemma Serves.sequence (h : Serves symbols x passed) {b : OrderGatewayServer.Action}
    {g : OrderGatewayServer} (hrouted : x.unrouted = []) (hnext : x.gateway.Next b g) :
    Serves symbols { x with gateway := g, unrouted := g.routed.drop x.gateway.routed.length }
      passed := by
  refine { h with gateway := h.gateway.next hnext, routed := ?_ }
  obtain ⟨out, hout⟩ := hnext.routed_extends
  have hpassed := h.routed
  rw [hrouted, List.append_nil] at hpassed
  show g.routed = passed ++ g.routed.drop x.gateway.routed.length
  rw [← hout, List.drop_left, hpassed]

/-- A step that passes nothing to a callback and routes nothing. -/
lemma Serves.stage (h : Serves symbols x passed) {p : Pipeline} (hok : p.Ok)
    (hframe : Pipeline.Frame x.pipeline p)
    (hread : p.unknownSymbolResponses.read = x.pipeline.unknownSymbolResponses.read) :
    Serves symbols { x with pipeline := p } passed where
  gateway := h.gateway
  pipeline := hok
  routed := h.routed
  requests s := (hframe.routed s).trans (h.requests s)
  unknown := hframe.unknown.trans h.unknown
  responses s hs := (h.responses s hs).trans (hframe.answered s).symm
  rejected := h.rejected.trans hread.symm
  updates := h.updates.trans hframe.shown.symm

lemma Serves.route (h : Serves symbols x passed) {s : Submission} {rest : List Submission}
    {p : Pipeline} (hnext : x.unrouted = s :: rest) (hok : p.Ok)
    (hroute : Pipeline.Next symbols x.pipeline (.routeRequest s.request) p) :
    Serves symbols { x with unrouted := rest, pipeline := p } (passed ++ [s]) := by
  have hrouted : x.gateway.routed = (passed ++ [s]) ++ rest := by
    rw [h.routed, hnext, List.append_assoc]
    rfl
  unfold Pipeline.Next at hroute
  generalize hr : Except.ok p = r at hroute
  cases hroute with
  | routeUnknown hidle hunknown =>
    obtain rfl := Except.ok.inj hr
    refine { h with pipeline := hok, routed := hrouted, requests := fun t => ?_, unknown := ?_ }
    · rw [h.requests t, shareOf, shareOf, List.map_append, List.filter_append]
      simp [hunknown]
    · show x.pipeline.unknownSymbolResponses.written ++ [rejection s.request] = _
      rw [h.unknown, astray, astray, List.map_append, List.filter_append]
      simp [hunknown]
  | route hidle hknown hc =>
    subst hc
    obtain rfl := Except.ok.inj hr
    refine { h with
      pipeline := hok, routed := hrouted, requests := fun t => ?_, unknown := ?_,
      responses := fun t ht => ?_ }
    · by_cases ht : t = s.request.symbol
      · subst ht
        rw [Pipeline.contexts_setContext, shareOf, List.map_append, List.filter_append]
        show _ ++ [s.request] = _
        rw [h.requests, shareOf]
        simp [hknown]
      · rw [Pipeline.contexts_setContext_of_ne _ _ ht, h.requests t, shareOf, shareOf,
          List.map_append, List.filter_append]
        simp [Ne.symm ht]
    · rw [show (x.pipeline.setContext _ _).unknownSymbolResponses =
        x.pipeline.unknownSymbolResponses from rfl, h.unknown, astray, astray, List.map_append,
        List.filter_append]
      simp [hknown]
    · by_cases hs : t = s.request.symbol
      · subst hs
        rw [Pipeline.contexts_setContext]
        exact h.responses _ ht
      · rw [Pipeline.contexts_setContext_of_ne _ _ hs]
        exact h.responses _ ht

/-- The callback is handed a response of a symbol. -/
lemma Serves.readResponse (h : Serves symbols x passed) {s : Symbol} {r : EngineOrderResponse}
    (hok : Pipeline.Ok { x.pipeline.setContext s { x.pipeline.contexts s with
      responseQueue := (x.pipeline.contexts s).responseQueue.hand r } with
      gateway := .acking (some s) }) :
    Serves symbols { x with
      pipeline := { x.pipeline.setContext s { x.pipeline.contexts s with
        responseQueue := (x.pipeline.contexts s).responseQueue.hand r } with
        gateway := .acking (some s) }
      responses := x.responses ++ [r] } passed := by
  have hcontext : (x.pipeline.setContext s { x.pipeline.contexts s with
      responseQueue := (x.pipeline.contexts s).responseQueue.hand r }).contexts s =
      { x.pipeline.contexts s with
        responseQueue := (x.pipeline.contexts s).responseQueue.hand r } :=
    Pipeline.contexts_setContext ..
  obtain ⟨hsymbol, hknown⟩ : r.symbol = s ∧ s ∈ symbols := by
    have hhand := (hok.contexts s).responses.read_prefix
    rw [hcontext] at hhand
    exact h.of_response (hhand.subset (List.mem_append_right _ (by simp)))
  refine { h with
    pipeline := hok, requests := fun t => ?_, responses := fun t ht => ?_, rejected := ?_ }
  · show ((Pipeline.setContext ..).contexts t).requestQueue.written = _
    by_cases hts : t = s
    · subst hts
      rw [hcontext]
      exact h.requests t
    · rw [Pipeline.contexts_setContext_of_ne _ _ hts]
      exact h.requests t
  · show _ = ((Pipeline.setContext ..).contexts t).responseQueue.read
    rw [List.filter_append, h.responses t ht]
    by_cases hts : t = s
    · subst hts
      rw [hcontext]
      simp [hsymbol, Channel.hand]
    · rw [Pipeline.contexts_setContext_of_ne _ _ hts]
      simp [hsymbol, Ne.symm hts]
  · rw [List.filter_append, h.rejected]
    simp [hsymbol, hknown, Pipeline.setContext]

/-- The callback is handed a rejection. -/
lemma Serves.readReject (h : Serves symbols x passed) {r : EngineOrderResponse}
    (hok : Pipeline.Ok { x.pipeline with
      unknownSymbolResponses := x.pipeline.unknownSymbolResponses.hand r
      gateway := .acking none }) :
    Serves symbols { x with
      pipeline := { x.pipeline with
        unknownSymbolResponses := x.pipeline.unknownSymbolResponses.hand r
        gateway := .acking none }
      responses := x.responses ++ [r] } passed := by
  have hsymbol : r.symbol ∉ symbols :=
    h.of_rejection (hok.unknown.read_prefix.subset (List.mem_append_right _ (by simp)))
  refine { h with pipeline := hok, responses := fun t ht => ?_, rejected := ?_ }
  · have hne : r.symbol ≠ t := fun he => hsymbol (he ▸ ht)
    rw [List.filter_append, h.responses t ht]
    simp [hne]
  · rw [List.filter_append, h.rejected]
    simp [hsymbol, Channel.hand]

lemma Serves.readUpdate (h : Serves symbols x passed) {s : Symbol} {u : BookUpdate} {p : Pipeline}
    (hread : (x.pipeline.contexts s).updateQueue.queue.getNextToRead = some u) (hok : p.Ok)
    (hnext : Pipeline.Next symbols x.pipeline (.readUpdate s) p) :
    Serves symbols { x with pipeline := p, updates := x.updates ++ [u] } passed := by
  have hunknown := hnext.unknown_read (by simp)
  unfold Pipeline.Next at hnext
  generalize hr : Except.ok p = res at hnext
  cases hnext with
  | @readUpdate _ u' c hidle hc hread' =>
    subst hc
    obtain rfl : u = u' := Option.some.inj (hread.symm.trans hread')
    obtain rfl := Except.ok.inj hr
    have hframe := x.pipeline.frame_setContext (s := s) (c := { x.pipeline.contexts s with
      updateQueue := (x.pipeline.contexts s).updateQueue.hand u }) rfl rfl
    refine { h with
      pipeline := hok
      requests := fun t => (hframe.routed t).trans (h.requests t)
      responses := fun t ht => (h.responses t ht).trans (hframe.answered t).symm
      updates := ?_ }
    show x.updates ++ [u] = x.pipeline.snapshotFeed.written ++ [u]
    rw [h.updates, hidle]
    simp [FeedPos.inHand]

lemma Serves.own (h : Serves symbols x passed) {a : Action} (hn : Next symbols x a x')
    (hroom : x.hasRoom symbols a = true) : ∃ passed', Serves symbols x' passed' := by
  cases hn with
  | @readClock req rest now hnext hidle hnow =>
    have hstep : x.gateway.Next (.readClock 0) (x.gateway.readClock 0 now req) :=
      OrderGatewayServer.Step.readClock 0 now req hidle hnow
    exact ⟨passed, { h with gateway := h.gateway.next hstep }⟩
  | push hheld =>
    exact ⟨passed, { h with gateway := h.gateway.next (OrderGatewayServer.Step.push hheld) }⟩
  | sequence hown hrouted _ hnext => exact ⟨passed, h.sequence hrouted hnext⟩
  | @route s rest p hnext hroute =>
    simp only [Exchange.hasRoom, hnext, List.head?_cons, Option.all_some] at hroom
    exact ⟨passed ++ [s], h.route hnext (h.pipeline.next hroute hroom) hroute⟩
  | readResponse _ _ hread hnext =>
    have hok := h.pipeline.next hnext hroom
    unfold Pipeline.Next at hnext
    generalize hr : Except.ok _ = res at hnext
    cases hnext with
    | readReject hidle hread' =>
      obtain rfl := Option.some.inj (hread.symm.trans hread')
      obtain rfl := Except.ok.inj hr
      exact ⟨passed, h.readReject hok⟩
    | readResponse hidle hc hread' =>
      subst hc
      obtain rfl := Option.some.inj (hread.symm.trans hread')
      obtain rfl := Except.ok.inj hr
      exact ⟨passed, h.readResponse hok⟩
  | readUpdate hread hnext =>
    exact ⟨passed, h.readUpdate hread (h.pipeline.next hnext hroom) hnext⟩
  | @stage b p hsilent hnext =>
    refine ⟨passed, h.stage (h.pipeline.next hnext hroom) (hnext.frame hsilent)
      (hnext.unknown_read ?_)⟩
    rintro q rfl
    cases hsilent

lemma OpenReached.serves (h : OpenReached symbols x) : ∃ passed, Serves symbols x passed := by
  refine GuardedRun.invariant (I := fun x => ∃ passed, Serves symbols x passed) h
    ⟨[], serves_init symbols⟩ ?_
  rintro x a x' hn hroom ⟨passed, hserves⟩
  cases hn with
  | own hnext => exact hserves.own hnext hroom
  | submit now hproducer hnext =>
    have hsame := routed_of_producer hproducer hnext
    exact ⟨passed, { hserves with
      gateway := (hserves.gateway.setClock now).next hnext
      routed := hsame.trans hserves.routed }⟩

/-! ## What the invariant says -/

lemma shareOf_eq {s : Symbol} (hs : s ∈ symbols) (passed : List Submission) :
    shareOf symbols passed s = ordersFor s (passed.map Submission.request) := by
  refine List.filter_congr fun q _ => ?_
  refine decide_eq_decide.mpr ⟨fun h => h.1, fun h => ⟨h, ?_⟩⟩
  rw [h]
  exact hs

/-- What was passed to a symbol's queue is the beginning of what was routed for it. -/
lemma Serves.requests_prefix (h : Serves symbols x passed) {s : Symbol} (hs : s ∈ symbols) :
    (x.pipeline.contexts s).requestQueue.written <+: x.routedFor s := by
  rw [h.requests, shareOf_eq hs, routedFor, h.routed, List.map_append]
  exact (List.prefix_append _ _).filter _

/-- The thread of a symbol has processed the first so many of the requests routed for it. -/
lemma Serves.playAlone_eq (h : Serves symbols x passed) {s : Symbol} (hs : s ∈ symbols) :
    playAlone s ((x.routedFor s).take (x.pipeline.contexts s).requestQueue.read.length) =
      .ok (x.pipeline.contexts s).book.untimed := by
  obtain ⟨reqs, hreqs, hrun⟩ := (h.pipeline.contexts s).book
  have hread := (h.pipeline.contexts s).requests.read_prefix.trans (h.requests_prefix hs)
  have htake : (reqs.map Prod.fst).map unstamped = ((x.routedFor s).take
      (x.pipeline.contexts s).requestQueue.read.length).map unstamped := by
    rw [hreqs, ← List.prefix_iff_eq_take.mp hread]
  rw [Exchange.playAlone_eq htake, hrun]
  rfl

/-- Nothing is left in the gateway, in a queue, or with the feed. -/
@[mk_iff]
structure Rested (symbols : List Symbol) (x : Exchange) : Prop where
  phase : x.gateway.phase = .drain
  inbox : x.gateway.inbox = []
  unrouted : x.unrouted = []
  contexts : ∀ s ∈ symbols, (x.pipeline.contexts s).Idle
  unknown : x.pipeline.unknownSymbolResponses.read = x.pipeline.unknownSymbolResponses.written
  feed : x.pipeline.feed = .idle
  applied : x.pipeline.snapshotFeed.read = x.pipeline.snapshotFeed.written

instance (symbols : List Symbol) (x : Exchange) : Decidable (Rested symbols x) :=
  decidable_of_iff' _ (rested_iff symbols x)

/-- What has been done for a symbol when nothing is left. -/
lemma Serves.complete (h : Serves symbols x passed) (hrest : Rested symbols x) {s : Symbol}
    (hs : s ∈ symbols) {b : SymbolOrderBook} (hb : (x.pipeline.contexts s).book.untimed = b) :
    playAlone s (x.routedFor s) = .ok b ∧
      x.responses.filter (fun r => decide (r.symbol = s)) = responsesOf b.sent ∧
      x.updates.filter (fun u => decide (u.symbol = s)) = updatesOf b.sent := by
  have hidle := hrest.contexts s hs
  have hsent : (x.pipeline.contexts s).book.sent = b.sent := by rw [← hb]; rfl
  obtain ⟨-, hsentR, hsentU⟩ := (h.pipeline.contexts s).of_worker hidle.worker
  refine ⟨?_, ?_, ?_⟩
  · have hplay := h.playAlone_eq hs
    have hall : (x.pipeline.contexts s).requestQueue.read = x.routedFor s := by
      have hrouted := h.routed
      rw [hrest.unrouted, List.append_nil] at hrouted
      rw [hidle.requests, h.requests, shareOf_eq hs, routedFor, hrouted]
    rw [hall, List.take_length, hb] at hplay
    exact hplay
  · rw [h.responses s hs, hidle.responses, ← hsent, hsentR]
    exact (List.append_nil _).symm
  · rw [h.updates, h.pipeline.forwarded, hidle.updates, ← hsent, hsentU]
    exact (List.append_nil _).symm

/-- Any number of threads submit requests for any symbols, the clock reads what it likes, and no
queue overflows; whatever the threads do, there is one order for everything that happens, that of
the routing.  It has every request that was pushed and is not waiting, once, and is made of flushes,
each in the order of the receive times.  Every book is, but for time stamps, the one its first
requests lead to in that order; its responses and updates that the callbacks have seen are the first
ones it emits; a request without a book is rejected; and the mirror has followed the updates.  When
nothing is left, every request that was pushed is in the order, and all of it has been done. -/
theorem exchange_serial (symbols : List Symbol) (x : Exchange) (h : OpenReached symbols x) :
    x.gateway.line.Perm (x.gateway.pushed.map TimedRequest.tagged) ∧
      (∀ out ∈ x.gateway.flushes, out.Pairwise fun q r => q.recvTime ≤ r.recvTime) ∧
      (∀ s ∈ symbols, ∃ n b, playAlone s ((x.routedFor s).take n) = .ok b ∧
        (x.pipeline.contexts s).book.untimed = b ∧
        x.responses.filter (fun r => decide (r.symbol = s)) <+: responsesOf b.sent ∧
        x.updates.filter (fun u => decide (u.symbol = s)) <+: updatesOf b.sent) ∧
      x.responses.filter (fun r => decide (r.symbol ∉ symbols)) <+:
        (astray symbols x.gateway.routed).map rejection ∧
      (∃ k, x.pipeline.mirror = Mirror.empty.applyUpdates (x.updates.take k)) ∧
      (Rested symbols x → x.gateway.routed.Perm (x.gateway.pushed.map TimedRequest.tagged) ∧
        (∀ s ∈ symbols, ∃ b, playAlone s (x.routedFor s) = .ok b ∧
          (x.pipeline.contexts s).book.untimed = b ∧
          x.responses.filter (fun r => decide (r.symbol = s)) = responsesOf b.sent ∧
          x.updates.filter (fun u => decide (u.symbol = s)) = updatesOf b.sent) ∧
        x.responses.filter (fun r => decide (r.symbol ∉ symbols)) =
          (astray symbols x.gateway.routed).map rejection ∧
        x.pipeline.mirror = Mirror.empty.applyUpdates x.updates) := by
  obtain ⟨passed, hserves⟩ := h.serves
  obtain ⟨hline, -, hsorted⟩ := hserves.gateway.accounted
  have hdelivers := hserves.pipeline.delivers
  have happlied : x.pipeline.snapshotFeed.read <+: x.updates := by
    rw [hserves.updates]
    exact hserves.pipeline.snapshot.read_prefix.trans (List.prefix_append _ _)
  have hastray : astray symbols passed <+: astray symbols x.gateway.routed := by
    rw [astray, astray, hserves.routed, List.map_append]
    exact (List.prefix_append _ _).filter _
  refine ⟨hline, hsorted, fun s hs => ⟨_, _, hserves.playAlone_eq hs, rfl, ?_, ?_⟩, ?_, ?_,
    fun hrest => ?_⟩
  · rw [hserves.responses s hs]
    exact (hdelivers.responses s).1.trans (hdelivers.responses s).2
  · rw [hserves.updates, hserves.pipeline.forwarded]
    exact (hdelivers.updates s).1.trans (hdelivers.updates s).2
  · rw [hserves.rejected]
    refine hserves.pipeline.unknown.read_prefix.trans ?_
    rw [hserves.unknown]
    exact hastray.map _
  · refine ⟨x.pipeline.snapshotFeed.read.length, ?_⟩
    rw [hserves.pipeline.mirror, ← List.prefix_iff_eq_take.mp happlied]
  · refine ⟨?_, fun s hs => ?_, ?_, ?_⟩
    · have hwaiting : x.gateway.waiting = [] := by
        rw [hserves.gateway.waiting_eq hrest.phase, hrest.inbox]
        rfl
      rwa [OrderGatewayServer.line, hwaiting, List.append_nil] at hline
    · obtain ⟨hplay, hresponses, hupdates⟩ := hserves.complete hrest hs rfl
      exact ⟨_, hplay, rfl, hresponses, hupdates⟩
    · have hrouted := hserves.routed
      rw [hrest.unrouted, List.append_nil] at hrouted
      rw [hserves.rejected, hrest.unknown, hserves.unknown, hrouted]
    · have hshown : x.updates = x.pipeline.snapshotFeed.written := by
        rw [hserves.updates, hrest.feed]
        exact List.append_nil _
      rw [hserves.pipeline.mirror, hrest.applied, hshown]

/-- Two orders of one symbol that trade, and one for a symbol without a book, by receive time. -/
def ask (rxTime : Nanos) : EngineOrderRequest := ⟨.limit, 2, "ACME", 1, .sell, 100, 5, rxTime⟩

def bid (rxTime : Nanos) : EngineOrderRequest := ⟨.limit, 1, "ACME", 2, .buy, 100, 8, rxTime⟩

def stray (rxTime : Nanos) : EngineOrderRequest := ⟨.limit, 3, "ZZZ", 7, .sell, 90, 3, rxTime⟩

/-- What the threads behind the gateway do about a response of `s`. -/
def answerTurns (s : Symbol) : List Turn :=
  [.stage (.send s), .stage (.readResponse (some s)), .stage .ackResponse]

/-- What they do about an update. -/
def updateTurns (s : Symbol) : List Turn :=
  [.stage (.send s), .stage (.readUpdate s), .stage .forward, .stage .ackUpdate,
    .stage .applyUpdate, .stage .ackSnapshot]

/-- The first order rests. -/
def askTurns (s : Symbol) : List Turn :=
  [.stage (.processRequest s 10)] ++ answerTurns s ++ updateTurns s

/-- The second one takes it off the book. -/
def bidTurns (s : Symbol) : List Turn :=
  [.stage (.advance s), .stage (.processRequest s 11)] ++ answerTurns s ++ answerTurns s ++
    answerTurns s ++ updateTurns s ++ updateTurns s

/-- Its rest is shown. -/
def restTurns (s : Symbol) : List Turn := updateTurns s ++ [.stage (.advance s)]

def tradeTurns (s : Symbol) : List Turn := askTurns s ++ bidTurns s ++ restTurns s

/-- Two threads submit the orders that trade, the later one after the clock was set back, and a
third one the order without a book. -/
def openTurns : List OpenTurn :=
  [.readClock 1 5 (bid 0), .readClock 2 4 (ask 0), .readClock 3 6 (stray 0),
    .push 1, .push 2, .push 3, .own (.sequence .drainInbox), .own (.sequence .enqueue),
    .own (.sequence .enqueue), .own (.sequence .enqueue), .own (.sequence .flush), .own .route,
    .own .route, .own .route] ++
  (tradeTurns "ACME").map .own ++
  [.own (.stage (.readResponse none)), .own (.stage .ackResponse)]

lemma exists_openRun : ∃ x, OpenReached ["ACME"] x ∧ Rested ["ACME"] x ∧
    x.gateway.pushed.map TimedRequest.rxTime = [5, 4, 6] ∧
    x.gateway.routed.map Submission.request = [ask 4, bid 5, stray 6] := by
  have hplay : (openTurns.foldlM (play (openPerform ["ACME"]) OpenTurn.action (openRoom ["ACME"])
      fun _ _ => true) (0, { unsubmitted := [] })).any (fun e => decide (Rested ["ACME"] e.2 ∧
        e.2.gateway.pushed.map TimedRequest.rxTime = [5, 4, 6] ∧
        e.2.gateway.routed.map Submission.request = [ask 4, bid 5, stray 6])) = true := by
    decide +kernel
  obtain ⟨_, x, hx, hcheck⟩ :=
    CountedRun.exists_of_play hplay fun _ _ _ => openNext_of_openPerform
  exact ⟨x, hx.run, of_decide_eq_true hcheck⟩

/-- The orders have been routed by receive time, and have traded; the third one was rejected. -/
theorem exchange_serial_trade : ∃ x b, OpenReached ["ACME"] x ∧
    x.gateway.pushed.map TimedRequest.rxTime = [5, 4, 6] ∧
    playAlone "ACME" [ask 4, bid 5] = .ok b ∧
    x.responses.filter (fun r => decide (r.symbol = "ACME")) = responsesOf b.sent ∧
    (responsesOf b.sent).map EngineOrderResponse.status =
      [.accepted, .accepted, .filled, .filled] ∧
    x.responses.filter (fun r => decide (r.symbol ∉ ["ACME"])) =
      [rejection (stray 6)] := by
  obtain ⟨x, hx, hrest, hpushed, hrouted⟩ := exists_openRun
  obtain ⟨b, hb, hfilled⟩ := exists_ok_of_check
    (x := playAlone "ACME" [ask 4, bid 5])
    (p := fun b => decide ((responsesOf b.sent).map EngineOrderResponse.status =
      [.accepted, .accepted, .filled, .filled])) (by decide +kernel)
  obtain ⟨-, -, -, -, -, hdone⟩ := exchange_serial _ x hx
  obtain ⟨-, hbooks, hrejected, -⟩ := hdone hrest
  obtain ⟨b', hb', -, hresponses, -⟩ := hbooks "ACME" (List.mem_singleton_self _)
  rw [routedFor, hrouted] at hb'
  obtain rfl := Except.ok.inj (hb.symm.trans hb')
  rw [astray, hrouted] at hrejected
  exact ⟨x, b, hx, hpushed, hb, hresponses, of_decide_eq_true hfilled, hrejected⟩

end Exchange

end MatchingEngine
