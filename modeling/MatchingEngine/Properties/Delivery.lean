import MatchingEngine.Exchange.Pipeline
import MatchingEngine.Matcher.Runs

/-!
# What arrives at the next stage

Between any two stages, what the consumer has been handed should be a prefix of what the
producer has written.  The queues deliver this only as long as the producers do not write into a
full ring, and no producer looks: `delivery_overflow` is a run in which the 65537th request routed
to a symbol is the first one its thread processes.  `delivery_of_room` shows that nothing else can
go wrong: in every run whose writes all find room, every stage has seen a prefix of what the stage
before it produced, in every state and for every symbol.

The invariant is one condition for each queue (`Channel.Ok`), and for the books that a symbol's
thread has written, or has still in its outbox, what the book has emitted.
-/

namespace MatchingEngine

open Transitions

namespace Channel

variable {α : Type} {c c' : Channel α} {busy : Bool} {x : α}

/-- What is written and not yet handed over is in the queue; a consumer that has not advanced yet
still has what it was handed last at the front. -/
def Ok (busy : Bool) (c : Channel α) : Prop :=
  ∃ l, c.written = c.read ++ l ∧
    if busy then ∃ x, c.queue.Holds (x :: l) else c.queue.Holds l

lemma Ok.read_prefix (h : c.Ok busy) : c.read <+: c.written := by
  obtain ⟨l, hl, -⟩ := h
  exact ⟨l, hl.symm⟩

lemma ok_new (init : α) : (new init).Ok false :=
  ⟨[], rfl, LFQueue.holds_ofCapacity (by decide) init⟩

lemma Ok.write (h : c.Ok busy) (hroom : c.queue.hasRoom = true) (x : α) : (c.write x).Ok busy := by
  obtain ⟨l, hl, hq⟩ := h
  refine ⟨l ++ [x], ?_, ?_⟩
  · rw [Channel.write, hl, List.append_assoc]
  · cases busy with
    | false => exact LFQueue.Holds.write hq hroom x
    | true =>
      obtain ⟨y, hy⟩ := hq
      exact ⟨y, hy.write hroom x⟩

lemma Ok.hand (h : c.Ok false) (hread : c.queue.getNextToRead = some x) : (c.hand x).Ok true := by
  obtain ⟨l, hl, hq⟩ := h
  have hq : c.queue.Holds l := hq
  rw [hq.getNextToRead] at hread
  obtain ⟨l', rfl⟩ := List.head?_eq_some_iff.mp hread
  refine ⟨l', ?_, x, hq⟩
  rw [Channel.hand, hl, List.append_assoc]
  rfl

lemma Ok.updateReadIndex (h : c.Ok true) (hc' : c.updateReadIndex = .ok c') :
    c'.Ok false ∧ c'.written = c.written ∧ c'.read = c.read := by
  obtain ⟨l, hl, x, hq⟩ := h
  obtain ⟨q', hok, hq'⟩ := hq.updateReadIndex
  rw [Channel.updateReadIndex, hok] at hc'
  obtain rfl : { c with queue := q' } = c' := Except.ok.inj hc'
  exact ⟨⟨l, hl, hq'⟩, rfl, rfl⟩

end Channel

/-! ## One symbol -/

namespace SymbolContext

/-- The queues of a symbol are in order, and its book is the one its requests lead to; `gateway`
and `feed` say whether these threads are busy with the symbol's queues. -/
structure Ok (s : Symbol) (gateway feed : Bool) (c : SymbolContext) : Prop where
  requests : c.requestQueue.Ok c.worker.busy
  responses : c.responseQueue.Ok gateway
  updates : c.updateQueue.Ok feed
  book : ∃ reqs, reqs.map Prod.fst = c.requestQueue.read ∧ run (.new s) reqs = .ok c.book
  sentResponses : responsesOf c.book.sent =
    c.responseQueue.written ++ responsesOf c.worker.outbox
  sentUpdates : updatesOf c.book.sent = c.updateQueue.written ++ updatesOf c.worker.outbox

variable {s : Symbol} {gateway feed : Bool} {c : SymbolContext}

lemma ok_new (s : Symbol) : Ok s false false { book := .new s } :=
  ⟨Channel.ok_new _, Channel.ok_new _, Channel.ok_new _, ⟨[], rfl, rfl⟩, rfl, rfl⟩

/-- What a thread has done so far, by where it stands. -/
lemma Ok.of_worker (h : c.Ok s gateway feed) {w : Worker} (hw : c.worker = w) :
    c.requestQueue.Ok w.busy ∧
      responsesOf c.book.sent = c.responseQueue.written ++ responsesOf w.outbox ∧
      updatesOf c.book.sent = c.updateQueue.written ++ updatesOf w.outbox := by
  subst hw
  exact ⟨h.requests, h.sentResponses, h.sentUpdates⟩

lemma Ok.process (h : c.Ok s gateway feed) {req : EngineOrderRequest} {now : Nanos}
    {b : SymbolOrderBook} (hwaiting : c.worker = .waiting)
    (hread : c.requestQueue.queue.getNextToRead = some req)
    (hb : processRequest c.book req now = .ok b) :
    Ok s gateway feed { c with
      requestQueue := c.requestQueue.hand req
      book := b
      worker := .working (b.sent.drop c.book.sent.length) } := by
  obtain ⟨reqs, hreqs, hrun⟩ := h.book
  obtain ⟨hrun', msgs, hmsgs⟩ := run_concat hrun hb
  obtain ⟨hrequests, hresponses, hupdates⟩ := h.of_worker hwaiting
  simp only [Worker.outbox, responsesOf_nil, updatesOf_nil, List.append_nil] at hresponses hupdates
  refine ⟨hrequests.hand hread, h.responses, h.updates, ⟨reqs ++ [(req, now)], ?_, hrun'⟩, ?_, ?_⟩
  · rw [List.map_append, hreqs]
    rfl
  · show responsesOf b.sent = c.responseQueue.written ++ responsesOf (b.sent.drop _)
    rw [← hmsgs, List.drop_left, responsesOf_append, hresponses]
  · show updatesOf b.sent = c.updateQueue.written ++ updatesOf (b.sent.drop _)
    rw [← hmsgs, List.drop_left, updatesOf_append, hupdates]

lemma Ok.send (h : c.Ok s gateway feed) {m : OutMsg} {outbox : List OutMsg}
    (hworking : c.worker = .working (m :: outbox)) (hroom : c.roomFor m = true) :
    Ok s gateway feed { c.send m with worker := .working outbox } := by
  obtain ⟨hrequests, hresponses, hupdates⟩ := h.of_worker hworking
  cases m with
  | response r =>
    refine ⟨hrequests, h.responses.write hroom r, h.updates, h.book, ?_, hupdates⟩
    show _ = (c.responseQueue.written ++ [r]) ++ responsesOf outbox
    rw [List.append_assoc]
    exact hresponses
  | update u =>
    refine ⟨hrequests, h.responses, h.updates.write hroom u, h.book, hresponses, ?_⟩
    show _ = (c.updateQueue.written ++ [u]) ++ updatesOf outbox
    rw [List.append_assoc]
    exact hupdates

lemma Ok.advance (h : c.Ok s gateway feed) (hdone : c.worker = .working [])
    {ch : Channel EngineOrderRequest} (hch : c.requestQueue.updateReadIndex = .ok ch) :
    Ok s gateway feed { c with requestQueue := ch, worker := .waiting } := by
  obtain ⟨hrequests, hresponses, hupdates⟩ := h.of_worker hdone
  obtain ⟨hok, -, hread⟩ := hrequests.updateReadIndex hch
  exact ⟨hok, h.responses, h.updates, hread ▸ h.book, hresponses, hupdates⟩

end SymbolContext

/-! ## All stages -/

namespace Pipeline

variable {symbols : List Symbol} {p p' : Pipeline} {a : Action}

/-- Every queue is in order, and the updates that went to the snapshot service, or are about to,
are those the feed has seen. -/
structure Ok (p : Pipeline) : Prop where
  contexts : ∀ s, (p.contexts s).Ok s (p.gateway.busy (some s)) (p.feed.busy s)
  unknown : p.unknownSymbolResponses.Ok (p.gateway.busy none)
  snapshot : p.snapshotFeed.Ok p.snapshotBusy
  forwarded : ∀ s, (p.snapshotFeed.written ++ p.feed.inHand).filter
    (fun u => decide (u.symbol = s)) = (p.contexts s).updateQueue.read
  mirror : p.mirror = Mirror.empty.applyUpdates p.snapshotFeed.read

lemma ok_init : Ok {} where
  contexts s := SymbolContext.ok_new s
  unknown := Channel.ok_new _
  snapshot := Channel.ok_new _
  forwarded _ := rfl
  mirror := rfl

/-- A step that concerns one symbol's queues, and the position of the gateway or of the feed. -/
lemma Ok.setSymbol (h : Ok p) {s : Symbol} {c : SymbolContext} {g : GatewayPos} {f : FeedPos}
    (hc : c.Ok s (g.busy (some s)) (f.busy s))
    (hgateway : ∀ q, q ≠ some s → g.busy q = p.gateway.busy q)
    (hfeed : ∀ t, t ≠ s → f.busy t = p.feed.busy t)
    (hself : (p.snapshotFeed.written ++ f.inHand).filter (fun u => decide (u.symbol = s)) =
      c.updateQueue.read)
    (hother : ∀ t, t ≠ s → f.inHand.filter (fun u => decide (u.symbol = t)) =
      p.feed.inHand.filter (fun u => decide (u.symbol = t))) :
    Ok { p with contexts := Function.update p.contexts s c, gateway := g, feed := f } where
  contexts t := by
    by_cases ht : t = s
    · subst ht
      simpa using hc
    · have hne : some t ≠ some s := by simpa using ht
      simp only [Function.update_of_ne ht, hfeed t ht, hgateway _ hne]
      exact h.contexts t
  unknown := by
    rw [hgateway none (by simp)]
    exact h.unknown
  snapshot := h.snapshot
  forwarded t := by
    by_cases ht : t = s
    · subst ht
      simpa using hself
    · have := h.forwarded t
      rw [List.filter_append] at this
      simp only [Function.update_of_ne ht, List.filter_append, hother t ht]
      exact this
  mirror := h.mirror

/-- A step of a symbol's thread, or of the gateway routing to it. -/
lemma Ok.setContext (h : Ok p) {s : Symbol} {c : SymbolContext}
    (hc : c.Ok s (p.gateway.busy (some s)) (p.feed.busy s))
    (hread : c.updateQueue.read = (p.contexts s).updateQueue.read) : Ok (p.setContext s c) :=
  h.setSymbol hc (fun _ _ => rfl) (fun _ _ => rfl) ((h.forwarded s).trans hread.symm)
    fun _ _ => rfl

lemma exists_of_map_eq_ok {α β : Type} {x : Except Fault α} {f : α → β} {y : β}
    (h : Except.ok y = x.map f) : ∃ a, x = .ok a ∧ y = f a := by
  cases x with
  | error e => cases h
  | ok a => exact ⟨a, rfl, Except.ok.inj h⟩

/-- What the feed is handed for a symbol carries the symbol. -/
lemma Ok.symbol_of_read (h : Ok p) {s : Symbol} {u : BookUpdate}
    (hu : u ∈ (p.contexts s).updateQueue.written) : u.symbol = s := by
  obtain ⟨reqs, -, hrun⟩ := (h.contexts s).book
  refine symbol_of_mem_sent hrun ?_
  rw [(h.contexts s).sentUpdates]
  exact List.mem_append_left _ hu

/-! ## Steps -/

/-- The gateway reads a response of a symbol, or is done with one. -/
lemma Ok.setGateway (h : Ok p) {s : Symbol} {ch : Channel EngineOrderResponse} {g : GatewayPos}
    (hch : ch.Ok (g.busy (some s)))
    (hwritten : ch.written = (p.contexts s).responseQueue.written)
    (hgateway : ∀ q, q ≠ some s → g.busy q = p.gateway.busy q) :
    Ok { p.setContext s { p.contexts s with responseQueue := ch } with gateway := g } := by
  have hs := h.contexts s
  refine h.setSymbol ⟨hs.requests, hch, hs.updates, hs.book, ?_, hs.sentUpdates⟩ hgateway
    (fun _ _ => rfl) (h.forwarded s) fun _ _ => rfl
  show responsesOf _ = ch.written ++ _
  rw [hwritten]
  exact hs.sentResponses

/-- The feed reads an update of a symbol, or is done with one. -/
lemma Ok.setFeed (h : Ok p) {s : Symbol} {ch : Channel BookUpdate} {f : FeedPos}
    (hch : ch.Ok (f.busy s)) (hwritten : ch.written = (p.contexts s).updateQueue.written)
    (hfeed : ∀ t, t ≠ s → f.busy t = p.feed.busy t)
    (hself : (p.snapshotFeed.written ++ f.inHand).filter (fun u => decide (u.symbol = s)) = ch.read)
    (hother : ∀ t, t ≠ s → f.inHand.filter (fun u => decide (u.symbol = t)) =
      p.feed.inHand.filter (fun u => decide (u.symbol = t))) :
    Ok { p.setContext s { p.contexts s with updateQueue := ch } with feed := f } := by
  have hs := h.contexts s
  refine h.setSymbol ⟨hs.requests, hs.responses, hch, hs.book, hs.sentResponses, ?_⟩
    (fun _ _ => rfl) hfeed hself hother
  show updatesOf _ = ch.written ++ _
  rw [hwritten]
  exact hs.sentUpdates

lemma Ok.readResponse (h : Ok p) {s : Symbol} {r : EngineOrderResponse} (hidle : p.gateway = .idle)
    (hread : (p.contexts s).responseQueue.queue.getNextToRead = some r) :
    Ok { p.setContext s { p.contexts s with
      responseQueue := (p.contexts s).responseQueue.hand r } with
        gateway := .acking (some s) } := by
  have hresponses := (h.contexts s).responses
  rw [hidle] at hresponses
  refine h.setGateway ?_ rfl fun q hq => ?_
  · simpa [GatewayPos.busy] using hresponses.hand hread
  · simp [hidle, GatewayPos.busy, Ne.symm hq]

lemma Ok.ackResponse (h : Ok p) {s : Symbol} (hpos : p.gateway = .acking (some s))
    {ch : Channel EngineOrderResponse}
    (hch : (p.contexts s).responseQueue.updateReadIndex = .ok ch) :
    Ok { p.setContext s { p.contexts s with responseQueue := ch } with gateway := .idle } := by
  have hresponses := (h.contexts s).responses
  simp only [hpos, GatewayPos.busy, decide_true] at hresponses
  obtain ⟨hok, hwritten, -⟩ := hresponses.updateReadIndex hch
  refine h.setGateway hok hwritten fun q hq => ?_
  simp [hpos, GatewayPos.busy, Ne.symm hq]

/-- The gateway turns to the queue for unknown symbols, or away from it. -/
lemma Ok.setUnknown (h : Ok p) {ch : Channel EngineOrderResponse} {g : GatewayPos}
    (hch : ch.Ok (g.busy none)) (hgateway : ∀ s, g.busy (some s) = p.gateway.busy (some s)) :
    Ok { p with unknownSymbolResponses := ch, gateway := g } := by
  refine ⟨fun s => ?_, hch, h.snapshot, h.forwarded, h.mirror⟩
  show (p.contexts s).Ok s (g.busy (some s)) _
  rw [hgateway]
  exact h.contexts s

lemma Ok.readReject (h : Ok p) {r : EngineOrderResponse} (hidle : p.gateway = .idle)
    (hread : p.unknownSymbolResponses.queue.getNextToRead = some r) :
    Ok { p with
      unknownSymbolResponses := p.unknownSymbolResponses.hand r
      gateway := .acking none } := by
  have hunknown := h.unknown
  rw [hidle] at hunknown
  exact h.setUnknown (hunknown.hand hread) fun s => by simp [hidle, GatewayPos.busy]

lemma Ok.ackReject (h : Ok p) (hpos : p.gateway = .acking none) {ch : Channel EngineOrderResponse}
    (hch : p.unknownSymbolResponses.updateReadIndex = .ok ch) :
    Ok { p with unknownSymbolResponses := ch, gateway := .idle } := by
  have hunknown := h.unknown
  rw [hpos] at hunknown
  obtain ⟨hok, -⟩ := Channel.Ok.updateReadIndex hunknown hch
  exact h.setUnknown hok fun s => by simp [hpos, GatewayPos.busy]

lemma Ok.readUpdate (h : Ok p) {s : Symbol} {u : BookUpdate} (hidle : p.feed = .idle)
    (hread : (p.contexts s).updateQueue.queue.getNextToRead = some u) :
    Ok { p.setContext s { p.contexts s with
      updateQueue := (p.contexts s).updateQueue.hand u } with feed := .forwarding s u } := by
  have hupdates := (h.contexts s).updates
  rw [hidle] at hupdates
  have hhand := Channel.Ok.hand hupdates hread
  have hsymbol : u.symbol = s :=
    h.symbol_of_read (hhand.read_prefix.subset (List.mem_append_right _ (by simp)))
  have hforwarded := h.forwarded s
  rw [hidle] at hforwarded
  refine h.setFeed ?_ rfl (fun t ht => ?_) ?_ fun t ht => ?_
  · simpa [FeedPos.busy] using hhand
  · simp [hidle, FeedPos.busy, Ne.symm ht]
  · rw [List.filter_append, FeedPos.inHand, List.filter_singleton, decide_eq_true hsymbol]
    simp only [FeedPos.inHand, List.append_nil] at hforwarded
    rw [hforwarded]
    rfl
  · simp [hidle, FeedPos.inHand, hsymbol, Ne.symm ht]

lemma Ok.forward (h : Ok p) {s : Symbol} {u : BookUpdate} (hpos : p.feed = .forwarding s u)
    (hroom : p.snapshotFeed.queue.hasRoom = true) :
    Ok { p with snapshotFeed := p.snapshotFeed.write u, feed := .advancing s } := by
  refine ⟨fun t => ?_, h.unknown, h.snapshot.write hroom u, fun t => ?_, h.mirror⟩
  · have := h.contexts t
    rw [hpos] at this
    exact this
  · have := h.forwarded t
    rw [hpos] at this
    show (p.snapshotFeed.written ++ [u] ++ []).filter _ = _
    rw [List.append_nil]
    exact this

lemma Ok.ackUpdate (h : Ok p) {s : Symbol} (hpos : p.feed = .advancing s) {ch : Channel BookUpdate}
    (hch : (p.contexts s).updateQueue.updateReadIndex = .ok ch) :
    Ok { p.setContext s { p.contexts s with updateQueue := ch } with feed := .idle } := by
  have hupdates := (h.contexts s).updates
  simp only [hpos, FeedPos.busy, decide_true] at hupdates
  obtain ⟨hok, hwritten, hread⟩ := hupdates.updateReadIndex hch
  have hforwarded := h.forwarded s
  rw [hpos] at hforwarded
  refine h.setFeed hok hwritten (fun t ht => ?_) (hforwarded.trans hread.symm) fun t _ => ?_
  · simp [hpos, FeedPos.busy, Ne.symm ht]
  · simp [hpos, FeedPos.inHand]

lemma Ok.applyUpdate (h : Ok p) {u : BookUpdate} (hidle : p.snapshotBusy = false)
    (hread : p.snapshotFeed.queue.getNextToRead = some u) :
    Ok { p with
      snapshotFeed := p.snapshotFeed.hand u
      snapshotBusy := true
      mirror := p.mirror.applyUpdate u } := by
  have hsnapshot := h.snapshot
  rw [hidle] at hsnapshot
  refine ⟨h.contexts, h.unknown, hsnapshot.hand hread, h.forwarded, ?_⟩
  show p.mirror.applyUpdate u = Mirror.empty.applyUpdates (p.snapshotFeed.read ++ [u])
  rw [h.mirror, Mirror.applyUpdates, Mirror.applyUpdates, List.foldl_append]
  rfl

lemma Ok.ackSnapshot (h : Ok p) (hbusy : p.snapshotBusy = true) {ch : Channel BookUpdate}
    (hch : p.snapshotFeed.updateReadIndex = .ok ch) :
    Ok { p with snapshotFeed := ch, snapshotBusy := false } := by
  have hsnapshot := h.snapshot
  rw [hbusy] at hsnapshot
  obtain ⟨hok, hwritten, hread⟩ := hsnapshot.updateReadIndex hch
  exact ⟨h.contexts, h.unknown, hok, hwritten ▸ h.forwarded, hread ▸ h.mirror⟩

/-- A step whose write finds room keeps everything in order. -/
lemma Ok.next (h : Ok p) (hn : Next symbols p a p') (hroom : p.hasRoom symbols a = true) :
    Ok p' := by
  unfold Next at hn
  generalize hr : Except.ok p' = r at hn
  cases hn with
  | @route req c hidle hknown hc =>
    subst hc
    rw [Except.ok.inj hr]
    have hs := h.contexts req.symbol
    rw [hasRoom, if_pos hknown] at hroom
    exact h.setContext ⟨hs.requests.write hroom req, hs.responses, hs.updates, hs.book,
      hs.sentResponses, hs.sentUpdates⟩ rfl
  | routeUnknown hidle hunknown =>
    rw [Except.ok.inj hr]
    rw [hasRoom, if_neg hunknown] at hroom
    exact ⟨h.contexts, h.unknown.write hroom _, h.snapshot, h.forwarded, h.mirror⟩
  | @process s now req c hc hwaiting hread =>
    subst hc
    obtain ⟨b, hb, rfl⟩ := exists_of_map_eq_ok hr
    exact h.setContext ((h.contexts s).process hwaiting hread hb) rfl
  | @send s m outbox c hc hworking =>
    subst hc
    rw [Except.ok.inj hr]
    simp only [hasRoom, hworking, Worker.outbox, List.head?_cons, Option.all_some] at hroom
    refine h.setContext ((h.contexts s).send hworking hroom) ?_
    cases m <;> rfl
  | @advance s c hc hdone =>
    subst hc
    obtain ⟨ch, hch, rfl⟩ := exists_of_map_eq_ok hr
    exact h.setContext ((h.contexts s).advance hdone hch) rfl
  | readResponse hidle hc hread =>
    subst hc
    rw [Except.ok.inj hr]
    exact h.readResponse hidle hread
  | ackResponse hpos hc =>
    subst hc
    obtain ⟨ch, hch, rfl⟩ := exists_of_map_eq_ok hr
    exact h.ackResponse hpos hch
  | readReject hidle hread =>
    rw [Except.ok.inj hr]
    exact h.readReject hidle hread
  | ackReject hpos =>
    obtain ⟨ch, hch, rfl⟩ := exists_of_map_eq_ok hr
    exact h.ackReject hpos hch
  | readUpdate hidle hc hread =>
    subst hc
    rw [Except.ok.inj hr]
    exact h.readUpdate hidle hread
  | forward hpos =>
    rw [Except.ok.inj hr]
    exact h.forward hpos hroom
  | ackUpdate hpos hc =>
    subst hc
    obtain ⟨ch, hch, rfl⟩ := exists_of_map_eq_ok hr
    exact h.ackUpdate hpos hch
  | applyUpdate hidle hread =>
    rw [Except.ok.inj hr]
    exact h.applyUpdate hidle hread
  | ackSnapshot hbusy =>
    obtain ⟨ch, hch, rfl⟩ := exists_of_map_eq_ok hr
    exact h.ackSnapshot hbusy hch

/-! ## Runs -/

/-- Every stage has seen a prefix of what the stage before it produced. -/
structure Delivers (p : Pipeline) : Prop where
  /-- A symbol's thread has processed a prefix of what was routed to it. -/
  requests : ∀ s, (p.contexts s).requestQueue.read <+: (p.contexts s).requestQueue.written
  processed : ∀ s, ∃ reqs, reqs.map Prod.fst = (p.contexts s).requestQueue.read ∧
    run (.new s) reqs = .ok (p.contexts s).book
  /-- The gateway's callback has seen a prefix of what the symbol's thread has written, which is
  what its book has emitted so far. -/
  responses : ∀ s, (p.contexts s).responseQueue.read <+: (p.contexts s).responseQueue.written ∧
    (p.contexts s).responseQueue.written <+: responsesOf (p.contexts s).book.sent
  /-- So have the feed's subscribers. -/
  updates : ∀ s, (p.contexts s).updateQueue.read <+: (p.contexts s).updateQueue.written ∧
    (p.contexts s).updateQueue.written <+: updatesOf (p.contexts s).book.sent
  /-- So has, for each symbol, the snapshot service. -/
  snapshot : ∀ s, p.snapshotFeed.read.filter (fun u => decide (u.symbol = s)) <+:
    (p.contexts s).updateQueue.written
  rejects : p.unknownSymbolResponses.read <+: p.unknownSymbolResponses.written

lemma Ok.delivers (h : Ok p) : p.Delivers where
  requests s := (h.contexts s).requests.read_prefix
  processed s := (h.contexts s).book
  responses s := ⟨(h.contexts s).responses.read_prefix, _, (h.contexts s).sentResponses.symm⟩
  updates s := ⟨(h.contexts s).updates.read_prefix, _, (h.contexts s).sentUpdates.symm⟩
  snapshot s := by
    have hforwarded := h.forwarded s
    rw [List.filter_append] at hforwarded
    have hread := (h.snapshot.read_prefix).filter fun u => decide (u.symbol = s)
    exact (hread.trans ⟨_, hforwarded⟩).trans (h.contexts s).updates.read_prefix
  rejects := h.unknown.read_prefix

/-- In every run in which no write finds its queue full, every stage has seen a prefix of what the
stage before it produced, in every state. -/
theorem delivery_of_room (symbols : List Symbol) (p : Pipeline)
    (h : GuardedRun (Next symbols) (fun p a => p.hasRoom symbols a = true) {} p) : p.Delivers := by
  have hok : Ok p := h.invariant ok_init fun _ _ _ hn hroom hI => hI.next hn hroom
  exact hok.delivers

/-- A limit order as the gateway routes it. -/
def routedLimit : EngineOrderRequest := ⟨.limit, 1, "ACME", 1, .buy, 100, 5, 1⟩

/-- Its cancel. -/
def routedCancel : EngineOrderRequest := ⟨.cancel, 1, "ACME", 1, .buy, 100, 5, 2⟩

/-- A symbol's thread processes the next request. -/
lemma next_process {s : Symbol} {c : SymbolContext} {req : EngineOrderRequest} {now : Nanos}
    {b : SymbolOrderBook} (hc : p.contexts s = c) (hwaiting : c.worker = .waiting)
    (hread : c.requestQueue.queue.getNextToRead = some req)
    (hb : processRequest c.book req now = .ok b) :
    Next symbols p (.processRequest s now) (p.setContext s { c with
      requestQueue := c.requestQueue.hand req
      book := b
      worker := .working (b.sent.drop c.book.sent.length) }) := by
  have hstep : Step symbols p (.processRequest s now) _ := Step.process hc hwaiting hread
  rw [hb] at hstep
  exact hstep

/-- The symbol's thread processes a request that causes a response and an update, and the other
threads take note of both. -/
def serveActions (s : Symbol) (now : Nanos) : List Action :=
  [.processRequest s now, .send s, .send s, .advance s, .readResponse (some s), .ackResponse,
    .readUpdate s, .forward, .ackUpdate, .applyUpdate, .ackSnapshot]

def servedActions : List Action :=
  [.routeRequest routedLimit, .routeRequest routedCancel] ++ serveActions "ACME" 3 ++
    serveActions "ACME" 4

/-- What the stages have seen of an order and its cancel. -/
structure Served (p : Pipeline) : Prop where
  requests : (p.contexts "ACME").requestQueue.read = [routedLimit, routedCancel]
  responses : (p.contexts "ACME").responseQueue.read =
    [⟨.accepted, 1, "ACME", 1, 1, .buy, 100, 0, 5⟩, ⟨.canceled, 1, "ACME", 1, 1, .buy, 100, 0, 0⟩]
  updates : p.snapshotFeed.read =
    [⟨.add, 1, "ACME", .buy, 100, 5⟩, ⟨.cancel, 1, "ACME", .buy, 100, 5⟩]

instance (p : Pipeline) : Decidable p.Served :=
  decidable_of_iff (_ ∧ _ ∧ _) ⟨fun h => ⟨h.1, h.2.1, h.2.2⟩, fun h => ⟨h.1, h.2, h.3⟩⟩

/-- An order and its cancel go all the way. -/
theorem delivery_served : ∃ p : Pipeline, Run (Next ["ACME"]) {} p ∧ p.Served ∧ p.Delivers := by
  have hplay : (servedActions.foldlM (play (perform ["ACME"]) id
      (fun p a => p.hasRoom ["ACME"] a = true) fun _ _ => true) (0, {})).any
        (fun e => decide e.2.Served) = true := by
    decide +kernel
  obtain ⟨_, p, hp, hcheck⟩ := CountedRun.exists_of_play hplay fun p a p' hperform =>
    show Next ["ACME"] p a p' from next_iff.mpr hperform
  exact ⟨p, GuardedRun.run hp.run, of_decide_eq_true hcheck, delivery_of_room ["ACME"] p hp.run⟩

/-- `routedLimit` has been routed `n` times, and the symbol's thread has not run yet. -/
structure Flooded (n : ℕ) (p : Pipeline) : Prop where
  reached : Run (Next ["ACME"]) {} p
  gateway : p.gateway = .idle
  worker : (p.contexts "ACME").worker = .waiting
  book : (p.contexts "ACME").book = .new "ACME"
  read : (p.contexts "ACME").requestQueue.read = []
  written : (p.contexts "ACME").requestQueue.written = List.replicate n routedLimit
  capacity : (p.contexts "ACME").requestQueue.queue.capacity = symbolQueueSize
  writeIndex : (p.contexts "ACME").requestQueue.queue.nextWriteIndex = n % symbolQueueSize
  readIndex : (p.contexts "ACME").requestQueue.queue.nextReadIndex = 0

lemma exists_flooded (n : ℕ) : ∃ p, Flooded n p := by
  induction n with
  | zero => exact ⟨{}, Run.refl _, rfl, rfl, rfl, rfl, rfl, rfl, rfl, rfl⟩
  | succ n ih =>
    obtain ⟨p, h⟩ := ih
    set c := p.contexts "ACME"
    have hroute : Next ["ACME"] p (.routeRequest routedLimit)
        (p.setContext "ACME" { c with requestQueue := c.requestQueue.write routedLimit }) :=
      Step.route h.gateway (by decide) rfl
    refine ⟨_, h.reached.tail hroute, h.gateway, ?_, ?_, ?_, ?_, ?_, ?_, ?_⟩ <;>
      rw [contexts_setContext]
    · exact h.worker
    · exact h.book
    · exact h.read
    · show c.requestQueue.written ++ [routedLimit] = _
      rw [h.written, List.replicate_succ']
    · exact h.capacity
    · show (c.requestQueue.queue.nextWriteIndex + 1) % c.requestQueue.queue.capacity = _
      rw [h.writeIndex, h.capacity, Nat.mod_add_mod]
    · exact h.readIndex

/-- The ring wraps around before the symbol's thread has read anything, and the cancel takes the
place of the first order. -/
theorem delivery_overflow : ∃ p : Pipeline, Run (Next ["ACME"]) {} p ∧
    (p.contexts "ACME").requestQueue.written =
      List.replicate symbolQueueSize routedLimit ++ [routedCancel] ∧
    (p.contexts "ACME").requestQueue.read = [routedCancel] ∧ ¬ p.Delivers := by
  obtain ⟨p, h⟩ := exists_flooded symbolQueueSize
  set c := p.contexts "ACME"
  set c₁ : SymbolContext := { c with requestQueue := c.requestQueue.write routedCancel } with hc₁
  have hroute : Next ["ACME"] p (.routeRequest routedCancel) (p.setContext "ACME" c₁) :=
    Step.route h.gateway (by decide) rfl
  -- the write index is back at the slot that is read first
  have hread : c₁.requestQueue.queue.getNextToRead = some routedCancel := by
    show some (Function.update c.requestQueue.queue.store c.requestQueue.queue.nextWriteIndex
      routedCancel c.requestQueue.queue.nextReadIndex) = _
    rw [h.writeIndex, h.readIndex, Nat.mod_self, Function.update_self]
  obtain ⟨b, hb, -⟩ : ∃ b, processRequest (.new "ACME") routedCancel 3 = .ok b ∧ true = true :=
    exists_ok_of_check (by decide +kernel)
  set c₂ : SymbolContext := { c₁ with
    requestQueue := c₁.requestQueue.hand routedCancel
    book := b
    worker := .working (b.sent.drop c₁.book.sent.length) } with hc₂
  have hprocess : Next ["ACME"] (p.setContext "ACME" c₁) (.processRequest "ACME" 3)
      ((p.setContext "ACME" c₁).setContext "ACME" c₂) := by
    refine next_process (contexts_setContext p "ACME" c₁) h.worker hread ?_
    rw [hc₁, h.book, hb]
  have hwritten : c₂.requestQueue.written =
      List.replicate symbolQueueSize routedLimit ++ [routedCancel] := by
    show c.requestQueue.written ++ _ = _
    rw [h.written]
  have hseen : c₂.requestQueue.read = [routedCancel] := by
    show c.requestQueue.read ++ _ = _
    rw [h.read]
    rfl
  refine ⟨_, (h.reached.tail hroute).tail hprocess, ?_, ?_, fun hdelivers => ?_⟩
  · rw [contexts_setContext, hwritten]
  · rw [contexts_setContext, hseen]
  · have hprefix := hdelivers.requests "ACME"
    rw [contexts_setContext, hwritten, hseen, show symbolQueueSize = 65535 + 1 from rfl,
      List.replicate_succ, List.cons_append, List.cons_prefix_cons] at hprefix
    exact absurd hprefix.1 (by decide)

end Pipeline

end MatchingEngine
