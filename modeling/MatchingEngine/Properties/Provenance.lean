import MatchingEngine.Properties.Completion
import MatchingEngine.Properties.QueueOverrun

/-!
# What messages are about

Most of what is said about the exchange holds as long as no queue overflows.  A queue that does
overflow loses, repeats and reorders what it was written, but it hands over nothing else.  So every
symbol's thread sees requests for its symbol only, in every run whatsoever, and what the callbacks
of `main` collect is about the symbols of the order file (`Visited.symbol_mem`).

`SymbolContext.Pure` is the invariant for one symbol, and `Sourced` that for the whole exchange.
-/

namespace MatchingEngine

open Transitions

namespace LFQueue

variable {α : Type} {q q' : LFQueue α} {P : α → Prop} {x : α}

/-- Everything that was ever written to the queue has the property `P`. -/
def Carries (P : α → Prop) (q : LFQueue α) : Prop :=
  ∃ n handed t, 0 < n ∧ Shows n ⟨q, handed⟩ t ∧ ∀ x ∈ t.written, P x

lemma carries_ofCapacity {n : ℕ} (hn : 0 < n) (init : α) : (ofCapacity n init).Carries P :=
  ⟨n, [], {}, hn, Shows.init n init, by simp⟩

lemma Carries.write (h : q.Carries P) (hx : P x) : (q.write x).Carries P := by
  obtain ⟨n, handed, t, hn, hshows, hall⟩ := h
  refine ⟨n, handed, t.step n (.write x), hn, hshows.write x, fun y hy => ?_⟩
  rcases List.mem_append.mp hy with hy | hy
  · exact hall y hy
  · rw [List.mem_singleton.mp hy]
    exact hx

/-- What a read is handed was written, if maybe not next. -/
lemma Carries.of_read (h : q.Carries P) (hread : q.getNextToRead = some x) : P x := by
  obtain ⟨n, handed, t, hn, hshows, hall⟩ := h
  unfold getNextToRead at hread
  split_ifs at hread with hne
  obtain rfl := Option.some.inj hread
  have hcount : q.numElements + t.handed.length = t.written.length := hshows.count
  have hslot := hshows.slots.getElem_latest hn (show t.handed.length < t.written.length by omega)
  rw [← hshows.readIndex] at hslot
  exact hall _ (List.mem_of_getElem? hslot)

lemma Carries.updateReadIndex (h : q.Carries P) (hq' : q.updateReadIndex = .ok q') :
    q'.Carries P := by
  obtain ⟨n, handed, t, hn, hshows, hall⟩ := h
  obtain ⟨u, hu, hshows'⟩ := hshows.read hn
  have hne : q.numElements ≠ 0 := by
    rintro hzero
    rw [LFQueue.updateReadIndex, if_neg (not_not.mpr hzero)] at hq'
    cases hq'
  have hsome : q.getNextToRead = some (q.store q.nextReadIndex) := if_pos hne
  simp only [QueueUse.step, hsome, hq'] at hu
  obtain rfl := Except.ok.inj hu
  exact ⟨n, _, _, hn, hshows', hall⟩

end LFQueue

lemma Channel.carries_updateReadIndex {α : Type} {P : α → Prop} {c c' : Channel α}
    (h : c.queue.Carries P) (hc' : c.updateReadIndex = .ok c') : c'.queue.Carries P := by
  obtain ⟨q, hq, rfl⟩ := Pipeline.exists_of_map_eq_ok hc'.symm
  exact h.updateReadIndex hq

/-! ## One symbol -/

/-- Everything in the queues of `s`, and in the hands of its thread, is about `s`. -/
structure SymbolContext.Pure (s : Symbol) (c : SymbolContext) : Prop where
  requests : c.requestQueue.queue.Carries fun q => q.symbol = s
  responses : c.responseQueue.queue.Carries fun r => r.symbol = s
  updates : c.updateQueue.queue.Carries fun u => u.symbol = s
  book : ∃ reqs, (∀ q ∈ reqs, q.1.symbol = s) ∧ run (.new s) reqs = .ok c.book
  outbox : ∀ m ∈ c.worker.outbox, m.symbol = s

namespace SymbolContext

variable {s : Symbol} {c : SymbolContext}

lemma pure_new (s : Symbol) : Pure s { book := .new s } where
  requests := LFQueue.carries_ofCapacity (by decide) _
  responses := LFQueue.carries_ofCapacity (by decide) _
  updates := LFQueue.carries_ofCapacity (by decide) _
  book := ⟨[], by simp, rfl⟩
  outbox := by simp [Worker.outbox]

lemma Pure.process (h : c.Pure s) {req : EngineOrderRequest} {now : Nanos} {b : SymbolOrderBook}
    (hread : c.requestQueue.queue.getNextToRead = some req)
    (hb : processRequest c.book req now = .ok b) :
    Pure s { c with
      requestQueue := c.requestQueue.hand req
      book := b
      worker := .working (b.sent.drop c.book.sent.length) } := by
  obtain ⟨reqs, hreqs, hrun⟩ := h.book
  have hall : ∀ q ∈ reqs ++ [(req, now)], q.1.symbol = s := by
    rw [List.forall_mem_append, List.forall_mem_singleton]
    exact ⟨hreqs, h.requests.of_read hread⟩
  have hrun' := (run_concat hrun hb).1
  refine { h with book := ⟨_, hall, hrun'⟩, outbox := fun m hm => ?_ }
  exact symbol_of_mem_run hrun' hall (List.mem_of_mem_drop hm)

lemma Pure.send (h : c.Pure s) {m : OutMsg} {outbox : List OutMsg}
    (hworking : c.worker = .working (m :: outbox)) :
    Pure s { c.send m with worker := .working outbox } := by
  have hall := h.outbox
  rw [hworking, Worker.outbox, List.forall_mem_cons] at hall
  cases m with
  | response r =>
    exact ⟨h.requests, h.responses.write hall.1, h.updates, h.book, hall.2⟩
  | update u => exact ⟨h.requests, h.responses, h.updates.write hall.1, h.book, hall.2⟩

end SymbolContext

/-! ## All symbols -/

namespace Pipeline

variable {symbols : List Symbol} {p p' : Pipeline} {a : Action}

/-- Every symbol's queues are about it, only symbols with books have any, and there is nothing for
unknown symbols. -/
structure Pure (symbols : List Symbol) (p : Pipeline) : Prop where
  contexts : ∀ s, (p.contexts s).Pure s
  untouched : p.Untouched symbols
  unknown : p.unknownSymbolResponses.queue.numElements = 0

lemma pure_init (symbols : List Symbol) : Pure symbols {} :=
  ⟨fun s => SymbolContext.pure_new s, fun _ _ => rfl, rfl⟩

lemma Pure.update (h : p.Pure symbols) {s : Symbol} {c : SymbolContext} (hc : c.Pure s)
    (t : Symbol) : (Function.update p.contexts s c t).Pure t := by
  by_cases ht : t = s
  · subst ht
    rwa [Function.update_self]
  · rw [Function.update_of_ne ht]
    exact h.contexts t

/-- A step keeps this, if it does not route a request for an unknown symbol. -/
lemma Pure.next (h : p.Pure symbols) (hn : Next symbols p a p')
    (hknown : ∀ req, a = .routeRequest req → req.symbol ∈ symbols) : p'.Pure symbols := by
  have huntouched : p'.Untouched symbols := (hn.steps_succ h.untouched).2
  unfold Next at hn
  generalize hr : Except.ok p' = r at hn
  cases hn with
  | @route req c hidle hmem hc =>
    subst hc
    obtain rfl := Except.ok.inj hr
    have hs := h.contexts req.symbol
    exact ⟨h.update { hs with requests := hs.requests.write rfl }, huntouched, h.unknown⟩
  | routeUnknown hidle hunknown => exact absurd (hknown _ rfl) hunknown
  | @process s now req c hc hwaiting hread =>
    subst hc
    obtain ⟨b, hb, rfl⟩ := exists_of_map_eq_ok hr
    exact ⟨h.update ((h.contexts s).process hread hb), huntouched, h.unknown⟩
  | @send s m outbox c hc hworking =>
    subst hc
    obtain rfl := Except.ok.inj hr
    exact ⟨h.update ((h.contexts s).send hworking), huntouched, h.unknown⟩
  | @advance s c hc hdone =>
    subst hc
    obtain ⟨ch, hch, rfl⟩ := exists_of_map_eq_ok hr
    have hs := h.contexts s
    have hrequests := Channel.carries_updateReadIndex hs.requests hch
    exact ⟨h.update ⟨hrequests, hs.responses, hs.updates, hs.book, by simp [Worker.outbox]⟩,
      huntouched, h.unknown⟩
  | @readResponse s r c hidle hc hread =>
    subst hc
    obtain rfl := Except.ok.inj hr
    have hs := h.contexts s
    exact ⟨h.update ⟨hs.requests, hs.responses, hs.updates, hs.book, hs.outbox⟩, huntouched,
      h.unknown⟩
  | @ackResponse s c hpos hc =>
    subst hc
    obtain ⟨ch, hch, rfl⟩ := exists_of_map_eq_ok hr
    have hs := h.contexts s
    have hresponses := Channel.carries_updateReadIndex hs.responses hch
    exact ⟨h.update { hs with responses := hresponses }, huntouched, h.unknown⟩
  | readReject hidle hread =>
    obtain rfl := Except.ok.inj hr
    exact ⟨h.contexts, huntouched, h.unknown⟩
  | ackReject hpos =>
    obtain ⟨ch, hch, rfl⟩ := exists_of_map_eq_ok hr
    obtain ⟨q, hq, rfl⟩ := exists_of_map_eq_ok hch.symm
    rw [LFQueue.updateReadIndex, if_neg (not_not.mpr h.unknown)] at hq
    cases hq
  | @readUpdate s u c hidle hc hread =>
    subst hc
    obtain rfl := Except.ok.inj hr
    have hs := h.contexts s
    exact ⟨h.update ⟨hs.requests, hs.responses, hs.updates, hs.book, hs.outbox⟩, huntouched,
      h.unknown⟩
  | forward hpos =>
    obtain rfl := Except.ok.inj hr
    exact ⟨h.contexts, huntouched, h.unknown⟩
  | @ackUpdate s c hpos hc =>
    subst hc
    obtain ⟨ch, hch, rfl⟩ := exists_of_map_eq_ok hr
    have hs := h.contexts s
    have hupdates := Channel.carries_updateReadIndex hs.updates hch
    exact ⟨h.update { hs with updates := hupdates }, huntouched, h.unknown⟩
  | applyUpdate hidle hread =>
    obtain rfl := Except.ok.inj hr
    exact ⟨h.contexts, huntouched, h.unknown⟩
  | ackSnapshot hbusy =>
    obtain ⟨ch, hch, rfl⟩ := exists_of_map_eq_ok hr
    exact ⟨h.contexts, huntouched, h.unknown⟩

/-- The gateway's callback is handed responses about symbols with books. -/
lemma Pure.response_mem (h : p.Pure symbols) {queue : Option Symbol} {r : EngineOrderResponse}
    (hread : Exchange.nextResponse p queue = some r) : r.symbol ∈ symbols := by
  cases queue with
  | none =>
    have hnone : p.unknownSymbolResponses.queue.getNextToRead = none :=
      if_neg (not_not.mpr h.unknown)
    rw [Exchange.nextResponse, hnone] at hread
    cases hread
  | some s =>
    rw [Exchange.nextResponse] at hread
    rw [(h.contexts s).responses.of_read hread]
    refine h.untouched.mem fun hnew => ?_
    rw [hnew] at hread
    cases hread

lemma Pure.update_mem (h : p.Pure symbols) {s : Symbol} {u : BookUpdate}
    (hread : (p.contexts s).updateQueue.queue.getNextToRead = some u) : u.symbol ∈ symbols := by
  rw [(h.contexts s).updates.of_read hread]
  refine h.untouched.mem fun hnew => ?_
  rw [hnew] at hread
  cases hread

end Pipeline

/-! ## The exchange -/

namespace Exchange

variable {symbols : List Symbol} {orders : List EngineOrderRequest} {x x' : Exchange} {a : Action}

/-- Whatever is anywhere in the exchange of `main` is about a symbol with a book. -/
structure Sourced (symbols : List Symbol) (x : Exchange) : Prop where
  gateway : x.gateway.Tidy
  unsubmitted : ∀ o ∈ x.unsubmitted, o.symbol ∈ symbols
  held : ∀ t ∈ x.gateway.held 0, t.request.request.symbol ∈ symbols
  pushed : ∀ t ∈ x.gateway.pushed, t.request.request.symbol ∈ symbols
  unrouted : ∀ s ∈ x.unrouted, s.request.symbol ∈ symbols
  pipeline : x.pipeline.Pure symbols
  responses : ∀ r ∈ x.responses, r.symbol ∈ symbols
  updates : ∀ u ∈ x.updates, u.symbol ∈ symbols

lemma sourced_init (hknown : ∀ o ∈ orders, o.symbol ∈ symbols) :
    Sourced symbols { unsubmitted := orders } where
  gateway := OrderGatewayServer.tidy_init
  unsubmitted := hknown
  held := by simp
  pushed := by simp
  unrouted := by simp
  pipeline := Pipeline.pure_init symbols
  responses := by simp
  updates := by simp

lemma Sourced.setClock (h : Sourced symbols x) (now : Nanos) :
    Sourced symbols { x with gateway := x.gateway.setClock now } :=
  { h with gateway := h.gateway.setClock now }

/-- What a flush has sorted was pushed. -/
lemma Sourced.sequence (h : Sourced symbols x) {b : OrderGatewayServer.Action}
    {g : OrderGatewayServer} (hown : ofGateway b = true) (hnext : x.gateway.Next b g) :
    Sourced symbols
      { x with gateway := g, unrouted := g.routed.drop x.gateway.routed.length } := by
  have hframe : OrderGatewayServer.Frame x.gateway g := by
    obtain ⟨p, -, -, rfl, -⟩ | ⟨p, -, rfl, -⟩ | ⟨hframe, -⟩ := hnext.moves
    · cases hown
    · cases hown
    · exact hframe
  have htidy : g.Tidy := h.gateway.next hnext
  have hpushed : ∀ t ∈ g.pushed, t.request.request.symbol ∈ symbols := by
    rw [hframe.pushed]
    exact h.pushed
  refine { h with
    gateway := htidy, held := ?_, pushed := hpushed, unrouted := fun s hs => ?_ }
  · show ∀ t ∈ g.held 0, _
    rw [hframe.held]
    exact h.held
  · have hline : s ∈ g.line := List.mem_append_left _ (List.mem_of_mem_drop hs)
    obtain ⟨t, ht, rfl⟩ := List.mem_map.mp (htidy.accounted.line.mem_iff.mp hline)
    exact hpushed t ht

lemma Sourced.next (h : Sourced symbols x) (hn : Next symbols x a x') : Sourced symbols x' := by
  cases hn with
  | @readClock req rest now hnext hidle hnow =>
    have hstep : x.gateway.Next (.readClock 0) (x.gateway.readClock 0 now req) :=
      OrderGatewayServer.Step.readClock 0 now req hidle hnow
    have hunsubmitted := h.unsubmitted
    rw [hnext, List.forall_mem_cons] at hunsubmitted
    refine { h with
      gateway := h.gateway.next hstep, unsubmitted := hunsubmitted.2, held := fun t ht => ?_ }
    obtain rfl : _ = t := by simpa [OrderGatewayServer.readClock] using ht
    exact hunsubmitted.1
  | @push t hheld =>
    have hstep : x.gateway.Next (.push 0) (x.gateway.push 0 t) :=
      OrderGatewayServer.Step.push hheld
    refine { h with gateway := h.gateway.next hstep, held := ?_, pushed := ?_ }
    · simp [OrderGatewayServer.push]
    · show ∀ t' ∈ x.gateway.pushed ++ [t], _
      rw [List.forall_mem_append, List.forall_mem_singleton]
      exact ⟨h.pushed, h.held t hheld⟩
  | sequence hown hrouted hidle hnext => exact h.sequence hown hnext
  | @route s rest p hnext hroute =>
    have hunrouted := h.unrouted
    rw [hnext, List.forall_mem_cons] at hunrouted
    refine { h with unrouted := hunrouted.2, pipeline := h.pipeline.next hroute ?_ }
    intro req hreq
    obtain rfl := Pipeline.Action.routeRequest.inj hreq
    exact hunrouted.1
  | readResponse _ _ hread hnext =>
    refine { h with pipeline := h.pipeline.next hnext (by simp), responses := ?_ }
    rw [List.forall_mem_append, List.forall_mem_singleton]
    exact ⟨h.responses, h.pipeline.response_mem hread⟩
  | readUpdate hread hnext =>
    refine { h with pipeline := h.pipeline.next hnext (by simp), updates := ?_ }
    rw [List.forall_mem_append, List.forall_mem_singleton]
    exact ⟨h.updates, h.pipeline.update_mem hread⟩
  | @stage b p hsilent hnext =>
    refine { h with pipeline := h.pipeline.next hnext ?_ }
    rintro req rfl
    cases hsilent

lemma Visited.sourced (h : Visited orders x) : Sourced (symbolsOf orders) x := by
  refine Run.invariant (I := Sourced (symbolsOf orders)) h (sourced_init fun o ho => ?_) ?_
  · exact ((mem_symbolsOf_and_nodup orders).1 _).mpr ⟨o, ho, rfl⟩
  · rintro y b y' ⟨now, hn⟩ hy
    exact (hy.setClock now).next hn

/-- Whatever the queues, the sort and the clock do, the callbacks are handed messages about symbols
of the order file. -/
lemma Visited.symbol_mem (h : Visited orders x) :
    (∀ r ∈ x.responses, r.symbol ∈ symbolsOf orders) ∧
      ∀ u ∈ x.updates, u.symbol ∈ symbolsOf orders :=
  ⟨h.sourced.responses, h.sourced.updates⟩

/-- What regular steps reach is among the states visited. -/
lemma Reached.visited (h : Reached orders x) : Visited orders x :=
  Run.invariant (I := Visited orders) h (Run.refl _) fun y _ _ hs hy =>
    hy.tail ⟨y.gateway.clock, hs.1⟩

end Exchange

end MatchingEngine
