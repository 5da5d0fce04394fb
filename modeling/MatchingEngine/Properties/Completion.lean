import Mathlib.Algebra.BigOperators.Ring.Finset
import Mathlib.Algebra.Order.BigOperators.Group.Finset
import MatchingEngine.Properties.EndToEnd

/-!
# The exchange gets done

All this is about runs of `main` in which no queue overflows, no flush finds two orders with equal
receive times and the clock never goes back (`Reached`).

When no thread finds anything to do, everything has been done: all orders have been processed, and
the callbacks and the snapshot service have seen all that came of them (`exchange_complete`).  No
thread waits for another one that waits for it; the gateway's thread is the only one that does
several jobs, and it never holds one back while another is waiting.

And it gets there: every order takes eight steps from the file to the end of its processing, every
response three and every update six from the book to its last reader, and no such run takes more
(`exchange_bounded`).
-/

namespace MatchingEngine

open Transitions

/-! ## The next step of a thread -/

namespace Channel

variable {α : Type} {c : Channel α}

/-- A consumer that has been handed an element can advance. -/
lemma Ok.exists_updateReadIndex (h : c.Ok true) : ∃ c', c.updateReadIndex = .ok c' := by
  obtain ⟨l, -, x, hq⟩ := h
  obtain ⟨q, hok, -⟩ := hq.updateReadIndex
  exact ⟨{ c with queue := q }, by rw [Channel.updateReadIndex, hok]; rfl⟩

/-- A consumer that finds nothing has been handed everything. -/
lemma Ok.read_eq (h : c.Ok false) (hnone : c.queue.getNextToRead = none) : c.read = c.written := by
  obtain ⟨l, hl, hq⟩ := h
  rw [LFQueue.Holds.getNextToRead hq, List.head?_eq_none_iff] at hnone
  rw [hl, hnone, List.append_nil]

lemma Ok.getNextToRead_eq_none (h : c.Ok false) (hread : c.read = c.written) :
    c.queue.getNextToRead = none := by
  obtain ⟨l, hl, hq⟩ := h
  rw [hread] at hl
  obtain rfl : l = [] := List.self_eq_append_right.mp hl
  exact LFQueue.Holds.getNextToRead hq

end Channel

namespace Pipeline

variable {symbols : List Symbol} {p : Pipeline}

/-- Some thread can take a step that is not a look into a queue. -/
def CanFinish (symbols : List Symbol) (p : Pipeline) : Prop :=
  ∃ a p', Exchange.silent a = true ∧ Next symbols p a p'

/-- The gateway's thread can end what it is doing. -/
lemma Ok.gateway_canFinish (h : Ok p) (hbusy : p.gateway ≠ .idle) : CanFinish symbols p := by
  cases hpos : p.gateway with
  | idle => exact absurd hpos hbusy
  | acking queue =>
    cases queue with
    | none =>
      have hunknown := h.unknown
      simp only [hpos, GatewayPos.busy, decide_true] at hunknown
      obtain ⟨ch, hch⟩ := hunknown.exists_updateReadIndex
      have hstep : Step symbols p .ackResponse _ := Step.ackReject hpos
      rw [hch] at hstep
      exact ⟨_, _, rfl, hstep⟩
    | some s =>
      have hresponses := (h.contexts s).responses
      simp only [hpos, GatewayPos.busy, decide_true] at hresponses
      obtain ⟨ch, hch⟩ := hresponses.exists_updateReadIndex
      have hstep : Step symbols p .ackResponse _ := Step.ackResponse hpos rfl
      rw [hch] at hstep
      exact ⟨_, _, rfl, hstep⟩

/-- A symbol's thread can go on with its request. -/
lemma Ok.worker_canFinish (h : Ok p) {s : Symbol} (hbusy : (p.contexts s).worker ≠ .waiting) :
    CanFinish symbols p := by
  cases hw : (p.contexts s).worker with
  | waiting => exact absurd hw hbusy
  | working outbox =>
    cases outbox with
    | nil =>
      obtain ⟨hrequests, -⟩ := (h.contexts s).of_worker hw
      obtain ⟨ch, hch⟩ := Channel.Ok.exists_updateReadIndex hrequests
      have hstep : Step symbols p (.advance s) _ := Step.advance rfl hw
      rw [hch] at hstep
      exact ⟨_, _, rfl, hstep⟩
    | cons m outbox => exact ⟨_, _, rfl, Step.send rfl hw⟩

/-- The feed's thread can end what it is doing. -/
lemma Ok.feed_canFinish (h : Ok p) (hbusy : p.feed ≠ .idle) : CanFinish symbols p := by
  cases hpos : p.feed with
  | idle => exact absurd hpos hbusy
  | forwarding s u => exact ⟨_, _, rfl, Step.forward hpos⟩
  | advancing s =>
    have hupdates := (h.contexts s).updates
    simp only [hpos, FeedPos.busy, decide_true] at hupdates
    obtain ⟨ch, hch⟩ := hupdates.exists_updateReadIndex
    have hstep : Step symbols p .ackUpdate _ := Step.ackUpdate hpos rfl
    rw [hch] at hstep
    exact ⟨_, _, rfl, hstep⟩

/-- The snapshot service can go on while there is something in its queue. -/
lemma Ok.snapshot_canFinish (h : Ok p) (hbehind : p.snapshotFeed.read ≠ p.snapshotFeed.written) :
    CanFinish symbols p := by
  have hsnapshot := h.snapshot
  cases hbusy : p.snapshotBusy with
  | true =>
    rw [hbusy] at hsnapshot
    obtain ⟨ch, hch⟩ := hsnapshot.exists_updateReadIndex
    have hstep : Step symbols p .ackSnapshot _ := Step.ackSnapshot hbusy
    rw [hch] at hstep
    exact ⟨_, _, rfl, hstep⟩
  | false =>
    rw [hbusy] at hsnapshot
    cases hread : p.snapshotFeed.queue.getNextToRead with
    | none => exact absurd (hsnapshot.read_eq hread) hbehind
    | some u => exact ⟨_, _, rfl, Step.applyUpdate hbusy hread⟩

end Pipeline

/-! ## Counting steps -/

/-- What the threads have done for one symbol so far. -/
def SymbolContext.steps (c : SymbolContext) : ℕ :=
  c.requestQueue.written.length + 2 * c.requestQueue.read.length + (!c.worker.busy).toNat +
    c.responseQueue.written.length + 2 * c.responseQueue.read.length +
    c.updateQueue.written.length + 3 * c.updateQueue.read.length

/-- How far the gateway's thread is with a response. -/
def GatewayPos.rank : GatewayPos → ℕ
  | acking _ => 0
  | idle => 1

/-- How far the feed's thread is with an update. -/
def FeedPos.rank : FeedPos → ℕ
  | forwarding .. => 0
  | advancing _ => 1
  | idle => 2

namespace Pipeline

variable {symbols : List Symbol} {p p' : Pipeline} {a : Action}

/-- What the threads have done so far. -/
def steps (symbols : List Symbol) (p : Pipeline) : ℕ :=
  ∑ s ∈ symbols.toFinset, (p.contexts s).steps + p.unknownSymbolResponses.written.length +
    2 * p.unknownSymbolResponses.read.length + p.gateway.rank + p.feed.rank +
    2 * p.snapshotFeed.read.length + (!p.snapshotBusy).toNat

/-- No thread has touched the queues of a symbol that has no book. -/
def Untouched (symbols : List Symbol) (p : Pipeline) : Prop :=
  ∀ s, s ∉ symbols → p.contexts s = { book := .new s }

lemma Untouched.setContext (h : Untouched symbols p) {s : Symbol} (hs : s ∈ symbols)
    (c : SymbolContext) : Untouched symbols (p.setContext s c) := by
  intro t ht
  have hne : t ≠ s := by
    rintro rfl
    exact ht hs
  rw [contexts_setContext_of_ne p c hne]
  exact h t ht

lemma sum_update (p : Pipeline) {s : Symbol} (hs : s ∈ symbols) (c : SymbolContext) :
    ∑ t ∈ symbols.toFinset, (Function.update p.contexts s c t).steps + (p.contexts s).steps =
      ∑ t ∈ symbols.toFinset, (p.contexts t).steps + c.steps := by
  have hmem : s ∈ symbols.toFinset := List.mem_toFinset.mpr hs
  have hothers : ∑ t ∈ symbols.toFinset.erase s, (Function.update p.contexts s c t).steps =
      ∑ t ∈ symbols.toFinset.erase s, (p.contexts t).steps := by
    refine Finset.sum_congr rfl fun t ht => ?_
    rw [Function.update_of_ne (Finset.ne_of_mem_erase ht)]
  rw [← Finset.add_sum_erase _ _ hmem,
    ← Finset.add_sum_erase _ (fun t => (p.contexts t).steps) hmem, Function.update_self, hothers]
  omega

/-- A symbol whose queues are in use has a book. -/
lemma Untouched.mem (hu : Untouched symbols p) {s : Symbol}
    (hne : p.contexts s ≠ { book := .new s }) : s ∈ symbols := by
  by_contra hs
  exact hne (hu s hs)

lemma Untouched.idle (hu : Untouched symbols p) (h : ∀ s ∈ symbols, (p.contexts s).Idle)
    (s : Symbol) : (p.contexts s).Idle := by
  by_cases hs : s ∈ symbols
  · exact h s hs
  · rw [hu s hs]
    exact ⟨rfl, rfl, rfl, rfl⟩

/-- A step that concerns one symbol's queues, and the position of the gateway or of the feed. -/
lemma Untouched.steps_setSymbol (hu : Untouched symbols p) {s : Symbol} (hs : s ∈ symbols)
    {c : SymbolContext} {g : GatewayPos} {f : FeedPos}
    (hp' : p' = { p with contexts := Function.update p.contexts s c, gateway := g, feed := f })
    (hcount : c.steps + g.rank + f.rank =
      (p.contexts s).steps + p.gateway.rank + p.feed.rank + 1) :
    p'.steps symbols = p.steps symbols + 1 ∧ Untouched symbols p' := by
  subst hp'
  refine ⟨?_, hu.setContext hs c⟩
  have hsum := p.sum_update hs c
  simp only [steps]
  omega

/-- A step counts as one, and touches no queues but those of the symbols with books. -/
lemma Next.steps_succ (h : Next symbols p a p') (hu : Untouched symbols p) :
    p'.steps symbols = p.steps symbols + 1 ∧ Untouched symbols p' := by
  unfold Next at h
  generalize hr : Except.ok p' = r at h
  cases h with
  | @route req c hidle hknown hc =>
    subst hc
    refine hu.steps_setSymbol hknown (Except.ok.inj hr) ?_
    simp only [SymbolContext.steps, Channel.write, List.length_append, List.length_singleton]
    omega
  | routeUnknown =>
    obtain rfl := Except.ok.inj hr
    refine ⟨?_, hu⟩
    simp only [steps, Channel.write, List.length_append, List.length_singleton]
    omega
  | @process s now req c hc hwaiting hread =>
    subst hc
    obtain ⟨b, -, hp'⟩ := exists_of_map_eq_ok hr
    have hs : s ∈ symbols := hu.mem fun hnew => by
      rw [hnew] at hread
      cases hread
    refine hu.steps_setSymbol hs hp' ?_
    simp only [SymbolContext.steps, Channel.hand, List.length_append, List.length_singleton,
      hwaiting, Worker.busy, Bool.not_false, Bool.not_true, Bool.toNat_true, Bool.toNat_false]
    omega
  | @send s m outbox c hc hworking =>
    subst hc
    have hs : s ∈ symbols := hu.mem fun hnew => by
      rw [hnew] at hworking
      cases hworking
    refine hu.steps_setSymbol hs (Except.ok.inj hr) ?_
    cases m <;>
      simp only [SymbolContext.steps, SymbolContext.send, Channel.write, List.length_append,
        List.length_singleton, hworking, Worker.busy]
    · omega
    · omega
  | @advance s c hc hdone =>
    subst hc
    obtain ⟨ch, hch, hp'⟩ := exists_of_map_eq_ok hr
    have hs : s ∈ symbols := hu.mem fun hnew => by
      rw [hnew] at hdone
      cases hdone
    obtain ⟨hwritten, hread⟩ := Channel.history_updateReadIndex hch
    refine hu.steps_setSymbol hs hp' ?_
    simp only [SymbolContext.steps, hwritten, hread, hdone, Worker.busy, Bool.not_false,
      Bool.not_true, Bool.toNat_true, Bool.toNat_false]
    omega
  | @readResponse s r c hidle hc hread =>
    subst hc
    have hs : s ∈ symbols := hu.mem fun hnew => by
      rw [hnew] at hread
      cases hread
    refine hu.steps_setSymbol hs (f := p.feed) (Except.ok.inj hr) ?_
    simp only [SymbolContext.steps, Channel.hand, List.length_append, List.length_singleton, hidle,
      GatewayPos.rank]
    omega
  | @ackResponse s c hpos hc =>
    subst hc
    obtain ⟨ch, hch, hp'⟩ := exists_of_map_eq_ok hr
    have hs : s ∈ symbols := hu.mem fun hnew => by
      rw [hnew] at hch
      cases hch
    obtain ⟨hwritten, hread⟩ := Channel.history_updateReadIndex hch
    refine hu.steps_setSymbol hs (f := p.feed) hp' ?_
    simp only [SymbolContext.steps, hwritten, hread, hpos, GatewayPos.rank]
    omega
  | readReject hidle =>
    obtain rfl := Except.ok.inj hr
    refine ⟨?_, hu⟩
    simp only [steps, Channel.hand, List.length_append, List.length_singleton, hidle,
      GatewayPos.rank]
    omega
  | ackReject hpos =>
    obtain ⟨ch, hch, rfl⟩ := exists_of_map_eq_ok hr
    obtain ⟨hwritten, hread⟩ := Channel.history_updateReadIndex hch
    refine ⟨?_, hu⟩
    simp only [steps, hwritten, hread, hpos, GatewayPos.rank]
    omega
  | @readUpdate s u c hidle hc hread =>
    subst hc
    have hs : s ∈ symbols := hu.mem fun hnew => by
      rw [hnew] at hread
      cases hread
    refine hu.steps_setSymbol hs (g := p.gateway) (Except.ok.inj hr) ?_
    simp only [SymbolContext.steps, Channel.hand, List.length_append, List.length_singleton, hidle,
      FeedPos.rank]
    omega
  | forward hpos =>
    obtain rfl := Except.ok.inj hr
    refine ⟨?_, hu⟩
    simp only [steps, Channel.write, hpos, FeedPos.rank]
    omega
  | @ackUpdate s c hpos hc =>
    subst hc
    obtain ⟨ch, hch, hp'⟩ := exists_of_map_eq_ok hr
    have hs : s ∈ symbols := hu.mem fun hnew => by
      rw [hnew] at hch
      cases hch
    obtain ⟨hwritten, hread⟩ := Channel.history_updateReadIndex hch
    refine hu.steps_setSymbol hs (g := p.gateway) hp' ?_
    simp only [SymbolContext.steps, hwritten, hread, hpos, FeedPos.rank]
  | applyUpdate hidle =>
    obtain rfl := Except.ok.inj hr
    refine ⟨?_, hu⟩
    simp only [steps, Channel.hand, List.length_append, List.length_singleton, hidle,
      Bool.not_false, Bool.not_true, Bool.toNat_true, Bool.toNat_false]
    omega
  | ackSnapshot hbusy =>
    obtain ⟨ch, hch, rfl⟩ := exists_of_map_eq_ok hr
    obtain ⟨-, hread⟩ := Channel.history_updateReadIndex hch
    refine ⟨?_, hu⟩
    simp only [steps, hread, hbusy, Bool.not_false, Bool.not_true, Bool.toNat_true,
      Bool.toNat_false]

end Pipeline

namespace OrderGatewayServer

variable {g g' : OrderGatewayServer} {a : Action}

/-- What has been done in the gateway with what `main` has submitted. -/
def steps (g : OrderGatewayServer) : ℕ :=
  g.pushed.length + (g.held 0).toList.length + g.inbox.length + 2 * g.phase.batch.length +
    3 * g.sequencer.window.length + 4 * g.routed.length

/-- How many requests a step of the gateway's thread moves, at least. -/
def moved (g : OrderGatewayServer) : Action → ℕ
  | .drainInbox => g.inbox.length
  | .flush => g.sequencer.window.length
  | _ => 1

/-- A step of the gateway's thread moves each of these by one place or more. -/
lemma Next.steps_le (h : Next g a g') (hown : Exchange.ofGateway a = true) :
    g.steps + g.moved a ≤ g'.steps := by
  have hflushed : ∀ outs : List (List Submission),
      (g.flushes ++ outs).flatten.length = g.routed.length + outs.flatten.length := by
    intro outs
    rw [List.flatten_append, List.length_append]
    rfl
  unfold Next at h
  generalize hr : Except.ok g' = r at h
  cases h with
  | readClock | push => cases hown
  | drainInbox hphase =>
    obtain rfl := Except.ok.inj hr
    simp only [steps, moved, hphase, Phase.batch, routed, List.length_nil]
    omega
  | @enqueue x rest outs r' hphase henqueue =>
    obtain ⟨s, rfl, -, hmove⟩ := henqueue.eq_ok
    obtain rfl := Except.ok.inj hr
    have hrouted := hflushed outs
    rcases hmove with ⟨-, rfl, hwindow⟩ | ⟨-, out, rfl, hperm, -, hwindow⟩
    · rw [List.flatten_nil, List.length_nil] at hrouted
      simp only [steps, moved, hphase, Phase.batch, hwindow, routed, hrouted, List.length_append,
        List.length_cons, List.length_nil]
      omega
    · rw [List.flatten_singleton, hperm.length_eq] at hrouted
      simp only [steps, moved, hphase, Phase.batch, hwindow, routed, hrouted,
        List.length_cons, List.length_nil]
      omega
  | @flush out s hphase hflush =>
    obtain rfl := Except.ok.inj hr
    obtain ⟨hperm, -, hempty⟩ := hflush.spec
    have hrouted := hflushed [out]
    rw [List.flatten_singleton, hperm.length_eq] at hrouted
    simp only [steps, moved, hphase, Phase.batch, RequestSequencer.window_eq_nil hempty, routed,
      hrouted, List.length_nil]
    omega

end OrderGatewayServer

namespace Exchange

variable {symbols : List Symbol} {orders : List EngineOrderRequest} {x x' : Exchange} {a : Action}

/-- What all threads have done so far. -/
def steps (symbols : List Symbol) (x : Exchange) : ℕ := x.gateway.steps + x.pipeline.steps symbols

/-- No step undoes anything, and one that does more than look is counted. -/
lemma Next.steps_le (h : Next symbols x a x') (hu : x.pipeline.Untouched symbols) :
    x.steps symbols + (x.works a).toNat ≤ x'.steps symbols ∧ x'.pipeline.Untouched symbols := by
  cases h with
  | readClock now hnext hidle hnow =>
    refine ⟨?_, hu⟩
    simp only [steps, OrderGatewayServer.steps, OrderGatewayServer.readClock, works, hidle,
      OrderGatewayServer.routed, Function.update_self, Option.toList_none, Option.toList_some,
      List.length_singleton, List.length_nil, Bool.toNat_true]
    omega
  | @push t hheld =>
    refine ⟨?_, hu⟩
    simp only [steps, OrderGatewayServer.steps, OrderGatewayServer.push, works, hheld,
      OrderGatewayServer.routed, Function.update_self, Option.toList_none, Option.toList_some,
      List.length_append, List.length_singleton, List.length_nil, Bool.toNat_true]
    omega
  | @sequence b g hown hrouted hidle hnext =>
    refine ⟨?_, hu⟩
    have hmoved := hnext.steps_le hown
    have hworks : (x.works (.sequence b)).toNat ≤ x.gateway.moved b := by
      cases b with
      | readClock | push => cases hown
      | enqueue => exact Nat.le_refl 1
      | drainInbox =>
        simp only [works, OrderGatewayServer.moved]
        cases x.gateway.inbox <;> simp
      | flush =>
        simp only [works, OrderGatewayServer.moved]
        cases x.gateway.sequencer.window <;> simp
    simp only [steps]
    omega
  | route _ hroute =>
    obtain ⟨hsucc, hu'⟩ := hroute.steps_succ hu
    refine ⟨?_, hu'⟩
    simp only [steps, works, hsucc, Bool.toNat_true]
    omega
  | readResponse _ _ _ hnext | readUpdate _ hnext | stage _ hnext =>
    obtain ⟨hsucc, hu'⟩ := hnext.steps_succ hu
    refine ⟨?_, hu'⟩
    simp only [steps, works, hsucc, Bool.toNat_true]
    omega

lemma Reached.untouched (h : Reached orders x) : x.pipeline.Untouched (symbolsOf orders) :=
  h.invariant (I := fun x => x.pipeline.Untouched (symbolsOf orders)) (fun _ _ => rfl)
    fun _ _ _ hn _ hu => (hn.steps_le hu).2

/-! ## When nothing is left to do -/

/-- The gateway's thread is at the top of its loop, and no thread has anything to do. -/
structure Quiet (symbols : List Symbol) (x : Exchange) : Prop where
  phase : x.gateway.phase = .drain
  idle : ∀ a x', Next symbols x a x' → x.works a = false

lemma Quiet.not_canFinish (h : Quiet symbols x) : ¬ x.pipeline.CanFinish symbols := by
  rintro ⟨a, p, hsilent, hnext⟩
  exact absurd (h.idle _ _ (Next.stage hsilent hnext)) (by simp [works])

/-- `main` has submitted everything. -/
lemma Quiet.unsubmitted_eq (h : Quiet symbols x) :
    x.unsubmitted = [] ∧ x.gateway.held 0 = none := by
  cases hheld : x.gateway.held 0 with
  | some t => exact absurd (h.idle _ _ (Next.push hheld)) (by simp [works])
  | none =>
    cases hnext : x.unsubmitted with
    | nil => exact ⟨rfl, rfl⟩
    | cons req rest =>
      have hstep : Next symbols x .readClock _ :=
        .readClock x.gateway.clock hnext hheld (Int64.le_refl _)
      exact absurd (h.idle _ _ hstep) (by simp [works])

lemma Quiet.gateway_idle (h : Quiet symbols x) (hw : Wired orders x) :
    x.pipeline.gateway = .idle := by
  by_contra hbusy
  exact h.not_canFinish (hw.pipeline.gateway_canFinish hbusy)

/-- The router is through with the last flush. -/
lemma Quiet.unrouted_eq (h : Quiet symbols x) (hw : Wired orders x) : x.unrouted = [] := by
  cases hnext : x.unrouted with
  | nil => rfl
  | cons s rest =>
    have hroute : ∃ p, Pipeline.Next symbols x.pipeline (.routeRequest s.request) p := by
      by_cases hknown : s.request.symbol ∈ symbols
      · exact ⟨_, Pipeline.Step.route (h.gateway_idle hw) hknown rfl⟩
      · exact ⟨_, Pipeline.Step.routeUnknown (h.gateway_idle hw) hknown⟩
    obtain ⟨p, hp⟩ := hroute
    exact absurd (h.idle _ _ (Next.route hnext hp)) (by simp [works])

/-- Nothing waits in the gateway. -/
lemma Quiet.waiting_eq (h : Quiet symbols x) (hw : Wired orders x) : x.gateway.waiting = [] := by
  have hinbox : x.gateway.inbox = [] := by
    have hstep := h.idle _ _ (Next.sequence (a := .drainInbox) rfl (h.unrouted_eq hw)
      (h.gateway_idle hw) (OrderGatewayServer.Step.drainInbox h.phase))
    simpa [works] using hstep
  rw [(OrderGatewayServer.Reachable.tidy hw.gateway.run).waiting_eq h.phase, hinbox]
  rfl

/-- All orders have been routed. -/
lemma Quiet.written_eq (h : Quiet symbols x) (hw : Wired orders x) (s : Symbol) :
    (x.pipeline.contexts s).requestQueue.written.map unstamped =
      (ordersFor s orders).map unstamped := by
  refine (hw.routed_orders s).eq_of_length ?_
  obtain ⟨passed, hpassed, hwritten⟩ := hw.routed
  have hline := hw.line
  have hsubmitted := hw.submitted
  obtain ⟨hnone, hheld⟩ := h.unsubmitted_eq
  rw [hheld, hnone, Option.toList_none, List.append_nil, List.append_nil] at hsubmitted
  rw [OrderGatewayServer.line, h.waiting_eq hw, hpassed, h.unrouted_eq hw, List.append_nil,
    List.append_nil] at hline
  rw [List.length_map, List.length_map, hwritten, ordersFor, ← hsubmitted, hline]
  simp only [List.filter_map, List.map_map, List.length_map]
  rfl

/-- The next request of a symbol does to its book what the next order does in the sequential
run. -/
lemma Wired.playAlone_succ (h : Wired orders x) {s : Symbol} {req : EngineOrderRequest}
    (hwaiting : (x.pipeline.contexts s).worker = .waiting)
    (hnext : (x.pipeline.contexts s).requestQueue.queue.getNextToRead = some req) (now : Nanos) :
    playAlone s ((ordersFor s orders).take
        ((x.pipeline.contexts s).requestQueue.read.length + 1)) =
      SymbolOrderBook.untimed <$> processRequest (x.pipeline.contexts s).book req now := by
  obtain ⟨reqs, hreqs, hrun⟩ := (h.pipeline.contexts s).book
  obtain ⟨hrequests, -⟩ := (h.pipeline.contexts s).of_worker hwaiting
  have hread : (x.pipeline.contexts s).requestQueue.read ++ [req] <+:
      (x.pipeline.contexts s).requestQueue.written :=
    Channel.Ok.read_prefix (Channel.Ok.hand hrequests hnext)
  have horders := (hread.map unstamped).trans (h.routed_orders s)
  have hone : run (.new s) (reqs ++ [(req, now)]) =
      processRequest (x.pipeline.contexts s).book req now := by
    rw [run_append, hrun]
    change (processRequest _ req now).bind Except.ok = _
    cases processRequest (x.pipeline.contexts s).book req now <;> rfl
  rw [← hone]
  refine playAlone_eq ?_
  rw [List.map_append, hreqs, List.map_singleton, List.map_take, List.prefix_iff_eq_take.mp horders,
    List.length_map, List.length_append, List.length_singleton]

/-- A symbol's thread has processed all its orders. -/
lemma Quiet.read_eq (h : Quiet symbols x) (hw : Wired orders x) {s : Symbol} {b : SymbolOrderBook}
    (hb : playAlone s (ordersFor s orders) = .ok b) :
    (x.pipeline.contexts s).worker = .waiting ∧
      (x.pipeline.contexts s).requestQueue.read =
        (x.pipeline.contexts s).requestQueue.written := by
  have hwaiting : (x.pipeline.contexts s).worker = .waiting := by
    by_contra hbusy
    exact h.not_canFinish (hw.pipeline.worker_canFinish hbusy)
  refine ⟨hwaiting, ?_⟩
  obtain ⟨hrequests, -⟩ := (hw.pipeline.contexts s).of_worker hwaiting
  cases hnext : (x.pipeline.contexts s).requestQueue.queue.getNextToRead with
  | none => exact Channel.Ok.read_eq hrequests hnext
  | some req =>
    -- the sequential run gets past this order, so the thread can take it
    have hsucc := hw.playAlone_succ hwaiting hnext 0
    have hprefix : ∃ b', playAlone s ((ordersFor s orders).take
        ((x.pipeline.contexts s).requestQueue.read.length + 1)) = .ok b' :=
      run_ok_of_prefix ((List.take_prefix _ _).map _) hb
    obtain ⟨b', hb'⟩ := hprefix
    rw [hb'] at hsucc
    cases hprocess : processRequest (x.pipeline.contexts s).book req 0 with
    | error f =>
      rw [hprocess] at hsucc
      cases hsucc
    | ok b'' =>
      exact absurd ⟨_, _, rfl, Pipeline.next_process rfl hwaiting hnext hprocess⟩ h.not_canFinish

/-- The callbacks have been handed everything. -/
lemma Quiet.handed (h : Quiet symbols x) (hw : Wired orders x) (s : Symbol) :
    (x.pipeline.contexts s).responseQueue.read = (x.pipeline.contexts s).responseQueue.written ∧
      (x.pipeline.contexts s).updateQueue.read =
        (x.pipeline.contexts s).updateQueue.written := by
  have hidle := h.gateway_idle hw
  have hfeed : x.pipeline.feed = .idle := by
    by_contra hbusy
    exact h.not_canFinish (hw.pipeline.feed_canFinish hbusy)
  have hresponses := (hw.pipeline.contexts s).responses
  have hupdates := (hw.pipeline.contexts s).updates
  rw [hidle] at hresponses
  rw [hfeed] at hupdates
  constructor
  · cases hread : (x.pipeline.contexts s).responseQueue.queue.getNextToRead with
    | none => exact Channel.Ok.read_eq hresponses hread
    | some r =>
      have hstep : Next symbols x (.stage (.readResponse (some s))) _ :=
        .readResponse h.phase (h.unrouted_eq hw) hread (.readResponse hidle rfl hread)
      exact absurd (h.idle _ _ hstep) (by simp [works])
  · cases hread : (x.pipeline.contexts s).updateQueue.queue.getNextToRead with
    | none => exact Channel.Ok.read_eq hupdates hread
    | some u =>
      have hstep : Next symbols x (.stage (.readUpdate s)) _ :=
        .readUpdate hread (.readUpdate hfeed rfl hread)
      exact absurd (h.idle _ _ hstep) (by simp [works])

/-- The snapshot service has applied everything the subscriber has seen. -/
lemma Quiet.snapshot_eq (h : Quiet symbols x) (hw : Wired orders x) :
    x.pipeline.snapshotFeed.read = x.updates := by
  have hfeed : x.pipeline.feed = .idle := by
    by_contra hbusy
    exact h.not_canFinish (hw.pipeline.feed_canFinish hbusy)
  have hread : x.pipeline.snapshotFeed.read = x.pipeline.snapshotFeed.written := by
    by_contra hbehind
    exact h.not_canFinish (hw.pipeline.snapshot_canFinish hbehind)
  rw [hread, hw.updates, hfeed]
  exact (List.append_nil _).symm

lemma Drained.not_canFinish (h : Drained symbols x) (hw : Wired orders x)
    (hu : x.pipeline.Untouched symbols) : ¬ x.pipeline.CanFinish symbols := by
  rintro ⟨a, p, hsilent, hnext⟩
  unfold Pipeline.Next at hnext
  generalize Except.ok p = r at hnext
  cases hnext with
  | route | routeUnknown | readResponse | readReject | readUpdate => cases hsilent
  | @process s _ _ c hc hwaiting hread =>
    subst hc
    obtain ⟨hrequests, -⟩ := (hw.pipeline.contexts s).of_worker hwaiting
    rw [Channel.Ok.getNextToRead_eq_none hrequests (hu.idle h.contexts s).requests] at hread
    cases hread
  | @send s _ _ c hc hworking | @advance s c hc hworking =>
    subst hc
    rw [(hu.idle h.contexts s).worker] at hworking
    cases hworking
  | ackResponse hpos | ackReject hpos =>
    rw [h.gateway] at hpos
    cases hpos
  | forward hpos | ackUpdate hpos =>
    rw [h.feed] at hpos
    cases hpos
  | applyUpdate hidle hread =>
    have hsnapshot := hw.pipeline.snapshot
    rw [hidle] at hsnapshot
    rw [hsnapshot.getNextToRead_eq_none h.applied] at hread
    cases hread
  | ackSnapshot hbusy =>
    rw [h.snapshot] at hbusy
    cases hbusy

/-- Where nothing is left, nobody has anything to do. -/
lemma Drained.quiet (h : Drained symbols x) (hw : Wired orders x)
    (hu : x.pipeline.Untouched symbols) : Quiet symbols x := by
  refine ⟨h.phase, fun a x' hn => ?_⟩
  cases hn with
  | readClock _ hnext =>
    rw [h.unsubmitted] at hnext
    cases hnext
  | push hheld =>
    rw [h.held] at hheld
    cases hheld
  | @sequence b _ hown _ _ hnext =>
    unfold OrderGatewayServer.Next at hnext
    generalize Except.ok _ = r at hnext
    cases hnext with
    | readClock | push => cases hown
    | drainInbox => simp [works, h.inbox]
    | enqueue hphase | flush hphase =>
      rw [h.phase] at hphase
      cases hphase
  | route hnext =>
    rw [h.unrouted] at hnext
    cases hnext
  | @readResponse queue _ _ _ _ hread =>
    cases queue with
    | none =>
      have hunknown := hw.pipeline.unknown
      have hread' := hunknown.read_prefix
      rw [hw.unknown, List.prefix_nil] at hread'
      rw [h.gateway] at hunknown
      rw [nextResponse, Channel.Ok.getNextToRead_eq_none hunknown
        (hread'.trans hw.unknown.symm)] at hread
      cases hread
    | some s =>
      have hresponses := (hw.pipeline.contexts s).responses
      rw [h.gateway] at hresponses
      rw [nextResponse, Channel.Ok.getNextToRead_eq_none hresponses
        (hu.idle h.contexts s).responses] at hread
      cases hread
  | @readUpdate s _ _ hread =>
    have hupdates := (hw.pipeline.contexts s).updates
    rw [h.feed] at hupdates
    rw [Channel.Ok.getNextToRead_eq_none hupdates (hu.idle h.contexts s).updates] at hread
    cases hread
  | stage hsilent hnext => exact absurd ⟨_, _, hsilent, hnext⟩ (h.not_canFinish hw hu)

/-- What a quiet exchange has done for a symbol. -/
lemma Quiet.complete (h : Quiet symbols x) (hw : Wired orders x) {s : Symbol} {b : SymbolOrderBook}
    (hb : playAlone s (ordersFor s orders) = .ok b) :
    x.responses.filter (fun r => decide (r.symbol = s)) = responsesOf b.sent ∧
      x.updates.filter (fun u => decide (u.symbol = s)) = updatesOf b.sent ∧
      (x.pipeline.contexts s).book.untimed = b ∧
      x.pipeline.mirror s = MirrorBook.applyAll ∅ (updatesOf b.sent) := by
  obtain ⟨hwaiting, hread⟩ := h.read_eq hw hb
  obtain ⟨hresponses, hupdates⟩ := h.handed hw s
  obtain ⟨n, hplay, hn⟩ := hw.exists_playAlone s
  have hlength : n = (ordersFor s orders).length := by
    have hlen := congrArg List.length (h.written_eq hw s)
    rw [List.length_map, List.length_map] at hlen
    rw [hn, hread, hlen]
  have hbook : (x.pipeline.contexts s).book.untimed = b := by
    rw [hlength, List.take_length, hb] at hplay
    exact (Except.ok.inj hplay).symm
  have hsent : (x.pipeline.contexts s).book.sent = b.sent := by rw [← hbook]; rfl
  obtain ⟨-, hsentR, hsentU⟩ := (hw.pipeline.contexts s).of_worker hwaiting
  have hshown : x.updates.filter (fun u => decide (u.symbol = s)) = updatesOf b.sent := by
    rw [hw.updates, hw.pipeline.forwarded, hupdates, ← hsent, hsentU]
    exact (List.append_nil _).symm
  refine ⟨?_, hshown, hbook, ?_⟩
  · rw [hw.responses, hresponses, ← hsent, hsentR]
    exact (List.append_nil _).symm
  · rw [hw.pipeline.mirror, h.snapshot_eq hw, Mirror.applyUpdates_apply, hshown]
    rfl

/-- When, in a run without an overflow or a flush of equal receive times in which the clock never
goes back, no thread has anything to do, everything has been done: for every symbol whose orders the
sequential run gets through, the callbacks have seen exactly what it emits, the symbol's book is,
but for time stamps, the one it ends with, and the mirror is the one its updates make. -/
theorem exchange_complete (orders : List EngineOrderRequest) (x : Exchange) (h : Reached orders x)
    (hquiet : Quiet (symbolsOf orders) x) (s : Symbol) (b : SymbolOrderBook)
    (hb : playAlone s (ordersFor s orders) = .ok b) :
    x.responses.filter (fun r => decide (r.symbol = s)) = responsesOf b.sent ∧
      x.updates.filter (fun u => decide (u.symbol = s)) = updatesOf b.sent ∧
      (x.pipeline.contexts s).book.untimed = b ∧
      x.pipeline.mirror s = MirrorBook.applyAll ∅ (updatesOf b.sent) :=
  hquiet.complete h.wired hb

lemma exists_pairAlone : ∃ b, playAlone "ACME" (ordersFor "ACME" pairOrders) = .ok b ∧
    decide (responsesOf b.sent = pairResponses ∧ updatesOf b.sent = pairUpdates) = true :=
  exists_ok_of_check (by decide +kernel)

/-- The run of the two orders ends where nobody has anything to do, with all that came of them. -/
theorem exchange_complete_pair : ∃ x b, Reached pairOrders x ∧
    Quiet (symbolsOf pairOrders) x ∧ playAlone "ACME" (ordersFor "ACME" pairOrders) = .ok b ∧
      responsesOf b.sent = pairResponses ∧
      x.responses.filter (fun r => decide (r.symbol = "ACME")) = responsesOf b.sent ∧
      x.pipeline.mirror "ACME" = MirrorBook.applyAll ∅ (updatesOf b.sent) := by
  obtain ⟨x, hx, ⟨hdrained, -, -⟩, -⟩ := exists_pairRun
  obtain ⟨b, hb, hcheck⟩ := exists_pairAlone
  have hquiet := hdrained.quiet hx.reached.wired hx.reached.untouched
  obtain ⟨hresponses, -, -, hmirror⟩ :=
    exchange_complete pairOrders x hx.reached hquiet "ACME" b hb
  exact ⟨x, b, hx.reached, hquiet, hb, (of_decide_eq_true hcheck).1, hresponses, hmirror⟩

/-! ## How the process can stop -/

lemma not_updateReadIndex_error {α β : Type} {c : Channel α} {g : Channel α → β} {f : Fault}
    (h : c.Ok true) (hr : Except.error f = c.updateReadIndex.map g) : False := by
  obtain ⟨c', hc'⟩ := h.exists_updateReadIndex
  rw [hc'] at hr
  cases hr

/-- A stage stops the process only where the sequential run over a symbol's orders stops. -/
lemma Wired.fault (hw : Wired orders x) {a : Pipeline.Action} {f : Fault}
    (hf : Pipeline.Step symbols x.pipeline a (.error f)) :
    f = .outOfSpace ∧ ∃ s now, a = .processRequest s now ∧
      playAlone s ((ordersFor s orders).take
        ((x.pipeline.contexts s).requestQueue.read.length + 1)) = .error f := by
  generalize hr : Except.error f = r at hf
  cases hf with
  | route | routeUnknown | send | readResponse | readReject | readUpdate | forward
  | applyUpdate => cases hr
  | @process s now req c hc hwaiting hread =>
    subst hc
    have hplay := hw.playAlone_succ hwaiting hread now
    cases hprocess : processRequest (x.pipeline.contexts s).book req now with
    | ok b =>
      rw [hprocess] at hr
      cases hr
    | error e =>
      rw [hprocess] at hr hplay
      obtain rfl : f = e := Except.error.inj hr
      refine ⟨?_, s, now, rfl, hplay⟩
      rcases run_refines s (((ordersFor s orders).take _).map fun o => (o, 0)) with
        hout | ⟨b, hb, -⟩
      · exact Except.error.inj (hplay.symm.trans hout)
      · rw [playAlone, hb] at hplay
        cases hplay
  | @advance s c hc hdone =>
    subst hc
    exact (not_updateReadIndex_error ((hw.pipeline.contexts s).of_worker hdone).1 hr).elim
  | @ackResponse s c hpos hc =>
    subst hc
    have hok := (hw.pipeline.contexts s).responses
    simp only [hpos, GatewayPos.busy, decide_true] at hok
    exact (not_updateReadIndex_error hok hr).elim
  | ackReject hpos =>
    have hok := hw.pipeline.unknown
    simp only [hpos, GatewayPos.busy, decide_true] at hok
    exact (not_updateReadIndex_error hok hr).elim
  | @ackUpdate s c hpos hc =>
    subst hc
    have hok := (hw.pipeline.contexts s).updates
    simp only [hpos, FeedPos.busy, decide_true] at hok
    exact (not_updateReadIndex_error hok hr).elim
  | ackSnapshot hbusy =>
    have hok := hw.pipeline.snapshot
    rw [hbusy] at hok
    exact (not_updateReadIndex_error hok hr).elim

/-- If the sequential runs get through all orders, no stage stops the process. -/
lemma Wired.not_fault (h : Wired orders x)
    (hfits : ∀ s, ∃ b, playAlone s (ordersFor s orders) = .ok b) (a : Pipeline.Action) (f : Fault) :
    ¬ Pipeline.Step symbols x.pipeline a (.error f) := by
  intro hf
  obtain ⟨-, s, -, -, herror⟩ := h.fault hf
  obtain ⟨b, hb⟩ := hfits s
  have hprefix : ∃ b', playAlone s ((ordersFor s orders).take
      ((x.pipeline.contexts s).requestQueue.read.length + 1)) = .ok b' :=
    run_ok_of_prefix ((List.take_prefix _ _).map _) hb
  obtain ⟨b', hb'⟩ := hprefix
  rw [hb'] at herror
  cases herror

/-- A run without an overflow or a flush of equal receive times, in which the clock never goes back,
is stopped only in the thread of a symbol, and only when a pool is exhausted at an order at which
the sequential run over the symbol's orders stops as well.  If the sequential runs get through all
orders, nothing stops it. -/
theorem exchange_stops (orders : List EngineOrderRequest) (x : Exchange) (h : Reached orders x) :
    (∀ a f, ¬ OrderGatewayServer.Step x.gateway a (.error f)) ∧
      (∀ a f, Pipeline.Step (symbolsOf orders) x.pipeline a (.error f) →
        f = .outOfSpace ∧ ∃ s now, a = .processRequest s now ∧
          playAlone s ((ordersFor s orders).take
            ((x.pipeline.contexts s).requestQueue.read.length + 1)) = .error f) ∧
      ((∀ s, ∃ b, playAlone s (ordersFor s orders) = .ok b) →
        ∀ a f, ¬ Pipeline.Step (symbolsOf orders) x.pipeline a (.error f)) := by
  exact ⟨OrderGatewayServer.not_step_error x.gateway, fun a f hf => h.wired.fault hf,
    h.wired.not_fault⟩

lemma exists_pairFits (s : Symbol) : ∃ b, playAlone s (ordersFor s pairOrders) = .ok b := by
  by_cases hs : s = "ACME"
  · subst hs
    obtain ⟨b, hb, -⟩ := exists_pairAlone
    exact ⟨b, hb⟩
  · have hnone : ordersFor s pairOrders = [] := by
      simp [ordersFor, pairOrders, ask, bid, Ne.symm hs]
    rw [hnone]
    exact ⟨_, rfl⟩

/-- Nothing stops the process after the two orders. -/
theorem exchange_stops_pair : ∃ x, Reached pairOrders x ∧ x.responses = pairResponses ∧
    (∀ a f, ¬ OrderGatewayServer.Step x.gateway a (.error f)) ∧
    ∀ a f, ¬ Pipeline.Step (symbolsOf pairOrders) x.pipeline a (.error f) := by
  obtain ⟨x, hx, ⟨-, hresponses, -⟩, -⟩ := exists_pairRun
  obtain ⟨hgateway, -, hstages⟩ := exchange_stops pairOrders x hx.reached
  exact ⟨x, hx.reached, hresponses, hgateway, hstages exists_pairFits⟩

/-! ## How long it takes -/

/-- Messages sorted by symbol are as many as before. -/
lemma sum_length_filter {α : Type} (f : α → Symbol) {l : List α} {S : Finset Symbol}
    (h : ∀ m ∈ l, f m ∈ S) : ∑ s ∈ S, (l.filter fun m => decide (f m = s)).length = l.length := by
  have hcount : ∀ s, (l.filter fun m => decide (f m = s)).length =
      (↑(l.map f) : Multiset Symbol).count s := by
    intro s
    rw [Multiset.coe_count, List.count, List.countP_map, List.countP_eq_length_filter]
    rfl
  rw [Finset.sum_congr rfl fun s _ => hcount s, Multiset.sum_count_eq_card, Multiset.coe_card,
    List.length_map]
  intro s hs
  obtain ⟨m, hm, rfl⟩ := List.mem_map.mp hs
  exact h m hm

/-- A longer sequential run emits more. -/
lemma playAlone_sent {s : Symbol} {pre reqs : List EngineOrderRequest} {b b' : SymbolOrderBook}
    (hpre : pre <+: reqs) (hb : playAlone s pre = .ok b) (hb' : playAlone s reqs = .ok b') :
    b.sent <+: b'.sent := by
  obtain ⟨post, rfl⟩ := hpre
  obtain ⟨S, hS⟩ := (run_refines s _).of_ok hb
  obtain ⟨S', hS'⟩ := (run_refines s _).of_ok hb'
  rw [hS.sent, hS'.sent, List.map_append, Ladder.runAll_append]
  exact List.prefix_append _ _

/-- The feed has read the first updates of the sequential run. -/
lemma Wired.read_updates_prefix (h : Wired orders x) {s : Symbol} {b : SymbolOrderBook}
    (hb : playAlone s (ordersFor s orders) = .ok b) :
    (x.pipeline.contexts s).updateQueue.read <+: updatesOf b.sent := by
  obtain ⟨n, hplay, -⟩ := h.exists_playAlone s
  have hsent : (x.pipeline.contexts s).book.untimed.sent <+: b.sent :=
    playAlone_sent (List.take_prefix _ _) hplay hb
  obtain ⟨hupdates, hwritten⟩ := h.pipeline.delivers.updates s
  exact (hupdates.trans hwritten).trans (hsent.filterMap _)

/-- What the threads have done for a symbol is bounded by what there is to do. -/
lemma Wired.context_steps_le (h : Wired orders x) {s : Symbol} {b : SymbolOrderBook}
    (hb : playAlone s (ordersFor s orders) = .ok b) :
    (x.pipeline.contexts s).steps ≤ 1 + 3 * (ordersFor s orders).length +
      (3 * (responsesOf b.sent).length + 4 * (updatesOf b.sent).length) := by
  obtain ⟨n, hplay, -⟩ := h.exists_playAlone s
  have hsent : (x.pipeline.contexts s).book.untimed.sent <+: b.sent :=
    playAlone_sent (List.take_prefix _ _) hplay hb
  have hdelivers := h.pipeline.delivers
  have hrequests := (h.routed_orders s).length_le
  rw [List.length_map, List.length_map] at hrequests
  have hread := (hdelivers.requests s).length_le
  -- what was read is part of what was written, and that of what the sequential run emits
  obtain ⟨hresponses, hwrittenR⟩ := hdelivers.responses s
  obtain ⟨hupdates, hwrittenU⟩ := hdelivers.updates s
  have hemittedR : (x.pipeline.contexts s).responseQueue.written <+: responsesOf b.sent :=
    hwrittenR.trans (hsent.filterMap _)
  have hemittedU : (x.pipeline.contexts s).updateQueue.written <+: updatesOf b.sent :=
    hwrittenU.trans (hsent.filterMap _)
  have hlenR := hresponses.length_le
  have hlenR' := hemittedR.length_le
  have hlenU := hupdates.length_le
  have hlenU' := hemittedU.length_le
  have hbusy : (!(x.pipeline.contexts s).worker.busy).toNat ≤ 1 := Bool.toNat_le _
  simp only [SymbolContext.steps]
  omega

/-- What the gateway has done is bounded by the number of orders. -/
lemma Wired.gateway_steps_le (h : Wired orders x) : x.gateway.steps ≤ 5 * orders.length := by
  have hline := h.accounted.line.length_eq
  simp only [OrderGatewayServer.line, OrderGatewayServer.waiting, List.length_append,
    List.length_map] at hline
  have hsubmitted := congrArg List.length h.submitted
  simp only [List.length_append, List.length_map] at hsubmitted
  simp only [OrderGatewayServer.steps]
  omega

/-- What the callbacks have collected is about symbols with books. -/
lemma Wired.symbol_mem (h : Wired orders x) (hu : x.pipeline.Untouched symbols) :
    (∀ r ∈ x.responses, r.symbol ∈ symbols) ∧ ∀ u ∈ x.updates, u.symbol ∈ symbols := by
  constructor
  · intro r hr
    refine hu.mem fun hnew => ?_
    have hmem : r ∈ x.responses.filter (fun q => decide (q.symbol = r.symbol)) := by simpa using hr
    rw [h.responses, hnew] at hmem
    cases hmem
  · intro u humem
    refine hu.mem fun hnew => ?_
    have hmem : u ∈ x.updates.filter (fun v => decide (v.symbol = u.symbol)) := by simpa using humem
    rw [h.updates, h.pipeline.forwarded, hnew] at hmem
    cases hmem

/-- What the feed has shown comes from the queues of the symbols. -/
lemma Wired.length_updates (h : Wired orders x) (hu : x.pipeline.Untouched symbols) :
    x.updates.length =
      ∑ s ∈ symbols.toFinset, (x.pipeline.contexts s).updateQueue.read.length := by
  rw [← sum_length_filter BookUpdate.symbol fun u hmem =>
    List.mem_toFinset.mpr ((h.symbol_mem hu).2 u hmem)]
  refine Finset.sum_congr rfl fun s _ => ?_
  rw [h.updates, h.pipeline.forwarded]

/-- What the snapshot service has applied are updates of symbols with books. -/
lemma Wired.applied_le (h : Wired orders x) (hu : x.pipeline.Untouched symbols)
    {books : Symbol → SymbolOrderBook}
    (hbooks : ∀ s ∈ symbols, playAlone s (ordersFor s orders) = .ok (books s)) :
    x.pipeline.snapshotFeed.read.length ≤
      ∑ s ∈ symbols.toFinset, (updatesOf (books s).sent).length := by
  refine h.applied_prefix.length_le.trans ?_
  rw [h.length_updates hu]
  refine Finset.sum_le_sum fun s hs => ?_
  exact (h.read_updates_prefix (hbooks s (List.mem_toFinset.mp hs))).length_le

lemma steps_init (symbols : List Symbol) (orders : List EngineOrderRequest) :
    steps symbols { unsubmitted := orders } = symbols.toFinset.card + 4 := by
  have hcontext : ∀ s : Symbol, SymbolContext.steps { book := .new s } = 1 := fun _ => rfl
  have hsum : ∑ s ∈ symbols.toFinset, SymbolContext.steps { book := .new s } =
      symbols.toFinset.card := by
    simp only [hcontext, ← Finset.card_eq_sum_ones]
  change 0 + (∑ s ∈ symbols.toFinset, SymbolContext.steps { book := .new s } + 0 + 2 * 0 + 1 + 2 +
    2 * 0 + 1) = _
  rw [hsum]
  omega

/-- What the threads have done so far is bounded by what there is to do. -/
lemma Wired.steps_le (h : Wired orders x) (hu : x.pipeline.Untouched symbols)
    (hknown : ∀ o ∈ orders, o.symbol ∈ symbols) {books : Symbol → SymbolOrderBook}
    (hbooks : ∀ s ∈ symbols, playAlone s (ordersFor s orders) = .ok (books s)) :
    x.steps symbols ≤ symbols.toFinset.card + 4 + 8 * orders.length + ∑ s ∈ symbols.toFinset,
      (3 * (responsesOf (books s).sent).length + 6 * (updatesOf (books s).sent).length) := by
  have hgateway := h.gateway_steps_le
  have happlied := h.applied_le hu hbooks
  have hcontexts : ∑ s ∈ symbols.toFinset, (x.pipeline.contexts s).steps ≤
      ∑ s ∈ symbols.toFinset, (1 + 3 * (ordersFor s orders).length +
        (3 * (responsesOf (books s).sent).length + 4 * (updatesOf (books s).sent).length)) :=
    Finset.sum_le_sum fun s hs => h.context_steps_le (hbooks s (List.mem_toFinset.mp hs))
  have horders : ∑ s ∈ symbols.toFinset, (ordersFor s orders).length = orders.length :=
    sum_length_filter EngineOrderRequest.symbol fun o ho => List.mem_toFinset.mpr (hknown o ho)
  simp only [Finset.sum_add_distrib, ← Finset.mul_sum, horders, ← Finset.card_eq_sum_ones]
    at hcontexts ⊢
  have hunknown := h.pipeline.unknown.read_prefix
  rw [h.unknown, List.prefix_nil] at hunknown
  have hgate : x.pipeline.gateway.rank ≤ 1 := by
    cases x.pipeline.gateway <;> simp [GatewayPos.rank]
  have hfeed : x.pipeline.feed.rank ≤ 2 := by
    cases x.pipeline.feed <;> simp [FeedPos.rank]
  have hbusy : (!x.pipeline.snapshotBusy).toNat ≤ 1 := Bool.toNat_le _
  simp only [steps, Pipeline.steps, h.unknown, hunknown, List.length_nil]
  omega

/-- The steps of a run are bounded by what the sequential runs emit. -/
lemma ReachedIn.le {n : ℕ} (h : ReachedIn orders n x) {books : Symbol → SymbolOrderBook}
    (hbooks : ∀ s ∈ symbolsOf orders, playAlone s (ordersFor s orders) = .ok (books s)) :
    n ≤ 8 * orders.length + ∑ s ∈ (symbolsOf orders).toFinset,
      (3 * (responsesOf (books s).sent).length + 6 * (updatesOf (books s).sent).length) := by
  have hsteps := CountedRun.add_le (steps (symbolsOf orders)) h fun x a x' hrun hn =>
    (hn.1.steps_le (Reached.untouched hrun)).1
  have hknown : ∀ o ∈ orders, o.symbol ∈ symbolsOf orders := fun o ho =>
    ((mem_symbolsOf_and_nodup orders).1 _).mpr ⟨o, ho, rfl⟩
  have hend := h.reached.wired.steps_le h.reached.untouched hknown hbooks
  rw [steps_init] at hsteps
  omega

/-- If the sequential runs get through all orders, no run without an overflow or a flush of equal
receive times, in which the clock never goes back, takes more than eight steps for each order, three
for each response and six for each update, apart from looks into an empty inbox or an empty
buffer. -/
theorem exchange_bounded (orders : List EngineOrderRequest) (books : Symbol → SymbolOrderBook)
    (hbooks : ∀ s ∈ symbolsOf orders, playAlone s (ordersFor s orders) = .ok (books s))
    (n : ℕ) (x : Exchange) (h : ReachedIn orders n x) :
    n ≤ 8 * orders.length + ∑ s ∈ (symbolsOf orders).toFinset,
      (3 * (responsesOf (books s).sent).length + 6 * (updatesOf (books s).sent).length) :=
  h.le hbooks

/-- The orders are flushed one by one. -/
def apartTurns (rxTime rxTime' : Nanos) : List Turn :=
  [.readClock rxTime, .push, .sequence .drainInbox, .sequence .enqueue, .sequence .flush, .route,
    .readClock rxTime', .push, .sequence .drainInbox, .sequence .enqueue, .sequence .flush,
    .route] ++ tradeTurns "ACME"

lemma exists_apartRun : ∃ x, ReachedIn pairOrders 52 x ∧ PairDone x ∧
    x.gateway.flushes.length = 2 := by
  have hplay : ((apartTurns 1 2).foldlM
      (play (perform ["ACME"]) Turn.action (Regular ["ACME"]) works)
      (0, { unsubmitted := pairOrders })).any
        (fun e => decide (e.1 = 52 ∧ PairDone e.2 ∧ e.2.gateway.flushes.length = 2)) = true := by
    decide +kernel
  obtain ⟨n, x, hx, hcheck⟩ := CountedRun.exists_of_play hplay fun _ _ _ => next_of_perform
  obtain ⟨rfl, hdone⟩ := of_decide_eq_true hcheck
  exact ⟨x, hx, hdone⟩

/-- A run of the two orders that takes all the steps it may. -/
theorem exchange_bounded_pair : ∃ x b, ReachedIn pairOrders 52 x ∧
    playAlone "ACME" (ordersFor "ACME" pairOrders) = .ok b ∧
    52 ≤ 8 * pairOrders.length + ∑ _ ∈ (symbolsOf pairOrders).toFinset,
      (3 * (responsesOf b.sent).length + 6 * (updatesOf b.sent).length) ∧
    (responsesOf b.sent).length = 4 ∧ (updatesOf b.sent).length = 4 := by
  obtain ⟨x, hx, -⟩ := exists_apartRun
  obtain ⟨b, hb, hcheck⟩ := exists_pairAlone
  obtain ⟨hresponses, hupdates⟩ := of_decide_eq_true hcheck
  refine ⟨x, b, hx, hb, exchange_bounded pairOrders (fun _ => b) (fun s hs => ?_) 52 x hx,
    by rw [hresponses]; rfl, by rw [hupdates]; rfl⟩
  rw [List.mem_singleton.mp hs]
  exact hb

end Exchange

end MatchingEngine
