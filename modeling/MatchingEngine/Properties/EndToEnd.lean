import MatchingEngine.Properties.Serial

/-!
# From the order file to the callbacks

Whatever the threads of the exchange do, what comes out of it for a symbol is what a single book
makes of the symbol's orders in file order.

`main` is one producer, so all that happens follows the order of routing (`Properties/Serial.lean`).
`Submits` says that this is the order of the file, as long as the clock never goes back and no flush
finds two orders with equal receive times.  `Wired` puts the two together, and `exchange_faithful`
reads off it that the callbacks have seen, symbol by symbol, the beginning of what the sequential
run emits.
-/

namespace MatchingEngine

open Transitions

namespace OrderGatewayServer

variable {g g' : OrderGatewayServer} {a : Action}

/-- Requests of one producer stand in the line in one order only. -/
lemma line_unique {l l' : List Submission} (hperm : l'.Perm l) (hl : l.Pairwise Ranked)
    (hl' : l'.Pairwise Ranked) (hone : ∀ b ∈ l, b.origin.producer = 0) : l' = l := by
  refine hperm.eq_of_pairwise (fun b c hb hc hbc hcb => ?_) hl' hl
  have hp : b.origin.producer = c.origin.producer :=
    (hone b (hperm.mem_iff.mp hb)).trans (hone c hc).symm
  have hlt := (hbc hp).1
  have hgt := (hcb hp.symm).1
  omega

end OrderGatewayServer

namespace Exchange

variable {symbols : List Symbol} {orders : List EngineOrderRequest} {x x' : Exchange} {a : Action}

/-- The step writes to no full queue, and flushes no two orders with equal receive times. -/
def Regular (symbols : List Symbol) (x : Exchange) (a : Action) : Prop :=
  x.hasRoom symbols a = true ∧ ∀ b, a = .sequence b → x.gateway.Distinct b

instance (symbols : List Symbol) (x : Exchange) (a : Action) : Decidable (Regular symbols x a) :=
  inferInstanceAs (Decidable (_ ∧ ∀ b, a = .sequence b → x.gateway.Distinct b))

/-- How the ends of the stages fit together when `main` runs on `orders`. -/
structure Wired (orders : List EngineOrderRequest) (x : Exchange) : Prop where
  gateway : GuardedRun OrderGatewayServer.Next OrderGatewayServer.Distinct {} x.gateway
  pipeline : x.pipeline.Ok
  /-- `main` submits the orders one by one. -/
  submitted : (x.gateway.pushed ++ (x.gateway.held 0).toList).map (fun t => t.request.request) ++
    x.unsubmitted = orders
  main : ∀ t ∈ x.gateway.pushed, t.request.origin.producer = 0
  /-- No flush has changed their order. -/
  line : x.gateway.line = x.gateway.pushed.map TimedRequest.tagged
  /-- The router has distributed what it was passed. -/
  routed : ∃ passed, x.gateway.routed = passed ++ x.unrouted ∧
    ∀ s, (x.pipeline.contexts s).requestQueue.written =
      (passed.map Submission.request).filter fun q => decide (q.symbol = s)
  unknown : x.pipeline.unknownSymbolResponses.written = []
  responses : ∀ s, x.responses.filter (fun r => decide (r.symbol = s)) =
    (x.pipeline.contexts s).responseQueue.read
  updates : x.updates = x.pipeline.snapshotFeed.written ++ x.pipeline.feed.inHand

lemma Wired.accounted (h : Wired orders x) : x.gateway.Accounted :=
  OrderGatewayServer.Reachable.accounted h.gateway.run

/-! ## What `main` submits -/

/-- The line in the gateway is what `main` has submitted, in order. -/
structure Submits (orders : List EngineOrderRequest) (x : Exchange) : Prop where
  gateway : GuardedRun OrderGatewayServer.Next OrderGatewayServer.Distinct {} x.gateway
  submitted : (x.gateway.pushed ++ (x.gateway.held 0).toList).map (fun t => t.request.request) ++
    x.unsubmitted = orders
  main : ∀ t ∈ x.gateway.pushed, t.request.origin.producer = 0
  line : x.gateway.line = x.gateway.pushed.map TimedRequest.tagged

lemma Submits.queued (h : Submits orders x) : x.gateway.Queued :=
  h.gateway.invariant OrderGatewayServer.queued_init fun _ _ _ hn hd hI => hI.next hn hd

/-- What is routed are orders, stamped with their receive times. -/
lemma Submits.mem_orders (h : Submits orders x) {s : Submission} (hs : s ∈ x.gateway.routed) :
    ∃ o ∈ orders, s.request.symbol = o.symbol := by
  have hline : s ∈ x.gateway.line := List.mem_append_left _ hs
  rw [h.line] at hline
  obtain ⟨t, ht, rfl⟩ := List.mem_map.mp hline
  refine ⟨t.request.request, ?_, rfl⟩
  rw [← h.submitted]
  exact List.mem_append_left _ (List.mem_map_of_mem (List.mem_append_left _ ht))

lemma Submits.readClock (h : Submits orders x) {req : EngineOrderRequest}
    {rest : List EngineOrderRequest} {now : Nanos} (hnext : x.unsubmitted = req :: rest)
    (hidle : x.gateway.held 0 = none) (hnow : x.gateway.clock ≤ now) :
    Submits orders { x with unsubmitted := rest, gateway := x.gateway.readClock 0 now req } := by
  have hstep : x.gateway.Next (.readClock 0) (x.gateway.readClock 0 now req) :=
    OrderGatewayServer.Step.readClock 0 now req hidle hnow
  refine ⟨h.gateway.tail hstep (fun hroutes => by cases hroutes), ?_, h.main, h.line⟩
  have hsubmitted := h.submitted
  rw [hidle, hnext] at hsubmitted
  simpa [OrderGatewayServer.readClock] using hsubmitted

lemma Submits.push (h : Submits orders x) {t : TimedRequest} (hheld : x.gateway.held 0 = some t) :
    Submits orders { x with gateway := x.gateway.push 0 t } := by
  refine ⟨h.gateway.tail (OrderGatewayServer.Step.push hheld) (fun hroutes => by cases hroutes),
    ?_, fun t' ht' => ?_, ?_⟩
  · have hsubmitted := h.submitted
    rw [hheld] at hsubmitted
    simpa [OrderGatewayServer.push] using hsubmitted
  · rcases List.mem_append.mp ht' with ht' | ht'
    · exact h.main t' ht'
    · rw [List.mem_singleton.mp ht']
      exact (h.queued.held 0 t hheld).producer
  · rw [OrderGatewayServer.line_push, h.line]
    simp [OrderGatewayServer.push]

lemma Submits.sequence (h : Submits orders x) {b : OrderGatewayServer.Action}
    {g : OrderGatewayServer} {unrouted : List Submission} (hown : ofGateway b = true)
    (hnext : x.gateway.Next b g) (hdistinct : x.gateway.Distinct b) :
    Submits orders { x with gateway := g, unrouted := unrouted } := by
  have hframe : OrderGatewayServer.Frame x.gateway g := by
    obtain ⟨p, -, -, rfl, -⟩ | ⟨p, -, rfl, -⟩ | ⟨hframe, -⟩ := hnext.moves
    · cases hown
    · cases hown
    · exact hframe
  refine ⟨h.gateway.tail hnext hdistinct, ?_, ?_, ?_⟩
  · show (g.pushed ++ (g.held 0).toList).map _ ++ _ = _
    rw [hframe.pushed, hframe.held]
    exact h.submitted
  · show ∀ t ∈ g.pushed, _
    rw [hframe.pushed]
    exact h.main
  · -- the line is what was pushed, rearranged, and ranked before and after
    have hqueued : g.Queued := h.queued.next hnext hdistinct
    have hperm : g.line.Perm (g.pushed.map TimedRequest.tagged) :=
      (OrderGatewayServer.Reachable.accounted h.gateway.run |>.next hnext).line
    show g.line = g.pushed.map TimedRequest.tagged
    rw [hframe.pushed, ← h.line] at hperm ⊢
    refine OrderGatewayServer.line_unique hperm h.queued.ranked hqueued.ranked fun b hb => ?_
    rw [h.line] at hb
    obtain ⟨t, ht, rfl⟩ := List.mem_map.mp hb
    exact h.main t ht

lemma Submits.next (h : Submits orders x) (hn : Next symbols x a x')
    (hdistinct : ∀ b, a = .sequence b → x.gateway.Distinct b) : Submits orders x' := by
  cases hn with
  | readClock now hnext hidle hnow => exact h.readClock hnext hidle hnow
  | push hheld => exact h.push hheld
  | sequence hown _ _ hnext => exact h.sequence hown hnext (hdistinct _ rfl)
  | route | readResponse | readUpdate | stage => exact ⟨h.gateway, h.submitted, h.main, h.line⟩

/-! ## `main` as a producer -/

/-- A step of `main`'s exchange is one of an open exchange, in which nobody knows what `main` has
still to submit. -/
lemma Next.openNext (h : Next symbols x a x') :
    ∃ b, OpenNext symbols { x with unsubmitted := [] } b { x' with unsubmitted := [] } ∧
      (x.hasRoom symbols a = true → openRoom symbols { x with unsubmitted := [] } b) := by
  cases h with
  | readClock now hnext hidle hnow =>
    exact ⟨_, .submit x.gateway.clock rfl (OrderGatewayServer.Step.readClock 0 now _ hidle hnow),
      fun _ => trivial⟩
  | push hheld => exact ⟨_, .own (.push hheld), id⟩
  | sequence hown hrouted hidle hnext => exact ⟨_, .own (.sequence hown hrouted hidle hnext), id⟩
  | route hnext hroute => exact ⟨_, .own (.route hnext hroute), id⟩
  | readResponse hphase hrouted hread hnext =>
    exact ⟨_, .own (.readResponse hphase hrouted hread hnext), id⟩
  | readUpdate hread hnext => exact ⟨_, .own (.readUpdate hread hnext), id⟩
  | stage hsilent hnext => exact ⟨_, .own (.stage hsilent hnext), id⟩

/-- If everything that is routed has a book, the stages are wired. -/
lemma Serves.wired {passed : List Submission}
    (h : Serves symbols { x with unsubmitted := [] } passed) (hsubmits : Submits orders x)
    (hknown : ∀ o ∈ orders, o.symbol ∈ symbols) : Wired orders x := by
  have hpassed : ∀ q ∈ passed.map Submission.request, q.symbol ∈ symbols := by
    intro q hq
    obtain ⟨s, hs, rfl⟩ := List.mem_map.mp hq
    have hrouted : s ∈ x.gateway.routed := by
      rw [show x.gateway.routed = passed ++ x.unrouted from h.routed]
      exact List.mem_append_left _ hs
    obtain ⟨o, ho, hsymbol⟩ := hsubmits.mem_orders hrouted
    rw [hsymbol]
    exact hknown o ho
  have hastray : astray symbols passed = [] :=
    List.filter_eq_nil_iff.mpr fun q hq => by simpa using hpassed q hq
  have hunknown : x.pipeline.unknownSymbolResponses.written = [] := by
    rw [show x.pipeline.unknownSymbolResponses.written = _ from h.unknown, hastray]
    rfl
  refine ⟨hsubmits.gateway, h.pipeline, hsubmits.submitted, hsubmits.main, hsubmits.line,
    ⟨passed, h.routed, fun s => ?_⟩, hunknown, fun s => ?_, h.updates⟩
  · rw [show (x.pipeline.contexts s).requestQueue.written = _ from h.requests s, shareOf]
    refine List.filter_congr fun q hq => decide_eq_decide.mpr ⟨fun hs => hs.1, fun hs => ?_⟩
    exact ⟨hs, hpassed q hq⟩
  · by_cases hs : s ∈ symbols
    · exact h.responses s hs
    · -- there is neither a response with such a symbol nor one of such a book
      have hread := h.pipeline.unknown.read_prefix
      rw [← h.rejected, show ({ x with unsubmitted := [] } : Exchange).pipeline = x.pipeline from
        rfl, hunknown, List.prefix_nil] at hread
      have hnone : x.responses.filter (fun r => decide (r.symbol = s)) = [] := by
        refine List.filter_eq_nil_iff.mpr fun r hr hsymbol => ?_
        have hr' := List.filter_eq_nil_iff.mp hread r hr
        rw [of_decide_eq_true hsymbol] at hr'
        exact hr' (decide_eq_true hs)
      have hempty : (x.pipeline.contexts s).responseQueue.read = [] := by
        refine List.eq_nil_iff_forall_not_mem.mpr fun r hr => hs ?_
        exact (h.of_response ((h.pipeline.contexts s).responses.read_prefix.subset hr)).2
      rw [hnone, hempty]

/-- The states of `main` on `orders` that regular steps lead to. -/
def Reached (orders : List EngineOrderRequest) (x : Exchange) : Prop :=
  GuardedRun (Next (symbolsOf orders)) (Regular (symbolsOf orders)) { unsubmitted := orders } x

/-- What `main` reaches, an open exchange reaches. -/
lemma Reached.openReached (h : Reached orders x) :
    OpenReached (symbolsOf orders) { x with unsubmitted := [] } := by
  refine GuardedRun.invariant (I := fun x : Exchange => OpenReached (symbolsOf orders)
    { x with unsubmitted := [] }) h (GuardedRun.refl _) ?_
  intro y b y' hn hregular hy
  obtain ⟨c, hc, hroom⟩ := hn.openNext
  exact GuardedRun.tail hy hc (hroom hregular.1)

lemma Reached.submits (h : Reached orders x) : Submits orders x :=
  h.invariant ⟨GuardedRun.refl _, rfl, by simp, rfl⟩ fun _ _ _ hn hregular hI =>
    hI.next hn hregular.2

lemma Reached.wired (h : Reached orders x) : Wired orders x := by
  obtain ⟨passed, hserves⟩ := h.openReached.serves
  refine hserves.wired h.submits fun o ho => ?_
  exact ((mem_symbolsOf_and_nodup orders).1 _).mpr ⟨o, ho, rfl⟩

/-- The states of `main` on `orders` that are reached by regular steps, with the number of those
that do more than look into an empty inbox or an empty buffer. -/
def ReachedIn (orders : List EngineOrderRequest) (n : ℕ) (x : Exchange) : Prop :=
  CountedRun (fun x a x' => Next (symbolsOf orders) x a x' ∧ Regular (symbolsOf orders) x a) works
    { unsubmitted := orders } n x

lemma ReachedIn.reached {n : ℕ} (h : ReachedIn orders n x) : Reached orders x := h.run

/-- The requests a symbol's thread has been given are the first of its orders. -/
lemma Wired.routed_orders (h : Wired orders x) (s : Symbol) :
    (x.pipeline.contexts s).requestQueue.written.map unstamped <+:
      (ordersFor s orders).map unstamped := by
  obtain ⟨passed, hpassed, hwritten⟩ := h.routed
  have hsymbol : ∀ l : List EngineOrderRequest,
      (l.filter fun q => decide (q.symbol = s)).map unstamped =
        (l.map unstamped).filter fun q => decide (q.symbol = s) := by
    intro l
    rw [List.filter_map]
    rfl
  have hline : passed <+: x.gateway.pushed.map TimedRequest.tagged := by
    rw [← h.line, OrderGatewayServer.line, hpassed, List.append_assoc]
    exact List.prefix_append _ _
  have hpushed : (x.gateway.pushed.map fun t => t.request.request) <+: orders := by
    rw [← h.submitted, List.map_append, List.append_assoc]
    exact List.prefix_append _ _
  rw [hwritten, ordersFor, hsymbol, hsymbol]
  refine List.IsPrefix.filter _ (List.IsPrefix.trans ?_ (hpushed.map unstamped))
  have hmap := (hline.map Submission.request).map unstamped
  simp only [List.map_map] at hmap ⊢
  exact hmap

/-- The thread of a symbol has processed the first so many of its orders. -/
lemma Wired.exists_playAlone (h : Wired orders x) (s : Symbol) :
    ∃ n, playAlone s ((ordersFor s orders).take n) =
        .ok (x.pipeline.contexts s).book.untimed ∧
      n = (x.pipeline.contexts s).requestQueue.read.length := by
  obtain ⟨reqs, hreqs, hrun⟩ := (h.pipeline.contexts s).book
  have hread := ((h.pipeline.contexts s).requests.read_prefix.map unstamped).trans
    (h.routed_orders s)
  have hplay : playAlone s ((ordersFor s orders).take
      (x.pipeline.contexts s).requestQueue.read.length) =
      SymbolOrderBook.untimed <$> run (.new s) reqs := by
    refine playAlone_eq ?_
    rw [hreqs, List.map_take, List.prefix_iff_eq_take.mp hread, List.length_map]
  refine ⟨_, ?_, rfl⟩
  rw [hplay, hrun]
  rfl

/-- The snapshot service has applied updates that the subscribers have seen. -/
lemma Wired.applied_prefix (h : Wired orders x) : x.pipeline.snapshotFeed.read <+: x.updates := by
  rw [h.updates]
  exact h.pipeline.snapshot.read_prefix.trans (List.prefix_append _ _)

/-- In every run of `main` in which no queue overflows, no flush finds two orders with equal receive
times and the clock never goes back, whatever the threads do: for every symbol, the responses and
updates that the callbacks have seen are the first of those that a single book emits for the
symbol's orders in file order, the symbol's book is, but for time stamps, the one these orders lead
to, and the snapshot service has applied the first of the updates. -/
theorem exchange_faithful (orders : List EngineOrderRequest) (x : Exchange)
    (h : Reached orders x) (s : Symbol) :
    ∃ n b, playAlone s ((ordersFor s orders).take n) = .ok b ∧
      (x.pipeline.contexts s).book.untimed = b ∧
      x.responses.filter (fun r => decide (r.symbol = s)) <+: responsesOf b.sent ∧
      x.updates.filter (fun u => decide (u.symbol = s)) <+: updatesOf b.sent ∧
      ∃ k, x.pipeline.mirror = Mirror.empty.applyUpdates (x.updates.take k) := by
  have hw := h.wired
  obtain ⟨n, hplay, -⟩ := hw.exists_playAlone s
  have hdelivers := hw.pipeline.delivers
  refine ⟨n, _, hplay, rfl, ?_, ?_, x.pipeline.snapshotFeed.read.length, ?_⟩
  · rw [hw.responses]
    exact (hdelivers.responses s).1.trans (hdelivers.responses s).2
  · rw [hw.updates, hw.pipeline.forwarded]
    exact (hdelivers.updates s).1.trans (hdelivers.updates s).2
  · rw [hw.pipeline.mirror, ← List.prefix_iff_eq_take.mp hw.applied_prefix]

/-- Two orders that trade. -/
def pairOrders : List EngineOrderRequest := [ask 0, bid 0]

def pairResponses : List EngineOrderResponse :=
  [⟨.accepted, 2, "ACME", 1, 1, .sell, 100, 0, 5⟩, ⟨.accepted, 1, "ACME", 2, 2, .buy, 100, 0, 8⟩,
    ⟨.filled, 1, "ACME", 2, 2, .buy, 100, 5, 3⟩, ⟨.filled, 2, "ACME", 1, 1, .sell, 100, 5, 0⟩]

def pairUpdates : List BookUpdate :=
  [⟨.add, 1, "ACME", .sell, 100, 5⟩, ⟨.trade, 1, "ACME", .sell, 100, 5⟩,
    ⟨.cancel, 1, "ACME", .sell, 100, 0⟩, ⟨.add, 2, "ACME", .buy, 100, 3⟩]

/-- The orders are submitted, and flushed together. -/
def routeTurns (rxTime rxTime' : Nanos) : List Turn :=
  [.readClock rxTime, .push, .readClock rxTime', .push, .sequence .drainInbox, .sequence .enqueue,
    .sequence .enqueue, .sequence .flush, .route, .route]

def pairTurns (rxTime rxTime' : Nanos) : List Turn := routeTurns rxTime rxTime' ++ tradeTurns "ACME"

/-- What the schedule is to end with. -/
def PairDone (x : Exchange) : Prop :=
  Drained (symbolsOf pairOrders) x ∧ x.responses = pairResponses ∧ x.updates = pairUpdates

instance : DecidablePred PairDone := fun _ => inferInstanceAs (Decidable (_ ∧ _ ∧ _))

/-- The orders go all the way. -/
lemma exists_pairRun : ∃ x, ReachedIn pairOrders 50 x ∧ PairDone x ∧
    x.gateway.flushes.length = 1 := by
  have hplay : ((pairTurns 1 2).foldlM
      (play (perform ["ACME"]) Turn.action (Regular ["ACME"]) works)
      (0, { unsubmitted := pairOrders })).any
        (fun e => decide (e.1 = 50 ∧ PairDone e.2 ∧ e.2.gateway.flushes.length = 1)) = true := by
    decide +kernel
  obtain ⟨n, x, hx, hcheck⟩ := CountedRun.exists_of_play hplay fun _ _ _ => next_of_perform
  obtain ⟨rfl, hdone⟩ := of_decide_eq_true hcheck
  exact ⟨x, hx, hdone⟩

/-- The callbacks have seen what the book makes of the orders. -/
theorem exchange_faithful_pair : ∃ x, Reached pairOrders x ∧ x.responses = pairResponses ∧
    ∃ n b, playAlone "ACME" ((ordersFor "ACME" pairOrders).take n) = .ok b ∧
      pairResponses <+: responsesOf b.sent ∧ pairUpdates <+: updatesOf b.sent := by
  obtain ⟨x, hx, ⟨-, hresponses, hupdates⟩, -⟩ := exists_pairRun
  obtain ⟨n, b, hb, -, hr, hu, -⟩ := exchange_faithful pairOrders x hx.reached "ACME"
  rw [hresponses] at hr
  rw [hupdates] at hu
  exact ⟨x, hx.reached, hresponses, n, b, hb, hr, hu⟩

end Exchange

end MatchingEngine
