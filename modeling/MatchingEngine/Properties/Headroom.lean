import MatchingEngine.Properties.Completion
import MatchingEngine.Properties.Report
import MatchingEngine.Properties.Traffic

/-!
# Files of ordinary size

The results on the exchange assume that no queue overflows.  For a file that is not too long this
needs no assumption: a symbol's thread writes at most three responses and three updates for each of
its orders (`Properties/Traffic.lean`), so a queue never even sees as many messages as it has slots,
and a book never sees as many orders as it may have price levels.

What is left to assume is about the clock: that it never goes back, and that no flush finds two
orders with equal receive times.  `exchange_total` says that then every run on such a file is
correct and ends; `report_scheduled` says that what is collected for the report does not depend on
the schedule.
-/

namespace MatchingEngine

open Transitions

/-! ## Queues keep their size -/

namespace Channel

variable {α : Type} {c c' : Channel α} {busy : Bool}

/-- The queue has the size the constructors give it. -/
def Sized (c : Channel α) : Prop := c.queue.capacity = symbolQueueSize

lemma Sized.updateReadIndex (h : c.Sized) (hc' : c.updateReadIndex = .ok c') : c'.Sized := by
  obtain ⟨q, hq, rfl⟩ := Pipeline.exists_of_map_eq_ok hc'.symm
  rw [LFQueue.updateReadIndex] at hq
  split_ifs at hq
  obtain rfl := Except.ok.inj hq
  exact h

/-- A queue to which too little was ever written to fill it has room. -/
lemma Ok.hasRoom (h : c.Ok busy) (hsize : c.Sized) (hfew : c.written.length + 1 < symbolQueueSize) :
    c.queue.hasRoom = true := by
  obtain ⟨l, hl, hq⟩ := h
  have hlength : l.length ≤ c.written.length := by
    rw [hl, List.length_append]
    omega
  refine decide_eq_true ?_
  rw [hsize]
  cases busy with
  | false =>
    have hcount : c.queue.numElements = l.length := LFQueue.Holds.count hq
    omega
  | true =>
    obtain ⟨x, hx⟩ := hq
    have hcount := hx.count
    rw [List.length_cons] at hcount
    omega

end Channel

/-- The queues of a symbol have the size the constructor gives them. -/
structure SymbolContext.Sized (c : SymbolContext) : Prop where
  requests : c.requestQueue.Sized
  responses : c.responseQueue.Sized
  updates : c.updateQueue.Sized

namespace Pipeline

variable {symbols : List Symbol} {p p' : Pipeline} {a : Action}

/-- All queues have the size the constructors give them. -/
structure Sized (p : Pipeline) : Prop where
  contexts : ∀ s, (p.contexts s).Sized
  unknown : p.unknownSymbolResponses.Sized
  snapshot : p.snapshotFeed.Sized

lemma sized_init : Sized {} := ⟨fun _ => ⟨rfl, rfl, rfl⟩, rfl, rfl⟩

/-- A step that concerns one symbol's queues, and the position of the gateway or of the feed. -/
lemma Sized.setSymbol (h : Sized p) {s : Symbol} {c : SymbolContext} {g : GatewayPos}
    {f : FeedPos}
    (hp' : p' = { p with contexts := Function.update p.contexts s c, gateway := g, feed := f })
    (hc : c.Sized) : Sized p' := by
  subst hp'
  refine ⟨fun t => ?_, h.unknown, h.snapshot⟩
  by_cases ht : t = s
  · subst ht
    show (Function.update p.contexts t c t).Sized
    rwa [Function.update_self]
  · show (Function.update p.contexts s c t).Sized
    rw [Function.update_of_ne ht]
    exact h.contexts t

lemma Sized.next (h : Sized p) (hn : Next symbols p a p') : Sized p' := by
  unfold Next at hn
  generalize hr : Except.ok p' = r at hn
  cases hn with
  | @route req c hidle hknown hc =>
    subst hc
    obtain ⟨hrequests, hresponses, hupdates⟩ := h.contexts req.symbol
    exact h.setSymbol (Except.ok.inj hr) ⟨hrequests, hresponses, hupdates⟩
  | routeUnknown =>
    obtain rfl := Except.ok.inj hr
    exact ⟨h.contexts, h.unknown, h.snapshot⟩
  | @process s now req c hc hwaiting hread =>
    subst hc
    obtain ⟨b, -, hp'⟩ := exists_of_map_eq_ok hr
    obtain ⟨hrequests, hresponses, hupdates⟩ := h.contexts s
    exact h.setSymbol hp' ⟨hrequests, hresponses, hupdates⟩
  | @send s m outbox c hc hworking =>
    subst hc
    obtain ⟨hrequests, hresponses, hupdates⟩ := h.contexts s
    refine h.setSymbol (Except.ok.inj hr) ?_
    cases m with
    | response r => exact ⟨hrequests, hresponses, hupdates⟩
    | update u => exact ⟨hrequests, hresponses, hupdates⟩
  | @advance s c hc hdone =>
    subst hc
    obtain ⟨ch, hch, hp'⟩ := exists_of_map_eq_ok hr
    obtain ⟨hrequests, hresponses, hupdates⟩ := h.contexts s
    exact h.setSymbol hp' ⟨hrequests.updateReadIndex hch, hresponses, hupdates⟩
  | @readResponse s r c hidle hc hread =>
    subst hc
    obtain ⟨hrequests, hresponses, hupdates⟩ := h.contexts s
    exact h.setSymbol (f := p.feed) (Except.ok.inj hr) ⟨hrequests, hresponses, hupdates⟩
  | @ackResponse s c hpos hc =>
    subst hc
    obtain ⟨ch, hch, hp'⟩ := exists_of_map_eq_ok hr
    obtain ⟨hrequests, hresponses, hupdates⟩ := h.contexts s
    exact h.setSymbol (f := p.feed) hp' ⟨hrequests, hresponses.updateReadIndex hch, hupdates⟩
  | readReject =>
    obtain rfl := Except.ok.inj hr
    exact ⟨h.contexts, h.unknown, h.snapshot⟩
  | ackReject =>
    obtain ⟨ch, hch, rfl⟩ := exists_of_map_eq_ok hr
    exact ⟨h.contexts, h.unknown.updateReadIndex hch, h.snapshot⟩
  | @readUpdate s u c hidle hc hread =>
    subst hc
    obtain ⟨hrequests, hresponses, hupdates⟩ := h.contexts s
    exact h.setSymbol (g := p.gateway) (Except.ok.inj hr) ⟨hrequests, hresponses, hupdates⟩
  | forward =>
    obtain rfl := Except.ok.inj hr
    exact ⟨h.contexts, h.unknown, h.snapshot⟩
  | @ackUpdate s c hpos hc =>
    subst hc
    obtain ⟨ch, hch, hp'⟩ := exists_of_map_eq_ok hr
    obtain ⟨hrequests, hresponses, hupdates⟩ := h.contexts s
    exact h.setSymbol (g := p.gateway) hp' ⟨hrequests, hresponses, hupdates.updateReadIndex hch⟩
  | applyUpdate =>
    obtain rfl := Except.ok.inj hr
    exact ⟨h.contexts, h.unknown, h.snapshot⟩
  | ackSnapshot =>
    obtain ⟨ch, hch, rfl⟩ := exists_of_map_eq_ok hr
    exact ⟨h.contexts, h.unknown, h.snapshot.updateReadIndex hch⟩

end Pipeline

namespace Exchange

variable {symbols : List Symbol} {orders : List EngineOrderRequest} {x x' : Exchange} {a : Action}

lemma Next.sized (h : Next symbols x a x') (hs : x.pipeline.Sized) : x'.pipeline.Sized := by
  cases h with
  | readClock | push | sequence => exact hs
  | route _ hroute => exact hs.next hroute
  | readResponse _ _ _ hnext => exact hs.next hnext
  | readUpdate _ hnext => exact hs.next hnext
  | stage _ hnext => exact hs.next hnext

/-! ## How much is written -/

/-- The number of messages of a sequential run. -/
lemma playAlone_volume {s : Symbol} {b : SymbolOrderBook} (hb : playAlone s orders = .ok b) :
    (responsesOf b.sent).length ≤ 3 * orders.length ∧
      (updatesOf b.sent).length ≤ 3 * orders.length := by
  have hpaid := (run_paid s (orders.map fun o => (o, 0))).of_ok hb
  have hresponses := hpaid.responses
  have hupdates := hpaid.updates
  rw [List.length_map] at hresponses hupdates
  constructor <;> omega

/-- What a symbol's thread has written, and what it has yet to write. -/
lemma Wired.volume (h : Wired orders x) (s : Symbol) :
    (x.pipeline.contexts s).responseQueue.written.length +
        (responsesOf (x.pipeline.contexts s).worker.outbox).length ≤
          3 * (ordersFor s orders).length ∧
      (x.pipeline.contexts s).updateQueue.written.length +
        (updatesOf (x.pipeline.contexts s).worker.outbox).length ≤
          3 * (ordersFor s orders).length := by
  obtain ⟨n, hplay, -⟩ := h.exists_playAlone s
  obtain ⟨hresponses, hupdates⟩ := playAlone_volume hplay
  have hsent : (x.pipeline.contexts s).book.untimed.sent = (x.pipeline.contexts s).book.sent := rfl
  rw [hsent, (h.pipeline.contexts s).sentResponses, List.length_append] at hresponses
  rw [hsent, (h.pipeline.contexts s).sentUpdates, List.length_append] at hupdates
  have htake : ((ordersFor s orders).take n).length ≤ (ordersFor s orders).length :=
    (List.take_prefix _ _).length_le
  constructor <;> omega

lemma length_ordersFor_le (s : Symbol) (orders : List EngineOrderRequest) :
    (ordersFor s orders).length ≤ orders.length :=
  List.length_filter_le _ _

/-- What the feed has shown. -/
lemma Wired.length_updates_le (h : Wired orders x) (hu : x.pipeline.Untouched symbols)
    (hknown : ∀ o ∈ orders, o.symbol ∈ symbols) : x.updates.length ≤ 3 * orders.length := by
  have horders : ∑ s ∈ symbols.toFinset, (ordersFor s orders).length = orders.length :=
    sum_length_filter EngineOrderRequest.symbol fun o ho => List.mem_toFinset.mpr (hknown o ho)
  rw [h.length_updates hu, ← horders, Finset.mul_sum]
  refine Finset.sum_le_sum fun s _ => ?_
  have hread := (h.pipeline.contexts s).updates.read_prefix.length_le
  have hwritten := (h.volume s).2
  omega

/-- No step writes to a full queue if the file is short enough. -/
lemma Wired.hasRoom (h : Wired orders x) (hu : x.pipeline.Untouched symbols)
    (hsize : x.pipeline.Sized) (hknown : ∀ o ∈ orders, o.symbol ∈ symbols)
    (hfew : 3 * orders.length + 1 < symbolQueueSize) (hn : Next symbols x a x') :
    x.hasRoom symbols a = true := by
  cases hn with
  | readClock | push | sequence | readResponse | readUpdate => rfl
  | @route q rest p hnext hroute =>
    simp only [Exchange.hasRoom, hnext, List.head?_cons, Option.all_some, Pipeline.hasRoom]
    split_ifs with hmem
    · have hwritten := (h.routed_orders q.request.symbol).length_le
      rw [List.length_map, List.length_map] at hwritten
      have hle := length_ordersFor_le q.request.symbol orders
      exact (h.pipeline.contexts _).requests.hasRoom (hsize.contexts _).requests (by omega)
    · refine h.pipeline.unknown.hasRoom hsize.unknown ?_
      rw [h.unknown, List.length_nil]
      omega
  | @stage b p hsilent hnext =>
    unfold Pipeline.Next at hnext
    generalize Except.ok p = r at hnext
    cases hnext with
    | route | routeUnknown | readResponse | readReject | readUpdate => cases hsilent
    | process | advance | ackResponse | ackReject | ackUpdate | applyUpdate | ackSnapshot => rfl
    | @send s m outbox c hc hworking =>
      subst hc
      have hle := length_ordersFor_le s orders
      obtain ⟨hresponses, hupdates⟩ := h.volume s
      simp only [Exchange.hasRoom, Pipeline.hasRoom, hworking, Worker.outbox, List.head?_cons,
        Option.all_some] at hresponses hupdates ⊢
      cases m with
      | response r =>
        rw [responsesOf_response, List.length_cons] at hresponses
        exact (h.pipeline.contexts s).responses.hasRoom (hsize.contexts s).responses (by omega)
      | update u =>
        rw [updatesOf_update, List.length_cons] at hupdates
        exact (h.pipeline.contexts s).updates.hasRoom (hsize.contexts s).updates (by omega)
    | @forward s u hpos =>
      have hshown := h.length_updates_le hu hknown
      rw [h.updates, hpos, List.length_append] at hshown
      exact h.pipeline.snapshot.hasRoom hsize.snapshot (by omega)

/-! ## Runs that only the clock can spoil -/

/-- The step flushes no two orders with equal receive times. -/
def Orderly (x : Exchange) (a : Action) : Prop := ∀ b, a = .sequence b → x.gateway.Distinct b

instance (x : Exchange) (a : Action) : Decidable (x.Orderly a) :=
  inferInstanceAs (Decidable (∀ b, a = .sequence b → x.gateway.Distinct b))

/-- The states of `main` on `orders` that are reached by steps that flush no two orders with equal
receive times, with the number of those that do more than look into an empty inbox or an empty
buffer. -/
def OrderlyIn (orders : List EngineOrderRequest) (n : ℕ) (x : Exchange) : Prop :=
  CountedRun (fun x a x' => Next (symbolsOf orders) x a x' ∧ Orderly x a) works
    { unsubmitted := orders } n x

/-- A file that exhausts no pool and fills no queue: fewer orders for each symbol than a book may
have levels, and less than a third as many orders in all as a queue has slots. -/
structure Modest (orders : List EngineOrderRequest) : Prop where
  symbol : ∀ s, (ordersFor s orders).length < maxPriceLevels
  total : 3 * orders.length + 1 < symbolQueueSize

lemma known_symbol (orders : List EngineOrderRequest) :
    ∀ o ∈ orders, o.symbol ∈ symbolsOf orders :=
  fun o ho => ((mem_symbolsOf_and_nodup orders).1 _).mpr ⟨o, ho, rfl⟩

lemma Modest.exists_playAlone (h : Modest orders) (s : Symbol) :
    ∃ b, playAlone s (ordersFor s orders) = .ok b := by
  refine exists_run_ok ?_
  rw [List.length_map]
  exact h.symbol s

/-- On a modest file, queues have room in every state that is reached. -/
lemma Modest.reachedIn (h : Modest orders) {n : ℕ} (hx : OrderlyIn orders n x) :
    ReachedIn orders n x ∧ x.pipeline.Sized := by
  induction hx with
  | refl => exact ⟨CountedRun.refl, Pipeline.sized_init⟩
  | @tail n y y' b hy hs ih =>
    obtain ⟨hn, horderly⟩ := hs
    obtain ⟨hreached, hsize⟩ := ih
    have hroom : y.hasRoom (symbolsOf orders) b = true :=
      hreached.reached.wired.hasRoom hreached.reached.untouched hsize (known_symbol orders)
        h.total hn
    exact ⟨CountedRun.tail hreached ⟨hn, hroom, horderly⟩, hn.sized hsize⟩

/-- On a modest file, whatever the threads do, as long as no flush finds two orders with equal
receive times and the clock never goes back: no queue overflows and nothing stops the process; it
takes at most thirty-five steps for each order, apart from looks into an empty inbox or an empty
buffer; and when no thread has anything to do, every symbol's callbacks and mirror and, but for time
stamps, its book are what the sequential run over its orders makes them. -/
theorem exchange_total (orders : List EngineOrderRequest) (hmodest : Modest orders) (n : ℕ)
    (x : Exchange) (h : OrderlyIn orders n x) :
    (∀ a x', Next (symbolsOf orders) x a x' → x.hasRoom (symbolsOf orders) a = true) ∧
      (∀ a f, ¬ OrderGatewayServer.Step x.gateway a (.error f)) ∧
      (∀ a f, ¬ Pipeline.Step (symbolsOf orders) x.pipeline a (.error f)) ∧
      n ≤ 35 * orders.length ∧
      (Quiet (symbolsOf orders) x → ∀ s, ∃ b, playAlone s (ordersFor s orders) = .ok b ∧
        x.responses.filter (fun r => decide (r.symbol = s)) = responsesOf b.sent ∧
        x.updates.filter (fun u => decide (u.symbol = s)) = updatesOf b.sent ∧
        (x.pipeline.contexts s).book.untimed = b ∧
        x.pipeline.mirror s = MirrorBook.applyAll ∅ (updatesOf b.sent)) := by
  obtain ⟨hreached, hsize⟩ := hmodest.reachedIn h
  have hw := hreached.reached.wired
  have hplay := hmodest.exists_playAlone
  refine ⟨fun a x' hn => hw.hasRoom hreached.reached.untouched hsize (known_symbol orders)
    hmodest.total hn, OrderGatewayServer.not_step_error x.gateway, hw.not_fault hplay, ?_, ?_⟩
  · choose books hbooks using hplay
    have hsteps := hreached.le fun s _ => hbooks s
    have hsum : ∑ s ∈ (symbolsOf orders).toFinset, (3 * (responsesOf (books s).sent).length +
        6 * (updatesOf (books s).sent).length) ≤
        ∑ s ∈ (symbolsOf orders).toFinset, 27 * (ordersFor s orders).length := by
      refine Finset.sum_le_sum fun s _ => ?_
      obtain ⟨hresponses, hupdates⟩ := playAlone_volume (hbooks s)
      omega
    have horders : ∑ s ∈ (symbolsOf orders).toFinset, (ordersFor s orders).length = orders.length :=
      sum_length_filter EngineOrderRequest.symbol fun o ho =>
        List.mem_toFinset.mpr (known_symbol orders o ho)
    rw [← Finset.mul_sum, horders] at hsum
    omega
  · intro hquiet s
    obtain ⟨b, hb⟩ := hplay s
    exact ⟨b, hb, hquiet.complete hw hb⟩

/-- What regular steps reach, orderly steps reach. -/
lemma ReachedIn.orderlyIn {n : ℕ} (h : ReachedIn orders n x) : OrderlyIn orders n x :=
  CountedRun.mono h fun _ _ _ hs => ⟨hs.1, hs.2.2⟩

lemma modest_pairOrders : Modest pairOrders where
  symbol s := (length_ordersFor_le s pairOrders).trans_lt (by decide)
  total := by decide

/-- The two orders take fifty steps, and all that comes of them has come out. -/
theorem exchange_total_pair : ∃ x, OrderlyIn pairOrders 50 x ∧
    50 ≤ 35 * pairOrders.length ∧ x.responses = pairResponses ∧
    ∃ b, x.responses.filter (fun r => decide (r.symbol = "ACME")) = responsesOf b.sent ∧
      (x.pipeline.contexts "ACME").book.untimed = b := by
  obtain ⟨x, hx, ⟨hdrained, hresponses, -⟩, -⟩ := exists_pairRun
  have hquiet := hdrained.quiet hx.reached.wired hx.reached.untouched
  obtain ⟨-, -, -, hsteps, hdone⟩ :=
    exchange_total pairOrders modest_pairOrders 50 x hx.orderlyIn
  obtain ⟨b, -, hall, -, hbook, -⟩ := hdone hquiet "ACME"
  exact ⟨x, hx.orderlyIn, hsteps, hresponses, b, hall, hbook⟩

/-! ## What is written at the end -/

/-- Messages that agree for every symbol are the same messages. -/
lemma perm_of_filter_eq {α : Type} [DecidableEq α] (f : α → Symbol) {l l' : List α}
    (h : ∀ s, l.filter (fun m => decide (f m = s)) = l'.filter fun m => decide (f m = s)) :
    l.Perm l' := by
  refine List.perm_iff_count.mpr fun m => ?_
  have hcount : ∀ k : List α, k.count m = (k.filter fun m' => decide (f m' = f m)).count m :=
    fun k => (List.count_filter (by simp)).symm
  rw [hcount l, hcount l', h (f m)]

/-- If there is one symbol only, all messages are about it. -/
lemma Wired.sole (h : Wired orders x) {s : Symbol} (hu : x.pipeline.Untouched [s]) :
    x.responses.filter (fun r => decide (r.symbol = s)) = x.responses ∧
      x.updates.filter (fun u => decide (u.symbol = s)) = x.updates := by
  obtain ⟨hr, hus⟩ := h.symbol_mem hu
  exact ⟨List.filter_eq_self.mpr fun r hmem => decide_eq_true (List.mem_singleton.mp (hr r hmem)),
    List.filter_eq_self.mpr fun u hmem => decide_eq_true (List.mem_singleton.mp (hus u hmem))⟩

/-- Two runs on a modest file that flush no equal receive times, with a clock that never goes back,
have collected the same lines for the report when they have come to an end, each symbol's in the
same order, however their threads were scheduled, and have the same books but for time stamps and
the same mirror; if the orders name one symbol only, the reports are equal. -/
theorem report_scheduled (orders : List EngineOrderRequest) (hmodest : Modest orders) (n n' : ℕ)
    (x x' : Exchange) (h : OrderlyIn orders n x) (h' : OrderlyIn orders n' x')
    (hquiet : Quiet (symbolsOf orders) x) (hquiet' : Quiet (symbolsOf orders) x') :
    (x.responses.map EngineOrderResponse.toString).Perm
        (x'.responses.map EngineOrderResponse.toString) ∧
      (x.updates.map BookUpdate.toString).Perm (x'.updates.map BookUpdate.toString) ∧
      (∀ s, x.responses.filter (fun r => decide (r.symbol = s)) =
        x'.responses.filter fun r => decide (r.symbol = s)) ∧
      (∀ s, x.updates.filter (fun u => decide (u.symbol = s)) =
        x'.updates.filter fun u => decide (u.symbol = s)) ∧
      (∀ s, (x.pipeline.contexts s).book.untimed = (x'.pipeline.contexts s).book.untimed) ∧
      x.pipeline.mirror = x'.pipeline.mirror ∧
      ∀ s, symbolsOf orders = [s] → x.report orders = x'.report orders := by
  have hreached := (hmodest.reachedIn h).1.reached
  have hreached' := (hmodest.reachedIn h').1.reached
  choose books hbooks using hmodest.exists_playAlone
  have hdone := fun s => hquiet.complete hreached.wired (hbooks s)
  have hdone' := fun s => hquiet'.complete hreached'.wired (hbooks s)
  have hresponses := fun s => (hdone s).1.trans (hdone' s).1.symm
  have hupdates := fun s => (hdone s).2.1.trans (hdone' s).2.1.symm
  refine ⟨(perm_of_filter_eq EngineOrderResponse.symbol hresponses).map _,
    (perm_of_filter_eq BookUpdate.symbol hupdates).map _, hresponses, hupdates,
    fun s => (hdone s).2.2.1.trans (hdone' s).2.2.1.symm,
    funext fun s => (hdone s).2.2.2.trans (hdone' s).2.2.2.symm, fun s hone => ?_⟩
  have hu := hreached.untouched
  have hu' := hreached'.untouched
  rw [hone] at hu hu'
  obtain ⟨hr, hus⟩ := hreached.wired.sole hu
  obtain ⟨hr', hus'⟩ := hreached'.wired.sole hu'
  rw [report, report, ← hr, ← hus, ← hr', ← hus', hresponses s, hupdates s]

/-- Whether the two orders are flushed together or one by one makes no difference to the report. -/
theorem report_scheduled_pair : ∃ x x', OrderlyIn pairOrders 50 x ∧ OrderlyIn pairOrders 52 x' ∧
    x.gateway.flushes.length = 1 ∧ x'.gateway.flushes.length = 2 ∧
    x.report pairOrders = x'.report pairOrders := by
  obtain ⟨x, hx, ⟨hdrained, -, -⟩, hflushes⟩ := exists_pairRun
  obtain ⟨x', hx', ⟨hdrained', -, -⟩, hflushes'⟩ := exists_apartRun
  have hquiet := hdrained.quiet hx.reached.wired hx.reached.untouched
  have hquiet' := hdrained'.quiet hx'.reached.wired hx'.reached.untouched
  refine ⟨x, x', hx.orderlyIn, hx'.orderlyIn, hflushes, hflushes', ?_⟩
  exact (report_scheduled pairOrders modest_pairOrders 50 52 x x' hx.orderlyIn hx'.orderlyIn hquiet
    hquiet').2.2.2.2.2.2 "ACME" rfl

end Exchange

end MatchingEngine
