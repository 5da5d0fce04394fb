import MatchingEngine.Exchange.Process
import MatchingEngine.Properties.Headroom

/-!
# What the process does

`main` decides by looking that the exchange is done, and on a file of ordinary size it always comes
to that decision: the number of responses is bounded by the number of orders, so it can be found
changed only so many times (`main_returns`).

A summary of the snapshot service is taken between two rounds over its queue, with all other threads
going on.  `snapshots_published` says that it is a consistent cut nevertheless: what it counts are
the orders after some of the updates that the subscribers have seen, which are for each symbol the
first ones of the sequential run over the symbol's orders.
-/

namespace MatchingEngine

open Transitions

/-! ## Nothing is taken back -/

lemma Pipeline.Next.applied_prefix {symbols : List Symbol} {p p' : Pipeline} {a : Pipeline.Action}
    (h : p.Next symbols a p') : p.snapshotFeed.read <+: p'.snapshotFeed.read := by
  unfold Pipeline.Next at h
  generalize hr : Except.ok p' = r at h
  cases h with
  | process | advance | ackResponse | ackReject | ackUpdate =>
    obtain ⟨_, -, rfl⟩ := exists_of_map_eq_ok hr
    exact List.prefix_rfl
  | applyUpdate =>
    obtain rfl := Except.ok.inj hr
    exact List.prefix_append _ _
  | ackSnapshot =>
    obtain ⟨ch, hch, rfl⟩ := exists_of_map_eq_ok hr
    exact ⟨[], by rw [List.append_nil, ← (Channel.history_updateReadIndex hch).2]⟩
  | route | routeUnknown | send | readResponse | readReject | readUpdate | forward =>
    obtain rfl := Except.ok.inj hr
    exact List.prefix_rfl

namespace Exchange

variable {symbols : List Symbol} {orders : List EngineOrderRequest} {x x' : Exchange} {a : Action}

/-- What the callbacks and the snapshot service have seen stays. -/
lemma Next.seen_prefix (h : Next symbols x a x') :
    x.responses <+: x'.responses ∧ x.updates <+: x'.updates ∧
      x.pipeline.snapshotFeed.read <+: x'.pipeline.snapshotFeed.read := by
  cases h with
  | readClock | push | sequence => exact ⟨List.prefix_rfl, List.prefix_rfl, List.prefix_rfl⟩
  | route _ hroute => exact ⟨List.prefix_rfl, List.prefix_rfl, hroute.applied_prefix⟩
  | readResponse _ _ _ hnext =>
    exact ⟨List.prefix_append _ _, List.prefix_rfl, hnext.applied_prefix⟩
  | readUpdate _ hnext =>
    exact ⟨List.prefix_rfl, List.prefix_append _ _, hnext.applied_prefix⟩
  | stage _ hnext => exact ⟨List.prefix_rfl, List.prefix_rfl, hnext.applied_prefix⟩

/-- What the callback has been handed. -/
lemma Wired.length_responses_le (h : Wired orders x) (hu : x.pipeline.Untouched symbols)
    (hknown : ∀ o ∈ orders, o.symbol ∈ symbols) : x.responses.length ≤ 3 * orders.length := by
  have horders : ∑ s ∈ symbols.toFinset, (ordersFor s orders).length = orders.length :=
    sum_length_filter EngineOrderRequest.symbol fun o ho => List.mem_toFinset.mpr (hknown o ho)
  rw [← sum_length_filter EngineOrderResponse.symbol fun r hmem =>
    List.mem_toFinset.mpr ((h.symbol_mem hu).1 r hmem), ← horders, Finset.mul_sum]
  refine Finset.sum_le_sum fun s _ => ?_
  rw [h.responses]
  have hread := (h.pipeline.contexts s).responses.read_prefix.length_le
  have hwritten := (h.volume s).1
  omega

/-- The steps `main` has taken to submit orders. -/
def submitSteps (x : Exchange) : ℕ :=
  2 * x.gateway.pushed.length + (x.gateway.held 0).toList.length

lemma Next.submitSteps_le (h : Next symbols x a x') :
    x.submitSteps + (Process.Action.ofMain (.exchange a)).toNat ≤ x'.submitSteps := by
  cases h with
  | readClock now hnext hidle hnow =>
    simp only [submitSteps, OrderGatewayServer.readClock, hidle, Function.update_self,
      Option.toList_none, Option.toList_some, List.length_nil, List.length_singleton,
      Process.Action.ofMain, Bool.toNat_true]
    omega
  | push hheld =>
    simp only [submitSteps, OrderGatewayServer.push, hheld, Function.update_self,
      Option.toList_none, Option.toList_some, List.length_nil, List.length_singleton,
      List.length_append, Process.Action.ofMain, Bool.toNat_true]
    omega
  | @sequence b g hown _ _ hnext =>
    have hframe : g.pushed = x.gateway.pushed ∧ g.held = x.gateway.held := by
      rcases hnext.moves with ⟨p, _, _, rfl, -⟩ | ⟨p, _, rfl, -⟩ | ⟨hframe, -⟩
      · cases hown
      · cases hown
      · exact ⟨hframe.pushed, hframe.held⟩
    simp only [submitSteps, hframe.1, hframe.2]
    exact Nat.le_refl _
  | route | readResponse | readUpdate | stage => exact Nat.le_refl _

lemma Wired.submitSteps_le (h : Wired orders x) : x.submitSteps ≤ 2 * orders.length := by
  have hsubmitted := congrArg List.length h.submitted
  simp only [List.length_append, List.length_map] at hsubmitted
  rw [submitSteps]
  omega

end Exchange

namespace Process

variable {symbols : List Symbol} {orders : List EngineOrderRequest} {p p' : Process} {a : Action}

/-- The step flushes no two orders with equal receive times. -/
def Orderly (p : Process) (a : Action) : Prop := ∀ b, a = .exchange b → p.exchange.Orderly b

instance (p : Process) (a : Action) : Decidable (p.Orderly a) :=
  match a with
  | .exchange b => decidable_of_iff (p.exchange.Orderly b)
      ⟨fun h _ hb => Action.exchange.inj hb ▸ h, fun h => h b rfl⟩
  | .poll | .endApply | .skip | .publish => .isTrue nofun

/-- The states of the process on `orders` that are reached by steps that flush no two orders with
equal receive times, with the number of the steps of `main`. -/
def OrderlyIn (orders : List EngineOrderRequest) (n : ℕ) (p : Process) : Prop :=
  CountedRun (fun p a p' => Next (symbolsOf orders) p a p' ∧ Orderly p a) (fun _ a => a.ofMain)
    { exchange := { unsubmitted := orders } } n p

/-- The exchange in a process is an exchange. -/
lemma OrderlyIn.exchange {n : ℕ} (h : OrderlyIn orders n p) :
    ∃ k, Exchange.OrderlyIn orders k p.exchange := by
  induction h with
  | refl => exact ⟨0, CountedRun.refl⟩
  | tail _ hs ih =>
    obtain ⟨k, hk⟩ := ih
    obtain ⟨hn, horderly⟩ := hs
    cases hn with
    | exchange hpos hnext => exact ⟨_, CountedRun.tail hk ⟨hnext, horderly _ rfl⟩⟩
    | poll | endApply | skip | publish => exact ⟨k, hk⟩

/-- What the results on exchanges say of a process. -/
lemma OrderlyIn.wired {n : ℕ} (h : OrderlyIn orders n p) (hmodest : Exchange.Modest orders) :
    Exchange.Wired orders p.exchange ∧ p.exchange.pipeline.Untouched (symbolsOf orders) := by
  obtain ⟨k, hk⟩ := h.exchange
  have hreached := (hmodest.reachedIn hk).1.reached
  exact ⟨hreached.wired, hreached.untouched⟩

/-! ## `main` -/

/-- `main` has seen no more responses than there are, and waits only if it has submitted all
orders. -/
structure Waits (p : Process) : Prop where
  seen : p.wait.lastSeen ≤ p.exchange.responses.length
  polls : p.wait.idlePolls ≤ 15
  submitted : p.wait ≠ {} → p.submitted

lemma Waits.next (h : Waits p) (hn : Next symbols p a p') : Waits p' := by
  cases hn with
  | endApply | skip | publish => exact ⟨h.seen, h.polls, h.submitted⟩
  | poll hsubmitted hgoesOn =>
    have hpolls : p.wait.idlePolls < 15 := of_decide_eq_true hgoesOn
    refine ⟨?_, ?_, fun _ => hsubmitted⟩
    · simp only [Wait.poll]
      split
      · exact h.seen
      · exact Nat.le_refl _
    · simp only [Wait.poll]
      split
      · exact hpolls
      · exact Nat.zero_le _
  | exchange hpos hnext =>
    refine ⟨h.seen.trans hnext.seen_prefix.1.length_le, h.polls, fun hne => ?_⟩
    obtain ⟨hnone, hheld⟩ := h.submitted hne
    cases hnext with
    | readClock _ hcons =>
      rw [hnone] at hcons
      cases hcons
    | push hsome =>
      rw [hheld] at hsome
      cases hsome
    | sequence hown _ _ hgateway =>
      rcases hgateway.moves with ⟨_, _, _, rfl, -⟩ | ⟨_, _, rfl, -⟩ | ⟨hframe, -⟩
      · cases hown
      · cases hown
      · exact ⟨hnone, by rw [hframe.held, hheld]⟩
    | route | readResponse | readUpdate | stage => exact ⟨hnone, hheld⟩

lemma waits_of_run (h : Run (fun p a p' => Next symbols p a p' ∧ Orderly p a)
    { exchange := { unsubmitted := orders } } p) : Waits p :=
  h.invariant ⟨Nat.le_refl _, Nat.zero_le _, fun hne => absurd rfl hne⟩
    fun _ _ _ hs hw => hw.next hs.1

/-- The steps of `main`: what it has submitted, and fifteen looks for every response it has seen. -/
def mainSteps (p : Process) : ℕ :=
  p.exchange.submitSteps + 15 * p.wait.lastSeen + p.wait.idlePolls

/-- No step takes back a step of `main`, and a look at the responses finds a new one or is one more
of at most fifteen. -/
lemma Next.mainSteps_le (h : Next symbols p a p') (hw : Waits p) :
    p.mainSteps + a.ofMain.toNat ≤ p'.mainSteps := by
  cases h with
  | exchange hpos hnext =>
    have := hnext.submitSteps_le
    simp only [mainSteps]
    omega
  | endApply | skip | publish => exact Nat.le_refl _
  | poll _ hgoesOn =>
    have hpolls : p.wait.idlePolls < 15 := of_decide_eq_true hgoesOn
    have hseen := hw.seen
    simp only [mainSteps, Wait.poll, Action.ofMain, Bool.toNat_true]
    split_ifs with hsame
    · dsimp only
      omega
    · dsimp only
      omega

/-- As long as `main` waits or has orders to submit, it has a step to take. -/
lemma exists_main_step (hgoesOn : p.wait.goesOn = true) (symbols : List Symbol) :
    ∃ a p', Next symbols p a p' ∧ a.ofMain = true := by
  cases hheld : p.exchange.gateway.held 0 with
  | some t => exact ⟨.exchange .push, _, .exchange (by simp) (.push hheld), rfl⟩
  | none =>
    cases hnext : p.exchange.unsubmitted with
    | nil => exact ⟨.poll, _, .poll ⟨hnext, hheld⟩ hgoesOn, rfl⟩
    | cons req rest =>
      exact ⟨.exchange .readClock, _,
        .exchange (by simp) (.readClock p.exchange.gateway.clock hnext hheld Int64.le_rfl), rfl⟩

/-- On a modest file, whatever the threads do, as long as no flush finds two orders with equal
receive times and the gateway's clock never goes back: `main` takes two steps to submit an order and
at most forty-five looks for each order and fifteen more; until it stops waiting it can always go
on, and when it stops it has submitted all orders. -/
theorem main_returns (orders : List EngineOrderRequest) (hmodest : Exchange.Modest orders) (n : ℕ)
    (p : Process) (h : OrderlyIn orders n p) :
    n ≤ 47 * orders.length + 15 ∧
      (p.wait.goesOn = true → ∃ a p', Next (symbolsOf orders) p a p' ∧ a.ofMain = true) ∧
      (p.wait.goesOn = false → p.submitted) := by
  obtain ⟨hwired, hu⟩ := h.wired hmodest
  have hwaits := waits_of_run h.run
  refine ⟨?_, fun hgoesOn => exists_main_step hgoesOn _, fun hstop => ?_⟩
  · have hcount := CountedRun.add_le mainSteps h fun q b q' hrun hs =>
      hs.1.mainSteps_le (waits_of_run hrun)
    have hsubmit := hwired.submitSteps_le
    have hresponses := hwired.length_responses_le hu (Exchange.known_symbol orders)
    have hseen := hwaits.seen
    have hpolls := hwaits.polls
    simp only [mainSteps] at hcount
    omega
  · refine hwaits.submitted fun hnew => ?_
    rw [hnew] at hstop
    cases hstop

/-- `main` looks for responses once before the first one is there. -/
def waitTurns : List Turn :=
  (Exchange.routeTurns 1 2).map .exchange ++ [.poll] ++
    (Exchange.tradeTurns "ACME").map .exchange ++ List.replicate 16 .poll

/-- `main` takes four steps to submit the orders, looks once too early, sees the responses, and
finds nothing new fifteen times. -/
theorem main_returns_pair : ∃ p, OrderlyIn Exchange.pairOrders 21 p ∧
    p.wait = { lastSeen := 4, idlePolls := 15 } ∧
    21 ≤ 47 * Exchange.pairOrders.length + 15 ∧ p.submitted := by
  have hplay : (waitTurns.foldlM (play (perform ["ACME"]) Turn.action Orderly fun _ a => a.ofMain)
      (0, { exchange := { unsubmitted := Exchange.pairOrders } })).any
        (fun e => decide (e.1 = 21 ∧ e.2.wait = { lastSeen := 4, idlePolls := 15 })) = true := by
    decide +kernel
  obtain ⟨n, p, hp, hcheck⟩ := CountedRun.exists_of_play hplay fun _ _ _ => next_of_perform
  obtain ⟨rfl, hwait⟩ := of_decide_eq_true hcheck
  obtain ⟨hcount, -, hdone⟩ := main_returns _ Exchange.modest_pairOrders 21 p hp
  exact ⟨p, hp, hwait, hcount, hdone (by rw [hwait]; rfl)⟩

/-! ## Publications -/

/-- What the summary says if the mirror has seen `updates`. -/
def snapshotLines (updates : List BookUpdate) : List SnapshotLine :=
  (Mirror.heard updates).map fun s => ⟨s, ((MirrorBook.applyAll ∅
    (updates.filter fun u => decide (u.symbol = s))).entries.length : ℤ)⟩

/-- As long as there are few updates, no count is too large for an `int`. -/
lemma publishSnapshot_perm {updates : List BookUpdate} {order : List Symbol}
    (hfew : updates.length < symbolQueueSize) (horder : order.Perm (Mirror.heard updates)) :
    ((Mirror.empty.applyUpdates updates).publishSnapshot order).Perm (snapshotLines updates) := by
  have hline : ∀ s, (((Mirror.empty.applyUpdates updates s).entries.length : ℤ).bmod 4294967296) =
      ((MirrorBook.applyAll ∅ (updates.filter fun u => decide (u.symbol = s))).entries.length :
        ℤ) := by
    intro s
    have hlength := MirrorBook.length_applyAll_le ∅ (updates.filter fun u => decide (u.symbol = s))
    have hfilter := List.length_filter_le (fun u : BookUpdate => decide (u.symbol = s)) updates
    rw [Mirror.applyUpdates_apply, show Mirror.empty s = ∅ from rfl]
    have hsize : symbolQueueSize = 65536 := rfl
    have hempty : (∅ : MirrorBook).entries.length = 0 := rfl
    exact Int.bmod_eq_of_le (by omega) (by omega)
  rw [Mirror.publishSnapshot, snapshotLines]
  simp only [hline]
  exact horder.map _

/-- The publications so far: each is about some of the updates that have been applied, each is about
at least what the one before is about, and a minute lies between the two. -/
structure Publishes (p : Process) (cuts : List (List BookUpdate)) : Prop where
  nested : (cuts ++ [p.exchange.pipeline.snapshotFeed.read]).Pairwise (· <+: ·)
  lines : List.Forall₂ (fun q us => q.lines.Perm (snapshotLines us)) p.published cuts
  spaced : p.published.IsChain fun q r =>
    q.recorded.toInt + snapshotIntervalNanos.toInt < r.checked.toInt
  last : ∀ q ∈ p.published.getLast?, q.recorded = p.lastSnapshotTime
  clock : 0 ≤ p.lastSnapshotTime

/-- A test that succeeds comes more than a minute after the last publication. -/
lemma due.lt {now : Nanos} (h : p.due now) (hnow : 0 ≤ now) (hlast : 0 ≤ p.lastSnapshotTime) :
    p.lastSnapshotTime.toInt + snapshotIntervalNanos.toInt < now.toInt := by
  rw [due, Int64.lt_iff_toInt_lt, Int64.toInt_sub] at h
  rw [Int64.le_iff_toInt_le] at hnow hlast
  have hzero : (0 : Int64).toInt = 0 := rfl
  have hbound := now.toInt_lt
  have hbound' := p.lastSnapshotTime.toInt_lt
  rw [Int.bmod_eq_of_le (by omega) (by omega)] at h
  omega

lemma publishes_init : Publishes { exchange := { unsubmitted := orders } } [] where
  nested := List.pairwise_singleton _ _
  lines := .nil
  spaced := .nil
  last := by simp
  clock := Int64.le_rfl

lemma Publishes.exchange {cuts : List (List BookUpdate)} (h : Publishes p cuts) {x : Exchange}
    (hgrows : p.exchange.pipeline.snapshotFeed.read <+: x.pipeline.snapshotFeed.read) :
    Publishes { p with exchange := x } cuts := by
  refine { h with nested := ?_ }
  have hnested := List.pairwise_append.mp h.nested
  refine List.pairwise_append.mpr ⟨hnested.1, List.pairwise_singleton _ _, fun us hus vs hvs => ?_⟩
  rw [List.mem_singleton.mp hvs]
  exact (hnested.2.2 us hus _ (List.mem_singleton_self _)).trans hgrows

lemma Publishes.publish {cuts : List (List BookUpdate)} (h : Publishes p cuts) {now now' : Nanos}
    {lines : List SnapshotLine} (hnow : 0 ≤ now) (hnow' : 0 ≤ now') (hdue : p.due now)
    (hlines : lines.Perm (snapshotLines p.exchange.pipeline.snapshotFeed.read)) :
    Publishes { p with
      snapshot := .applying
      lastSnapshotTime := now'
      published := p.published ++ [⟨now, now', lines⟩] }
      (cuts ++ [p.exchange.pipeline.snapshotFeed.read]) where
  nested := by
    refine List.pairwise_append.mpr ⟨h.nested, List.pairwise_singleton _ _, fun us hus vs hvs => ?_⟩
    rw [List.mem_singleton.mp hvs]
    rcases List.mem_append.mp hus with hus | hus
    · exact (List.pairwise_append.mp h.nested).2.2 us hus _ (List.mem_singleton_self _)
    · rw [List.mem_singleton.mp hus]
  lines := List.rel_append h.lines (.cons hlines .nil)
  spaced := by
    refine List.isChain_append.mpr ⟨h.spaced, .singleton _, fun q hq r hr => ?_⟩
    obtain rfl := Option.some.inj hr
    rw [h.last q hq]
    exact hdue.lt hnow h.clock
  last := by
    intro q hq
    rw [List.getLast?_concat] at hq
    obtain rfl := Option.some.inj hq
    rfl
  clock := hnow'

lemma OrderlyIn.publishes {n : ℕ} (h : OrderlyIn orders n p) (hmodest : Exchange.Modest orders) :
    ∃ cuts, Publishes p cuts := by
  induction h with
  | refl => exact ⟨[], publishes_init⟩
  | @tail n q q' a hq hs ih =>
    obtain ⟨cuts, hcuts⟩ := ih
    cases hs.1 with
    | exchange hpos hnext => exact ⟨cuts, hcuts.exchange hnext.seen_prefix.2.2⟩
    | poll | endApply | skip =>
      exact ⟨cuts, hcuts.nested, hcuts.lines, hcuts.spaced, hcuts.last, hcuts.clock⟩
    | publish now now' order hpos hnow hnow' hdue horder =>
      obtain ⟨hwired, hu⟩ := OrderlyIn.wired hq hmodest
      refine ⟨_, hcuts.publish hnow hnow' hdue ?_⟩
      have hfew : q.exchange.pipeline.snapshotFeed.read.length < symbolQueueSize := by
        have hshown := hwired.length_updates_le hu (Exchange.known_symbol orders)
        have happlied := hwired.applied_prefix.length_le
        have htotal := hmodest.total
        omega
      rw [hwired.pipeline.mirror]
      exact publishSnapshot_perm hfew horder

/-- On a modest file, whatever the threads do, as long as no flush finds two orders with equal
receive times and the gateway's clock never goes back: every publication of the snapshot service
counts, for each symbol that some updates have been about, the orders of the mirror after these
updates; they are the first updates that the subscribers have seen, among which those of each symbol
are the first ones of the sequential run over its orders; a later publication takes in at least as
many; and there is more than a minute between two. -/
theorem snapshots_published (orders : List EngineOrderRequest) (hmodest : Exchange.Modest orders)
    (n : ℕ) (p : Process) (h : OrderlyIn orders n p) :
    ∃ cuts : List (List BookUpdate),
      List.Forall₂ (fun q us => q.lines.Perm (snapshotLines us)) p.published cuts ∧
      (cuts ++ [p.exchange.updates]).Pairwise (· <+: ·) ∧
      (∀ us ∈ cuts, ∀ s, ∃ b, Exchange.playAlone s (Exchange.ordersFor s orders) = .ok b ∧
        us.filter (fun u => decide (u.symbol = s)) <+: updatesOf b.sent) ∧
      p.published.IsChain fun q r =>
        q.recorded.toInt + snapshotIntervalNanos.toInt < r.checked.toInt := by
  obtain ⟨hwired, -⟩ := h.wired hmodest
  obtain ⟨cuts, hcuts⟩ := h.publishes hmodest
  have hnested := List.pairwise_append.mp hcuts.nested
  have hseen : ∀ us ∈ cuts, us <+: p.exchange.updates := fun us hus =>
    (hnested.2.2 us hus _ (List.mem_singleton_self _)).trans hwired.applied_prefix
  refine ⟨cuts, hcuts.lines, ?_, fun us hus s => ?_, hcuts.spaced⟩
  · refine List.pairwise_append.mpr ⟨hnested.1, List.pairwise_singleton _ _,
      fun us hus vs hvs => ?_⟩
    rw [List.mem_singleton.mp hvs]
    exact hseen us hus
  · obtain ⟨b, hb⟩ := hmodest.exists_playAlone s
    refine ⟨b, hb, ((hseen us hus).filter _).trans ?_⟩
    rw [hwired.updates, hwired.pipeline.forwarded]
    exact hwired.read_updates_prefix hb

/-- The snapshot service publishes after the first order.  After the trade it first looks at the
clock too early, half a minute later, and publishes when it looks again. -/
def publishTurns : List Turn :=
  (Exchange.routeTurns 1 2 ++ Exchange.askTurns "ACME").map .exchange ++
    [.endApply, .publish 120000000000 120000000001 ["ACME"]] ++
    (Exchange.bidTurns "ACME").map .exchange ++ [.endApply, .skip 150000000000, .endApply,
      .publish 200000000000 200000000001 ["ACME"]] ++
    (Exchange.restTurns "ACME").map .exchange

/-- The first order is published when it rests, and again, as gone, when it has traded. -/
theorem snapshots_published_pair : ∃ n p us us', OrderlyIn Exchange.pairOrders n p ∧
    p.published = [⟨120000000000, 120000000001, [⟨"ACME", 1⟩]⟩,
      ⟨200000000000, 200000000001, [⟨"ACME", 0⟩]⟩] ∧
    [⟨"ACME", 1⟩].Perm (snapshotLines us) ∧ [⟨"ACME", 0⟩].Perm (snapshotLines us') ∧
    us <+: us' ∧ us' <+: Exchange.pairUpdates := by
  have hplay : (publishTurns.foldlM (play (perform ["ACME"]) Turn.action Orderly
      fun _ a => a.ofMain) (0, { exchange := { unsubmitted := Exchange.pairOrders } })).any
        (fun e => decide (e.2.published = [⟨120000000000, 120000000001, [⟨"ACME", 1⟩]⟩,
          ⟨200000000000, 200000000001, [⟨"ACME", 0⟩]⟩] ∧
            e.2.exchange.updates = Exchange.pairUpdates)) = true := by
    decide +kernel
  obtain ⟨n, p, hp, hcheck⟩ := CountedRun.exists_of_play hplay fun _ _ _ => next_of_perform
  obtain ⟨hpublished, hupdates⟩ := of_decide_eq_true hcheck
  obtain ⟨cuts, hcounts, hnested, -, -⟩ :=
    snapshots_published _ Exchange.modest_pairOrders n p hp
  rw [hpublished] at hcounts
  cases hcounts with
  | @cons _ us _ _ hfirst hrest =>
    cases hrest with
    | @cons _ us' _ _ hsecond hnone =>
      cases hnone
      rw [hupdates] at hnested
      obtain ⟨hcut, hlast⟩ := List.pairwise_cons.mp hnested
      exact ⟨n, p, us, us', hp, hpublished, hfirst, hsecond, hcut us' List.mem_cons_self,
        List.pairwise_pair.mp hlast⟩

end Process

end MatchingEngine
