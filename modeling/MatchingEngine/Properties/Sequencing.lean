import MatchingEngine.OrderServer.OrderGatewayServer

/-!
# What the gateway does to the order of requests

Three properties of the sequence passed to the router, over every interleaving.

* `sequencing_exactlyOnce`: whatever was pushed is in exactly one place, and comes out as it
  went in, stamped with its receive time.
* Receive-time order across flushes does not hold in general.  `submit` reads the clock before
  it takes the lock, so a request can be pushed when later ones have already been routed; and a
  flush forced in the middle of a batch can overtake the rest of the batch.
  `receiveOrder_of_timely` shows that there is no third cause.
* The order of one producer's requests is kept as long as no flush finds two of them with equal
  receive times (`producerOrder_of_distinct`); `std::sort` may swap those.
-/

namespace MatchingEngine

open Transitions

namespace OrderGatewayServer

variable {g g' : OrderGatewayServer} {a : Action}

/-! ## Exactly once -/

/-- The line holds what was pushed, the buffer is within its size, and flushes are sorted. -/
structure Accounted (g : OrderGatewayServer) : Prop where
  line : g.line.Perm (g.pushed.map TimedRequest.tagged)
  size : g.sequencer.pendingSize ≤ maxPendingGatewayRequests
  sorted : ∀ out ∈ g.flushes, out.Pairwise fun a b => a.recvTime ≤ b.recvTime

lemma Accounted.next (h : Accounted g) (hn : Next g a g') : Accounted g' := by
  obtain ⟨p, now, request, -, -, -, rfl⟩ | ⟨p, x, -, -, rfl⟩ | ⟨hframe, -, hmoves⟩ := hn.moves
  · exact ⟨h.line, h.size, h.sorted⟩
  · refine ⟨?_, h.size, h.sorted⟩
    rw [line_push, push, List.map_append]
    exact h.line.append_right _
  · cases hmoves with
    | shift _ hwaiting hflushes =>
      refine ⟨?_, hframe.size h.size, hflushes ▸ h.sorted⟩
      rw [OrderGatewayServer.line, routed, hwaiting, hflushes, hframe.pushed]
      exact h.line
    | flush _ hwaiting hflushes hperm hsorted =>
      refine ⟨?_, hframe.size h.size, ?_⟩
      · rw [OrderGatewayServer.line, routed_of_flushes hflushes, hwaiting, hframe.pushed,
          List.append_assoc]
        exact ((hperm.append_right _).append_left _).trans h.line
      · rw [hflushes]
        intro out' hout'
        rcases List.mem_append.mp hout' with hout' | hout'
        · exact h.sorted out' hout'
        · rw [List.mem_singleton.mp hout']
          exact hsorted

lemma Reachable.accounted (h : Reachable g) : Accounted g :=
  h.invariant ⟨.refl _, Nat.zero_le _, by simp⟩ fun _ _ _ hn hI => hI.next hn

/-- Every request pushed is in exactly one of four places, the routed ones as they were submitted
but for their receive time; the buffer is never written outside its bounds; and each flush routes
in receive-time order.  Nothing depends on what the clock reads: the receive times may be any. -/
theorem sequencing_exactlyOnce (g : OrderGatewayServer) (h : Reachable g) :
    (g.routed ++ g.sequencer.window ++ g.phase.batch.map TimedRequest.tagged ++
        g.inbox.map TimedRequest.tagged).Perm (g.pushed.map TimedRequest.tagged) ∧
      (∀ r ∈ g.routed, ∃ x ∈ g.pushed, r.origin = x.request.origin ∧
        r.request = { x.request.request with recvTime := x.rxTime }) ∧
      g.sequencer.pendingSize ≤ maxPendingGatewayRequests ∧
      (∀ a f, ¬ Step g a (.error f)) ∧
      ∀ out ∈ g.flushes, out.Pairwise fun a b => a.recvTime ≤ b.recvTime := by
  have hacc := h.accounted
  have hline : g.line = g.routed ++ g.sequencer.window ++ g.phase.batch.map TimedRequest.tagged ++
      g.inbox.map TimedRequest.tagged := by
    simp [line, waiting]
  refine ⟨hline ▸ hacc.line, fun r hr => ?_, hacc.size, not_step_error g, hacc.sorted⟩
  have hmem : r ∈ g.pushed.map TimedRequest.tagged :=
    hacc.line.mem_iff.mp (List.mem_append_left _ hr)
  obtain ⟨x, hx, rfl⟩ := List.mem_map.mp hmem
  exact ⟨x, hx, rfl, rfl⟩

/-- A limit order, as submitted by a producer. -/
def sampleLimit : EngineOrderRequest := ⟨.limit, 1, "ACME", 1, .buy, 100, 5, 0⟩

/-- The cancel of `sampleLimit`. -/
def sampleCancel : EngineOrderRequest := ⟨.cancel, 1, "ACME", 1, .buy, 100, 5, 0⟩

/-- One producer submits `sampleLimit` and then `sampleCancel`, at `t₁` and `t₂`, before the
gateway's thread gets to run. -/
def samplePair (t₁ t₂ : Nanos) : OrderGatewayServer :=
  let first := (({} : OrderGatewayServer).readClock 0 t₁ sampleLimit).push 0
    ⟨t₁, ⟨⟨0, 0⟩, sampleLimit⟩⟩
  (first.readClock 0 t₂ sampleCancel).push 0 ⟨t₂, ⟨⟨0, 1⟩, sampleCancel⟩⟩

/-- The gateway can route the pair in any order of receive time. -/
lemma run_samplePair (good : OrderGatewayServer → Action → Prop)
    (hquiet : ∀ g a, g.routes a = false → good g a) (t₁ t₂ : Nanos) (hle : t₁ ≤ t₂)
    (hflush : ∀ g' : OrderGatewayServer,
      g'.sequencer.window = (samplePair t₁ t₂).inbox.map TimedRequest.tagged →
      g'.phase = .sequence [] → g'.inbox = [] → good g' .flush)
    {out : List Submission} (hperm : out.Perm ((samplePair t₁ t₂).inbox.map TimedRequest.tagged))
    (hsorted : out.Pairwise fun a b => a.recvTime ≤ b.recvTime) :
    ∃ g, GuardedRun Next good {} g ∧ g.flushes = [out] ∧ g.waiting = [] ∧
      g.pushed = (samplePair t₁ t₂).pushed := by
  have hfirst := run_submit good {} 0 t₁ sampleLimit rfl (Int64.minValue_le _) (hquiet _ _ rfl)
    (hquiet _ _ rfl)
  have hpair : GuardedRun Next good {} (samplePair t₁ t₂) :=
    hfirst.trans (run_submit good _ 0 t₂ sampleCancel rfl hle (hquiet _ _ rfl)
      (hquiet _ _ rfl))
  have hinbox : (samplePair t₁ t₂).inbox =
      [⟨t₁, ⟨⟨0, 0⟩, sampleLimit⟩⟩, ⟨t₂, ⟨⟨0, 1⟩, sampleCancel⟩⟩] := rfl
  obtain ⟨s, hempty, hround⟩ := run_round good hquiet (g := samplePair t₁ t₂) rfl rfl
    (by rw [hinbox]; simp) (by rw [hinbox]; simp [maxPendingGatewayRequests]) hflush hperm hsorted
  refine ⟨_, hpair.trans hround, rfl, ?_, rfl⟩
  rw [waiting, RequestSequencer.window_eq_nil hempty]
  rfl

/-- After the pair has been routed, it has been routed exactly once. -/
theorem sequencing_exactlyOnce_samplePair : ∃ g, Reachable g ∧
    g.pushed = (samplePair 1 2).pushed ∧ g.routed.Perm (g.pushed.map TimedRequest.tagged) := by
  obtain ⟨g, hrun, -, hwaiting, hpushed⟩ := run_samplePair (fun _ _ => True)
    (fun _ _ _ => trivial) 1 2 (by decide) (fun _ _ _ _ => trivial) (.refl _) (by decide)
  refine ⟨g, hrun.run, hpushed, ?_⟩
  have hline := (sequencing_exactlyOnce g hrun.run).1
  rwa [List.append_assoc, List.append_assoc, ← List.map_append, ← waiting, hwaiting,
    List.append_nil] at hline

/-! ## Receive-time order -/

/-- The sequence passed to the router never goes back in receive time. -/
def RoutedInOrder (g : OrderGatewayServer) : Prop :=
  g.routed.Pairwise fun a b => a.recvTime ≤ b.recvTime

/-- The step does not let a request be overtaken for good: a push does not come after a later
request has been routed, and a flush does not come before everything in the batch and the inbox
is at least as late as what it routes. -/
structure Timely (g : OrderGatewayServer) (a : Action) : Prop where
  push : ∀ p x, a = .push p → g.held p = some x → ∀ r ∈ g.routed, r.recvTime ≤ x.rxTime
  flush : g.routes a = true → ∀ b ∈ g.sequencer.window, ∀ x ∈ g.phase.batch ++ g.inbox,
    b.recvTime ≤ x.rxTime

/-- Nothing that waits is earlier than something that has been routed. -/
structure InOrder (g : OrderGatewayServer) : Prop where
  routed : g.RoutedInOrder
  waiting : ∀ r ∈ g.routed, ∀ b ∈ g.waiting, r.recvTime ≤ b.recvTime

lemma inOrder_congr (hrouted : g'.routed = g.routed) (hwaiting : g'.waiting = g.waiting) :
    InOrder g' ↔ InOrder g := by
  constructor
  · rintro ⟨hr, hw⟩
    rw [hrouted, hwaiting] at hw
    exact ⟨by rw [RoutedInOrder, ← hrouted]; exact hr, hw⟩
  · rintro ⟨hr, hw⟩
    refine ⟨by rw [RoutedInOrder, hrouted]; exact hr, ?_⟩
    rw [hrouted, hwaiting]
    exact hw

lemma inOrder_push (g : OrderGatewayServer) (p : ℕ) (x : TimedRequest) :
    InOrder (g.push p x) ↔ InOrder g ∧ ∀ r ∈ g.routed, r.recvTime ≤ x.rxTime := by
  constructor
  · rintro ⟨hr, hw⟩
    rw [waiting_push] at hw
    exact ⟨⟨hr, fun r hrm b hb => hw r hrm b (List.mem_append_left _ hb)⟩,
      fun r hrm => hw r hrm x.tagged (by simp)⟩
  · rintro ⟨⟨hr, hw⟩, hx⟩
    refine ⟨hr, fun r hrm b hb => ?_⟩
    rw [waiting_push] at hb
    rcases List.mem_append.mp hb with hb | hb
    · exact hw r hrm b hb
    · rw [List.mem_singleton.mp hb]
      exact hx r hrm

/-- After a flush the line is in order if it was before, and what was routed is not later than
what still waits. -/
lemma inOrder_flush {out : List Submission}
    (hwaiting : g'.waiting = (g.phase.batch ++ g.inbox).map TimedRequest.tagged)
    (hflushes : g'.flushes = g.flushes ++ [out]) (hperm : out.Perm g.sequencer.window)
    (hsorted : out.Pairwise fun a b => a.recvTime ≤ b.recvTime) :
    InOrder g' ↔ InOrder g ∧
      ∀ b ∈ g.sequencer.window, ∀ x ∈ g.phase.batch ++ g.inbox, b.recvTime ≤ x.rxTime := by
  have hrouted := routed_of_flushes hflushes
  constructor
  · rintro ⟨hr, hw⟩
    rw [RoutedInOrder, hrouted, List.pairwise_append] at hr
    rw [hrouted, hwaiting] at hw
    obtain ⟨hr, -, hcross⟩ := hr
    refine ⟨⟨hr, fun r hrm b hb => ?_⟩, fun b hb x hx => ?_⟩
    · unfold OrderGatewayServer.waiting at hb
      rcases List.mem_append.mp hb with hb | hb
      · exact hcross r hrm b (hperm.mem_iff.mpr hb)
      · exact hw r (List.mem_append_left _ hrm) b hb
    · exact hw b (List.mem_append_right _ (hperm.mem_iff.mpr hb)) x.tagged
        (List.mem_map_of_mem hx)
  · rintro ⟨⟨hr, hw⟩, hcross⟩
    refine ⟨?_, fun r hrm b hb => ?_⟩
    · rw [RoutedInOrder, hrouted, List.pairwise_append]
      exact ⟨hr, hsorted, fun r hrm b hb =>
        hw r hrm b (List.mem_append_left _ (hperm.mem_iff.mp hb))⟩
    · rw [hwaiting] at hb
      obtain ⟨x, hx, rfl⟩ := List.mem_map.mp hb
      rw [hrouted] at hrm
      rcases List.mem_append.mp hrm with hrm | hrm
      · exact hw r hrm x.tagged (List.mem_append_right _ hb)
      · exact hcross r (hperm.mem_iff.mp hrm) x hx

/-- A step that neither pushes nor routes. -/
lemma timely_of_quiet (hpush : ∀ p, a ≠ .push p) (hroutes : g.routes a = false) : Timely g a :=
  ⟨fun p _ hp => absurd hp (hpush p), fun hr => by rw [hroutes] at hr; cases hr⟩

/-- A step keeps the line in order exactly if it is timely, and never puts it in order again. -/
lemma Next.inOrder_iff (hn : Next g a g') : InOrder g' ↔ InOrder g ∧ Timely g a := by
  obtain ⟨p, now, request, rfl, -, -, rfl⟩ | ⟨p, x, rfl, hheld, rfl⟩ | ⟨-, hpush, hmoves⟩ :=
    hn.moves
  · have hquiet : Timely g (.readClock p) := timely_of_quiet (by simp) rfl
    have hsame : InOrder (g.readClock p now request) ↔ InOrder g := inOrder_congr rfl rfl
    rw [hsame]
    exact (and_iff_left hquiet).symm
  · rw [inOrder_push]
    refine and_congr_right fun _ => ⟨fun hx => ⟨fun p' x' hp' hx' => ?_, by simp [routes]⟩,
      fun ht => ?_⟩
    · obtain rfl : p = p' := Action.push.inj hp'
      obtain rfl : x = x' := Option.some.inj (hheld.symm.trans hx')
      exact hx
    · exact ht.push p x rfl hheld
  · cases hmoves with
    | shift hroutes hwaiting hflushes =>
      rw [inOrder_congr (by rw [OrderGatewayServer.routed, hflushes]; rfl) hwaiting]
      exact (and_iff_left (timely_of_quiet hpush hroutes)).symm
    | flush hroutes hwaiting hflushes hperm hsorted =>
      rw [inOrder_flush hwaiting hflushes hperm hsorted]
      refine and_congr_right fun _ => ⟨fun hcross => ?_, fun ht => ht.flush hroutes⟩
      exact ⟨fun p x hp => absurd hp (hpush p), fun _ => hcross⟩

lemma inOrder_iff_timely (h : Reachable g) : GuardedRun Next Timely {} g ↔ InOrder g :=
  guarded_iff h ⟨.nil, by simp [OrderGatewayServer.routed]⟩
    (fun _ _ _ hn hI => by rw [hn.inOrder_iff]; simp [hI])
    (fun _ _ _ hn hI hI' => hI (hn.inOrder_iff.mp hI').1)

/-- If every step of a run is timely, the router sees receive-time order, in every state; and a
run that ends with nothing waiting and was seen in order took timely steps only. -/
theorem receiveOrder_of_timely (g : OrderGatewayServer) (h : Reachable g) :
    (GuardedRun Next Timely {} g → g.RoutedInOrder) ∧
      (g.waiting = [] → g.RoutedInOrder → GuardedRun Next Timely {} g) := by
  constructor
  · intro hrun
    exact ((inOrder_iff_timely h).mp hrun).routed
  · intro hempty hr
    refine (inOrder_iff_timely h).mpr ⟨hr, ?_⟩
    rw [hempty]
    simp

/-- The pair routed in order was routed by timely steps. -/
theorem receiveOrder_samplePair : ∃ g, Reachable g ∧ g.routed.length = 2 ∧
    GuardedRun Next Timely {} g ∧ g.RoutedInOrder := by
  obtain ⟨g, hrun, hflushes, hwaiting, -⟩ := run_samplePair (fun _ _ => True)
    (fun _ _ _ => trivial) 1 2 (by decide) (fun _ _ _ _ => trivial) (.refl _) (by decide)
  have hrouted : g.routed = (samplePair 1 2).inbox.map TimedRequest.tagged := by
    rw [routed, hflushes, List.flatten_singleton]
  have horder : g.RoutedInOrder := by
    rw [RoutedInOrder, hrouted]
    decide
  refine ⟨g, hrun.run, by rw [hrouted]; rfl, ?_, horder⟩
  exact (receiveOrder_of_timely g hrun.run).2 hwaiting horder

/-- Producer 0 reads the clock and is held up; producer 1 reads it later, and its request is
pushed and routed before producer 0 gets to push. -/
theorem receiveOrder_overtaken : ∃ g, Reachable g ∧
    g.routed.map Submission.recvTime = [2, 1] ∧ ¬ g.RoutedInOrder := by
  set good : OrderGatewayServer → Action → Prop := fun _ _ => True
  set g₁ := ({} : OrderGatewayServer).readClock 0 1 sampleLimit with hg₁
  set g₂ := (g₁.readClock 1 2 sampleCancel).push 1 ⟨2, ⟨⟨1, 0⟩, sampleCancel⟩⟩ with hg₂
  have hread : Next {} (.readClock 0) g₁ := Step.readClock 0 1 sampleLimit rfl (Int64.minValue_le _)
  have hsubmit : GuardedRun Next good g₁ g₂ :=
    run_submit good g₁ 1 2 sampleCancel rfl (by decide) trivial trivial
  obtain ⟨s, hempty, hround⟩ := run_round good (fun _ _ _ => trivial) (g := g₂) rfl rfl (by decide)
    (by decide) (fun _ _ _ _ => trivial) (.refl _) (by decide)
  -- now producer 0 gets the lock
  set g₃ : OrderGatewayServer := { g₂ with
    sequencer := s
    inbox := []
    flushes := g₂.flushes ++ [g₂.inbox.map TimedRequest.tagged] } with hg₃
  have hpush : Next g₃ (.push 0) (g₃.push 0 ⟨1, ⟨⟨0, 0⟩, sampleLimit⟩⟩) := Step.push rfl
  obtain ⟨s', -, hround'⟩ := run_round good (fun _ _ _ => trivial)
    (g := g₃.push 0 ⟨1, ⟨⟨0, 0⟩, sampleLimit⟩⟩) rfl hempty (by simp [push])
    (by simp [push, hg₃, maxPendingGatewayRequests]) (fun _ _ _ _ => trivial) (.refl _)
    (by simp [push, hg₃])
  have hrun := (((((GuardedRun.refl {}).tail hread trivial).trans hsubmit).trans hround).tail hpush
    trivial).trans hround'
  refine ⟨_, hrun.run, rfl, fun horder => ?_⟩
  have htimes : ([2, 1] : List Nanos).Pairwise (· ≤ ·) := List.pairwise_map.mpr horder
  exact absurd htimes (by decide)

/-! ## Per-producer order -/

/-- If both requests are of one producer, they were submitted in this order. -/
def SubmittedBefore (x y : Submission) : Prop :=
  x.origin.producer = y.origin.producer → x.origin.index < y.origin.index

/-- The router sees the requests of each producer in the order of their submission. -/
def ProducerOrder (g : OrderGatewayServer) : Prop := g.routed.Pairwise SubmittedBefore

/-- A step that routes finds no two requests of one producer with equal receive times. -/
def Distinct (g : OrderGatewayServer) (a : Action) : Prop :=
  g.routes a = true → g.sequencer.window.Pairwise fun x y =>
    x.origin.producer = y.origin.producer → x.recvTime ≠ y.recvTime

instance (g : OrderGatewayServer) : DecidablePred g.Distinct := fun a =>
  inferInstanceAs (Decidable (g.routes a = true → g.sequencer.window.Pairwise fun x y =>
    x.origin.producer = y.origin.producer → x.recvTime ≠ y.recvTime))

/-- The requests of one producer are in the order of submission and of receive time. -/
def Ranked (x y : Submission) : Prop :=
  x.origin.producer = y.origin.producer →
    x.origin.index < y.origin.index ∧ x.recvTime ≤ y.recvTime

/-- Two different elements of a list stand in it one way or the other. -/
lemma rel_or_rel {α : Type} {R : α → α → Prop} {l : List α} (h : l.Pairwise R) {x y : α}
    (hx : x ∈ l) (hy : y ∈ l) (hne : x ≠ y) : R x y ∨ R y x := by
  have hsymm : Std.Symm fun x y => R x y ∨ R y x := ⟨fun _ _ => Or.symm⟩
  have hor : l.Pairwise fun x y => R x y ∨ R y x := h.imp fun hxy => Or.inl hxy
  exact hor.forall hx hy hne

/-- Sorting requests that are ranked and have distinct receive times keeps them ranked. -/
lemma ranked_of_sorted {out w : List Submission} (hperm : out.Perm w)
    (hsorted : out.Pairwise fun x y => x.recvTime ≤ y.recvTime) (hw : w.Pairwise Ranked)
    (hdistinct : w.Pairwise fun x y =>
      x.origin.producer = y.origin.producer → x.recvTime ≠ y.recvTime) :
    out.Pairwise Ranked := by
  have hnodup : w.Nodup := hw.imp fun hxy he => by
    rw [he] at hxy
    exact lt_irrefl _ (hxy rfl).1
  refine (hsorted.and (hperm.nodup_iff.mpr hnodup)).imp_of_mem fun hx hy hxy => ?_
  intro hp
  rcases rel_or_rel (hw.and hdistinct) (hperm.mem_iff.mp hx) (hperm.mem_iff.mp hy) hxy.2 with h | h
  · exact h.1 hp
  · exact absurd (Int64.le_antisymm (h.1 hp.symm).2 hxy.1) (h.2 hp.symm)

/-- What a producer holds is its latest request. -/
structure Latest (g : OrderGatewayServer) (p : ℕ) (x : TimedRequest) : Prop where
  producer : x.request.origin.producer = p
  index : x.request.origin.index < g.begun p
  time : x.rxTime ≤ g.clock
  line : ∀ b ∈ g.line, Ranked b x.tagged

/-- Everything in the line was submitted in the past, in the order in which it stands there. -/
structure Queued (g : OrderGatewayServer) : Prop where
  time : ∀ b ∈ g.line, b.recvTime ≤ g.clock
  index : ∀ b ∈ g.line, b.origin.index < g.begun b.origin.producer
  held : ∀ p x, g.held p = some x → Latest g p x
  ranked : g.line.Pairwise Ranked

lemma queued_init : Queued {} := by
  have hline : ({} : OrderGatewayServer).line = [] := rfl
  refine ⟨?_, ?_, by simp, ?_⟩ <;> rw [hline] <;> simp

lemma Queued.readClock (h : Queued g) {p : ℕ} {now : Nanos} (hnow : g.clock ≤ now)
    (request : EngineOrderRequest) : Queued (g.readClock p now request) := by
  have hbegun : ∀ q, g.begun q ≤ (g.readClock p now request).begun q := by
    intro q
    simp only [OrderGatewayServer.readClock, Function.update_apply]
    split_ifs with hq
    · rw [hq]; omega
    · exact le_refl _
  have htime : ∀ b ∈ g.line, b.recvTime ≤ now := fun b hb => Int64.le_trans (h.time b hb) hnow
  refine ⟨htime, fun b hb => (h.index b hb).trans_le (hbegun _), fun q x hx => ?_, h.ranked⟩
  by_cases hq : q = p
  · subst hq
    simp only [OrderGatewayServer.readClock, Function.update_self] at hx
    obtain rfl := Option.some.inj hx
    refine ⟨rfl, ?_, Int64.le_refl _, fun b hb hp => ⟨?_, htime b hb⟩⟩
    · simp [OrderGatewayServer.readClock]
    · have := h.index b hb
      rw [hp] at this
      exact this
  · simp only [OrderGatewayServer.readClock, Function.update_of_ne hq] at hx
    obtain ⟨hp, hi, ht, hl⟩ := h.held q x hx
    exact ⟨hp, hi.trans_le (hbegun q), Int64.le_trans ht hnow, hl⟩

lemma Queued.push (h : Queued g) {p : ℕ} {x : TimedRequest} (hx : g.held p = some x) :
    Queued (g.push p x) := by
  obtain ⟨hproducer, hindex, htime, hline⟩ := h.held p x hx
  have hmem : ∀ b ∈ (g.push p x).line, b ∈ g.line ∨ b = x.tagged := fun b hb => by
    rw [line_push] at hb
    simpa using hb
  refine ⟨fun b hb => ?_, fun b hb => ?_, fun q y hy => ?_, ?_⟩
  · rcases hmem b hb with hb | rfl
    · exact h.time b hb
    · exact htime
  · rcases hmem b hb with hb | rfl
    · exact h.index b hb
    · change x.request.origin.index < g.begun x.request.origin.producer
      rw [hproducer]
      exact hindex
  · -- the others still hold what they held
    have hq : q ≠ p := by
      rintro rfl
      simp [OrderGatewayServer.push] at hy
    simp only [OrderGatewayServer.push, Function.update_of_ne hq] at hy
    obtain ⟨hp, hi, ht, hl⟩ := h.held q y hy
    refine ⟨hp, hi, ht, fun b hb => ?_⟩
    rcases hmem b hb with hb | rfl
    · exact hl b hb
    · intro hpq
      exact absurd (hp.symm.trans (hpq.symm.trans hproducer)) hq
  · rw [line_push, List.pairwise_append]
    refine ⟨h.ranked, List.pairwise_singleton _ _, fun b hb y hy => ?_⟩
    rw [List.mem_singleton.mp hy]
    exact hline b hb

/-- Only the order of the line matters to a step of the gateway's thread. -/
lemma Queued.frame (h : Queued g) (hframe : Frame g g') (hmem : ∀ b, b ∈ g'.line ↔ b ∈ g.line)
    (hranked : g'.line.Pairwise Ranked) : Queued g' := by
  refine ⟨fun b hb => ?_, fun b hb => ?_, fun p x hx => ?_, hranked⟩
  · rw [hframe.clock]
    exact h.time b ((hmem b).mp hb)
  · rw [hframe.begun]
    exact h.index b ((hmem b).mp hb)
  · rw [hframe.held] at hx
    obtain ⟨hp, hi, ht, hl⟩ := h.held p x hx
    exact ⟨hp, hframe.begun ▸ hi, hframe.clock ▸ ht, fun b hb => hl b ((hmem b).mp hb)⟩

lemma Queued.next (h : Queued g) (hn : Next g a g') (hd : Distinct g a) : Queued g' := by
  obtain ⟨p, now, request, rfl, -, hnow, rfl⟩ | ⟨p, x, rfl, hheld, rfl⟩ | ⟨hframe, -, hmoves⟩ :=
    hn.moves
  · exact h.readClock hnow request
  · exact h.push hheld
  · cases hmoves with
    | shift _ hwaiting hflushes =>
      have hline : g'.line = g.line := by rw [line, routed, hflushes, hwaiting]; rfl
      exact h.frame hframe (fun b => by rw [hline]) (hline ▸ h.ranked)
    | @flush out hroutes hwaiting hflushes hperm hsorted =>
      have hline : g'.line =
          g.routed ++ (out ++ (g.phase.batch ++ g.inbox).map TimedRequest.tagged) := by
        rw [line, routed_of_flushes hflushes, hwaiting, List.append_assoc]
      have hperm' : g'.line.Perm g.line := by
        rw [hline]
        exact (hperm.append_right _).append_left _
      refine h.frame hframe (fun b => hperm'.mem_iff) ?_
      -- only the flushed part has been rearranged
      have hranked := h.ranked
      rw [line, waiting, List.pairwise_append, List.pairwise_append] at hranked
      obtain ⟨hr, ⟨hw, htail, hwt⟩, hcross⟩ := hranked
      rw [hline, List.pairwise_append, List.pairwise_append]
      refine ⟨hr, ⟨ranked_of_sorted hperm hsorted hw (hd hroutes), htail, fun x hx => ?_⟩,
        fun x hx y hy => ?_⟩
      · exact hwt x (hperm.mem_iff.mp hx)
      · exact hcross x hx y ((hperm.append_right _).mem_iff.mp hy)

/-- A sort that puts the later submission first where receive times are equal. -/
def lastSubmittedFirst (x y : Submission) : Bool :=
  x.recvTime < y.recvTime ∨ x.recvTime = y.recvTime ∧ y.origin.index ≤ x.origin.index

lemma pairwise_lastSubmittedFirst (w : List Submission) :
    (w.mergeSort lastSubmittedFirst).Pairwise fun x y => lastSubmittedFirst x y = true := by
  refine List.pairwise_mergeSort (fun x y z hxy hyz => ?_) (fun x y => ?_) w
  · simp only [lastSubmittedFirst, decide_eq_true_eq, Int64.lt_iff_toInt_lt, ← Int64.toInt_inj] at *
    omega
  · simp only [lastSubmittedFirst, ← Bool.decide_or, decide_eq_true_eq, Int64.lt_iff_toInt_lt,
      ← Int64.toInt_inj]
    omega

/-- Two requests of one producer with equal receive times can be swapped by the sort. -/
lemma exists_swapped {w : List Submission} (hranked : w.Pairwise Ranked)
    (htie : ¬ w.Pairwise fun x y =>
      x.origin.producer = y.origin.producer → x.recvTime ≠ y.recvTime) :
    ∃ out : List Submission, out.Perm w ∧ out.Pairwise (fun x y => x.recvTime ≤ y.recvTime) ∧
      ¬ out.Pairwise SubmittedBefore := by
  have hsort := pairwise_lastSubmittedFirst w
  refine ⟨w.mergeSort lastSubmittedFirst, List.mergeSort_perm w _, hsort.imp fun hxy => ?_,
    fun hout => ?_⟩
  · rcases of_decide_eq_true hxy with hlt | heq
    · exact Int64.le_of_lt hlt
    · exact Int64.le_of_eq heq.1
  · rw [List.pairwise_iff_forall_sublist] at htie
    push Not at htie
    obtain ⟨x, y, hsub, hp, ht⟩ := htie
    have hlt : x.origin.index < y.origin.index :=
      (List.pairwise_pair.mp (hranked.sublist hsub) hp).1
    have hne : x ≠ y := fun he => by
      rw [he] at hlt
      exact lt_irrefl _ hlt
    rcases rel_or_rel (hout.and hsort) (List.mem_mergeSort.mpr (hsub.subset (by simp)))
      (List.mem_mergeSort.mpr (hsub.subset (by simp))) hne with ⟨-, h⟩ | ⟨h, -⟩
    · rcases of_decide_eq_true h with h | h
      · rw [ht] at h
        exact Int64.lt_irrefl h
      · omega
    · have := h hp.symm
      omega

/-- Where a step can route, it can route the buffer in any order the sort allows. -/
lemma Next.reorder (hn : Next g a g') (hroutes : g.routes a = true)
    (hsome : g.sequencer.window ≠ []) {out : List Submission} (hperm : out.Perm g.sequencer.window)
    (hsorted : out.Pairwise fun x y => x.recvTime ≤ y.recvTime) :
    ∃ g'', Next g a g'' ∧ g''.routed = g.routed ++ out := by
  have hsize : g.sequencer.pendingSize ≠ 0 := fun h => hsome (RequestSequencer.window_eq_nil h)
  obtain ⟨s, hflush⟩ := RequestSequencer.exists_flush hsize hperm hsorted
  unfold Next at hn
  generalize Except.ok g' = r at hn
  cases hn with
  | readClock | push | drainInbox => cases hroutes
  | @enqueue x rest outs r hphase =>
    have henqueue : g.sequencer.Enqueue x.rxTime x.request [out] _ := .full hroutes hflush
    obtain ⟨s', hok, -⟩ := henqueue.eq_ok
    rw [hok] at henqueue
    exact ⟨_, Step.enqueue hphase henqueue, routed_of_flushes rfl⟩
  | flush hphase => exact ⟨_, Step.flush hphase hflush, routed_of_flushes rfl⟩

/-- If no flush of a run finds two requests of one producer with equal receive times, the router
sees every producer's requests in order; and a flush that does find two can swap them. -/
theorem producerOrder_of_distinct (g : OrderGatewayServer) (h : GuardedRun Next Distinct {} g) :
    g.ProducerOrder ∧
      ∀ a g', Next g a g' → ¬ Distinct g a → ∃ g'', Next g a g'' ∧ ¬ g''.ProducerOrder := by
  have hqueued : Queued g := h.invariant queued_init fun _ _ _ hn hd hI => hI.next hn hd
  refine ⟨(List.pairwise_append.mp hqueued.ranked).1.imp fun hxy hp => (hxy hp).1, ?_⟩
  intro a g' hn hd
  obtain ⟨hroutes, htie⟩ := Classical.not_imp.mp hd
  have hranked : g.sequencer.window.Pairwise Ranked :=
    (List.pairwise_append.mp (List.pairwise_append.mp hqueued.ranked).2.1).1
  have hsome : g.sequencer.window ≠ [] := by
    intro hnil
    rw [hnil] at htie
    exact htie .nil
  obtain ⟨out, hperm, hsorted, hswap⟩ := exists_swapped hranked htie
  obtain ⟨g'', hn', hrouted⟩ := hn.reorder hroutes hsome hperm hsorted
  refine ⟨g'', hn', fun horder => hswap ?_⟩
  rw [ProducerOrder, hrouted] at horder
  exact (List.pairwise_append.mp horder).2.1

/-- The pair with two receive times is routed in the order of submission. -/
theorem producerOrder_samplePair : ∃ g, GuardedRun Next Distinct {} g ∧ g.routed.length = 2 ∧
    g.ProducerOrder := by
  obtain ⟨g, hrun, hflushes, -⟩ := run_samplePair Distinct
    (fun g a hquiet hroutes => by rw [hquiet] at hroutes; cases hroutes) 1 2 (by decide)
    (fun g' hwindow _ _ _ => by rw [hwindow]; decide) (.refl _) (by decide)
  refine ⟨g, hrun, ?_, (producerOrder_of_distinct g hrun).1⟩
  rw [routed, hflushes]
  rfl

/-- The pair with one receive time can come out the other way round: the cancel before the order
it cancels. -/
theorem producerOrder_swapped : ∃ g, Reachable g ∧
    g.routed = [⟨⟨0, 1⟩, { sampleCancel with recvTime := 1 }⟩,
      ⟨⟨0, 0⟩, { sampleLimit with recvTime := 1 }⟩] ∧ ¬ g.ProducerOrder := by
  obtain ⟨g, hrun, hflushes, -⟩ := run_samplePair (fun _ _ => True) (fun _ _ _ => trivial) 1 1
    (by decide) (fun _ _ _ _ => trivial) (List.Perm.swap _ _ _) (by decide)
  have hrouted : g.routed = [⟨⟨0, 1⟩, { sampleCancel with recvTime := 1 }⟩,
      ⟨⟨0, 0⟩, { sampleLimit with recvTime := 1 }⟩] := by
    rw [routed, hflushes]
    rfl
  refine ⟨g, hrun.run, hrouted, fun horder => ?_⟩
  rw [ProducerOrder, hrouted, List.pairwise_pair] at horder
  exact absurd (horder rfl) (by decide)

end OrderGatewayServer

end MatchingEngine
