import MatchingEngine.Framework.Transition
import MatchingEngine.OrderServer.RequestSequencer

/-!
# The order gateway

`OrderGatewayServer` (`exchange/order_server/order_server.h`) as a transition system.  Any number
of producer threads call `submit`, in two steps each: read the clock, then push onto the inbox
under the lock.  The gateway's thread repeats `drainInbox` (swap the inbox out under the lock,
then enqueue the batch item by item) and `flush`.  Steps of all threads interleave freely; clock
readings never decrease.

The state has, beside the fields of the class and the position of each thread, three history
variables: how many submissions each producer has begun, what has been pushed, and what each
flush has passed to the router.

Whatever has been pushed stands in a line: first what has been routed, then the sequencer's
buffer, the rest of the batch, and the inbox.  The gateway's thread moves the boundaries between
these, and only a flush rearranges anything, namely the part of the line that is in the buffer
(`Next.moves`).  All that is proved about the gateway is proved about this line.
-/

namespace MatchingEngine

open Transitions

/-- A request and the time `submit` read when it came in. -/
structure TimedRequest where
  rxTime : Nanos
  request : Submission
  deriving DecidableEq, Repr

/-- The request as `enqueue` buffers it. -/
def TimedRequest.tagged (x : TimedRequest) : Submission :=
  { x.request with request.recvTime := x.rxTime }

/-- Where the gateway's thread is in its loop: before `drainInbox`, or past its swap, with the
rest of the batch still to be enqueued and the flush to be done. -/
inductive Phase
  | drain
  | sequence (batch : List TimedRequest)
  deriving DecidableEq, Repr

/-- What is left of the drained batch. -/
def Phase.batch : Phase → List TimedRequest
  | drain => []
  | sequence batch => batch

structure OrderGatewayServer where
  sequencer : RequestSequencer := {}
  inbox : List TimedRequest := []
  phase : Phase := .drain
  /-- The latest clock reading. -/
  clock : Nanos := Int64.minValue
  /-- What each producer holds between the two steps of `submit`. -/
  held : ℕ → Option TimedRequest := fun _ => none
  /-- How many submissions each producer has begun. -/
  begun : ℕ → ℕ := fun _ => 0
  /-- Everything pushed so far. -/
  pushed : List TimedRequest := []
  /-- What each flush so far has passed to the router. -/
  flushes : List (List Submission) := []

namespace OrderGatewayServer

/-- Everything passed to the router, in order. -/
def routed (g : OrderGatewayServer) : List Submission := g.flushes.flatten

/-- `submit`, first step: producer `p` has read the clock. -/
def readClock (g : OrderGatewayServer) (p : ℕ) (now : Nanos) (request : EngineOrderRequest) :
    OrderGatewayServer :=
  { g with
    clock := now
    held := Function.update g.held p (some ⟨now, ⟨⟨p, g.begun p⟩, request⟩⟩)
    begun := Function.update g.begun p (g.begun p + 1) }

/-- `submit`, second step: `inbox_.push_back` under the lock. -/
def push (g : OrderGatewayServer) (p : ℕ) (x : TimedRequest) : OrderGatewayServer :=
  { g with
    held := Function.update g.held p none
    inbox := g.inbox ++ [x]
    pushed := g.pushed ++ [x] }

/-- The system clock is set, and may go on from an earlier time. -/
def setClock (g : OrderGatewayServer) (now : Nanos) : OrderGatewayServer := { g with clock := now }

/-- Which thread takes a step, and which step of its program. -/
inductive Action
  | readClock (producer : ℕ)
  | push (producer : ℕ)
  /-- `drainInbox` up to the end of its locked block. -/
  | drainInbox
  /-- One iteration of `drainInbox`'s loop. -/
  | enqueue
  /-- The flush that `run` calls after `drainInbox`. -/
  | flush
  deriving DecidableEq, Repr

/-- One step of one thread. -/
inductive Step : OrderGatewayServer → Action → Except Fault OrderGatewayServer → Prop
  | readClock {g : OrderGatewayServer} (p : ℕ) (now : Nanos) (request : EngineOrderRequest)
      (hidle : g.held p = none) (hnow : g.clock ≤ now) :
      Step g (.readClock p) (.ok (g.readClock p now request))
  | push {g : OrderGatewayServer} {p : ℕ} {x : TimedRequest} (hheld : g.held p = some x) :
      Step g (.push p) (.ok (g.push p x))
  | drainInbox {g : OrderGatewayServer} (hphase : g.phase = .drain) :
      Step g .drainInbox (.ok { g with inbox := [], phase := .sequence g.inbox })
  | enqueue {g : OrderGatewayServer} {x : TimedRequest} {rest : List TimedRequest}
      {outs : List (List Submission)} {r : Except Fault RequestSequencer}
      (hphase : g.phase = .sequence (x :: rest))
      (henqueue : g.sequencer.Enqueue x.rxTime x.request outs r) :
      Step g .enqueue (r.map fun s =>
        { g with sequencer := s, phase := .sequence rest, flushes := g.flushes ++ outs })
  | flush {g : OrderGatewayServer} {out : List Submission} {s : RequestSequencer}
      (hphase : g.phase = .sequence []) (hflush : g.sequencer.Flush out s) :
      Step g .flush
        (.ok { g with sequencer := s, phase := .drain, flushes := g.flushes ++ [out] })

/-- A step that does not stop the process. -/
def Next (g : OrderGatewayServer) (a : Action) (g' : OrderGatewayServer) : Prop := Step g a (.ok g')

/-- The states that some interleaving leads to. -/
def Reachable (g : OrderGatewayServer) : Prop := Run Next {} g

/-- The step passes requests to the router: it is a flush, or an `enqueue` that finds the buffer
full. -/
def routes (g : OrderGatewayServer) : Action → Bool
  | .flush => true
  | .enqueue => g.sequencer.isFull
  | _ => false

/-! ## The line -/

/-- What has been pushed and not routed, oldest first. -/
def waiting (g : OrderGatewayServer) : List Submission :=
  g.sequencer.window ++ (g.phase.batch ++ g.inbox).map TimedRequest.tagged

/-- Everything pushed, in the order in which it has been or would be routed if no flush sorted. -/
def line (g : OrderGatewayServer) : List Submission := g.routed ++ g.waiting

/-- What every step of the gateway's thread does: the producers' side of the state is unchanged,
and the buffer stays within its size. -/
structure Frame (g g' : OrderGatewayServer) : Prop where
  clock : g'.clock = g.clock
  held : g'.held = g.held
  begun : g'.begun = g.begun
  pushed : g'.pushed = g.pushed
  size : g.sequencer.pendingSize ≤ maxPendingGatewayRequests →
    g'.sequencer.pendingSize ≤ maxPendingGatewayRequests

/-- What a step of the gateway's thread does to the line. -/
inductive Moves (g : OrderGatewayServer) (a : Action) (g' : OrderGatewayServer) : Prop
  /-- A boundary moves. -/
  | shift (hroutes : g.routes a = false) (hwaiting : g'.waiting = g.waiting)
      (hflushes : g'.flushes = g.flushes)
  /-- The buffer is sorted and routed. -/
  | flush {out : List Submission} (hroutes : g.routes a = true)
      (hwaiting : g'.waiting = (g.phase.batch ++ g.inbox).map TimedRequest.tagged)
      (hflushes : g'.flushes = g.flushes ++ [out]) (hperm : out.Perm g.sequencer.window)
      (hsorted : out.Pairwise fun a b => a.recvTime ≤ b.recvTime)

variable {g g' : OrderGatewayServer} {a : Action}

lemma waiting_push (g : OrderGatewayServer) (p : ℕ) (x : TimedRequest) :
    (g.push p x).waiting = g.waiting ++ [x.tagged] := by
  simp [waiting, push]

lemma line_push (g : OrderGatewayServer) (p : ℕ) (x : TimedRequest) :
    (g.push p x).line = g.line ++ [x.tagged] := by
  rw [line, waiting_push, ← List.append_assoc]
  rfl

lemma routed_of_flushes {out : List Submission} (h : g'.flushes = g.flushes ++ [out]) :
    g'.routed = g.routed ++ out := by
  rw [routed, h, List.flatten_append, List.flatten_singleton]
  rfl

/-- A step is a clock reading, a push, or a move of the gateway's thread. -/
lemma Next.moves (h : Next g a g') :
    (∃ p now request, a = .readClock p ∧ g.held p = none ∧ g.clock ≤ now ∧
      g' = g.readClock p now request) ∨
    (∃ p x, a = .push p ∧ g.held p = some x ∧ g' = g.push p x) ∨
    (Frame g g' ∧ (∀ p, a ≠ .push p) ∧ Moves g a g') := by
  unfold Next at h
  generalize hr : Except.ok g' = r at h
  cases h with
  | readClock p now request hidle hnow =>
    exact .inl ⟨p, now, request, rfl, hidle, hnow, Except.ok.inj hr⟩
  | push hheld => exact .inr (.inl ⟨_, _, rfl, hheld, Except.ok.inj hr⟩)
  | drainInbox hphase =>
    rw [Except.ok.inj hr]
    refine .inr (.inr ⟨⟨rfl, rfl, rfl, rfl, id⟩, by simp, .shift rfl ?_ rfl⟩)
    simp [waiting, hphase, Phase.batch]
  | @enqueue x rest outs r' hphase henqueue =>
    obtain ⟨s, rfl, hsize, hmove⟩ := henqueue.eq_ok
    rw [Except.ok.inj hr]
    refine .inr (.inr ⟨⟨rfl, rfl, rfl, rfl, fun _ => hsize⟩, by simp, ?_⟩)
    rcases hmove with ⟨hroom, rfl, hwindow⟩ | ⟨hfull, out, rfl, hperm, hsorted, hwindow⟩
    · refine .shift hroom ?_ (List.append_nil _)
      simp [waiting, hphase, Phase.batch, hwindow, TimedRequest.tagged]
    · refine .flush hfull ?_ rfl hperm hsorted
      simp [waiting, hphase, Phase.batch, hwindow, TimedRequest.tagged]
  | @flush out s hphase hflush =>
    rw [Except.ok.inj hr]
    obtain ⟨hperm, hsorted, hempty⟩ := hflush.spec
    have hsize : s.pendingSize ≤ maxPendingGatewayRequests := by rw [hempty]; decide
    refine .inr (.inr ⟨⟨rfl, rfl, rfl, rfl, fun _ => hsize⟩, by simp,
      .flush rfl ?_ rfl hperm hsorted⟩)
    simp [waiting, hphase, Phase.batch, RequestSequencer.window_eq_nil hempty]

/-- No step writes outside the buffer. -/
lemma not_step_error (g : OrderGatewayServer) (a : Action) (f : Fault) : ¬ Step g a (.error f) := by
  intro h
  generalize hr : Except.error f = r at h
  cases h with
  | readClock | push | drainInbox | flush => cases hr
  | enqueue _ henqueue =>
    obtain ⟨s, rfl, -⟩ := henqueue.eq_ok
    cases hr

/-! ## Steps as a function -/

/-- The state after a step of the gateway's thread, if it can take it and sorts as
`RequestSequencer.flush` does. -/
def perform (g : OrderGatewayServer) : Action → Option OrderGatewayServer
  | .drainInbox =>
    match g.phase with
    | .drain => some { g with inbox := [], phase := .sequence g.inbox }
    | .sequence _ => none
  | .enqueue =>
    match g.phase with
    | .sequence (x :: rest) =>
      match g.sequencer.enqueue x.rxTime x.request with
      | (outs, .ok s) =>
        some { g with sequencer := s, phase := .sequence rest, flushes := g.flushes ++ outs }
      | (_, .error _) => none
    | _ => none
  | .flush =>
    match g.phase with
    | .sequence [] => some { g with
        sequencer := g.sequencer.flush.2
        phase := .drain
        flushes := g.flushes ++ [g.sequencer.flush.1] }
    | _ => none
  | .readClock _ | .push _ => none

lemma next_of_perform (h : g.perform a = some g') : Next g a g' := by
  cases a with
  | readClock | push => cases h
  | drainInbox =>
    simp only [perform] at h
    split at h
    · next hphase =>
      obtain rfl := Option.some.inj h
      exact Step.drainInbox hphase
    · cases h
  | enqueue =>
    simp only [perform] at h
    split at h
    · next x rest hphase =>
      have henqueue := g.sequencer.enqueue_spec x.rxTime x.request
      split at h
      · next outs s hok =>
        obtain rfl := Option.some.inj h
        rw [hok] at henqueue
        exact Step.enqueue hphase henqueue
      · cases h
    · cases h
  | flush =>
    simp only [perform] at h
    split at h
    · next hphase =>
      obtain rfl := Option.some.inj h
      exact Step.flush hphase g.sequencer.flush_spec
    · cases h

/-! ## An undisturbed round

What the gateway's thread does if no producer interferes: it routes the inbox, in any order that
`std::sort` may give it. -/

variable (good : OrderGatewayServer → Action → Prop)

/-- Both steps of `submit`. -/
lemma run_submit (g : OrderGatewayServer) (p : ℕ) (now : Nanos) (request : EngineOrderRequest)
    (hidle : g.held p = none) (hnow : g.clock ≤ now) (hread : good g (.readClock p))
    (hpush : good (g.readClock p now request) (.push p)) :
    GuardedRun Next good g
      ((g.readClock p now request).push p ⟨now, ⟨⟨p, g.begun p⟩, request⟩⟩) := by
  have hstep : Next g (.readClock p) (g.readClock p now request) :=
    Step.readClock p now request hidle hnow
  have hheld : (g.readClock p now request).held p = some ⟨now, ⟨⟨p, g.begun p⟩, request⟩⟩ :=
    Function.update_self ..
  exact ((GuardedRun.refl g).tail hstep hread).tail (Step.push hheld) hpush

lemma run_enqueue (hquiet : ∀ g a, g.routes a = false → good g a)
    (batch : List TimedRequest) : ∀ g : OrderGatewayServer, g.phase = .sequence batch →
      g.sequencer.pendingSize + batch.length ≤ maxPendingGatewayRequests →
      ∃ s, s.window = g.sequencer.window ++ batch.map TimedRequest.tagged ∧
        GuardedRun Next good g { g with sequencer := s, phase := .sequence [] } := by
  induction batch with
  | nil =>
    intro g hphase _
    refine ⟨g.sequencer, by simp, ?_⟩
    rw [← hphase]
    exact .refl g
  | cons x rest ih =>
    intro g hphase hroom
    rw [List.length_cons] at hroom
    have hnotfull : g.sequencer.isFull = false := by
      simp only [RequestSequencer.isFull, decide_eq_false_iff_not]
      omega
    have henqueue : g.sequencer.Enqueue x.rxTime x.request [] _ := .room hnotfull
    obtain ⟨s₁, hok, -, ⟨-, -, hwindow₁⟩ | ⟨hfull, -⟩⟩ := henqueue.eq_ok
    · rw [hok] at henqueue
      set g₁ : OrderGatewayServer := { g with
        sequencer := s₁, phase := .sequence rest, flushes := g.flushes ++ [] } with hg₁
      have hstep : Next g .enqueue g₁ := Step.enqueue hphase henqueue
      have hsize : s₁.pendingSize = g.sequencer.pendingSize + 1 := by
        rw [← s₁.length_window, hwindow₁, List.length_append, RequestSequencer.length_window]
        rfl
      obtain ⟨s, hwindow, hrun⟩ := ih g₁ rfl (by rw [hg₁, hsize]; omega)
      have hgood : good g .enqueue := hquiet g .enqueue hnotfull
      refine ⟨s, ?_, ((GuardedRun.refl g).tail hstep hgood).trans ?_⟩
      · rw [hwindow, hg₁, hwindow₁, List.append_assoc]
        rfl
      · simpa [hg₁] using hrun
    · rw [hnotfull] at hfull
      cases hfull

/-- From an empty buffer, the gateway's thread can route the inbox in any order of receive time. -/
lemma run_round (hquiet : ∀ g a, g.routes a = false → good g a)
    {g : OrderGatewayServer} (hphase : g.phase = .drain) (hempty : g.sequencer.pendingSize = 0)
    (hsome : g.inbox ≠ []) (hroom : g.inbox.length ≤ maxPendingGatewayRequests)
    (hflush : ∀ g' : OrderGatewayServer, g'.sequencer.window = g.inbox.map TimedRequest.tagged →
      g'.phase = .sequence [] → g'.inbox = [] → good g' .flush)
    {out : List Submission} (hperm : out.Perm (g.inbox.map TimedRequest.tagged))
    (hsorted : out.Pairwise fun a b => a.recvTime ≤ b.recvTime) :
    ∃ s : RequestSequencer, s.pendingSize = 0 ∧ GuardedRun Next good g
      { g with sequencer := s, inbox := [], flushes := g.flushes ++ [out] } := by
  set g₁ : OrderGatewayServer := { g with inbox := [], phase := .sequence g.inbox } with hg₁
  have hdrain : Next g .drainInbox g₁ := Step.drainInbox hphase
  obtain ⟨s, hwindow, hrun⟩ := run_enqueue good hquiet g.inbox g₁ rfl
    (by rw [hg₁, hempty]; omega)
  set g₂ : OrderGatewayServer := { g₁ with sequencer := s, phase := .sequence [] } with hg₂
  have hwindow' : s.window = g.inbox.map TimedRequest.tagged := by
    rw [hwindow, hg₁, RequestSequencer.window_eq_nil hempty, List.nil_append]
  have hsize : s.pendingSize ≠ 0 := by
    rw [← s.length_window, hwindow', List.length_map]
    simpa using hsome
  obtain ⟨s', hflush'⟩ := RequestSequencer.exists_flush hsize (hwindow'.symm ▸ hperm) hsorted
  have hlast : Next g₂ .flush _ := Step.flush rfl hflush'
  refine ⟨s', hflush'.spec.2.2, ?_⟩
  have hstart : GuardedRun Next good g g₁ :=
    (GuardedRun.refl g).tail hdrain (hquiet g _ rfl)
  have hend := (hstart.trans hrun).tail hlast (hflush g₂ hwindow' rfl rfl)
  rw [hg₂, hg₁] at hend
  simpa [hphase] using hend

end OrderGatewayServer

end MatchingEngine
