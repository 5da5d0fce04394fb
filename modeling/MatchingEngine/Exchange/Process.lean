import MatchingEngine.Exchange.ExchangeMain

/-!
# The process

`main` does not know when the exchange is done.  When it has submitted the orders, it looks from
time to time how many responses have been collected, and stops when it has seen nothing new fifteen
times in a row.  The snapshot service, whenever it has got to the end of its queue, looks at the
clock and logs a summary of its mirror if the last one was more than a minute ago.

Neither changes anything for the other threads, so `Exchange` does without.  A `Process` is an
exchange with both.
-/

namespace MatchingEngine

/-- `last_seen` and `idle_polls` of `main`. -/
structure Wait where
  lastSeen : ℕ := 0
  idlePolls : ℕ := 0
  deriving DecidableEq, Repr

namespace Wait

/-- One look at the number of responses. -/
def poll (w : Wait) (size : ℕ) : Wait :=
  if size = w.lastSeen then { w with idlePolls := w.idlePolls + 1 }
  else { lastSeen := size, idlePolls := 0 }

/-- The condition of the loop. -/
def goesOn (w : Wait) : Bool := w.idlePolls < 15

end Wait

/-- Where the thread of the snapshot service is. -/
inductive SnapshotPos
  /-- In the loop over its queue. -/
  | applying
  /-- About to look at the clock. -/
  | checking
  deriving DecidableEq, Repr

/-- What a call of `publishSnapshot` logs, with the clock reading of the test before it and the one
kept in `last_snapshot_time_`. -/
structure Publication where
  checked : Nanos
  recorded : Nanos
  lines : List SnapshotLine
  deriving DecidableEq

structure Process where
  exchange : Exchange
  wait : Wait := {}
  snapshot : SnapshotPos := .applying
  lastSnapshotTime : Nanos := 0
  published : List Publication := []

namespace Process

inductive Action
  | exchange (a : Exchange.Action)
  /-- `main` looks at the responses. -/
  | poll
  /-- The snapshot service has found its queue empty. -/
  | endApply
  | skip
  | publish

/-- The step is one of `main`. -/
def Action.ofMain : Action → Bool
  | .exchange .readClock | .exchange .push | .poll => true
  | _ => false

/-- All calls of `submit` have returned. -/
def submitted (p : Process) : Prop :=
  p.exchange.unsubmitted = [] ∧ p.exchange.gateway.held 0 = none

instance (p : Process) : Decidable p.submitted := inferInstanceAs (Decidable (_ ∧ _))

/-- A minute has passed since the last publication. -/
def due (p : Process) (now : Nanos) : Prop := snapshotIntervalNanos < now - p.lastSnapshotTime

instance (p : Process) (now : Nanos) : Decidable (p.due now) :=
  inferInstanceAs (Decidable (_ < _))

/-- One step of one thread. -/
inductive Next (symbols : List Symbol) : Process → Action → Process → Prop
  | exchange {p : Process} {a : Exchange.Action} {x : Exchange}
      (hpos : a = .stage .applyUpdate → p.snapshot = .applying)
      (hnext : Exchange.Next symbols p.exchange a x) :
      Next symbols p (.exchange a) { p with exchange := x }
  | poll {p : Process} (hsubmitted : p.submitted) (hgoesOn : p.wait.goesOn = true) :
      Next symbols p .poll { p with wait := p.wait.poll p.exchange.responses.length }
  | endApply {p : Process} (hpos : p.snapshot = .applying)
      (hidle : p.exchange.pipeline.snapshotBusy = false)
      (hempty : p.exchange.pipeline.snapshotFeed.queue.getNextToRead = none) :
      Next symbols p .endApply { p with snapshot := .checking }
  | skip {p : Process} (now : Nanos) (hpos : p.snapshot = .checking) (hnow : 0 ≤ now)
      (hdue : ¬ p.due now) : Next symbols p .skip { p with snapshot := .applying }
  | publish {p : Process} (now now' : Nanos) (order : List Symbol) (hpos : p.snapshot = .checking)
      (hnow : 0 ≤ now) (hnow' : 0 ≤ now') (hdue : p.due now)
      (horder : order.Perm (Mirror.heard p.exchange.pipeline.snapshotFeed.read)) :
      Next symbols p .publish { p with
        snapshot := .applying
        lastSnapshotTime := now'
        published := p.published ++
          [⟨now, now', p.exchange.pipeline.mirror.publishSnapshot order⟩] }

/-! ## Steps as a function -/

/-- An action, with what the clock reads and the order in which a hash map is walked. -/
inductive Turn
  | exchange (t : Exchange.Turn)
  | poll
  | endApply
  | skip (now : Nanos)
  | publish (now now' : Nanos) (order : List Symbol)

def Turn.action : Turn → Action
  | exchange t => .exchange t.action
  | poll => .poll
  | endApply => .endApply
  | skip _ => .skip
  | publish .. => .publish

/-- The snapshot service is where the turn needs it. -/
def inPlace (p : Process) : Exchange.Turn → Bool
  | .stage .applyUpdate => p.snapshot = .applying
  | _ => true

def perform (symbols : List Symbol) (p : Process) : Turn → Option Process
  | .exchange t =>
    if p.inPlace t then (p.exchange.perform symbols t).map fun x => { p with exchange := x }
    else none
  | .poll =>
    if p.submitted ∧ p.wait.goesOn = true then
      some { p with wait := p.wait.poll p.exchange.responses.length }
    else none
  | .endApply =>
    match p.snapshot, p.exchange.pipeline.snapshotBusy,
        p.exchange.pipeline.snapshotFeed.queue.getNextToRead with
    | .applying, false, none => some { p with snapshot := .checking }
    | _, _, _ => none
  | .skip now =>
    if p.snapshot = .checking ∧ 0 ≤ now ∧ ¬ p.due now then some { p with snapshot := .applying }
    else none
  | .publish now now' order =>
    if p.snapshot = .checking ∧ 0 ≤ now ∧ 0 ≤ now' ∧ p.due now ∧
        order.Perm (Mirror.heard p.exchange.pipeline.snapshotFeed.read) then
      some { p with
        snapshot := .applying
        lastSnapshotTime := now'
        published := p.published ++
          [⟨now, now', p.exchange.pipeline.mirror.publishSnapshot order⟩] }
    else none

lemma next_of_perform {symbols : List Symbol} {p p' : Process} {t : Turn}
    (h : p.perform symbols t = some p') : Next symbols p t.action p' := by
  cases t with
  | exchange t =>
    simp only [perform] at h
    split_ifs at h with hplace
    obtain ⟨x, hx, rfl⟩ := Option.map_eq_some_iff.mp h
    refine .exchange (fun hact => ?_) (Exchange.next_of_perform hx)
    cases t with
    | readClock | push | sequence | route => cases hact
    | stage a =>
      obtain rfl := Exchange.Action.stage.inj hact
      exact of_decide_eq_true hplace
  | poll =>
    simp only [perform] at h
    split_ifs at h with hpoll
    obtain rfl := Option.some.inj h
    exact .poll hpoll.1 hpoll.2
  | endApply =>
    simp only [perform] at h
    split at h
    · next hpos hidle hempty =>
      obtain rfl := Option.some.inj h
      exact .endApply hpos hidle hempty
    · cases h
  | skip now =>
    simp only [perform] at h
    split_ifs at h with hskip
    obtain rfl := Option.some.inj h
    exact .skip now hskip.1 hskip.2.1 hskip.2.2
  | publish now now' order =>
    simp only [perform] at h
    split_ifs at h with hpublish
    obtain ⟨hpos, hnow, hnow', hdue, horder⟩ := hpublish
    obtain rfl := Option.some.inj h
    exact .publish now now' order hpos hnow hnow' hdue horder

end Process

end MatchingEngine
