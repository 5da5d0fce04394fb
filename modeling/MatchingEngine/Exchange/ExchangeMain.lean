import Mathlib.Tactic.MkIffOfInductiveProp
import MatchingEngine.Exchange.Pipeline
import MatchingEngine.OrderServer.OrderGatewayServer

/-!
# The exchange as `main` wires it

`main` of `exchange_main.cpp` after it has read the order file.  It makes books for the symbols of
the orders, connects the gateway's router to the matching core, collects what the gateway's
callback and the feed's subscriber are handed, and submits the orders one after the other.

The state joins the gateway (`OrderServer/OrderGatewayServer.lean`) to the stages behind it
(`Exchange/Pipeline.lean`): what a flush has sorted is routed one request at a time, by the same
thread, before that thread does anything else, and responses are read only between a flush and
the next `drainInbox`.  `main` is producer 0 and the only one.

In `Next` the clock never goes back, as in the gateway.  The source reads the system clock, which
can be set: where that makes no difference (`OpenNext`, `Visited`), it may be set before any step.
-/

namespace MatchingEngine

open Transitions

/-- The symbols `main` makes books for, in first-seen order. -/
def symbolsOf (orders : List EngineOrderRequest) : List Symbol :=
  orders.foldl (fun symbols o => if o.symbol ∈ symbols then symbols else symbols ++ [o.symbol]) []

/-- A symbol's thread is waiting, and its queues have been read to the end. -/
@[mk_iff]
structure SymbolContext.Idle (c : SymbolContext) : Prop where
  worker : c.worker = .waiting
  requests : c.requestQueue.read = c.requestQueue.written
  responses : c.responseQueue.read = c.responseQueue.written
  updates : c.updateQueue.read = c.updateQueue.written

instance (c : SymbolContext) : Decidable c.Idle := decidable_of_iff' _ c.idle_iff

structure Exchange where
  /-- The orders `main` has still to submit. -/
  unsubmitted : List EngineOrderRequest
  gateway : OrderGatewayServer := {}
  /-- What the last flush has sorted and not yet passed to the router. -/
  unrouted : List Submission := []
  pipeline : Pipeline := {}
  /-- What the gateway's callback has been handed. -/
  responses : List EngineOrderResponse := []
  /-- What the feed's subscriber has been handed. -/
  updates : List BookUpdate := []

namespace Exchange

/-- A step of the gateway's own thread. -/
def ofGateway : OrderGatewayServer.Action → Bool
  | .readClock _ | .push _ => false
  | .drainInbox | .enqueue | .flush => true

/-- A step that neither routes nor hands anything to a callback. -/
def silent : Pipeline.Action → Bool
  | .routeRequest _ | .readResponse _ | .readUpdate _ => false
  | _ => true

/-- The next response in a queue. -/
def nextResponse (p : Pipeline) : Option Symbol → Option EngineOrderResponse
  | some s => (p.contexts s).responseQueue.queue.getNextToRead
  | none => p.unknownSymbolResponses.queue.getNextToRead

inductive Action
  /-- `submit`, called by `main`: the clock is read. -/
  | readClock
  /-- `submit`: the order goes to the inbox. -/
  | push
  | sequence (a : OrderGatewayServer.Action)
  /-- The next request of a flush goes to the router. -/
  | route
  | stage (a : Pipeline.Action)

/-- One step of one thread, in an exchange with books for `symbols`; the clock never goes back. -/
inductive Next (symbols : List Symbol) : Exchange → Action → Exchange → Prop
  | readClock {x : Exchange} {req : EngineOrderRequest} {rest : List EngineOrderRequest}
      (now : Nanos) (hnext : x.unsubmitted = req :: rest) (hidle : x.gateway.held 0 = none)
      (hnow : x.gateway.clock ≤ now) :
      Next symbols x .readClock
        { x with unsubmitted := rest, gateway := x.gateway.readClock 0 now req }
  | push {x : Exchange} {t : TimedRequest} (hheld : x.gateway.held 0 = some t) :
      Next symbols x .push { x with gateway := x.gateway.push 0 t }
  | sequence {x : Exchange} {a : OrderGatewayServer.Action} {g : OrderGatewayServer}
      (hown : ofGateway a = true) (hrouted : x.unrouted = []) (hidle : x.pipeline.gateway = .idle)
      (hnext : x.gateway.Next a g) :
      Next symbols x (.sequence a)
        { x with gateway := g, unrouted := g.routed.drop x.gateway.routed.length }
  | route {x : Exchange} {s : Submission} {rest : List Submission} {p : Pipeline}
      (hnext : x.unrouted = s :: rest)
      (hroute : Pipeline.Next symbols x.pipeline (.routeRequest s.request) p) :
      Next symbols x .route { x with unrouted := rest, pipeline := p }
  | readResponse {x : Exchange} {queue : Option Symbol} {r : EngineOrderResponse} {p : Pipeline}
      (hphase : x.gateway.phase = .drain) (hrouted : x.unrouted = [])
      (hread : nextResponse x.pipeline queue = some r)
      (hnext : Pipeline.Next symbols x.pipeline (.readResponse queue) p) :
      Next symbols x (.stage (.readResponse queue))
        { x with pipeline := p, responses := x.responses ++ [r] }
  | readUpdate {x : Exchange} {s : Symbol} {u : BookUpdate} {p : Pipeline}
      (hread : (x.pipeline.contexts s).updateQueue.queue.getNextToRead = some u)
      (hnext : Pipeline.Next symbols x.pipeline (.readUpdate s) p) :
      Next symbols x (.stage (.readUpdate s))
        { x with pipeline := p, updates := x.updates ++ [u] }
  | stage {x : Exchange} {a : Pipeline.Action} {p : Pipeline} (hsilent : silent a = true)
      (hnext : Pipeline.Next symbols x.pipeline a p) :
      Next symbols x (.stage a) { x with pipeline := p }

/-- The step writes to no full queue. -/
def hasRoom (symbols : List Symbol) (x : Exchange) : Action → Bool
  | .route => x.unrouted.head?.all fun s => x.pipeline.hasRoom symbols (.routeRequest s.request)
  | .stage a => x.pipeline.hasRoom symbols a
  | _ => true

instance {P : OrderGatewayServer.Action → Prop} [DecidablePred P] (a : Action) :
    Decidable (∀ b, a = .sequence b → P b) :=
  match a with
  | .sequence b => decidable_of_iff (P b)
      ⟨fun h _ hb => Action.sequence.inj hb ▸ h, fun h => h b rfl⟩
  | .readClock | .push | .route | .stage _ => .isTrue nofun

/-- The step is more than a look into an empty inbox or an empty buffer. -/
def works (x : Exchange) : Action → Bool
  | .sequence .drainInbox => !x.gateway.inbox.isEmpty
  | .sequence .flush => !x.gateway.sequencer.window.isEmpty
  | _ => true

/-- Nothing is left anywhere. -/
@[mk_iff]
structure Drained (symbols : List Symbol) (x : Exchange) : Prop where
  unsubmitted : x.unsubmitted = []
  held : x.gateway.held 0 = none
  phase : x.gateway.phase = .drain
  inbox : x.gateway.inbox = []
  unrouted : x.unrouted = []
  gateway : x.pipeline.gateway = .idle
  feed : x.pipeline.feed = .idle
  snapshot : x.pipeline.snapshotBusy = false
  contexts : ∀ s ∈ symbols, (x.pipeline.contexts s).Idle
  applied : x.pipeline.snapshotFeed.read = x.pipeline.snapshotFeed.written

instance (symbols : List Symbol) (x : Exchange) : Decidable (Drained symbols x) :=
  decidable_of_iff' _ (drained_iff symbols x)

/-! ## Any number of producers

`submit` may be called by any number of threads, with requests for any symbol.  In an open exchange
these take the place of `main`'s loop over the orders, and the clock may be set at any time. -/

inductive OpenAction
  /-- A step of `submit`, in any thread. -/
  | submit (a : OrderGatewayServer.Action)
  | own (a : Action)

inductive OpenNext (symbols : List Symbol) : Exchange → OpenAction → Exchange → Prop
  | submit {x : Exchange} {a : OrderGatewayServer.Action} {g : OrderGatewayServer} (now : Nanos)
      (hproducer : ofGateway a = false) (hnext : (x.gateway.setClock now).Next a g) :
      OpenNext symbols x (.submit a) { x with gateway := g }
  | own {x x' : Exchange} {a : Action} (hnext : Next symbols x a x') :
      OpenNext symbols x (.own a) x'

/-- The step writes to no full queue. -/
def openRoom (symbols : List Symbol) (x : Exchange) : OpenAction → Prop
  | .submit _ => True
  | .own a => x.hasRoom symbols a = true

instance (symbols : List Symbol) (x : Exchange) (a : OpenAction) :
    Decidable (openRoom symbols x a) :=
  match a with
  | .submit _ => .isTrue trivial
  | .own a => inferInstanceAs (Decidable (x.hasRoom symbols a = true))

/-- The states of an open exchange that no overflow leads to. -/
def OpenReached (symbols : List Symbol) (x : Exchange) : Prop :=
  GuardedRun (OpenNext symbols) (openRoom symbols) { unsubmitted := [] } x

/-- A step before which the clock may have been set. -/
def AnyNext (symbols : List Symbol) (x : Exchange) (a : Action) (x' : Exchange) : Prop :=
  ∃ now, Next symbols { x with gateway := x.gateway.setClock now } a x'

/-- The states of `main` on `orders` that any steps lead to: queues may overflow, and a flush may
find equal receive times. -/
def Visited (orders : List EngineOrderRequest) (x : Exchange) : Prop :=
  Run (AnyNext (symbolsOf orders)) { unsubmitted := orders } x

/-! ## Steps as functions

An action leaves open what the clock reads, and the function for the gateway settles on one sort. -/

/-- An action, and what the clock reads if it is read. -/
inductive Turn
  | readClock (now : Nanos)
  | push
  | sequence (a : OrderGatewayServer.Action)
  | route
  | stage (a : Pipeline.Action)

def Turn.action : Turn → Action
  | readClock _ => .readClock
  | push => .push
  | sequence a => .sequence a
  | route => .route
  | stage a => .stage a

/-- The state after a turn, if its thread can take it. -/
def perform (symbols : List Symbol) (x : Exchange) : Turn → Option Exchange
  | .readClock now =>
    match x.unsubmitted, x.gateway.held 0 with
    | req :: rest, none =>
      if x.gateway.clock ≤ now then
        some { x with unsubmitted := rest, gateway := x.gateway.readClock 0 now req }
      else none
    | _, _ => none
  | .push => (x.gateway.held 0).map fun t => { x with gateway := x.gateway.push 0 t }
  | .sequence a =>
    match x.unrouted, x.pipeline.gateway with
    | [], .idle => (x.gateway.perform a).map fun g =>
        { x with gateway := g, unrouted := g.routed.drop x.gateway.routed.length }
    | _, _ => none
  | .route =>
    match x.unrouted with
    | s :: rest => (x.pipeline.perform symbols (.routeRequest s.request)).map fun p =>
        { x with unrouted := rest, pipeline := p }
    | [] => none
  | .stage (.readResponse queue) =>
    match x.gateway.phase, x.unrouted, nextResponse x.pipeline queue with
    | .drain, [], some r => (x.pipeline.perform symbols (.readResponse queue)).map fun p =>
        { x with pipeline := p, responses := x.responses ++ [r] }
    | _, _, _ => none
  | .stage (.readUpdate s) =>
    match (x.pipeline.contexts s).updateQueue.queue.getNextToRead with
    | some u => (x.pipeline.perform symbols (.readUpdate s)).map fun p =>
        { x with pipeline := p, updates := x.updates ++ [u] }
    | none => none
  | .stage a =>
    if silent a then (x.pipeline.perform symbols a).map fun p => { x with pipeline := p } else none

variable {symbols : List Symbol} {x x' : Exchange}

lemma next_of_perform {t : Turn} (h : x.perform symbols t = some x') :
    Next symbols x t.action x' := by
  cases t with
  | readClock now =>
    simp only [perform] at h
    split at h
    · next hnext hidle =>
      split_ifs at h with hnow
      obtain rfl := Option.some.inj h
      exact .readClock now hnext hidle hnow
    · cases h
  | push =>
    obtain ⟨t, hheld, rfl⟩ := Option.map_eq_some_iff.mp h
    exact .push hheld
  | sequence a =>
    simp only [perform] at h
    split at h
    · next hrouted hidle =>
      obtain ⟨g, hg, rfl⟩ := Option.map_eq_some_iff.mp h
      have hown : ofGateway a = true := by
        cases a with
        | readClock | push => cases hg
        | drainInbox | enqueue | flush => rfl
      exact .sequence hown hrouted hidle (OrderGatewayServer.next_of_perform hg)
    · cases h
  | route =>
    simp only [perform] at h
    split at h
    · next hnext =>
      obtain ⟨p, hp, rfl⟩ := Option.map_eq_some_iff.mp h
      exact .route hnext (Pipeline.next_iff.mpr hp)
    · cases h
  | stage a =>
    have hsilent : ∀ b, silent b = true →
        (if silent b then (x.pipeline.perform symbols b).map fun p => { x with pipeline := p }
          else none) = some x' → Next symbols x (.stage b) x' := by
      intro b hb hperform
      rw [if_pos hb] at hperform
      obtain ⟨p, hp, rfl⟩ := Option.map_eq_some_iff.mp hperform
      exact .stage hb (Pipeline.next_iff.mpr hp)
    cases a with
    | readResponse queue =>
      simp only [perform] at h
      split at h
      · next hphase hrouted hread =>
        obtain ⟨p, hp, rfl⟩ := Option.map_eq_some_iff.mp h
        exact .readResponse hphase hrouted hread (Pipeline.next_iff.mpr hp)
      · cases h
    | readUpdate s =>
      simp only [perform] at h
      split at h
      · next hread =>
        obtain ⟨p, hp, rfl⟩ := Option.map_eq_some_iff.mp h
        exact .readUpdate hread (Pipeline.next_iff.mpr hp)
      · cases h
    | routeRequest => cases h
    | processRequest | send | advance | ackResponse | forward | ackUpdate | applyUpdate
    | ackSnapshot => exact hsilent _ rfl h

/-- The same, where the clock is set back as far as it goes. -/
def performAny (symbols : List Symbol) (x : Exchange) (t : Turn) : Option Exchange :=
  perform symbols { x with gateway := x.gateway.setClock Int64.minValue } t

lemma anyNext_of_performAny {t : Turn} (h : x.performAny symbols t = some x') :
    AnyNext symbols x t.action x' :=
  ⟨_, next_of_perform h⟩

/-- The same for an open exchange. -/
inductive OpenTurn
  | readClock (producer : ℕ) (now : Nanos) (request : EngineOrderRequest)
  | push (producer : ℕ)
  | own (t : Turn)

def OpenTurn.action : OpenTurn → OpenAction
  | readClock p _ _ => .submit (.readClock p)
  | push p => .submit (.push p)
  | own t => .own t.action

def openPerform (symbols : List Symbol) (x : Exchange) : OpenTurn → Option Exchange
  | .readClock p now request =>
    match x.gateway.held p with
    | none => some { x with gateway := x.gateway.readClock p now request }
    | some _ => none
  | .push p => (x.gateway.held p).map fun t => { x with gateway := x.gateway.push p t }
  | .own t => x.perform symbols t

lemma openNext_of_openPerform {t : OpenTurn} (h : x.openPerform symbols t = some x') :
    OpenNext symbols x t.action x' := by
  cases t with
  | readClock p now request =>
    simp only [openPerform] at h
    split at h
    · next hidle =>
      obtain rfl := Option.some.inj h
      exact .submit now rfl (OrderGatewayServer.Step.readClock p now request hidle Int64.le_rfl)
    · cases h
  | push p =>
    obtain ⟨t, hheld, rfl⟩ := Option.map_eq_some_iff.mp h
    exact .submit x.gateway.clock rfl (OrderGatewayServer.Step.push hheld)
  | own t => exact .own (next_of_perform h)

/-! ## The symbols -/

/-- Every symbol of an order is there once. -/
lemma mem_symbolsOf_and_nodup (orders : List EngineOrderRequest) :
    (∀ s, s ∈ symbolsOf orders ↔ ∃ o ∈ orders, o.symbol = s) ∧ (symbolsOf orders).Nodup := by
  induction orders using List.reverseRecOn with
  | nil => simp [symbolsOf]
  | append_singleton orders o ih =>
    obtain ⟨hmem, hnodup⟩ := ih
    have hstep : symbolsOf (orders ++ [o]) = if o.symbol ∈ symbolsOf orders then symbolsOf orders
        else symbolsOf orders ++ [o.symbol] := by
      rw [symbolsOf, List.foldl_append]
      rfl
    rw [hstep]
    split_ifs with hseen
    · refine ⟨fun s => ⟨fun hs => ?_, ?_⟩, hnodup⟩
      · obtain ⟨o', ho', rfl⟩ := (hmem s).mp hs
        exact ⟨o', List.mem_append_left _ ho', rfl⟩
      · rintro ⟨o', ho', rfl⟩
        rcases List.mem_append.mp ho' with ho' | ho'
        · exact (hmem _).mpr ⟨o', ho', rfl⟩
        · rw [List.mem_singleton.mp ho']
          exact hseen
    · refine ⟨fun s => ?_, ?_⟩
      · simp only [List.mem_append, List.mem_singleton, hmem]
        constructor
        · rintro (⟨o', ho', rfl⟩ | rfl)
          · exact ⟨o', .inl ho', rfl⟩
          · exact ⟨o, .inr rfl, rfl⟩
        · rintro ⟨o', ho' | rfl, rfl⟩
          · exact .inl ⟨o', ho', rfl⟩
          · exact .inr rfl
      · exact List.nodup_append.mpr ⟨hnodup, List.nodup_singleton _, by
          rintro s hs t ht rfl
          rw [List.mem_singleton.mp ht] at hs
          exact hseen hs⟩

end Exchange

end MatchingEngine
