import MatchingEngine.Common.LockFreeQueue
import MatchingEngine.Framework.Transition
import MatchingEngine.MarketData.SnapshotService
import MatchingEngine.Matcher.MatchingCore

/-!
# The stages of the exchange and the queues between them

`MatchingCore` (`exchange/matcher/matching_core.h`) with its per-symbol contexts, the gateway's
`routeRequest` calls and `drainResponses` (`exchange/order_server/order_server.h`), the feed's
`run` (`exchange/market_data/market_data_feed.h`) and the snapshot service's `run`
(`exchange/market_data/book_snapshot_service.h`), wired as in `exchange_main.cpp`.

Each thread is a position in its program, and the steps of all threads interleave freely.  A
consumer reads an element and advances its read index in two separate steps.  A symbol's thread
processes a request in one step, since nobody else sees its book, but writes the messages this
causes one by one.  The gateway's thread and the feed's thread each do one thing at a time and
may turn to any queue next.

Every queue carries two history variables, what was written to it and what its consumer has been
handed.
-/

namespace MatchingEngine

open Transitions

/-- `SYMBOL_QUEUE_SIZE` and `SNAPSHOT_QUEUE_SIZE`. -/
def symbolQueueSize : ℕ := 65536

/-- A queue between two stages. -/
structure Channel (α : Type) where
  queue : LFQueue α
  /-- Everything written so far. -/
  written : List α := []
  /-- Everything the consumer has been handed. -/
  read : List α := []

namespace Channel

variable {α : Type}

/-- A queue as the constructors make them. -/
def new (init : α) : Channel α := { queue := .ofCapacity symbolQueueSize init }

def write (c : Channel α) (x : α) : Channel α :=
  { c with queue := c.queue.write x, written := c.written ++ [x] }

/-- The consumer has been handed `x`. -/
def hand (c : Channel α) (x : α) : Channel α := { c with read := c.read ++ [x] }

def updateReadIndex (c : Channel α) : Except Fault (Channel α) :=
  c.queue.updateReadIndex.map fun q => { c with queue := q }

end Channel

/-! ## Threads -/

/-- Where a symbol's thread is: at the top of its loop, or busy with a request, with some of the
messages it causes still to be written. -/
inductive Worker
  | waiting
  | working (outbox : List OutMsg)
  deriving DecidableEq, Repr

namespace Worker

def busy : Worker → Bool
  | waiting => false
  | working _ => true

def outbox : Worker → List OutMsg
  | waiting => []
  | working outbox => outbox

end Worker

/-- Everything one symbol's matching thread needs. -/
structure SymbolContext where
  requestQueue : Channel EngineOrderRequest := .new {}
  responseQueue : Channel EngineOrderResponse := .new {}
  updateQueue : Channel BookUpdate := .new {}
  book : SymbolOrderBook
  worker : Worker := .waiting

/-- `sendResponse` or `sendBookUpdate`, whichever the message is for. -/
def SymbolContext.send (c : SymbolContext) : OutMsg → SymbolContext
  | .response r => { c with responseQueue := c.responseQueue.write r }
  | .update u => { c with updateQueue := c.updateQueue.write u }

/-- The queue the message is for has room. -/
def SymbolContext.roomFor (c : SymbolContext) : OutMsg → Bool
  | .response _ => c.responseQueue.queue.hasRoom
  | .update _ => c.updateQueue.queue.hasRoom

/-- Where the gateway's thread is: about to route a request or read a response, or past the
callback for the response of a symbol (of the queue for unknown symbols: `none`). -/
inductive GatewayPos
  | idle
  | acking (queue : Option Symbol)
  deriving DecidableEq, Repr

/-- The gateway is busy with a response of `queue`. -/
def GatewayPos.busy (queue : Option Symbol) : GatewayPos → Bool
  | idle => false
  | acking q => q = queue

/-- Where the feed's thread is: about to read an update, past the subscribers with an update of a
symbol in hand, or past forwarding it to the snapshot service. -/
inductive FeedPos
  | idle
  | forwarding (symbol : Symbol) (update : BookUpdate)
  | advancing (symbol : Symbol)
  deriving DecidableEq, Repr

namespace FeedPos

/-- The feed is busy with an update of `s`. -/
def busy (s : Symbol) : FeedPos → Bool
  | idle => false
  | forwarding t _ => t = s
  | advancing t => t = s

/-- The update the feed has shown to its subscribers and not yet forwarded. -/
def inHand : FeedPos → List BookUpdate
  | forwarding _ u => [u]
  | _ => []

end FeedPos

structure Pipeline where
  contexts : Symbol → SymbolContext := fun s => { book := .new s }
  unknownSymbolResponses : Channel EngineOrderResponse := .new {}
  gateway : GatewayPos := .idle
  feed : FeedPos := .idle
  snapshotFeed : Channel BookUpdate := .new {}
  /-- The snapshot service has applied an update and not yet advanced. -/
  snapshotBusy : Bool := false
  mirror : Mirror := .empty

namespace Pipeline

/-- Change the context of one symbol. -/
def setContext (p : Pipeline) (s : Symbol) (c : SymbolContext) : Pipeline :=
  { p with contexts := Function.update p.contexts s c }

lemma contexts_setContext (p : Pipeline) (s : Symbol) (c : SymbolContext) :
    (p.setContext s c).contexts s = c :=
  Function.update_self ..

inductive Action
  | routeRequest (req : EngineOrderRequest)
  /-- `getNextToRead` and `processRequest` of a symbol's thread; `now` is the clock reading. -/
  | processRequest (symbol : Symbol) (now : Nanos)
  | send (symbol : Symbol)
  | advance (symbol : Symbol)
  /-- `drainResponses`: the callback for the next response of a queue. -/
  | readResponse (queue : Option Symbol)
  | ackResponse
  /-- The feed's subscribers see the next update of a symbol. -/
  | readUpdate (symbol : Symbol)
  | forward
  | ackUpdate
  | applyUpdate
  | ackSnapshot

/-- One step of one thread, in an engine with books for `symbols`. -/
inductive Step (symbols : List Symbol) : Pipeline → Action → Except Fault Pipeline → Prop
  | route {p : Pipeline} {req : EngineOrderRequest} {c : SymbolContext} (hidle : p.gateway = .idle)
      (hknown : req.symbol ∈ symbols) (hc : p.contexts req.symbol = c) :
      Step symbols p (.routeRequest req) (.ok (p.setContext req.symbol
        { c with requestQueue := c.requestQueue.write req }))
  | routeUnknown {p : Pipeline} {req : EngineOrderRequest} (hidle : p.gateway = .idle)
      (hunknown : req.symbol ∉ symbols) :
      Step symbols p (.routeRequest req) (.ok { p with
        unknownSymbolResponses := p.unknownSymbolResponses.write (rejection req) })
  | process {p : Pipeline} {s : Symbol} {now : Nanos} {req : EngineOrderRequest}
      {c : SymbolContext} (hc : p.contexts s = c) (hwaiting : c.worker = .waiting)
      (hread : c.requestQueue.queue.getNextToRead = some req) :
      Step symbols p (.processRequest s now) ((processRequest c.book req now).map fun b =>
        p.setContext s { c with
          requestQueue := c.requestQueue.hand req
          book := b
          worker := .working (b.sent.drop c.book.sent.length) })
  | send {p : Pipeline} {s : Symbol} {m : OutMsg} {outbox : List OutMsg} {c : SymbolContext}
      (hc : p.contexts s = c) (hworking : c.worker = .working (m :: outbox)) :
      Step symbols p (.send s) (.ok (p.setContext s { c.send m with worker := .working outbox }))
  | advance {p : Pipeline} {s : Symbol} {c : SymbolContext} (hc : p.contexts s = c)
      (hdone : c.worker = .working []) :
      Step symbols p (.advance s) (c.requestQueue.updateReadIndex.map fun ch =>
        p.setContext s { c with requestQueue := ch, worker := .waiting })
  | readResponse {p : Pipeline} {s : Symbol} {r : EngineOrderResponse} {c : SymbolContext}
      (hidle : p.gateway = .idle) (hc : p.contexts s = c)
      (hread : c.responseQueue.queue.getNextToRead = some r) :
      Step symbols p (.readResponse (some s)) (.ok { p.setContext s
        { c with responseQueue := c.responseQueue.hand r } with gateway := .acking (some s) })
  | ackResponse {p : Pipeline} {s : Symbol} {c : SymbolContext}
      (hpos : p.gateway = .acking (some s)) (hc : p.contexts s = c) :
      Step symbols p .ackResponse (c.responseQueue.updateReadIndex.map fun ch =>
        { p.setContext s { c with responseQueue := ch } with gateway := .idle })
  | readReject {p : Pipeline} {r : EngineOrderResponse} (hidle : p.gateway = .idle)
      (hread : p.unknownSymbolResponses.queue.getNextToRead = some r) :
      Step symbols p (.readResponse none) (.ok { p with
        unknownSymbolResponses := p.unknownSymbolResponses.hand r
        gateway := .acking none })
  | ackReject {p : Pipeline} (hpos : p.gateway = .acking none) :
      Step symbols p .ackResponse (p.unknownSymbolResponses.updateReadIndex.map fun ch =>
        { p with unknownSymbolResponses := ch, gateway := .idle })
  | readUpdate {p : Pipeline} {s : Symbol} {u : BookUpdate} {c : SymbolContext}
      (hidle : p.feed = .idle) (hc : p.contexts s = c)
      (hread : c.updateQueue.queue.getNextToRead = some u) :
      Step symbols p (.readUpdate s) (.ok { p.setContext s
        { c with updateQueue := c.updateQueue.hand u } with feed := .forwarding s u })
  | forward {p : Pipeline} {s : Symbol} {u : BookUpdate} (hpos : p.feed = .forwarding s u) :
      Step symbols p .forward (.ok { p with
        snapshotFeed := p.snapshotFeed.write u
        feed := .advancing s })
  | ackUpdate {p : Pipeline} {s : Symbol} {c : SymbolContext} (hpos : p.feed = .advancing s)
      (hc : p.contexts s = c) :
      Step symbols p .ackUpdate (c.updateQueue.updateReadIndex.map fun ch =>
        { p.setContext s { c with updateQueue := ch } with feed := .idle })
  | applyUpdate {p : Pipeline} {u : BookUpdate} (hidle : p.snapshotBusy = false)
      (hread : p.snapshotFeed.queue.getNextToRead = some u) :
      Step symbols p .applyUpdate (.ok { p with
        snapshotFeed := p.snapshotFeed.hand u
        snapshotBusy := true
        mirror := p.mirror.applyUpdate u })
  | ackSnapshot {p : Pipeline} (hbusy : p.snapshotBusy = true) :
      Step symbols p .ackSnapshot (p.snapshotFeed.updateReadIndex.map fun ch =>
        { p with snapshotFeed := ch, snapshotBusy := false })

/-- A step that does not stop the process. -/
def Next (symbols : List Symbol) (p : Pipeline) (a : Action) (p' : Pipeline) : Prop :=
  Step symbols p a (.ok p')

/-- If the step writes to a queue, the queue is not full. -/
def hasRoom (symbols : List Symbol) (p : Pipeline) : Action → Bool
  | .routeRequest req =>
    if req.symbol ∈ symbols then (p.contexts req.symbol).requestQueue.queue.hasRoom
    else p.unknownSymbolResponses.queue.hasRoom
  | .send s => (p.contexts s).worker.outbox.head?.all (p.contexts s).roomFor
  | .forward => p.snapshotFeed.queue.hasRoom
  | _ => true

/-! ## Steps as a function

An action leaves nothing open, so a schedule can be carried out. -/

/-- What the step leads to, if its thread can take it. -/
def outcome (symbols : List Symbol) (p : Pipeline) : Action → Option (Except Fault Pipeline)
  | .routeRequest req =>
    match p.gateway with
    | .idle => some (.ok (
        if req.symbol ∈ symbols then
          p.setContext req.symbol { p.contexts req.symbol with
            requestQueue := (p.contexts req.symbol).requestQueue.write req }
        else { p with
          unknownSymbolResponses := p.unknownSymbolResponses.write (rejection req) }))
    | .acking _ => none
  | .processRequest s now =>
    match (p.contexts s).worker, (p.contexts s).requestQueue.queue.getNextToRead with
    | .waiting, some req => some ((processRequest (p.contexts s).book req now).map fun b =>
        p.setContext s { p.contexts s with
          requestQueue := (p.contexts s).requestQueue.hand req
          book := b
          worker := .working (b.sent.drop (p.contexts s).book.sent.length) })
    | _, _ => none
  | .send s =>
    match (p.contexts s).worker with
    | .working (m :: outbox) =>
      some (.ok (p.setContext s { (p.contexts s).send m with worker := .working outbox }))
    | _ => none
  | .advance s =>
    match (p.contexts s).worker with
    | .working [] => some ((p.contexts s).requestQueue.updateReadIndex.map fun ch =>
        p.setContext s { p.contexts s with requestQueue := ch, worker := .waiting })
    | _ => none
  | .readResponse (some s) =>
    match p.gateway, (p.contexts s).responseQueue.queue.getNextToRead with
    | .idle, some r => some (.ok { p.setContext s { p.contexts s with
        responseQueue := (p.contexts s).responseQueue.hand r } with gateway := .acking (some s) })
    | _, _ => none
  | .readResponse none =>
    match p.gateway, p.unknownSymbolResponses.queue.getNextToRead with
    | .idle, some r => some (.ok { p with
        unknownSymbolResponses := p.unknownSymbolResponses.hand r
        gateway := .acking none })
    | _, _ => none
  | .ackResponse =>
    match p.gateway with
    | .acking (some s) => some ((p.contexts s).responseQueue.updateReadIndex.map fun ch =>
        { p.setContext s { p.contexts s with responseQueue := ch } with gateway := .idle })
    | .acking none => some (p.unknownSymbolResponses.updateReadIndex.map fun ch =>
        { p with unknownSymbolResponses := ch, gateway := .idle })
    | .idle => none
  | .readUpdate s =>
    match p.feed, (p.contexts s).updateQueue.queue.getNextToRead with
    | .idle, some u => some (.ok { p.setContext s { p.contexts s with
        updateQueue := (p.contexts s).updateQueue.hand u } with feed := .forwarding s u })
    | _, _ => none
  | .forward =>
    match p.feed with
    | .forwarding s u => some (.ok { p with
        snapshotFeed := p.snapshotFeed.write u
        feed := .advancing s })
    | _ => none
  | .ackUpdate =>
    match p.feed with
    | .advancing s => some ((p.contexts s).updateQueue.updateReadIndex.map fun ch =>
        { p.setContext s { p.contexts s with updateQueue := ch } with feed := .idle })
    | _ => none
  | .applyUpdate =>
    match p.snapshotBusy, p.snapshotFeed.queue.getNextToRead with
    | false, some u => some (.ok { p with
        snapshotFeed := p.snapshotFeed.hand u
        snapshotBusy := true
        mirror := p.mirror.applyUpdate u })
    | _, _ => none
  | .ackSnapshot =>
    match p.snapshotBusy with
    | true => some (p.snapshotFeed.updateReadIndex.map fun ch =>
        { p with snapshotFeed := ch, snapshotBusy := false })
    | false => none

variable {symbols : List Symbol} {p p' : Pipeline} {a : Action} {r : Except Fault Pipeline}

lemma step_of_outcome (h : p.outcome symbols a = some r) : Step symbols p a r := by
  cases a with
  | routeRequest req =>
    simp only [outcome] at h
    split at h
    · next hidle =>
      obtain rfl := Option.some.inj h
      split_ifs with hknown
      · exact .route hidle hknown rfl
      · exact .routeUnknown hidle hknown
    · cases h
  | processRequest s now =>
    simp only [outcome] at h
    split at h
    · next hwaiting hread =>
      obtain rfl := Option.some.inj h
      exact .process rfl hwaiting hread
    · cases h
  | send s =>
    simp only [outcome] at h
    split at h
    · next hworking =>
      obtain rfl := Option.some.inj h
      exact .send rfl hworking
    · cases h
  | advance s =>
    simp only [outcome] at h
    split at h
    · next hdone =>
      obtain rfl := Option.some.inj h
      exact .advance rfl hdone
    · cases h
  | readResponse queue =>
    cases queue with
    | some s =>
      simp only [outcome] at h
      split at h
      · next hidle hread =>
        obtain rfl := Option.some.inj h
        exact .readResponse hidle rfl hread
      · cases h
    | none =>
      simp only [outcome] at h
      split at h
      · next hidle hread =>
        obtain rfl := Option.some.inj h
        exact .readReject hidle hread
      · cases h
  | ackResponse =>
    simp only [outcome] at h
    split at h
    · next hpos =>
      obtain rfl := Option.some.inj h
      exact .ackResponse hpos rfl
    · next hpos =>
      obtain rfl := Option.some.inj h
      exact .ackReject hpos
    · cases h
  | readUpdate s =>
    simp only [outcome] at h
    split at h
    · next hidle hread =>
      obtain rfl := Option.some.inj h
      exact .readUpdate hidle rfl hread
    · cases h
  | forward =>
    simp only [outcome] at h
    split at h
    · next hpos =>
      obtain rfl := Option.some.inj h
      exact .forward hpos
    · cases h
  | ackUpdate =>
    simp only [outcome] at h
    split at h
    · next hpos =>
      obtain rfl := Option.some.inj h
      exact .ackUpdate hpos rfl
    · cases h
  | applyUpdate =>
    simp only [outcome] at h
    split at h
    · next hidle hread =>
      obtain rfl := Option.some.inj h
      exact .applyUpdate hidle hread
    · cases h
  | ackSnapshot =>
    simp only [outcome] at h
    split at h
    · next hbusy =>
      obtain rfl := Option.some.inj h
      exact .ackSnapshot hbusy
    · cases h

lemma Step.outcome_eq (h : Step symbols p a r) : p.outcome symbols a = some r := by
  cases h with
  | route hidle hknown hc => simp only [outcome, hidle, if_pos hknown, hc]
  | routeUnknown hidle hunknown => simp only [outcome, hidle, if_neg hunknown]
  | process hc hwaiting hread => simp only [outcome, hc, hwaiting, hread]
  | send hc hworking => simp only [outcome, hc, hworking]
  | advance hc hdone => simp only [outcome, hc, hdone]
  | readResponse hidle hc hread => simp only [outcome, hidle, hc, hread]
  | ackResponse hpos hc => simp only [outcome, hpos, hc]
  | readReject hidle hread => simp only [outcome, hidle, hread]
  | ackReject hpos => simp only [outcome, hpos]
  | readUpdate hidle hc hread => simp only [outcome, hidle, hc, hread]
  | forward hpos => simp only [outcome, hpos]
  | ackUpdate hpos hc => simp only [outcome, hpos, hc]
  | applyUpdate hidle hread => simp only [outcome, hidle, hread]
  | ackSnapshot hbusy => simp only [outcome, hbusy]

/-- The function computes exactly the steps. -/
lemma step_iff : Step symbols p a r ↔ p.outcome symbols a = some r :=
  ⟨Step.outcome_eq, step_of_outcome⟩

/-- The state after a step, if its thread can take it and it does not stop the process. -/
def perform (symbols : List Symbol) (p : Pipeline) (a : Action) : Option Pipeline :=
  match p.outcome symbols a with
  | some (.ok p') => some p'
  | _ => none

lemma next_iff : Next symbols p a p' ↔ p.perform symbols a = some p' := by
  rw [Next, step_iff, perform]
  split
  · next hok => rw [hok, Option.some_inj, Option.some_inj, Except.ok.injEq]
  · next hne => exact iff_of_false (fun hok => hne _ hok) nofun

end Pipeline

end MatchingEngine
