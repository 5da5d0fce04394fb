import MatchingEngine.Matcher.Clock
import MatchingEngine.Matcher.Runs

/-!
# The matching core under a scheduler

`MatchingCore` (`exchange/matcher/matching_core.h`) as its caller and its threads see it: the
gateway calls `routeRequest`, and every symbol has a thread that goes round the loop of `run`.
The queues are plain first-in first-out queues here; the rings they are made of are the subject
of `Exchange/Pipeline.lean`.

A schedule is the list of what happens: calls of `routeRequest`, and iterations of the threads,
each with the value the clock returns in it.  Whatever the schedule, the book of a symbol has
processed a part of the requests routed to it, in order, and the rest are in its queue
(`exec_processed`).
-/

namespace MatchingEngine

/-- What a symbol's thread works on. -/
structure QueuedBook where
  requestQueue : List EngineOrderRequest := []
  book : SymbolOrderBook

structure MatchingCore where
  /-- `contexts_`: a queue and a book for each symbol of the engine. -/
  contexts : Symbol → Option QueuedBook
  unknownSymbolResponses : List EngineOrderResponse := []

namespace MatchingCore

/-- The constructor. -/
def new (symbols : List Symbol) : MatchingCore where
  contexts s := if s ∈ symbols then some { book := .new s } else none

/-- Replace the context of one symbol. -/
def setContext (e : MatchingCore) (s : Symbol) (c : QueuedBook) : MatchingCore :=
  { e with contexts := Function.update e.contexts s (some c) }

def routeRequest (e : MatchingCore) (req : EngineOrderRequest) : MatchingCore :=
  match e.contexts req.symbol with
  | none => { e with unknownSymbolResponses := e.unknownSymbolResponses ++ [rejection req] }
  | some c => e.setContext req.symbol { c with requestQueue := c.requestQueue ++ [req] }

/-- One iteration of the loop of `run`, in the thread of `s`; without a request it does
nothing. -/
def runIteration (e : MatchingCore) (s : Symbol) (now : Nanos) : Except Fault MatchingCore :=
  match e.contexts s with
  | none => .ok e
  | some c =>
    match c.requestQueue with
    | [] => .ok e
    | req :: queue => do
      let book ← processRequest c.book req now
      return e.setContext s ⟨queue, book⟩

/-- What a scheduler can do next. -/
inductive Action
  | routeRequest (req : EngineOrderRequest)
  | runIteration (symbol : Symbol) (now : Nanos)

def step (e : MatchingCore) : Action → Except Fault MatchingCore
  | .routeRequest req => .ok (e.routeRequest req)
  | .runIteration s now => e.runIteration s now

/-- Follow a schedule. -/
def exec (e : MatchingCore) : List Action → Except Fault MatchingCore
  | [] => .ok e
  | a :: schedule => do
    let e ← e.step a
    exec e schedule

/-- The requests routed in a schedule, in order. -/
def routed (schedule : List Action) : List EngineOrderRequest :=
  schedule.filterMap fun
    | .routeRequest req => some req
    | .runIteration .. => none

/-- The requests a schedule routes to one symbol, in order. -/
def requestsFor (s : Symbol) (schedule : List Action) : List EngineOrderRequest :=
  (routed schedule).filter fun req => decide (req.symbol = s)

/-- The requests of a symbol that wait in its queue. -/
def pending (e : MatchingCore) (s : Symbol) : List EngineOrderRequest :=
  ((e.contexts s).map QueuedBook.requestQueue).getD []

/-- The book of a symbol. -/
def bookOf (e : MatchingCore) (s : Symbol) : Option SymbolOrderBook :=
  (e.contexts s).map QueuedBook.book

variable {e e' : MatchingCore} {symbols : List Symbol} {schedule : List Action}

/-! ## Schedules -/

lemma exec_concat (e : MatchingCore) (schedule : List Action) (a : Action) :
    e.exec (schedule ++ [a]) = (e.exec schedule).bind fun e => e.step a := by
  induction schedule generalizing e with
  | nil =>
    change (e.step a).bind Except.ok = e.step a
    cases e.step a <;> rfl
  | cons a' schedule ih =>
    change (e.step a').bind (fun e => e.exec (schedule ++ [a])) =
      ((e.step a').bind fun e => e.exec schedule).bind _
    cases e.step a' with
    | error f => rfl
    | ok e' => exact ih e'

lemma exec_concat_ok {a : Action} (h : e.exec (schedule ++ [a]) = .ok e') :
    ∃ e₁, e.exec schedule = .ok e₁ ∧ e₁.step a = .ok e' := by
  rw [exec_concat] at h
  cases he : e.exec schedule with
  | error f =>
    rw [he] at h
    cases h
  | ok e₁ =>
    rw [he] at h
    exact ⟨e₁, rfl, h⟩

@[simp] lemma routed_append (schedule schedule' : List Action) :
    routed (schedule ++ schedule') = routed schedule ++ routed schedule' := by
  simp [routed]

lemma requestsFor_concat (s : Symbol) (schedule : List Action) (a : Action) :
    requestsFor s (schedule ++ [a]) = requestsFor s schedule ++ requestsFor s [a] := by
  simp [requestsFor]

lemma requestsFor_route_of_ne {s : Symbol} {req : EngineOrderRequest} (h : req.symbol ≠ s) :
    requestsFor s [.routeRequest req] = [] := by
  simp [requestsFor, routed, h]

/-! ## One step -/

/-- A step changes one context: a request is appended to its queue, or the first request of its
queue is processed.  Or it changes none, and answers a request for an unknown symbol if it is
one. -/
lemma step_cases {a : Action} (h : e.step a = .ok e') :
    (∃ req c, a = .routeRequest req ∧ e.contexts req.symbol = some c ∧
      e' = e.setContext req.symbol { c with requestQueue := c.requestQueue ++ [req] }) ∨
    (∃ s now c req queue book, a = .runIteration s now ∧ e.contexts s = some c ∧
      c.requestQueue = req :: queue ∧ processRequest c.book req now = .ok book ∧
      e' = e.setContext s ⟨queue, book⟩) ∨
    (∃ req, a = .routeRequest req ∧ e.contexts req.symbol = none ∧
      e' = { e with unknownSymbolResponses := e.unknownSymbolResponses ++ [rejection req] }) ∨
    (∃ s now, a = .runIteration s now ∧ e.pending s = [] ∧ e' = e) := by
  cases a with
  | routeRequest req =>
    obtain rfl : e.routeRequest req = e' := Except.ok.inj h
    unfold routeRequest
    cases hc : e.contexts req.symbol with
    | none => exact .inr (.inr (.inl ⟨req, rfl, hc, rfl⟩))
    | some c => exact .inl ⟨req, c, rfl, hc, rfl⟩
  | runIteration s now =>
    change e.runIteration s now = .ok e' at h
    unfold runIteration at h
    cases hc : e.contexts s with
    | none =>
      rw [hc] at h
      exact .inr (.inr (.inr ⟨s, now, rfl, by simp [pending, hc], (Except.ok.inj h).symm⟩))
    | some c =>
      simp only [hc] at h
      cases hq : c.requestQueue with
      | nil =>
        rw [hq] at h
        exact .inr (.inr (.inr ⟨s, now, rfl, by simp [pending, hc, hq], (Except.ok.inj h).symm⟩))
      | cons req queue =>
        simp only [hq] at h
        cases hbook : processRequest c.book req now with
        | error f =>
          rw [hbook] at h
          cases h
        | ok book =>
          rw [hbook] at h
          exact .inr (.inl ⟨s, now, c, req, queue, book, rfl, hc, hq, hbook,
            (Except.ok.inj h).symm⟩)

/-! ## Whole schedules -/

/-- The book of `s` has processed a part of the requests, in order, and the others wait. -/
def Processed (s : Symbol) (reqs : List EngineOrderRequest) (c : QueuedBook) : Prop :=
  ∃ done, run (.new s) done = .ok c.book ∧ reqs = done.map Prod.fst ++ c.requestQueue

lemma contexts_setContext (e : MatchingCore) (s : Symbol) (c : QueuedBook) :
    (e.setContext s c).contexts s = some c :=
  Function.update_self ..

lemma contexts_setContext_of_ne (e : MatchingCore) {s s' : Symbol} (c : QueuedBook)
    (h : s' ≠ s) : (e.setContext s c).contexts s' = e.contexts s' :=
  Function.update_of_ne h ..

/-- The engine has a context for each of its symbols, and each has processed a part of the
requests routed to it. -/
theorem exec_processed (h : (new symbols).exec schedule = .ok e) (s : Symbol) :
    (s ∉ symbols → e.contexts s = none) ∧
      (s ∈ symbols → ∃ c, e.contexts s = some c ∧ Processed s (requestsFor s schedule) c) := by
  induction schedule using List.reverseRecOn generalizing e with
  | nil =>
    obtain rfl : new symbols = e := Except.ok.inj h
    exact ⟨fun hs => if_neg hs, fun hs => ⟨_, if_pos hs, [], rfl, rfl⟩⟩
  | append_singleton schedule a ih =>
    obtain ⟨e₁, he₁, hstep⟩ := exec_concat_ok h
    obtain ⟨hout, hin⟩ := ih he₁
    rw [requestsFor_concat]
    rcases step_cases hstep with ⟨req, c, rfl, hc, rfl⟩ |
      ⟨s', now, c, req, queue, book, rfl, hc, hq, hbook, rfl⟩ | ⟨req, rfl, hc, rfl⟩ |
      ⟨s', now, rfl, -, rfl⟩
    · -- a request is appended to one queue
      by_cases hs : s = req.symbol
      · subst hs
        refine ⟨fun hs => absurd (hc.symm.trans (hout hs)) (by simp), fun hs => ?_⟩
        obtain ⟨c', hc', done, hrun, hreqs⟩ := hin hs
        obtain rfl : c = c' := Option.some.inj (hc.symm.trans hc')
        refine ⟨_, contexts_setContext .., done, hrun, ?_⟩
        rw [hreqs, List.append_assoc]
        simp [requestsFor, routed]
      · rw [contexts_setContext_of_ne _ _ hs, requestsFor_route_of_ne (Ne.symm hs),
          List.append_nil]
        exact ⟨hout, hin⟩
    · -- one thread takes its next request
      have hnone : requestsFor s [.runIteration s' now] = [] := rfl
      rw [hnone, List.append_nil]
      by_cases hs : s = s'
      · subst hs
        refine ⟨fun hs => absurd (hc.symm.trans (hout hs)) (by simp), fun hs => ?_⟩
        obtain ⟨c', hc', done, hrun, hreqs⟩ := hin hs
        obtain rfl : c = c' := Option.some.inj (hc.symm.trans hc')
        refine ⟨_, contexts_setContext .., done ++ [(req, now)], ?_, ?_⟩
        · exact (run_concat hrun hbook).1
        · rw [hreqs, hq]
          simp
      · rw [contexts_setContext_of_ne _ _ hs]
        exact ⟨hout, hin⟩
    · -- an unknown symbol: the request is in nobody's queue
      refine ⟨hout, fun hs => ?_⟩
      have hne : req.symbol ≠ s := by
        rintro rfl
        obtain ⟨c', hc', -⟩ := hin hs
        exact absurd (hc.symm.trans hc') (by simp)
      rw [requestsFor_route_of_ne hne, List.append_nil]
      exact hin hs
    · exact ⟨hout, by simpa [requestsFor, routed] using hin⟩

/-- The known symbols never change. -/
lemma contexts_isSome_iff (h : (new symbols).exec schedule = .ok e) (s : Symbol) :
    (e.contexts s).isSome ↔ s ∈ symbols := by
  obtain ⟨hout, hin⟩ := exec_processed h s
  by_cases hs : s ∈ symbols
  · obtain ⟨c, hc, -⟩ := hin hs
    simp [hs, hc]
  · simp [hs, hout hs]

/-- The only way an execution stops is that a pool is exhausted. -/
theorem exec_error {f : Fault} (h : (new symbols).exec schedule = .error f) :
    f = .outOfSpace := by
  induction schedule using List.reverseRecOn generalizing f with
  | nil => cases h
  | append_singleton schedule a ih =>
    rw [exec_concat] at h
    cases he : (new symbols).exec schedule with
    | error f' =>
      rw [he] at h
      rw [← Except.error.inj h]
      exact ih he
    | ok e =>
      rw [he] at h
      cases a with
      | routeRequest req => cases h
      | runIteration s now =>
        change e.runIteration s now = _ at h
        unfold runIteration at h
        cases hc : e.contexts s with
        | none =>
          rw [hc] at h
          cases h
        | some c =>
          simp only [hc] at h
          cases hq : c.requestQueue with
          | nil =>
            rw [hq] at h
            cases h
          | cons req queue =>
            simp only [hq] at h
            have hs : s ∈ symbols := (contexts_isSome_iff he s).mp (by simp [hc])
            obtain ⟨c', hc', done, hrun, -⟩ := (exec_processed he s).2 hs
            obtain rfl : c = c' := Option.some.inj (hc.symm.trans hc')
            obtain ⟨S, hS⟩ := (run_refines s done).of_ok hrun
            rcases hS.rep.processRequest req now with herr | ⟨b', -, hok, -⟩
            · rw [herr] at h
              exact (Except.error.inj h).symm
            · rw [hok] at h
              cases h

end MatchingCore

end MatchingEngine
