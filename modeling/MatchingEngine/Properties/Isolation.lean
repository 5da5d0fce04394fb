import MatchingEngine.Exchange.Scheduler

/-!
# Symbols do not influence each other

What a symbol's thread writes and the book it ends with depend on the requests routed to that
symbol and on nothing else: not on the other symbols or their requests, not on the order in which
the threads take turns, not on the clock.  A book is compared with all its memory, down to which
pool blocks are in use; only the time stamps of the orders are left out (`untimed`).

Requests for a symbol without a book are answered on the queue for unknown symbols, one
`REJECTED` each, and have no other effect: the schedule without them leads to the same books.
-/

namespace MatchingEngine

namespace MatchingCore

variable {e e' : MatchingCore} {symbols symbols' : List Symbol} {schedule schedule' : List Action}

/-- A book that has processed everything is, up to time stamps, the book of the request sequence
run with the clock at zero. -/
lemma Processed.untimed_eq {s : Symbol} {reqs : List EngineOrderRequest} {c : QueuedBook}
    (h : Processed s reqs c) (hempty : c.requestQueue = []) :
    run (SymbolOrderBook.new s).untimed (reqs.map fun req => (req, 0)) = .ok c.book.untimed := by
  obtain ⟨done, hrun, hreqs⟩ := h
  have huntimed := run_untimed (.new s) done
  rw [hrun] at huntimed
  rw [hreqs, hempty, List.append_nil, List.map_map]
  exact huntimed.symm

/-- The names of the engine's symbols settle which requests are for unknown ones. -/
def known (symbols : List Symbol) : Action → Bool
  | .routeRequest req => req.symbol ∈ symbols
  | .runIteration .. => true

/-- The queue for unknown symbols holds one rejection for each request that names one. -/
lemma unknown_exec (h : (new symbols).exec schedule = .ok e) :
    e.unknownSymbolResponses =
      ((routed schedule).filter fun req => decide (req.symbol ∉ symbols)).map rejection := by
  induction schedule using List.reverseRecOn generalizing e with
  | nil =>
    obtain rfl : new symbols = e := Except.ok.inj h
    rfl
  | append_singleton schedule a ih =>
    obtain ⟨e₁, he₁, hstep⟩ := exec_concat_ok h
    rw [routed_append, List.filter_append, List.map_append, ← ih he₁]
    have hiff := contexts_isSome_iff he₁
    rcases step_cases hstep with ⟨req, c, rfl, hc, rfl⟩ |
      ⟨s', now, c, req, queue, book, rfl, hc, hq, hbook, rfl⟩ | ⟨req, rfl, hc, rfl⟩ |
      ⟨s', now, rfl, -, rfl⟩
    · have hknown : req.symbol ∈ symbols := (hiff _).mp (by simp [hc])
      simp [routed, hknown, setContext]
    · simp [routed, setContext]
    · have hunknown : req.symbol ∉ symbols := fun hs => by simpa [hc] using (hiff _).mpr hs
      simp [routed, hunknown]
    · simp [routed]

/-- Without the requests for unknown symbols the schedule leads to the same contexts. -/
lemma exec_known (h : (new symbols).exec schedule = .ok e) :
    (new symbols).exec (schedule.filter (known symbols)) =
      .ok { e with unknownSymbolResponses := [] } := by
  induction schedule using List.reverseRecOn generalizing e with
  | nil =>
    obtain rfl : new symbols = e := Except.ok.inj h
    rfl
  | append_singleton schedule a ih =>
    obtain ⟨e₁, he₁, hstep⟩ := exec_concat_ok h
    have hiff := contexts_isSome_iff he₁
    rw [List.filter_append]
    rcases step_cases hstep with ⟨req, c, rfl, hc, rfl⟩ |
      ⟨s', now, c, req, queue, book, rfl, hc, hq, hbook, rfl⟩ | ⟨req, rfl, hc, rfl⟩ |
      ⟨s', now, rfl, hpending, rfl⟩
    · have hknown : known symbols (.routeRequest req) = true := by
        simpa [known] using (hiff req.symbol).mp (by simp [hc])
      rw [List.filter_cons_of_pos hknown, List.filter_nil, exec_concat, ih he₁]
      change Except.ok (routeRequest _ req) = _
      rw [routeRequest, hc]
      rfl
    · rw [List.filter_cons_of_pos rfl, List.filter_nil, exec_concat, ih he₁]
      change runIteration _ s' now = _
      simp only [runIteration, hc, hq, hbook]
      rfl
    · have hunknown : ¬ known symbols (.routeRequest req) = true := fun hs => by
        have := (hiff req.symbol).mpr (by simpa [known] using hs)
        simp [hc] at this
      rw [List.filter_cons_of_neg hunknown, List.filter_nil, List.append_nil, ih he₁]
    · rw [List.filter_cons_of_pos rfl, List.filter_nil, exec_concat, ih he₁]
      change runIteration _ s' now = _
      unfold runIteration
      simp only [pending] at hpending
      cases hc : e.contexts s' with
      | none => rfl
      | some c =>
        rw [hc] at hpending
        have hq : c.requestQueue = [] := hpending
        simp only [hq]

/-- Two executions that route the same requests to a symbol and process them all, whatever their
other symbols and requests, their schedules and their clocks, agree on that symbol's responses,
its book updates and its book; and in each execution the requests for symbols without a book are
rejected one by one and change nothing else. -/
theorem symbol_isolation (he : (new symbols).exec schedule = .ok e)
    (he' : (new symbols').exec schedule' = .ok e') :
    (∀ s ∈ symbols, s ∈ symbols' → requestsFor s schedule = requestsFor s schedule' →
      e.pending s = [] → e'.pending s = [] →
      ∃ b b', e.bookOf s = some b ∧ e'.bookOf s = some b' ∧
        responsesOf b.sent = responsesOf b'.sent ∧ updatesOf b.sent = updatesOf b'.sent ∧
        b.untimed = b'.untimed) ∧
    e.unknownSymbolResponses =
      ((routed schedule).filter fun req => decide (req.symbol ∉ symbols)).map rejection ∧
    (∀ r ∈ e.unknownSymbolResponses, r.status = .rejected) ∧
    (new symbols).exec (schedule.filter (known symbols)) =
      .ok { e with unknownSymbolResponses := [] } := by
  refine ⟨fun s hs hs' hsame hempty hempty' => ?_, unknown_exec he, fun r hr => ?_, exec_known he⟩
  · obtain ⟨c, hc, hproc⟩ := (exec_processed he s).2 hs
    obtain ⟨c', hc', hproc'⟩ := (exec_processed he' s).2 hs'
    have heq := hproc.untimed_eq (by simpa [pending, hc] using hempty)
    have heq' := hproc'.untimed_eq (by simpa [pending, hc'] using hempty')
    rw [hsame, heq'] at heq
    have hbook : c'.book.untimed = c.book.untimed := Except.ok.inj heq
    have hsent : c'.book.untimed.sent = c.book.untimed.sent := by rw [hbook]
    change c'.book.sent = c.book.sent at hsent
    exact ⟨c.book, c'.book, by simp [bookOf, hc], by simp [bookOf, hc'], by rw [hsent],
      by rw [hsent], hbook.symm⟩
  · rw [unknown_exec he] at hr
    obtain ⟨req, -, rfl⟩ := List.mem_map.mp hr
    rfl

section Isolated

/-- A sell and a buy of `A` that trade with each other. -/
def sellA : EngineOrderRequest := ⟨.limit, 1, "A", 10, .sell, 100, 5, 0⟩
def buyA : EngineOrderRequest := ⟨.limit, 2, "A", 11, .buy, 100, 8, 0⟩

/-- The two requests routed and processed in turn. -/
def inTurn : List Action :=
  [.routeRequest sellA, .runIteration "A" 7, .routeRequest buyA, .runIteration "A" 8]

/-- Both requests wait behind others, for another symbol and for an unknown one, and the clock
goes backwards. -/
def interleaved : List Action :=
  [.routeRequest sellA, .routeRequest { sellA with symbol := "B" },
    .routeRequest { sellA with symbol := "C" }, .runIteration "B" 3, .routeRequest buyA,
    .runIteration "A" 2, .runIteration "A" 1, .runIteration "A" 0]

theorem inTurn_interleaved : ∃ e e', (new ["A"]).exec inTurn = .ok e ∧
    (new ["A", "B"]).exec interleaved = .ok e' ∧
    (∃ b b', e.bookOf "A" = some b ∧ e'.bookOf "A" = some b' ∧ b.untimed = b'.untimed) ∧
    (∀ r ∈ e'.unknownSymbolResponses, r.status = .rejected) := by
  obtain ⟨e, he, hpend⟩ := exists_ok_of_check (x := (new ["A"]).exec inTurn)
    (p := fun e => decide (e.pending "A" = [])) (by decide)
  obtain ⟨e', he', hpend'⟩ := exists_ok_of_check (x := (new ["A", "B"]).exec interleaved)
    (p := fun e => decide (e.pending "A" = [])) (by decide)
  obtain ⟨b, b', hb, hb', -, -, hbook⟩ := (symbol_isolation he he').1 "A" (by decide) (by decide)
    (by decide) (by simpa using hpend) (by simpa using hpend')
  exact ⟨e, e', he, he', ⟨b, b', hb, hb', hbook⟩, (symbol_isolation he' he).2.2.1⟩

end Isolated

end MatchingCore

end MatchingEngine
