import Mathlib.Data.List.GetD
import Mathlib.Data.List.Range
import Mathlib.Data.List.Sort
import Mathlib.Logic.Function.Basic
import MatchingEngine.Matcher.Messages

/-!
# The request sequencer

`RequestSequencer` (`exchange/order_server/request_sequencer.h`) collects requests in a fixed
scratch buffer and passes them on, sorted by receive time, when it is flushed.

The buffer is a function on indices, so that the entries a flush leaves behind past
`pending_size_` stay visible; a write at or beyond the buffer's size is `Fault.outOfBounds`.
`std::sort` may order requests with equal receive times in any way, so `Flush` and `Enqueue` are
relations: they hold of every outcome a sort could have.

Requests carry their `Origin`, a history variable: which thread submitted it, and as its how
manyth request.  No operation looks at it.
-/

namespace MatchingEngine

/-- `MAX_PENDING_GATEWAY_REQUESTS`. -/
def maxPendingGatewayRequests : ℕ := 8192

/-- Which producer thread submitted a request, and how many it had submitted before. -/
structure Origin where
  producer : ℕ := 0
  index : ℕ := 0
  deriving DecidableEq, Repr

/-- A request in the sequencer. -/
structure Submission where
  origin : Origin := {}
  request : EngineOrderRequest := {}
  deriving DecidableEq, Repr

/-- The key the sequencer sorts by. -/
def Submission.recvTime (x : Submission) : Nanos := x.request.recvTime

structure RequestSequencer where
  pending : ℕ → Submission := fun _ => {}
  pendingSize : ℕ := 0

namespace RequestSequencer

/-- The requests buffered since the last flush, `pending_[0..pending_size_)`. -/
def window (s : RequestSequencer) : List Submission := (List.range s.pendingSize).map s.pending

def isFull (s : RequestSequencer) : Bool := s.pendingSize ≥ maxPendingGatewayRequests

/-- `pending_[pending_size_++] = tagged`. -/
def store (s : RequestSequencer) (tagged : Submission) : Except Fault RequestSequencer :=
  if s.pendingSize < maxPendingGatewayRequests then
    .ok ⟨Function.update s.pending s.pendingSize tagged, s.pendingSize + 1⟩
  else .error (.outOfBounds s.pendingSize)

/-- `std::sort` of the buffered requests by receive time: they are rearranged so that no request
comes before an earlier one; the rest of the buffer is left alone. -/
structure Sorts (s s' : RequestSequencer) : Prop where
  size : s'.pendingSize = s.pendingSize
  perm : s'.window.Perm s.window
  sorted : s'.window.Pairwise fun a b => a.recvTime ≤ b.recvTime
  stale : ∀ i, s.pendingSize ≤ i → s'.pending i = s.pending i

/-- `Flush s out s'`: flushing `s` may pass `out` to the router and leave `s'`. -/
inductive Flush : RequestSequencer → List Submission → RequestSequencer → Prop
  | idle {s : RequestSequencer} (hempty : s.pendingSize = 0) : Flush s [] s
  | sort {s s' : RequestSequencer} (hsome : s.pendingSize ≠ 0) (hsort : Sorts s s') :
      Flush s s'.window { s' with pendingSize := 0 }

/-- `Enqueue s rxTime request out r`: enqueuing the request may pass `out` to the router, if the
buffer had to be flushed first, and ends in `r`. -/
inductive Enqueue (s : RequestSequencer) (rxTime : Nanos) (request : Submission) :
    List (List Submission) → Except Fault RequestSequencer → Prop
  | room (hroom : s.isFull = false) :
      Enqueue s rxTime request []
        (s.store { request with request.recvTime := rxTime })
  | full {out : List Submission} {s' : RequestSequencer} (hfull : s.isFull = true)
      (hflush : Flush s out s') :
      Enqueue s rxTime request [out]
        (s'.store { request with request.recvTime := rxTime })

/-! ## The buffer -/

variable {s s' : RequestSequencer} {x : Submission}

lemma window_eq_nil (h : s.pendingSize = 0) : s.window = [] := by
  rw [window, h]
  rfl

lemma length_window (s : RequestSequencer) : s.window.length = s.pendingSize := by
  simp [window]

/-- A store appends to the buffered requests. -/
lemma window_store (h : s.store x = .ok s') : s'.window = s.window ++ [x] := by
  unfold store at h
  split_ifs at h
  rw [← Except.ok.inj h]
  simp only [window, List.range_succ, List.map_append, List.map_singleton, Function.update_self]
  congr 1
  refine List.map_congr_left fun i hi => ?_
  exact Function.update_of_ne (List.mem_range.mp hi).ne _ _

/-- What a flush passes on is the buffer in receive-time order, and it leaves the buffer empty. -/
lemma Flush.spec {out : List Submission} (h : Flush s out s') :
    out.Perm s.window ∧ out.Pairwise (fun a b => a.recvTime ≤ b.recvTime) ∧
      s'.pendingSize = 0 := by
  cases h with
  | idle hempty =>
    rw [window_eq_nil hempty]
    exact ⟨.refl _, .nil, hempty⟩
  | sort _ hsort => exact ⟨hsort.perm, hsort.sorted, rfl⟩

/-- Every rearrangement in receive-time order is a possible outcome of a flush. -/
lemma flush_of_perm (hsome : s.pendingSize ≠ 0) {out : List Submission} (hperm : out.Perm s.window)
    (hsorted : out.Pairwise fun a b => a.recvTime ≤ b.recvTime) :
    Flush s out ⟨fun i => out.getD i (s.pending i), 0⟩ := by
  have hlength : out.length = s.pendingSize := hperm.length_eq.trans (length_window s)
  set s' : RequestSequencer := ⟨fun i => out.getD i (s.pending i), s.pendingSize⟩ with hs'
  have hwindow : s'.window = out := by
    refine List.ext_getElem ?_ fun i hi hi' => ?_
    · rw [length_window, hlength]
    · simp [window, hs', hi']
  have hstale : ∀ i, s.pendingSize ≤ i → s'.pending i = s.pending i := by
    intro i hi
    exact List.getD_eq_default _ _ (hlength ▸ hi)
  have hsorts : Sorts s s' := by
    refine ⟨rfl, ?_, ?_, hstale⟩ <;> rw [hwindow]
    · exact hperm
    · exact hsorted
  have hflush := Flush.sort hsome hsorts
  rw [hwindow] at hflush
  exact hflush

lemma exists_flush (hsome : s.pendingSize ≠ 0) {out : List Submission} (hperm : out.Perm s.window)
    (hsorted : out.Pairwise fun a b => a.recvTime ≤ b.recvTime) : ∃ s', Flush s out s' :=
  ⟨_, flush_of_perm hsome hperm hsorted⟩

/-- Whether or not it has to flush first, `enqueue` has room for the request. -/
lemma Enqueue.eq_ok {rxTime : Nanos} {request : Submission} {outs : List (List Submission)}
    {r : Except Fault RequestSequencer} (h : Enqueue s rxTime request outs r) :
    ∃ s', r = .ok s' ∧ s'.pendingSize ≤ maxPendingGatewayRequests ∧
      (s.isFull = false ∧ outs = [] ∧
          s'.window = s.window ++ [{ request with request.recvTime := rxTime }] ∨
        s.isFull = true ∧ ∃ out, outs = [out] ∧ out.Perm s.window ∧
          out.Pairwise (fun a b => a.recvTime ≤ b.recvTime) ∧
          s'.window = [{ request with request.recvTime := rxTime }]) := by
  -- a store into a buffer that is not full succeeds
  have hstore : ∀ s₀ : RequestSequencer, s₀.pendingSize < maxPendingGatewayRequests →
      ∀ x, ∃ s', s₀.store x = .ok s' ∧ s'.pendingSize ≤ maxPendingGatewayRequests ∧
        s'.window = s₀.window ++ [x] := by
    intro s₀ hlt x
    have hok : s₀.store x = .ok _ := if_pos hlt
    exact ⟨_, hok, hlt, window_store hok⟩
  cases h with
  | room hroom =>
    obtain ⟨s', hok, hle, hwindow⟩ := hstore s (by simpa [isFull] using hroom) _
    exact ⟨s', hok, hle, .inl ⟨hroom, rfl, hwindow⟩⟩
  | @full out s₀ hfull hflush =>
    obtain ⟨hperm, hsorted, hempty⟩ := hflush.spec
    obtain ⟨s', hok, hle, hwindow⟩ := hstore s₀ (by rw [hempty]; decide) _
    rw [window_eq_nil hempty] at hwindow
    exact ⟨s', hok, hle, .inr ⟨hfull, out, rfl, hperm, hsorted, hwindow⟩⟩

/-! ## One of the outcomes

A schedule has to settle on one sort. -/

instance : Std.Total fun a b : Submission => a.recvTime ≤ b.recvTime :=
  ⟨fun a b => Int64.le_total a.recvTime b.recvTime⟩

instance : IsTrans Submission fun a b => a.recvTime ≤ b.recvTime :=
  ⟨fun _ _ _ => Int64.le_trans⟩

/-- The buffered requests by receive time, those with equal ones as they came in. -/
def ordered (s : RequestSequencer) : List Submission :=
  s.window.insertionSort fun a b => a.recvTime ≤ b.recvTime

/-- `flush` with a sort that leaves requests with equal receive times as they are. -/
def flush (s : RequestSequencer) : List Submission × RequestSequencer :=
  if s.pendingSize = 0 then ([], s)
  else (s.ordered, ⟨fun i => s.ordered.getD i (s.pending i), 0⟩)

/-- `enqueue` with such a sort. -/
def enqueue (s : RequestSequencer) (rxTime : Nanos) (request : Submission) :
    List (List Submission) × Except Fault RequestSequencer :=
  if s.isFull then
    ([s.flush.1], s.flush.2.store { request with request.recvTime := rxTime })
  else ([], s.store { request with request.recvTime := rxTime })

lemma flush_spec (s : RequestSequencer) : Flush s s.flush.1 s.flush.2 := by
  rw [flush]
  split_ifs with hempty
  · exact .idle hempty
  · exact flush_of_perm hempty (List.perm_insertionSort _ _) (List.pairwise_insertionSort _ _)

lemma enqueue_spec (s : RequestSequencer) (rxTime : Nanos) (request : Submission) :
    Enqueue s rxTime request (s.enqueue rxTime request).1 (s.enqueue rxTime request).2 := by
  rw [enqueue]
  split_ifs with hfull
  · exact .full hfull s.flush_spec
  · exact .room (Bool.not_eq_true _ ▸ hfull)

end RequestSequencer

end MatchingEngine
