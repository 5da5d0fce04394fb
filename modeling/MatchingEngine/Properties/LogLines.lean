import MatchingEngine.Common.Logging
import MatchingEngine.Common.SoloProducer

/-!
# Log lines

The logger's queue is built for one producer, and the threads of all symbols write to it.  If two
of them are in `pushLine` at the same time, both may be given the same slot: the lines overwrite
each other, and the counter runs ahead of the write index.

As long as a thread begins to push only when no other is at it, nothing is lost: this follows from
the invariant `SharedQueue.Ok` of such runs.
-/

namespace MatchingEngine

open Transitions

/-! ## What the consumer has read -/

namespace SharedQueue

variable {ι α : Type} [DecidableEq ι] {s s' : SharedQueue ι α} {unread : List α}
  {cur : ProducerState α}

/-- What the consumer has read is the beginning of what was begun, in order; and when the counter
is zero, it has read every element that was written. -/
def Exact (s : SharedQueue ι α) : Prop :=
  s.taken <+: s.begun ∧ (s.queue.numElements = 0 → s.taken = s.written)

lemma Ok.exact (h : s.Ok unread cur) : s.Exact := by
  refine ⟨?_, fun hzero => ?_⟩
  · rw [h.begun, List.append_assoc]
    exact List.prefix_append _ _
  · have hle := h.consumer.owed_le
    have hlength := h.length_written
    rw [hzero] at hle hlength
    exact h.taken_isPrefix.eq_of_length (by omega)

/-- In every run that begins an element only when no producer is at work and the ring has room,
every state is exact. -/
lemma exact_of_guarded {n : ℕ} (hn : 0 < n) (blank : α)
    (h : GuardedRun Next (fun s a => Bounded s a ∧ Alone s a) (ofCapacity n blank) s) :
    s.Exact := by
  have hok : ∃ unread cur, s.Ok unread cur := by
    refine GuardedRun.invariant (I := fun s : SharedQueue ι α => ∃ unread cur, s.Ok unread cur) h
      ⟨[], .idle, ok_ofCapacity hn blank⟩ ?_
    rintro s a s' hs ⟨hbounded, halone⟩ ⟨unread, cur, hok⟩
    exact hok.next hs hbounded halone
  obtain ⟨unread, cur, hok⟩ := hok
  exact hok.exact

end SharedQueue

/-! ## The logger -/

open SharedQueue

/-- For any number of threads and any interleaving with at most `LOG_QUEUE_SIZE` lines outstanding
in which no `pushLine` begins while another is under way: the lines in the file are the first lines
pushed, in order and once each, and whenever the queue is empty they are all the lines pushed. -/
theorem log_lines_exact {ι : Type} [DecidableEq ι] {s : Logger ι}
    (h : GuardedRun Next (fun s a => Bounded s a ∧ Alone s a) Logger.new s) :
    s.file <+: s.begun ∧ (s.queue.numElements = 0 → s.file = s.written) :=
  exact_of_guarded (by decide) _ h

/-- A whole `pushLine`. -/
def pushActions {ι : Type} (p : ι) (line : List Char) : List (SharedQueue.Action ι LogElement) :=
  [Logger.pushLine p line, .writeSlot p, .loadIndex p, .storeIndex p, .increment p]

/-- A round of `flushQueue`. -/
def flushActions {ι : Type} : List (SharedQueue.Action ι LogElement) :=
  [.getNextToRead, .testSize, .readSlot, .advanceIndex, .decrement]

/-- A second thread pushes when the first line is about to be read. -/
def inTurnActions : List (SharedQueue.Action Bool LogElement) :=
  pushActions false ['a'] ++ [.getNextToRead, .testSize] ++ pushActions true ['b'] ++
    [.readSlot, .advanceIndex, .decrement] ++ flushActions

/-- The lines of two threads are written to the file. -/
theorem log_lines_exact_two : ∃ s : Logger Bool, s.queue.numElements = 0 ∧
    s.begun = [.ofLine ['a'], .ofLine ['b']] ∧ s.file = [.ofLine ['a'], .ofLine ['b']] ∧
    s.file <+: s.begun := by
  have hplay : (inTurnActions.foldlM (play step id (fun s a => Bounded s a ∧ Alone s a)
      fun _ _ => true) (0, Logger.new)).any (fun e => decide (e.2.queue.numElements = 0 ∧
        e.2.begun = [.ofLine ['a'], .ofLine ['b']] ∧
        e.2.written = [.ofLine ['a'], .ofLine ['b']])) = true := by
    decide +kernel
  obtain ⟨_, s, hs, hcheck⟩ := CountedRun.exists_of_play hplay fun s a s' hstep =>
    show Next s a s' from hstep
  obtain ⟨hcount, hbegun, hwritten⟩ := of_decide_eq_true hcheck
  obtain ⟨hfirst, hall⟩ := log_lines_exact hs.run
  exact ⟨s, hcount, hbegun, (hall hcount).trans hwritten, hfirst⟩

/-- Two threads push side by side. -/
def atOnceActions : List (SharedQueue.Action Bool LogElement) :=
  [Logger.pushLine false ['a'], Logger.pushLine true ['b'], .writeSlot false, .writeSlot true,
    .loadIndex false, .loadIndex true, .storeIndex false, .storeIndex true, .increment false,
    .increment true] ++ flushActions ++ flushActions

/-- Two threads that push at the same time are given the same slot: the first line is lost, and
the file gets the second line and a blank one. -/
theorem log_line_lost :
    ∃ s : Logger Bool, GuardedRun Next Bounded Logger.new s ∧ s.queue.numElements = 0 ∧
      s.written = [.ofLine ['a'], .ofLine ['b']] ∧ s.file = [.ofLine ['b'], .ofLine []] ∧
      ¬ s.file <+: s.begun := by
  have hplay : (atOnceActions.foldlM (play step id Bounded fun _ _ => true) (0, Logger.new)).any
      (fun e => decide (e.2.queue.numElements = 0 ∧
        e.2.written = [.ofLine ['a'], .ofLine ['b']] ∧
        Logger.file e.2 = [.ofLine ['b'], .ofLine []] ∧
        ¬ Logger.file e.2 <+: e.2.begun)) = true := by
    decide +kernel
  obtain ⟨_, s, hs, hcheck⟩ := CountedRun.exists_of_play hplay fun s a s' hstep =>
    show Next s a s' from hstep
  exact ⟨s, hs.run, of_decide_eq_true hcheck⟩

end MatchingEngine
