import MatchingEngine.Common.LoggerThread
import MatchingEngine.Framework.DelimitedText
import MatchingEngine.Properties.LogLines

/-!
# Closing a logger

The destructor of a logger waits for the queue to be empty, but the counter it looks at is not all
there is to a queue: a line may be read and not yet counted off, and the background thread may be
anywhere in its loop when `running_` is cleared.  Nothing is lost for all that.  If the lines are
pushed one at a time and the last `pushLine` has returned when the destructor is called, then the
destructor can always go on to its end, and at its end the file holds every line (`logger_close`).

A line too long for a slot loses its newline and runs on into the next, so that the file is read
back as the lines that were logged exactly if there is no such line (`log_file_readable`).
-/

namespace MatchingEngine

open Transitions

/-! ## Draining the queue -/

/-- How far the consumer is in its round. -/
def ConsumerState.progress : ConsumerState → ℕ
  | .idle => 0
  | .slotTaken _ => 1
  | .tested _ => 2
  | .slotRead => 3
  | .indexAdvanced => 4
  | .failed => 5

namespace SharedQueue

variable {ι α : Type} [DecidableEq ι] {s : SharedQueue ι α} {unread : List α}
  {cur : ProducerState α}

/-- The steps the consumer has to take until the queue is empty. -/
def backlog (s : SharedQueue ι α) : ℕ := 5 * s.queue.numElements - s.consumer.progress

/-- The consumer of an empty queue is between two rounds. -/
lemma Ok.idle_of_empty (h : s.Ok unread cur) (hempty : s.queue.numElements = 0) :
    s.consumer = .idle := by
  have hconsumer := h.consumer
  rw [hempty] at hconsumer
  cases hc : s.consumer with
  | idle => rfl
  | failed =>
    rw [hc] at hconsumer
    exact hconsumer.elim
  | slotTaken slot =>
    rw [hc] at hconsumer
    exact absurd hconsumer.2.2 (Nat.lt_irrefl 0)
  | tested slot =>
    rw [hc] at hconsumer
    exact absurd hconsumer.2.2 (Nat.lt_irrefl 0)
  | slotRead =>
    rw [hc] at hconsumer
    exact absurd hconsumer.2 (Nat.lt_irrefl 0)
  | indexAdvanced =>
    rw [hc] at hconsumer
    exact absurd hconsumer.2 (Nat.lt_irrefl 0)

/-- While the queue is not empty, the consumer can go on, and does not leave its loop. -/
lemma Ok.exists_read (h : s.Ok unread cur) (hne : s.queue.numElements ≠ 0) :
    ∃ a s', a.isWrite = false ∧ Next s a s' ∧ ¬ (a.isTest ∧ s'.consumer = .idle) ∧
      s'.backlog < s.backlog := by
  have hconsumer := h.consumer
  cases hc : s.consumer with
  | idle =>
    refine ⟨.getNextToRead, { s with consumer := .slotTaken s.queue.nextReadIndex }, rfl, ?_,
      by simp, ?_⟩
    · simp only [Next, step, hc, if_pos hne]
    · simp only [backlog, ConsumerState.progress, hc]
      omega
  | slotTaken slot =>
    refine ⟨.testSize, { s with consumer := .tested slot }, rfl, ?_, by simp, ?_⟩
    · simp only [Next, step, hc, if_pos hne]
    · simp only [backlog, ConsumerState.progress, hc]
      omega
  | tested slot =>
    refine ⟨.readSlot, _, rfl, by simp only [Next, step, hc]; rfl, by simp [Action.isTest], ?_⟩
    simp only [backlog, ConsumerState.progress, hc]
    omega
  | slotRead =>
    refine ⟨.advanceIndex, _, rfl, by simp only [Next, step, hc]; rfl, by simp [Action.isTest], ?_⟩
    simp only [backlog, ConsumerState.progress, hc]
    omega
  | indexAdvanced =>
    refine ⟨.decrement, _, rfl, by simp only [Next, step, hc, if_pos hne]; rfl,
      by simp [Action.isTest], ?_⟩
    simp only [backlog, ConsumerState.progress, hc]
    omega
  | failed =>
    rw [hc] at hconsumer
    exact hconsumer.elim

end SharedQueue

/-! ## The destructor -/

namespace Closer

/-- The destructor has found the queue empty. -/
def seenEmpty : Closer → Bool
  | .outside | .waiting => false
  | .emptied | .joining | .closed => true

/-- The destructor has cleared `running_`. -/
def hasStopped : Closer → Bool
  | .outside | .waiting | .emptied => false
  | .joining | .closed => true

end Closer

namespace LoggerThread

open SharedQueue

variable {ι : Type} [DecidableEq ι] {t t' : LoggerThread ι} {a : Action ι}

/-- Lines are pushed one at a time into a queue with room, and none when the destructor is called or
after. -/
def Proper (t : LoggerThread ι) : Action ι → Prop
  | .push a => t.logger.Bounded a ∧ t.logger.Alone a ∧
      ∀ p x, a = .takeSlot p x → t.closer = .outside
  | .destroy => ∀ p, t.logger.producers p = .idle
  | _ => True

instance [Fintype ι] (t : LoggerThread ι) (a : Action ι) : Decidable (t.Proper a) :=
  match a with
  | .push a => inferInstanceAs (Decidable (t.logger.Bounded a ∧ t.logger.Alone a ∧
      ∀ p x, a = .takeSlot p x → t.closer = .outside))
  | .destroy => inferInstanceAs (Decidable (∀ p, t.logger.producers p = .idle))
  | .testRunning | .drain _ | .testEmpty | .stop | .join => .isTrue trivial

/-- The step is one of the background thread or of the destructor. -/
def Action.isOwn : Action ι → Bool
  | .push _ | .destroy => false
  | _ => true

omit [DecidableEq ι] in
lemma proper_of_isOwn (h : a.isOwn = true) : t.Proper a := by
  cases a with
  | push a => cases h
  | destroy => cases h
  | _ => trivial

/-- The invariant of a logger in proper use. -/
structure Live (t : LoggerThread ι) : Prop where
  queue : ∃ unread cur, t.logger.Ok unread cur
  between : t.flusher ≠ .draining → t.logger.consumer = .idle
  returned : t.flusher = .returned → t.running = false
  atRest : t.closer ≠ .outside → ∀ p, t.logger.producers p = .idle
  empty : t.closer.seenEmpty = true → t.logger.queue.numElements = 0
  running : t.running = !t.closer.hasStopped

lemma live_init : Live ({} : LoggerThread ι) where
  queue := ⟨[], .idle, ok_ofCapacity (by decide) _⟩
  between := fun _ => rfl
  returned := fun h => by cases h
  atRest := fun h => absurd rfl h
  empty := fun h => by cases h
  running := rfl

/-- Nothing is pushed once the destructor is called. -/
lemma Live.outside_of_push (h : Live t) {b : SharedQueue.Action ι LogElement} {l : Logger ι}
    (hwrite : b.isWrite = true) (hstep : t.logger.step b = some l) (hproper : t.Proper (.push b)) :
    t.closer = .outside := by
  obtain ⟨-, ⟨p, x, hb⟩ | ⟨p, hp⟩⟩ := next_of_isWrite hwrite hstep
  · exact hproper.2.2 p x hb
  · by_contra hcalled
    exact hp (h.atRest hcalled p)

lemma Live.push (h : Live t) {b : SharedQueue.Action ι LogElement} {l : Logger ι}
    (hwrite : b.isWrite = true) (hstep : t.logger.step b = some l) (hproper : t.Proper (.push b)) :
    Live { t with logger := l } := by
  obtain ⟨unread, cur, hok⟩ := h.queue
  have houtside := h.outside_of_push hwrite hstep hproper
  obtain ⟨hconsumer, -⟩ := next_of_isWrite hwrite hstep
  exact { h with
    queue := hok.next hstep hproper.1 hproper.2.1
    between := fun hpos => hconsumer.trans (h.between hpos)
    atRest := fun hcalled => absurd houtside hcalled
    empty := fun hseen => by
      have hseen : t.closer.seenEmpty = true := hseen
      rw [houtside] at hseen
      cases hseen }

lemma Live.drain (h : Live t) {b : SharedQueue.Action ι LogElement} {l : Logger ι}
    (hread : b.isWrite = false) (hstep : t.logger.step b = some l) :
    Live { t with
      logger := l
      flusher := if b.isTest ∧ l.consumer = .idle then .testing else .draining } := by
  obtain ⟨unread, cur, hok⟩ := h.queue
  obtain ⟨hproducers, -, hle⟩ := next_of_not_isWrite hread hstep
  have hne : ∀ p x, b ≠ .takeSlot p x := by
    rintro p x rfl
    cases hread
  refine
    { queue := hok.next hstep (fun p x hb => absurd hb (hne p x)) fun p x hb => absurd hb (hne p x)
      between := fun hpos' => ?_
      returned := fun hret => ?_
      atRest := fun hcalled p => ?_
      empty := fun hseen => Nat.le_zero.mp (hle.trans (Nat.le_of_eq (h.empty hseen)))
      running := h.running }
  · by_contra hbusy
    exact hpos' (if_neg fun hend => hbusy hend.2)
  · dsimp only at hret
    split at hret <;> cases hret
  · change l.producers p = .idle
    rw [hproducers]
    exact h.atRest hcalled p

/-- Every step in proper use keeps the invariant. -/
lemma Live.next (h : Live t) (hs : Next t a t') (hproper : t.Proper a) : Live t' := by
  cases hs with
  | push hwrite hstep => exact h.push hwrite hstep hproper
  | drain _ hread hstep => exact h.drain hread hstep
  | testRunning hpos =>
    refine { h with between := fun _ => h.between (by simp [hpos]), returned := fun hret => ?_ }
    dsimp only at hret
    split at hret
    · cases hret
    · next hstopped => exact Bool.eq_false_iff.mpr hstopped
  | destroy hpos =>
    have hrunning := h.running
    rw [hpos] at hrunning
    exact { h with
      atRest := fun _ => hproper
      empty := fun hseen => nomatch hseen
      running := hrunning }
  | testEmpty hpos =>
    have hrunning := h.running
    rw [hpos] at hrunning
    refine { h with
      atRest := fun _ => h.atRest (by simp [hpos]), empty := fun hseen => ?_, running := ?_ }
    · dsimp only at hseen
      split at hseen
      · cases hseen
      · next hzero => exact not_not.mp hzero
    · dsimp only
      split <;> exact hrunning
  | stop hpos =>
    exact { h with
      returned := fun _ => rfl
      atRest := fun _ => h.atRest (by simp [hpos])
      empty := fun _ => h.empty (by rw [hpos]; rfl)
      running := rfl }
  | join hpos hdone =>
    have hrunning := h.running
    rw [hpos] at hrunning
    exact { h with
      atRest := fun _ => h.atRest (by simp [hpos])
      empty := fun _ => h.empty (by rw [hpos]; rfl)
      running := hrunning }

lemma live_of_run (h : GuardedRun Next Proper ({} : LoggerThread ι) t) : Live t :=
  h.invariant live_init fun _ _ _ hs hproper hlive => hlive.next hs hproper

/-- After the destructor is called, the lines begun stay what they are. -/
lemma Live.begun_of_next (h : Live t) (hs : Next t a t') (hproper : t.Proper a)
    (hcalled : t.closer ≠ .outside) : t'.closer ≠ .outside ∧ t'.logger.begun = t.logger.begun := by
  cases hs with
  | push hwrite hstep => exact absurd (h.outside_of_push hwrite hstep hproper) hcalled
  | drain _ hread hstep => exact ⟨hcalled, (next_of_not_isWrite hread hstep).2.1⟩
  | testRunning hpos => exact ⟨hcalled, rfl⟩
  | destroy hpos => exact absurd hpos hcalled
  | testEmpty hpos =>
    refine ⟨?_, rfl⟩
    dsimp only
    split <;> simp
  | stop hpos => exact ⟨by simp, rfl⟩
  | join hpos hdone => exact ⟨by simp, rfl⟩

lemma Live.begun_of_run (h : Live t) (hrun : GuardedRun Next Proper t t')
    (hcalled : t.closer ≠ .outside) : Live t' ∧ t'.logger.begun = t.logger.begun := by
  have hkept : Live t' ∧ t'.closer ≠ .outside ∧ t'.logger.begun = t.logger.begun := by
    refine GuardedRun.invariant (I := fun u => Live u ∧ u.closer ≠ .outside ∧
      u.logger.begun = t.logger.begun) hrun ⟨h, hcalled, rfl⟩ ?_
    rintro u b u' hs hproper ⟨hlive, hcalled, hbegun⟩
    obtain ⟨hcalled', hsame⟩ := hlive.begun_of_next hs hproper hcalled
    exact ⟨hlive.next hs hproper, hcalled', hsame.trans hbegun⟩
  exact ⟨hkept.1, hkept.2.2⟩

/-- In the end every line that was begun is in the file. -/
lemma Live.file_eq (h : Live t) (hclosed : t.closer = .closed) :
    t.logger.file = t.logger.begun := by
  obtain ⟨unread, cur, hok⟩ := h.queue
  obtain ⟨rfl, -⟩ := hok.solo.idle (h.atRest (by simp [hclosed]))
  have hfile : t.logger.taken = t.logger.written :=
    hok.exact.2 (h.empty (by rw [hclosed]; rfl))
  calc t.logger.taken = t.logger.written ++ [] := by rw [hfile, List.append_nil]
    _ = t.logger.taken ++ unread ++ [] := by rw [hok.written]; exact (List.append_nil _).symm
    _ = t.logger.begun := hok.begun.symm

/-! ## The way to the end -/

/-- `t'` is reached by the background thread and the destructor alone. -/
def Ends (t t' : LoggerThread ι) : Prop := GuardedRun Next (fun _ a => a.isOwn = true) t t'

lemma Ends.proper (h : Ends t t') : GuardedRun Next Proper t t' :=
  Run.invariant h (GuardedRun.refl t) fun _ _ _ hs hrun => hrun.tail hs.1 (proper_of_isOwn hs.2)

/-- The background thread gets to the end of its loop over the queue. -/
lemma Live.exists_drained (h : Live t) (hpos : t.flusher = .draining) :
    ∃ l, Ends t { t with logger := l, flusher := .testing } ∧ l.queue.numElements = 0 := by
  induction hn : t.logger.backlog using Nat.strong_induction_on generalizing t with
  | _ n ih =>
    obtain ⟨unread, cur, hok⟩ := h.queue
    by_cases hempty : t.logger.queue.numElements = 0
    · have hidle := hok.idle_of_empty hempty
      have hstep : t.logger.step .getNextToRead = some t.logger := by
        simp only [SharedQueue.step, hidle, hempty, ne_eq, not_true_eq_false, if_false]
      have hs := Next.drain hpos rfl hstep
      rw [if_pos ⟨rfl, hidle⟩] at hs
      exact ⟨t.logger, (GuardedRun.refl t).tail hs rfl, hempty⟩
    · obtain ⟨b, l, hread, hstep, hstay, hlt⟩ := hok.exists_read hempty
      have hs := Next.drain hpos hread hstep
      rw [if_neg hstay] at hs
      have hlive := h.next hs trivial
      obtain ⟨l', hrun, hzero⟩ := ih l.backlog (hn ▸ hlt) hlive rfl rfl
      exact ⟨l', ((GuardedRun.refl t).tail hs rfl).trans hrun, hzero⟩

/-- The background thread gets out of its loop over the queue, and leaves the queue empty. -/
lemma Live.exists_between (h : Live t) :
    ∃ l flusher, Ends t { t with logger := l, flusher := flusher } ∧ flusher ≠ .draining ∧
      l.queue.numElements = 0 := by
  by_cases hpos : t.flusher = .draining
  · obtain ⟨l, hrun, hzero⟩ := h.exists_drained hpos
    exact ⟨l, .testing, hrun, by simp, hzero⟩
  by_cases hrunning : t.running = true
  · have htesting : t.flusher = .testing := by
      cases hf : t.flusher with
      | testing => rfl
      | draining => exact absurd hf hpos
      | returned =>
        rw [h.returned hf] at hrunning
        cases hrunning
    have hs := Next.testRunning htesting
    rw [if_pos hrunning] at hs
    obtain ⟨l, hrun, hzero⟩ := (h.next hs trivial).exists_drained rfl
    exact ⟨l, .testing, ((GuardedRun.refl t).tail hs rfl).trans hrun, by simp, hzero⟩
  · have hstopped : t.closer.hasStopped = true := by
      have := h.running
      rw [Bool.eq_false_iff.mpr hrunning] at this
      simpa using this.symm
    have hseen : t.closer.seenEmpty = true := by
      cases hc : t.closer <;> rw [hc] at hstopped <;> first | rfl | cases hstopped
    exact ⟨t.logger, t.flusher, GuardedRun.refl t, hpos, h.empty hseen⟩

lemma Live.exists_closed_of_joining (h : Live t) (hpos : t.flusher ≠ .draining)
    (hcloser : t.closer = .joining) : ∃ t', Ends t t' ∧ t'.closer = .closed := by
  have hrunning := h.running
  rw [hcloser] at hrunning
  cases hf : t.flusher with
  | draining => exact absurd hf hpos
  | returned => exact ⟨_, (GuardedRun.refl t).tail (.join hcloser hf) rfl, rfl⟩
  | testing =>
    have hs := Next.testRunning hf
    rw [hrunning, if_neg (by simp [Closer.hasStopped])] at hs
    exact ⟨_, ((GuardedRun.refl t).tail hs rfl).tail (.join hcloser rfl) rfl, rfl⟩

lemma Live.exists_closed_of_emptied (h : Live t) (hpos : t.flusher ≠ .draining)
    (hcloser : t.closer = .emptied) : ∃ t', Ends t t' ∧ t'.closer = .closed := by
  have hs := Next.stop hcloser
  obtain ⟨t', hrun, hclosed⟩ := (h.next hs trivial).exists_closed_of_joining hpos rfl
  exact ⟨t', ((GuardedRun.refl t).tail hs rfl).trans hrun, hclosed⟩

lemma Live.exists_closed_of_between (h : Live t) (hpos : t.flusher ≠ .draining)
    (hempty : t.logger.queue.numElements = 0) (hcalled : t.closer ≠ .outside) :
    ∃ t', Ends t t' ∧ t'.closer = .closed := by
  cases hc : t.closer with
  | outside => exact absurd hc hcalled
  | waiting =>
    have hs := Next.testEmpty hc
    rw [if_neg (not_not.mpr hempty)] at hs
    obtain ⟨t', hrun, hclosed⟩ := (h.next hs trivial).exists_closed_of_emptied hpos rfl
    exact ⟨t', ((GuardedRun.refl t).tail hs rfl).trans hrun, hclosed⟩
  | emptied => exact h.exists_closed_of_emptied hpos hc
  | joining => exact h.exists_closed_of_joining hpos hc
  | closed => exact ⟨t, GuardedRun.refl t, hc⟩

/-- The destructor, once called, can go on to its end. -/
lemma Live.exists_closed (h : Live t) (hcalled : t.closer ≠ .outside) :
    ∃ t', Ends t t' ∧ t'.closer = .closed := by
  obtain ⟨l, flusher, hrun, hpos, hempty⟩ := h.exists_between
  have hlive := (h.begun_of_run hrun.proper hcalled).1
  obtain ⟨t', hrun', hclosed⟩ := hlive.exists_closed_of_between hpos hempty hcalled
  exact ⟨t', hrun.trans hrun', hclosed⟩

/-- A logger whose destructor was called, after any number of threads pushed lines one at a time
into a queue with room: whatever the background thread was doing, the two can go on to the end, and
at the end, however it is reached, the file holds the lines that were pushed, in order and once
each. -/
theorem logger_close (h : GuardedRun Next Proper ({} : LoggerThread ι) t)
    (hcalled : t.closer ≠ .outside) :
    (∃ t', Ends t t' ∧ t'.closer = .closed) ∧
      ∀ t', GuardedRun Next Proper t t' → t'.closer = .closed →
        t'.logger.file = t.logger.begun := by
  have hlive := live_of_run h
  refine ⟨hlive.exists_closed hcalled, fun t' hrun hclosed => ?_⟩
  obtain ⟨hlive', hbegun⟩ := hlive.begun_of_run hrun hcalled
  rw [hlive'.file_eq hclosed, hbegun]

/-- What the gateway logs when it starts. -/
def gatewayLine : LogLine where
  time := "1970-01-01 00:00:00".toList
  level := "INFO".toList
  file := "order_server.h".toList
  line := 69
  func := "run".toList
  message := "OrderGatewayServer run loop starting".toList

/-- What the feed logs when it starts. -/
def feedLine : LogLine where
  time := "1970-01-01 00:00:00".toList
  level := "INFO".toList
  file := "market_data_feed.h".toList
  line := 58
  func := "run".toList
  message := "MarketDataFeed run loop starting".toList

/-- A second thread pushes its line while the first one is being written, and the destructor is
called before the background thread has got any further. -/
def closeActions : List (Action Bool) :=
  (pushActions false gatewayLine.lineBuf).map .push ++
    [.testRunning, .drain .getNextToRead, .drain .testSize, .drain .readSlot] ++
    (pushActions true feedLine.lineBuf).map .push ++ [.destroy]

/-- One line has been read and is not yet counted off, the other one has not been read. -/
lemma exists_destroyed : ∃ t : LoggerThread Bool, GuardedRun Next Proper {} t ∧
    t.closer = .waiting ∧ t.logger.queue.numElements = 2 ∧
    t.logger.begun = [.ofLine gatewayLine.lineBuf, .ofLine feedLine.lineBuf] := by
  have hplay : (closeActions.foldlM (play perform id Proper fun _ _ => true) (0, {})).any
      (fun e => decide (e.2.closer = .waiting ∧ e.2.logger.queue.numElements = 2 ∧
        e.2.logger.begun = [.ofLine gatewayLine.lineBuf, .ofLine feedLine.lineBuf])) = true := by
    decide +kernel
  obtain ⟨_, t, ht, hcheck⟩ := CountedRun.exists_of_play hplay fun t a t' hperform =>
    show Next t a t' from next_of_perform hperform
  exact ⟨t, ht.run, of_decide_eq_true hcheck⟩

/-- The logger is closed with both lines in the file. -/
theorem logger_close_two : ∃ t t' : LoggerThread Bool, t.closer = .waiting ∧
    t.logger.queue.numElements = 2 ∧ Ends t t' ∧ t'.closer = .closed ∧
    t'.logger.file = [.ofLine gatewayLine.lineBuf, .ofLine feedLine.lineBuf] := by
  obtain ⟨t, hrun, hwaiting, hcount, hbegun⟩ := exists_destroyed
  obtain ⟨⟨t', hends, hclosed⟩, hfile⟩ := logger_close hrun (by simp [hwaiting])
  exact ⟨t, t', hwaiting, hcount, hends, hclosed, hbegun ▸ hfile t' hends.proper hclosed⟩

end LoggerThread

/-! ## The file as lines -/

namespace LogLine

open DelimitedText

variable {l : LogLine} {lines : List LogLine}

/-- What the file is once every line is in it. -/
def fileText (lines : List LogLine) : List Char := lines.flatMap lineBuf

/-- A line that fits is passed on whole. -/
lemma Short.lineBuf_eq (h : l.Short) : l.lineBuf = l.text ++ ['\n'] := by
  refine List.take_of_length_le ?_
  rw [Short] at h
  rw [List.length_append, List.length_singleton]
  omega

/-- A line that does not fit loses its newline. -/
lemma lineBuf_of_not_short (h : ¬ l.Short) : l.lineBuf = l.text.take (logLineMaxLen - 1) := by
  refine List.take_append_of_le_length ?_
  rw [Short] at h
  omega

lemma lineBuf_ne_nil (l : LogLine) : l.lineBuf ≠ [] := by
  intro hnil
  have hlength := congrArg List.length hnil
  rw [lineBuf, List.length_take, List.length_append, List.length_singleton,
    List.length_nil] at hlength
  have : logLineMaxLen = 256 := rfl
  omega

lemma newline_not_mem_lineBuf (h : ¬ l.Short) (hl : '\n' ∉ l.text) : '\n' ∉ l.lineBuf := by
  rw [lineBuf_of_not_short h]
  exact fun hmem => hl (List.mem_of_mem_take hmem)

/-- The file has no more lines than were written to it. -/
lemma length_getlines_fileText (hlines : ∀ l ∈ lines, '\n' ∉ l.text) :
    (getlines '\n' (fileText lines)).length ≤ lines.length := by
  induction lines with
  | nil => simp [fileText]
  | cons l lines ih =>
    have hl := hlines l List.mem_cons_self
    have ih := ih fun l' hl' => hlines l' (List.mem_cons_of_mem _ hl')
    have hcons : fileText (l :: lines) = l.lineBuf ++ fileText lines := List.flatMap_cons
    rw [hcons, List.length_cons]
    by_cases hshort : l.Short
    · rw [hshort.lineBuf_eq, List.append_assoc, List.singleton_append, getlines_append hl]
      exact Nat.succ_le_succ ih
    · have hfree := newline_not_mem_lineBuf hshort hl
      by_cases hrest : fileText lines = []
      · rw [hrest, List.append_nil, getlines_last l.lineBuf_ne_nil hfree]
        exact Nat.succ_le_succ (Nat.zero_le _)
      · rw [length_getlines_append hfree hrest]
        exact ih.trans (Nat.le_succ _)

/-- The lines that stand in the file as they were printed: the last one may lose its newline. -/
def Readable : List LogLine → Prop
  | [] => True
  | [l] => l.text.length < logLineMaxLen
  | l :: l' :: lines => l.Short ∧ Readable (l' :: lines)

lemma getlines_fileText_single (hl : '\n' ∉ l.text) :
    getlines '\n' (fileText [l]) = [l.text] ↔ l.text.length < logLineMaxLen := by
  have hsingle : fileText [l] = l.lineBuf := by simp [fileText]
  rw [hsingle]
  by_cases hshort : l.Short
  · have hread : getlines '\n' l.lineBuf = [l.text] := by
      rw [hshort.lineBuf_eq, getlines_append hl, getlines_nil]
    exact iff_of_true hread (Nat.lt_of_succ_lt hshort)
  · rw [getlines_last l.lineBuf_ne_nil (newline_not_mem_lineBuf hshort hl),
      lineBuf_of_not_short hshort, List.singleton_inj, List.take_eq_self_iff]
    have : logLineMaxLen = 256 := rfl
    omega

/-- The file is read back as the lines exactly if no line is too long. -/
lemma getlines_fileText_iff (hlines : ∀ l ∈ lines, '\n' ∉ l.text) :
    getlines '\n' (fileText lines) = lines.map text ↔ Readable lines := by
  induction lines with
  | nil => simp [fileText, Readable]
  | cons l lines ih =>
    have hl := hlines l List.mem_cons_self
    have hrest : ∀ l' ∈ lines, '\n' ∉ l'.text := fun l' hl' =>
      hlines l' (List.mem_cons_of_mem _ hl')
    have hcons : fileText (l :: lines) = l.lineBuf ++ fileText lines := List.flatMap_cons
    cases lines with
    | nil => exact getlines_fileText_single hl
    | cons l' lines =>
      rw [hcons, List.map_cons, Readable]
      by_cases hshort : l.Short
      · rw [hshort.lineBuf_eq, List.append_assoc, List.singleton_append, getlines_append hl,
          List.cons_inj_right, ih hrest]
        exact (and_iff_right hshort).symm
      · -- the line runs on into the next one, and there is one line too few
        refine iff_of_false (fun hsame => ?_) fun hreadable => hshort hreadable.1
        have hne : fileText (l' :: lines) ≠ [] := by simp [fileText, lineBuf_ne_nil]
        have hlength := congrArg List.length hsame
        rw [length_getlines_append (newline_not_mem_lineBuf hshort hl) hne, List.length_cons,
          List.length_map] at hlength
        have hle := length_getlines_fileText hrest
        omega

end LogLine

open LogLine in
/-- A logger is used as in `logger_close`: lines are pushed one at a time into a queue with room,
and none when the destructor is called or after.  If the lines come from `LOG_LINE` and are free of
newlines, the file of the closed logger is read back as these lines exactly if all but the last fit
into a slot with their newline, and the last one fits without. -/
theorem log_file_readable {ι : Type} [DecidableEq ι] {t : LoggerThread ι} {lines : List LogLine}
    (h : GuardedRun LoggerThread.Next LoggerThread.Proper {} t) (hclosed : t.closer = .closed)
    (hpushed : t.logger.begun = lines.map fun l => LogElement.ofLine l.lineBuf)
    (hlines : ∀ l ∈ lines, '\n' ∉ l.text) :
    DelimitedText.getlines '\n' t.text = lines.map text ↔ Readable lines := by
  have htext : t.text = fileText lines := by
    rw [LoggerThread.text, (LoggerThread.live_of_run h).file_eq hclosed, hpushed, List.flatMap_map]
    refine congrArg (lines.flatMap ·) (funext fun l => ?_)
    exact List.take_of_length_le (List.length_take_le _ _)
  rw [htext]
  exact getlines_fileText_iff hlines

/-- The lines of the two threads. -/
def serviceLines : List LogLine := [LoggerThread.gatewayLine, LoggerThread.feedLine]

/-- They are read back. -/
theorem log_file_readable_two : ∃ t : LoggerThread Bool, t.closer = .closed ∧
    DelimitedText.getlines '\n' t.text =
      [LoggerThread.gatewayLine.text, LoggerThread.feedLine.text] := by
  obtain ⟨t, hrun, hwaiting, -, hbegun⟩ := LoggerThread.exists_destroyed
  have hlive := LoggerThread.live_of_run hrun
  have hcalled : t.closer ≠ .outside := by simp [hwaiting]
  obtain ⟨t', hends, hclosed⟩ := hlive.exists_closed hcalled
  have hbegun' := (hlive.begun_of_run hends.proper hcalled).2.trans hbegun
  have hiff : DelimitedText.getlines '\n' t'.text = serviceLines.map LogLine.text ↔
      LogLine.Readable serviceLines :=
    log_file_readable (hrun.trans hends.proper) hclosed hbegun' (by decide)
  exact ⟨t', hclosed, hiff.mpr ⟨show _ < _ by decide, show _ < _ by decide⟩⟩

end MatchingEngine
