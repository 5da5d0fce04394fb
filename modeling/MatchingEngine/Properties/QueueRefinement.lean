import MatchingEngine.Common.SoloProducer

/-!
# The queue between one producer and one consumer

An `LFQueue` is two indices and a counter, which are advanced one at a time.  In the middle of a
write the write index may be ahead of the counter, and in the middle of a read the counter ahead of
the read index, so that the three agree only when both threads are between operations.

`SharedQueue.Single` is what holds at all times if the producer begins to write only when the
counter is below the capacity: the invariant of a single producer at work, and that the element in
the producer's hands is not one too many for the counter.  The second part is what keeps the two
threads apart: the consumer counts an element off only when it is done with the slot.  From this,
the queue is a `BoundedFifo`: an element enters it when the counter is incremented, and leaves it
when the consumer reads the slot.
-/

namespace MatchingEngine

open Transitions

namespace ProducerState

variable {α : Type}

/-- One from the moment the producer begins until the counter is incremented. -/
def pending : ProducerState α → ℕ
  | .idle => 0
  | .slotTaken _ _ | .slotWritten _ | .indexLoaded _ _ | .indexStored _ => 1

/-- The slot the producer is writing; it is done with it when the write index moves on. -/
def writing (writeIndex : ℕ) : ProducerState α → Option ℕ
  | .slotTaken _ slot => some slot
  | .slotWritten _ | .indexLoaded _ _ => some writeIndex
  | .idle | .indexStored _ => none

end ProducerState

/-- The slot the consumer is reading; it is done with it when the read index moves on. -/
def ConsumerState.reading (readIndex : ℕ) : ConsumerState → Option ℕ
  | .slotTaken slot | .tested slot => some slot
  | .slotRead => some readIndex
  | .idle | .indexAdvanced | .failed => none

namespace SharedQueue

variable {α : Type}

/-- A write begins only when `num_elements_` is below the capacity. -/
def hasRoom {ι : Type} (s : SharedQueue ι α) : Action ι α → Bool
  | .takeSlot _ _ => s.queue.hasRoom
  | _ => true

/-- The invariant of a queue with one producer that begins only when there is room. -/
structure Single (n : ℕ) (s : SharedQueue Unit α) : Prop where
  capacity : s.queue.capacity = n
  ok : ∃ unread, s.Ok unread (s.producers ())
  reserved : s.queue.numElements + (s.producers ()).pending ≤ n

variable {n : ℕ} {s s' : SharedQueue Unit α} {unread : List α} {a : Action Unit α}

/-- The producer at work is the only one. -/
lemma Solo.eq_producer {producers : Unit → ProducerState α} {cur : ProducerState α}
    (h : Solo producers cur) : cur = producers () := by
  rcases h with ⟨hproducers, hcur⟩ | ⟨⟨⟩, hproducers⟩
  · rw [hproducers, hcur]
  · rw [hproducers, Function.update_self]

/-! ## Steps -/

/-- A producer that finds the counter below the capacity finds a free slot. -/
lemma Ok.bounded (h : s.Ok unread (s.producers ())) (hs : Next s a s')
    (hroom : s.hasRoom a = true) : s.Bounded a := by
  rintro p x rfl
  obtain ⟨hidle, -⟩ := next_takeSlot hs
  have hlt : s.queue.numElements < s.queue.capacity := of_decide_eq_true hroom
  have hbegun := congrArg List.length h.begun
  have hcount := h.count
  rw [show s.producers () = .idle from hidle] at hbegun hcount
  change s.queue.numElements + 0 = _ at hcount
  rw [List.length_append, List.length_append] at hbegun
  change s.begun.length = _ + 0 at hbegun
  omega

lemma alone (hs : Next s a s') : s.Alone a := by
  rintro p x rfl p'
  exact (next_takeSlot hs).1

lemma reserved_next (hs : Next s a s') (hroom : s.hasRoom a = true)
    (h : s.queue.numElements + (s.producers ()).pending ≤ s.queue.capacity) :
    s'.queue.numElements + (s'.producers ()).pending ≤ s.queue.capacity := by
  cases a with
  | takeSlot p x =>
    obtain ⟨-, rfl⟩ := next_takeSlot hs
    exact of_decide_eq_true hroom
  | writeSlot p =>
    obtain ⟨x, slot, hp, rfl⟩ := next_writeSlot hs
    rw [show s.producers () = _ from hp] at h
    exact h
  | loadIndex p =>
    obtain ⟨x, hp, rfl⟩ := next_loadIndex hs
    rw [show s.producers () = _ from hp] at h
    exact h
  | storeIndex p =>
    obtain ⟨x, index, hp, rfl⟩ := next_storeIndex hs
    rw [show s.producers () = _ from hp] at h
    exact h
  | increment p =>
    obtain ⟨x, hp, rfl⟩ := next_increment hs
    rw [show s.producers () = _ from hp] at h
    exact h
  | getNextToRead =>
    obtain ⟨-, ⟨-, rfl⟩ | rfl⟩ := next_getNextToRead hs
    · exact h
    · exact h
  | testSize =>
    obtain ⟨slot, -, rfl⟩ := next_testSize hs
    exact h
  | readSlot =>
    obtain ⟨slot, -, rfl⟩ := next_readSlot hs
    exact h
  | advanceIndex =>
    obtain ⟨-, rfl⟩ := next_advanceIndex hs
    exact h
  | decrement =>
    obtain ⟨-, ⟨-, rfl⟩ | ⟨-, rfl⟩⟩ := next_decrement hs
    · exact (Nat.add_le_add_right (Nat.sub_le _ 1) _).trans h
    · exact h

lemma single_ofCapacity (hn : 0 < n) (blank : α) : Single n (ofCapacity n blank) where
  capacity := rfl
  ok := ⟨[], ok_ofCapacity hn blank⟩
  reserved := Nat.zero_le n

/-- Whichever loop the consumer runs, a step is one of `step`. -/
lemma Single.next_of_nextIn (h : Single n s) {loop : ConsumerLoop} (hs : NextIn loop s a s') :
    Next s a s' := by
  obtain ⟨unread, hok⟩ := h.ok
  rwa [NextIn, hok.stepIn_eq] at hs

lemma Single.next (h : Single n s) (hs : Next s a s') (hroom : s.hasRoom a = true) :
    Single n s' := by
  obtain ⟨unread, hok⟩ := h.ok
  obtain ⟨unread', cur, hok'⟩ := hok.next hs (hok.bounded hs hroom) (alone hs)
  obtain rfl := hok'.solo.eq_producer
  refine ⟨(next_history hs).1.trans h.capacity, ⟨unread', hok'⟩, ?_⟩
  rw [← h.capacity]
  exact reserved_next hs hroom (h.reserved.trans_eq h.capacity.symm)

/-! ## Slots and indices -/

/-- The slot being written is not the slot being read. -/
def Apart (s : SharedQueue Unit α) : Prop :=
  ∀ slot, (s.producers ()).writing s.queue.nextWriteIndex = some slot →
    s.consumer.reading s.queue.nextReadIndex ≠ some slot

/-- A producer that is writing has one element in hand and is at the write index. -/
lemma Ok.writing {cur : ProducerState α} (h : s.Ok unread cur) {slot : ℕ}
    (hwriting : cur.writing s.queue.nextWriteIndex = some slot) :
    slot = (s.taken.length + unread.length) % s.queue.capacity ∧ cur.pending = 1 ∧
      unread.length < s.queue.capacity ∧
      s.queue.numElements = unread.length + s.consumer.owed := by
  rw [← h.writeIndex]
  cases cur with
  | idle | indexStored => cases hwriting
  | slotTaken x i => exact ⟨(Option.some.inj hwriting).symm.trans h.usesIndex, rfl, h.room, h.count⟩
  | slotWritten x => exact ⟨(Option.some.inj hwriting).symm, rfl, h.room, h.count⟩
  | indexLoaded x i => exact ⟨(Option.some.inj hwriting).symm, rfl, h.room, h.count⟩

lemma Single.apart (h : Single n s) : s.Apart := by
  intro slot hwriting hreading
  obtain ⟨unread, hok⟩ := h.ok
  obtain ⟨hslot, hpending, hlt, hcount⟩ := hok.writing hwriting
  have hreserved := h.reserved.trans_eq h.capacity.symm
  have hconsumer := hok.consumer
  rw [hpending] at hreserved
  -- the producer is as many slots ahead of the consumer as there are elements in between
  cases hc : s.consumer with
  | idle | indexAdvanced | failed =>
    rw [hc] at hreading
    cases hreading
  | slotTaken i | tested i =>
    rw [hc] at hreading hconsumer hcount
    obtain rfl := Option.some.inj hreading
    obtain ⟨hi, hindex, hpos⟩ := hconsumer
    have hahead : 0 < unread.length := hpos.trans_eq hcount
    exact RingBuffers.add_mod_ne hahead hlt ((hi.trans hindex).symm.trans hslot)
  | slotRead =>
    rw [hc] at hreading hconsumer hcount
    obtain rfl := Option.some.inj hreading
    obtain ⟨hindex, -⟩ := hconsumer
    have hahead : unread.length + 1 < s.queue.capacity := hcount ▸ hreserved
    have hread : s.queue.nextReadIndex % s.queue.capacity = s.queue.nextReadIndex := by
      rw [hslot, Nat.mod_mod]
    have hwrite : s.queue.nextReadIndex =
        (s.queue.nextReadIndex + (unread.length + 1)) % s.queue.capacity := by
      rw [Nat.add_comm unread.length, ← Nat.add_assoc, ← Nat.mod_add_mod, hindex, Nat.mod_add_mod]
      exact hslot
    exact RingBuffers.add_mod_ne (Nat.succ_pos _) hahead (hread.trans hwrite)

lemma Single.not_failed (h : Single n s) : s.consumer ≠ .failed := by
  intro hfailed
  obtain ⟨unread, hok⟩ := h.ok
  exact (hok.at_consumer hfailed).1

/-! ## Refinement -/

/-- What was written and not read fits into the ring. -/
lemma Single.length_written_le (h : Single n s) : s.written.length ≤ s.taken.length + n := by
  obtain ⟨unread, hok⟩ := h.ok
  have hlength := hok.length_written
  have hreserved := h.reserved
  omega

/-- The abstract queue has seen the same elements. -/
structure Refines (n : ℕ) (s : SharedQueue Unit α) (f : BoundedFifo α n) : Prop where
  single : Single n s
  enqueued : f.enqueued = s.written
  dequeued : f.dequeued = s.taken

/-- A step is an operation of the abstract queue or none. -/
lemma Refines.next {f : BoundedFifo α n} (h : Refines n s f) (hs : Next s a s')
    (hroom : s.hasRoom a = true) : ∃ f', Run BoundedFifo.Next f f' ∧ Refines n s' f' := by
  have hsingle := h.single.next hs hroom
  obtain ⟨-, ⟨hwritten, htaken⟩ | ⟨x, hwritten, htaken⟩ | ⟨x, hwritten, htaken⟩⟩ := next_history hs
  · exact ⟨f, .refl f, hsingle, h.enqueued.trans hwritten.symm, h.dequeued.trans htaken.symm⟩
  · have hfits : f.contents.length < n := by
      refine f.length_contents_lt x ?_
      rw [h.enqueued, h.dequeued, ← hwritten, ← htaken]
      exact hsingle.length_written_le
    refine ⟨f.enqueue x hfits, (Run.refl f).tail (.enqueue f x hfits), hsingle, ?_, ?_⟩
    · rw [hwritten, ← h.enqueued]
      rfl
    · exact h.dequeued.trans htaken.symm
  · obtain ⟨rest, hcontents⟩ : ∃ rest, f.contents = x :: rest := by
      obtain ⟨unread, hok⟩ := hsingle.ok
      refine f.exists_contents_eq ?_
      rw [h.enqueued, h.dequeued, ← hwritten, ← htaken]
      exact hok.taken_isPrefix
    refine ⟨f.dequeue hcontents, (Run.refl f).tail (.dequeue f hcontents), hsingle, ?_, ?_⟩
    · exact h.enqueued.trans hwritten.symm
    · rw [htaken, ← h.dequeued]
      rfl

/-- When neither thread is in the middle of an operation, the ring holds what is in the abstract
queue. -/
lemma Refines.holds {f : BoundedFifo α n} (h : Refines n s f) (hproducer : s.producers () = .idle)
    (hconsumer : s.consumer = .idle) : s.queue.Holds f.contents := by
  obtain ⟨unread, hok⟩ := h.single.ok
  rw [hproducer] at hok
  obtain ⟨hholds, hwritten⟩ := hok.holds hconsumer
  have hcontents : f.contents = unread := by
    have hinOrder := f.inOrder
    rw [h.enqueued, h.dequeued, ← hwritten] at hinOrder
    exact List.append_cancel_left hinOrder
  rwa [hcontents]

/-- Every run in which writes begin with room in the queue is a run of the bounded queue. -/
lemma refines_of_guarded {loop : ConsumerLoop} (hn : 0 < n) (blank : α)
    (h : GuardedRun (NextIn loop) (fun s a => s.hasRoom a = true) (ofCapacity n blank) s) :
    ∃ f : BoundedFifo α n, Run BoundedFifo.Next .empty f ∧ Refines n s f := by
  refine Run.simulation h ⟨single_ofCapacity hn blank, rfl, rfl⟩ ?_
  rintro s a s' f ⟨hs, hroom⟩ hrefines
  exact hrefines.next (hrefines.single.next_of_nextIn hs) hroom

end SharedQueue

open SharedQueue

/-- For every capacity, either loop of the consumer and every interleaving in which the producer
begins to write only when `num_elements_` is below the capacity: the history of the queue is one of
a bounded FIFO, whose contents the ring holds whenever both threads are between operations; what the
consumer has read is the beginning of what was written, in order; the slot being read is not the
slot being written; the assertion of `updateReadIndex` has not failed; and between operations the
indices are as far apart as the counter says. -/
theorem queue_refines_fifo {α : Type} (loop : ConsumerLoop) {n : ℕ} (hn : 0 < n) (blank : α)
    {s : SharedQueue Unit α}
    (h : GuardedRun (NextIn loop) (fun s a => s.hasRoom a = true) (ofCapacity n blank) s) :
    (∃ f : BoundedFifo α n, Run BoundedFifo.Next .empty f ∧ f.enqueued = s.written ∧
        f.dequeued = s.taken ∧
        (s.producers () = .idle → s.consumer = .idle → s.queue.Holds f.contents)) ∧
      s.taken <+: s.written ∧ s.Apart ∧ s.consumer ≠ .failed ∧
      (s.producers () = .idle → s.consumer = .idle →
        (s.queue.nextReadIndex + s.queue.numElements) % n = s.queue.nextWriteIndex) := by
  obtain ⟨f, hrun, hrefines⟩ := refines_of_guarded hn blank h
  have hsingle := hrefines.single
  refine ⟨⟨f, hrun, hrefines.enqueued, hrefines.dequeued, hrefines.holds⟩, ?_, hsingle.apart,
    hsingle.not_failed, fun hproducer hconsumer => ?_⟩
  · rw [← hrefines.enqueued, ← hrefines.dequeued]
    exact f.dequeued_isPrefix
  · have hholds := hrefines.holds hproducer hconsumer
    rw [hholds.writeIndex, hholds.count, hsingle.capacity]

/-- A third element is begun while the first two are read. -/
def turnedActions : List (SharedQueue.Action Unit ℕ) :=
  [.takeSlot () 5, .writeSlot (), .loadIndex (), .storeIndex (), .increment (),
    .takeSlot () 6, .getNextToRead, .writeSlot (), .testSize, .loadIndex (), .storeIndex (),
    .readSlot, .advanceIndex, .increment (), .decrement, .takeSlot () 7, .getNextToRead, .testSize]

/-- In a ring of two slots the producer has turned round to the slot of the first element, while
the consumer is at the second. -/
theorem queue_refines_fifo_turned :
    ∃ s : SharedQueue Unit ℕ,
      GuardedRun (NextIn .pointer) (fun s a => s.hasRoom a = true) (ofCapacity 2 0) s ∧
      s.producers () = .slotTaken 7 0 ∧ s.consumer = .tested 1 ∧ s.written = [5, 6] ∧
      s.taken <+: s.written ∧ s.Apart := by
  obtain ⟨n, s, hplay, hproducer, hconsumer, hwritten⟩ : ∃ n, ∃ s : SharedQueue Unit ℕ,
      turnedActions.foldlM (play (stepIn .pointer) id (fun s a => s.hasRoom a = true)
        fun _ _ => true) (0, ofCapacity 2 0) = some (n, s) ∧
      s.producers () = .slotTaken 7 0 ∧ s.consumer = .tested 1 ∧ s.written = [5, 6] :=
    ⟨_, _, rfl, rfl, rfl, rfl⟩
  have hrun : GuardedRun (NextIn .pointer) (fun s a => s.hasRoom a = true) (ofCapacity 2 0) s :=
    (CountedRun.of_foldlM (fun _ _ _ hstep => hstep) hplay).run
  obtain ⟨-, htaken, hapart, -⟩ := queue_refines_fifo .pointer Nat.two_pos 0 hrun
  exact ⟨s, hrun, hproducer, hconsumer, hwritten, htaken, hapart⟩

end MatchingEngine
