import MatchingEngine.Common.LockFreeQueue
import MatchingEngine.Framework.Transition

/-!
# A queue in use, access by access

`Common/LockFreeQueue.lean` takes a write and a read of an `LFQueue` as one operation each.  Here
the threads that use a queue are interleaved: each access to a slot, an index or the counter is a
step of its own, and a thread may be stopped between any two of them.

A producer takes a slot pointer, writes the slot, loads the write index, stores the index after it,
and increments the counter.  The consumer runs the loop
`for (p = getNextToRead(); size() && p; p = getNextToRead()) { use(*p); updateReadIndex(); }`,
which tests the counter twice for every element.  The read index is written by the consumer only,
so loading it is part of the step that uses it.  Any number of producers may use the queue; the
class is written for one.

`MatchingCore::run` has another loop, which tests the size once for every element.  `ConsumerLoop`
says which of the two the consumer runs, and `stepIn` is `step` for either.
-/

namespace MatchingEngine

/-- Where a producer is in writing an element. -/
inductive ProducerState (α : Type)
  | idle
  /-- It holds the pointer `getNextToWriteTo` returned. -/
  | slotTaken (x : α) (slot : ℕ)
  | slotWritten (x : α)
  /-- It has loaded `next_write_index_`. -/
  | indexLoaded (x : α) (index : ℕ)
  /-- It has stored `next_write_index_`, and has yet to increment `num_elements_`. -/
  | indexStored (x : α)

/-- Where the consumer is in its loop. -/
inductive ConsumerState
  | idle
  /-- It holds the pointer `getNextToRead` returned. -/
  | slotTaken (slot : ℕ)
  /-- The condition of the loop holds. -/
  | tested (slot : ℕ)
  | slotRead
  | indexAdvanced
  /-- The assertion of `updateReadIndex` has failed. -/
  | failed
  deriving DecidableEq, Repr

/-- The loops that consumers run. -/
inductive ConsumerLoop
  /-- `flushQueue`, `drainResponses` and the readers of market data test both. -/
  | sizeAndPointer
  /-- `MatchingCore::run` tests the pointer. -/
  | pointer
  deriving DecidableEq, Repr

/-- A queue, the threads at it, and the history: the elements whose write has begun, those whose
write is complete, and those the consumer has read. -/
structure SharedQueue (ι α : Type) where
  queue : LFQueue α
  producers : ι → ProducerState α
  consumer : ConsumerState
  begun : List α
  written : List α
  taken : List α

namespace SharedQueue

variable {ι α : Type}

/-- An empty queue at which nothing has happened. -/
def ofCapacity (numElems : ℕ) (blank : α) : SharedQueue ι α where
  queue := .ofCapacity numElems blank
  producers := fun _ => .idle
  consumer := .idle
  begun := []
  written := []
  taken := []

/-- A step of a producer `p`, or of the consumer. -/
inductive Action (ι α : Type)
  | takeSlot (p : ι) (x : α)
  | writeSlot (p : ι)
  | loadIndex (p : ι)
  | storeIndex (p : ι)
  | increment (p : ι)
  | getNextToRead
  | testSize
  | readSlot
  | advanceIndex
  | decrement

variable [DecidableEq ι]

/-- The producer `p` goes on to `st`. -/
def setProducer (s : SharedQueue ι α) (p : ι) (st : ProducerState α) : SharedQueue ι α :=
  { s with producers := Function.update s.producers p st }

/-- The state after an action, if it is the thread's next one. -/
def step (s : SharedQueue ι α) : Action ι α → Option (SharedQueue ι α)
  | .takeSlot p x =>
    match s.producers p with
    | .idle => some { s.setProducer p (.slotTaken x s.queue.nextWriteIndex) with
        begun := s.begun ++ [x] }
    | _ => none
  | .writeSlot p =>
    match s.producers p with
    | .slotTaken x slot => some { s.setProducer p (.slotWritten x) with
        queue := { s.queue with store := Function.update s.queue.store slot x } }
    | _ => none
  | .loadIndex p =>
    match s.producers p with
    | .slotWritten x => some (s.setProducer p (.indexLoaded x s.queue.nextWriteIndex))
    | _ => none
  | .storeIndex p =>
    match s.producers p with
    | .indexLoaded x index => some { s.setProducer p (.indexStored x) with
        queue := { s.queue with nextWriteIndex := (index + 1) % s.queue.capacity } }
    | _ => none
  | .increment p =>
    match s.producers p with
    | .indexStored x => some { s.setProducer p .idle with
        queue := { s.queue with numElements := s.queue.numElements + 1 }
        written := s.written ++ [x] }
    | _ => none
  | .getNextToRead =>
    match s.consumer with
    | .idle => some (if s.queue.numElements ≠ 0 then
        { s with consumer := .slotTaken s.queue.nextReadIndex } else s)
    | _ => none
  | .testSize =>
    match s.consumer with
    | .slotTaken slot => some { s with
        consumer := if s.queue.numElements ≠ 0 then .tested slot else .idle }
    | _ => none
  | .readSlot =>
    match s.consumer with
    | .tested slot =>
      some { s with consumer := .slotRead, taken := s.taken ++ [s.queue.store slot] }
    | _ => none
  | .advanceIndex =>
    match s.consumer with
    | .slotRead => some { s with
        consumer := .indexAdvanced
        queue := { s.queue with nextReadIndex := (s.queue.nextReadIndex + 1) % s.queue.capacity } }
    | _ => none
  | .decrement =>
    match s.consumer with
    | .indexAdvanced => some (if s.queue.numElements ≠ 0 then
        { s with
          consumer := .idle
          queue := { s.queue with numElements := s.queue.numElements - 1 } }
        else { s with consumer := .failed })
    | _ => none

/-- `step` as a transition relation. -/
def Next (s : SharedQueue ι α) (a : Action ι α) (s' : SharedQueue ι α) : Prop := s.step a = some s'

/-- `step` for a consumer that runs `loop`.  To test the pointer is not to access the queue. -/
def stepIn (loop : ConsumerLoop) (s : SharedQueue ι α) (a : Action ι α) :
    Option (SharedQueue ι α) :=
  match loop, a, s.consumer with
  | .pointer, .testSize, .slotTaken slot => some { s with consumer := .tested slot }
  | _, _, _ => s.step a

/-- `stepIn` as a transition relation. -/
def NextIn (loop : ConsumerLoop) (s : SharedQueue ι α) (a : Action ι α) (s' : SharedQueue ι α) :
    Prop :=
  s.stepIn loop a = some s'

/-! ## What a step does -/

section Inversion

variable {s s' : SharedQueue ι α} {p : ι} {x : α}

lemma next_takeSlot (h : Next s (.takeSlot p x) s') :
    s.producers p = .idle ∧ s' = { s.setProducer p (.slotTaken x s.queue.nextWriteIndex) with
      begun := s.begun ++ [x] } := by
  cases hp : s.producers p <;> simp only [Next, step, hp, Option.some.injEq, reduceCtorEq] at h
  exact ⟨rfl, h.symm⟩

lemma next_writeSlot (h : Next s (.writeSlot p) s') :
    ∃ x slot, s.producers p = .slotTaken x slot ∧ s' = { s.setProducer p (.slotWritten x) with
      queue := { s.queue with store := Function.update s.queue.store slot x } } := by
  cases hp : s.producers p <;> simp only [Next, step, hp, Option.some.injEq, reduceCtorEq] at h
  exact ⟨_, _, rfl, h.symm⟩

lemma next_loadIndex (h : Next s (.loadIndex p) s') :
    ∃ x, s.producers p = .slotWritten x ∧
      s' = s.setProducer p (.indexLoaded x s.queue.nextWriteIndex) := by
  cases hp : s.producers p <;> simp only [Next, step, hp, Option.some.injEq, reduceCtorEq] at h
  exact ⟨_, rfl, h.symm⟩

lemma next_storeIndex (h : Next s (.storeIndex p) s') :
    ∃ x index, s.producers p = .indexLoaded x index ∧
      s' = { s.setProducer p (.indexStored x) with
        queue := { s.queue with nextWriteIndex := (index + 1) % s.queue.capacity } } := by
  cases hp : s.producers p <;> simp only [Next, step, hp, Option.some.injEq, reduceCtorEq] at h
  exact ⟨_, _, rfl, h.symm⟩

lemma next_increment (h : Next s (.increment p) s') :
    ∃ x, s.producers p = .indexStored x ∧ s' = { s.setProducer p .idle with
      queue := { s.queue with numElements := s.queue.numElements + 1 }
      written := s.written ++ [x] } := by
  cases hp : s.producers p <;> simp only [Next, step, hp, Option.some.injEq, reduceCtorEq] at h
  exact ⟨_, rfl, h.symm⟩

lemma next_getNextToRead (h : Next s .getNextToRead s') :
    s.consumer = .idle ∧ (s.queue.numElements ≠ 0 ∧
        s' = { s with consumer := .slotTaken s.queue.nextReadIndex } ∨ s' = s) := by
  cases hc : s.consumer <;> simp only [Next, step, hc, Option.some.injEq, reduceCtorEq] at h
  refine ⟨rfl, ?_⟩
  split_ifs at h with hne
  · exact .inl ⟨hne, h.symm⟩
  · exact .inr h.symm

lemma next_testSize (h : Next s .testSize s') :
    ∃ slot, s.consumer = .slotTaken slot ∧ s' = { s with
      consumer := if s.queue.numElements ≠ 0 then .tested slot else .idle } := by
  cases hc : s.consumer <;> simp only [Next, step, hc, Option.some.injEq, reduceCtorEq] at h
  exact ⟨_, rfl, h.symm⟩

lemma next_readSlot (h : Next s .readSlot s') :
    ∃ slot, s.consumer = .tested slot ∧ s' = { s with
      consumer := .slotRead, taken := s.taken ++ [s.queue.store slot] } := by
  cases hc : s.consumer <;> simp only [Next, step, hc, Option.some.injEq, reduceCtorEq] at h
  exact ⟨_, rfl, h.symm⟩

lemma next_advanceIndex (h : Next s .advanceIndex s') :
    s.consumer = .slotRead ∧ s' = { s with
      consumer := .indexAdvanced
      queue := { s.queue with
        nextReadIndex := (s.queue.nextReadIndex + 1) % s.queue.capacity } } := by
  cases hc : s.consumer <;> simp only [Next, step, hc, Option.some.injEq, reduceCtorEq] at h
  exact ⟨rfl, h.symm⟩

lemma next_decrement (h : Next s .decrement s') :
    s.consumer = .indexAdvanced ∧ (s.queue.numElements ≠ 0 ∧ s' = { s with
        consumer := .idle
        queue := { s.queue with numElements := s.queue.numElements - 1 } } ∨
      s.queue.numElements = 0 ∧ s' = { s with consumer := .failed }) := by
  cases hc : s.consumer <;> simp only [Next, step, hc, Option.some.injEq, reduceCtorEq] at h
  refine ⟨rfl, ?_⟩
  split_ifs at h with hne
  · exact .inl ⟨hne, h.symm⟩
  · exact .inr ⟨not_not.mp hne, h.symm⟩

/-- The capacity never changes, and the history grows by at most one element. -/
lemma next_history {a : Action ι α} (h : Next s a s') :
    s'.queue.capacity = s.queue.capacity ∧
      (s'.written = s.written ∧ s'.taken = s.taken ∨
        (∃ x, s'.written = s.written ++ [x] ∧ s'.taken = s.taken) ∨
        ∃ x, s'.written = s.written ∧ s'.taken = s.taken ++ [x]) := by
  cases a with
  | takeSlot p x =>
    obtain ⟨-, rfl⟩ := next_takeSlot h
    exact ⟨rfl, .inl ⟨rfl, rfl⟩⟩
  | writeSlot p =>
    obtain ⟨x, slot, -, rfl⟩ := next_writeSlot h
    exact ⟨rfl, .inl ⟨rfl, rfl⟩⟩
  | loadIndex p =>
    obtain ⟨x, -, rfl⟩ := next_loadIndex h
    exact ⟨rfl, .inl ⟨rfl, rfl⟩⟩
  | storeIndex p =>
    obtain ⟨x, index, -, rfl⟩ := next_storeIndex h
    exact ⟨rfl, .inl ⟨rfl, rfl⟩⟩
  | increment p =>
    obtain ⟨x, -, rfl⟩ := next_increment h
    exact ⟨rfl, .inr (.inl ⟨x, rfl, rfl⟩)⟩
  | getNextToRead =>
    obtain ⟨-, ⟨-, rfl⟩ | rfl⟩ := next_getNextToRead h
    · exact ⟨rfl, .inl ⟨rfl, rfl⟩⟩
    · exact ⟨rfl, .inl ⟨rfl, rfl⟩⟩
  | testSize =>
    obtain ⟨slot, -, rfl⟩ := next_testSize h
    exact ⟨rfl, .inl ⟨rfl, rfl⟩⟩
  | readSlot =>
    obtain ⟨slot, -, rfl⟩ := next_readSlot h
    exact ⟨rfl, .inr (.inr ⟨_, rfl, rfl⟩)⟩
  | advanceIndex =>
    obtain ⟨-, rfl⟩ := next_advanceIndex h
    exact ⟨rfl, .inl ⟨rfl, rfl⟩⟩
  | decrement =>
    obtain ⟨-, ⟨-, rfl⟩ | ⟨-, rfl⟩⟩ := next_decrement h
    · exact ⟨rfl, .inl ⟨rfl, rfl⟩⟩
    · exact ⟨rfl, .inl ⟨rfl, rfl⟩⟩

end Inversion

end SharedQueue

end MatchingEngine
