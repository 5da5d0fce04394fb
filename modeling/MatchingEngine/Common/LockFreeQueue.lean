import MatchingEngine.Common.Types
import MatchingEngine.Framework.RingBuffer

/-!
# The lock-free queue

`LFQueue` (`Common/lock_free_queue.h`), the single-producer, single-consumer ring between any two
stages of the engine.  The producer never asks whether there is room: `write` goes ahead in any
case, and a full ring loses its oldest element.

`LFQueue.Holds q l` says that `l` is what the consumer will read, in order.  It is kept by reads,
and by writes into a ring that is not full.
-/

namespace MatchingEngine

structure LFQueue (α : Type) where
  store : ℕ → α
  /-- `store_.size()`, fixed at construction. -/
  capacity : ℕ
  nextWriteIndex : ℕ := 0
  nextReadIndex : ℕ := 0
  numElements : ℕ := 0

namespace LFQueue

variable {α : Type}

/-- An empty queue; `init` is the value the storage is filled with. -/
def ofCapacity (numElems : ℕ) (init : α) : LFQueue α where
  store := fun _ => init
  capacity := numElems

/-- `*(getNextToWriteTo()) = x`. -/
def setNextToWriteTo (q : LFQueue α) (x : α) : LFQueue α :=
  { q with store := Function.update q.store q.nextWriteIndex x }

def updateWriteIndex (q : LFQueue α) : LFQueue α :=
  { q with
    nextWriteIndex := (q.nextWriteIndex + 1) % q.capacity
    numElements := q.numElements + 1 }

/-- What every producer does: write the slot, then advance. -/
def write (q : LFQueue α) (x : α) : LFQueue α := (q.setNextToWriteTo x).updateWriteIndex

def getNextToRead (q : LFQueue α) : Option α :=
  if q.numElements ≠ 0 then some (q.store q.nextReadIndex) else none

def updateReadIndex (q : LFQueue α) : Except Fault (LFQueue α) :=
  if q.numElements ≠ 0 then
    .ok { q with
      nextReadIndex := (q.nextReadIndex + 1) % q.capacity
      numElements := q.numElements - 1 }
  else .error .readInvalid

/-- There is a slot that holds nothing the consumer has yet to read. -/
def hasRoom (q : LFQueue α) : Bool := q.numElements < q.capacity

/-- The queue holds `l`, oldest first. -/
structure Holds (q : LFQueue α) (l : List α) : Prop where
  slots : RingBuffers.Holds q.capacity q.store q.nextReadIndex l
  count : q.numElements = l.length
  readIndex : q.nextReadIndex < q.capacity
  writeIndex : q.nextWriteIndex = (q.nextReadIndex + l.length) % q.capacity

variable {q : LFQueue α} {l : List α} {x : α}

lemma holds_ofCapacity {n : ℕ} (hn : 0 < n) (init : α) : (ofCapacity n init).Holds [] :=
  ⟨RingBuffers.holds_nil, rfl, hn, (Nat.zero_mod n).symm⟩

lemma Holds.write (h : q.Holds l) (hroom : q.hasRoom = true) (x : α) :
    (q.write x).Holds (l ++ [x]) := by
  have hlt : l.length < q.capacity := by
    rw [← h.count]
    exact of_decide_eq_true hroom
  refine ⟨?_, ?_, h.readIndex, ?_⟩
  · show RingBuffers.Holds q.capacity (Function.update q.store q.nextWriteIndex x) _ _
    rw [h.writeIndex]
    exact h.slots.snoc hlt x
  · show q.numElements + 1 = _
    rw [h.count, List.length_append, List.length_singleton]
  · show (q.nextWriteIndex + 1) % q.capacity = (q.nextReadIndex + _) % q.capacity
    rw [h.writeIndex, Nat.mod_add_mod, List.length_append, List.length_singleton, Nat.add_assoc]

lemma Holds.getNextToRead (h : q.Holds l) : q.getNextToRead = l.head? := by
  unfold LFQueue.getNextToRead
  cases l with
  | nil => rw [if_neg (by simp [h.count])]; rfl
  | cons x l =>
    rw [if_pos (by simp [h.count]), List.head?_cons]
    have := h.slots.head
    rw [Nat.mod_eq_of_lt h.readIndex] at this
    rw [this]

lemma Holds.updateReadIndex (h : q.Holds (x :: l)) :
    ∃ q', q.updateReadIndex = .ok q' ∧ q'.Holds l := by
  have hpos : 0 < q.capacity := (Nat.zero_le _).trans_lt h.readIndex
  refine ⟨_, if_pos (by simp [h.count]), h.slots.tail, ?_, Nat.mod_lt _ hpos, ?_⟩
  · show q.numElements - 1 = l.length
    rw [h.count, List.length_cons, Nat.add_sub_cancel]
  · show q.nextWriteIndex = ((q.nextReadIndex + 1) % q.capacity + l.length) % q.capacity
    rw [h.writeIndex, List.length_cons, Nat.mod_add_mod, Nat.add_assoc, Nat.add_comm 1]

end LFQueue

end MatchingEngine
