import Mathlib.Data.List.Induction
import MatchingEngine.Common.LockFreeQueue

/-!
# Queues that overflow

`updateWriteIndex` does not look whether the ring is full, so a producer that is more than one turn
ahead overwrites elements nobody has read.  The counter goes on counting them, and the consumer is
handed whatever is in the slots.

`Tape` says what that is, without a ring: all elements ever written, of which a read finds the last
one that went to the slot of the next element.  A queue hands over what its tape does, whatever is
written and read and in whatever order (`overrun_exact`), and no element is lost, repeated or out of
order exactly if no read finds more elements than there are slots.
-/

namespace MatchingEngine

open RingBuffers

/-- What the two ends of a queue do. -/
inductive QueueOp (α : Type)
  | write (x : α)
  /-- One round of the consumer's loop. -/
  | read

/-- A queue, and what its consumer has been handed. -/
structure QueueUse (α : Type) where
  queue : LFQueue α
  handed : List α := []

namespace QueueUse

variable {α : Type}

def step (u : QueueUse α) : QueueOp α → Except Fault (QueueUse α)
  | .write x => .ok { u with queue := u.queue.write x }
  | .read =>
    match u.queue.getNextToRead with
    | none => .ok u
    | some x => u.queue.updateReadIndex.map fun q => ⟨q, u.handed ++ [x]⟩

def exec (u : QueueUse α) (ops : List (QueueOp α)) : Except Fault (QueueUse α) := ops.foldlM step u

end QueueUse

/-- Everything that was written and handed over. -/
structure Tape (α : Type) where
  written : List α := []
  handed : List α := []

namespace Tape

variable {α : Type} {n : ℕ}

/-- A read finds the last element that went to the slot of the next one. -/
def step (n : ℕ) (t : Tape α) : QueueOp α → Tape α
  | .write x => { t with written := t.written ++ [x] }
  | .read => { t with
      handed := t.handed ++ t.written[latest n t.written.length t.handed.length]?.toList }

def exec (n : ℕ) (ops : List (QueueOp α)) : Tape α := ops.foldl (step n) {}

lemma exec_concat (n : ℕ) (ops : List (QueueOp α)) (op : QueueOp α) :
    exec n (ops ++ [op]) = (exec n ops).step n op := by
  rw [exec, List.foldl_append]
  rfl

/-- There is nothing to read behind the last element. -/
lemma getElem_latest_eq_none {l : List α} {k : ℕ} (hk : l.length ≤ k) :
    l[latest n l.length k]? = none := by
  have hzero : l.length - 1 - k = 0 := by omega
  rw [latest, hzero, Nat.zero_div, Nat.mul_zero, Nat.add_zero]
  exact List.getElem?_eq_none hk

lemma step_isPrefix (n : ℕ) (t : Tape α) (op : QueueOp α) :
    t.written <+: (t.step n op).written ∧ t.handed <+: (t.step n op).handed := by
  cases op with
  | write x => exact ⟨List.prefix_append _ _, List.prefix_rfl⟩
  | read => exact ⟨List.prefix_rfl, List.prefix_append _ _⟩

/-- A tape only grows. -/
lemma exec_isPrefix {pre ops : List (QueueOp α)} (h : pre <+: ops) :
    (exec n pre).written <+: (exec n ops).written ∧
      (exec n pre).handed <+: (exec n ops).handed := by
  obtain ⟨post, rfl⟩ := h
  induction post using List.reverseRecOn with
  | nil =>
    rw [List.append_nil]
    exact ⟨List.prefix_rfl, List.prefix_rfl⟩
  | append_singleton post op ih =>
    rw [← List.append_assoc, exec_concat]
    obtain ⟨hwritten, hhanded⟩ := step_isPrefix n (exec n (pre ++ post)) op
    exact ⟨ih.1.trans hwritten, ih.2.trans hhanded⟩

end Tape

/-! ## The queue and its tape -/

/-- The queue of size `n` is what its tape says. -/
structure Shows {α : Type} (n : ℕ) (u : QueueUse α) (t : Tape α) : Prop where
  capacity : u.queue.capacity = n
  slots : Retains n u.queue.store t.written
  writeIndex : u.queue.nextWriteIndex = t.written.length % n
  readIndex : u.queue.nextReadIndex = t.handed.length % n
  count : u.queue.numElements + t.handed.length = t.written.length
  handed : u.handed = t.handed

namespace Shows

variable {α : Type} {n : ℕ} {u : QueueUse α} {t : Tape α}

lemma init (n : ℕ) (blank : α) : Shows n { queue := .ofCapacity n blank } {} :=
  ⟨rfl, retains_nil, (Nat.zero_mod n).symm, (Nat.zero_mod n).symm, rfl, rfl⟩

lemma write (h : Shows n u t) (x : α) :
    Shows n { u with queue := u.queue.write x } (t.step n (.write x)) where
  capacity := h.capacity
  slots := by
    show Retains n (Function.update u.queue.store u.queue.nextWriteIndex x) (t.written ++ [x])
    rw [h.writeIndex]
    exact h.slots.snoc x
  writeIndex := by
    show (u.queue.nextWriteIndex + 1) % u.queue.capacity = (t.written ++ [x]).length % n
    rw [h.capacity, h.writeIndex, Nat.mod_add_mod, List.length_append, List.length_singleton]
  readIndex := h.readIndex
  count := by
    have hcount := h.count
    show u.queue.numElements + 1 + t.handed.length = (t.written ++ [x]).length
    rw [List.length_append, List.length_singleton]
    omega
  handed := h.handed

/-- A read is handed what the tape says, and stops nothing. -/
lemma read (h : Shows n u t) (hn : 0 < n) : ∃ u', u.step .read = .ok u' ∧
    Shows n u' (t.step n .read) := by
  have hcount := h.count
  by_cases hzero : u.queue.numElements = 0
  · have hnone : u.queue.getNextToRead = none := if_neg (not_not.mpr hzero)
    refine ⟨u, by rw [QueueUse.step, hnone], ?_⟩
    rw [Tape.step, Tape.getElem_latest_eq_none (by omega), Option.toList_none, List.append_nil]
    exact h
  · have hk : t.handed.length < t.written.length := by omega
    have hsome : u.queue.getNextToRead = some (u.queue.store u.queue.nextReadIndex) := if_pos hzero
    have hok : u.queue.updateReadIndex = .ok { u.queue with
        nextReadIndex := (u.queue.nextReadIndex + 1) % u.queue.capacity
        numElements := u.queue.numElements - 1 } := if_pos hzero
    refine ⟨_, by rw [QueueUse.step, hsome, hok]; rfl, ?_⟩
    rw [Tape.step, h.slots.getElem_latest hn hk, Option.toList_some, ← h.readIndex]
    refine ⟨h.capacity, h.slots, h.writeIndex, ?_, ?_, ?_⟩
    · show (u.queue.nextReadIndex + 1) % u.queue.capacity = _
      rw [h.capacity, h.readIndex, Nat.mod_add_mod, List.length_append, List.length_singleton]
    · show u.queue.numElements - 1 + (t.handed ++ [_]).length = t.written.length
      rw [List.length_append, List.length_singleton]
      omega
    · show u.handed ++ _ = _
      rw [h.handed]

lemma step (h : Shows n u t) (hn : 0 < n) (op : QueueOp α) :
    ∃ u', u.step op = .ok u' ∧ Shows n u' (t.step n op) := by
  cases op with
  | write x => exact ⟨_, rfl, h.write x⟩
  | read => exact h.read hn

end Shows

/-- The use of a queue is what its tape says, and nothing stops the process. -/
lemma exists_shows {α : Type} {n : ℕ} (hn : 0 < n) (blank : α) (ops : List (QueueOp α)) :
    ∃ u, QueueUse.exec { queue := .ofCapacity n blank } ops = .ok u ∧
      Shows n u (Tape.exec n ops) := by
  induction ops using List.reverseRecOn with
  | nil => exact ⟨_, rfl, Shows.init n blank⟩
  | append_singleton ops op ih =>
    obtain ⟨u, hu, hshows⟩ := ih
    obtain ⟨u', hu', hshows'⟩ := hshows.step hn op
    refine ⟨u', ?_, by rwa [Tape.exec_concat]⟩
    rw [QueueUse.exec] at hu ⊢
    rw [List.foldlM_append, hu]
    show (u.step op >>= fun u => pure u) = _
    rw [hu']
    rfl

/-! ## When the order is kept -/

namespace Tape

variable {α : Type} {n : ℕ} {ops : List (QueueOp α)}

/-- No read finds more elements than there are slots. -/
def Kept (n : ℕ) (ops : List (QueueOp α)) : Prop :=
  ∀ pre, pre ++ [.read] <+: ops →
    (exec n pre).written.length ≤ (exec n pre).handed.length + n

/-- Elements that are read before they are overwritten are handed over in order. -/
lemma handed_isPrefix (hn : 0 < n) (h : Kept n ops) :
    (exec n ops).handed <+: (exec n ops).written := by
  induction ops using List.reverseRecOn with
  | nil => exact List.prefix_rfl
  | append_singleton ops op ih =>
    have hops := ih fun pre hpre => h pre (hpre.trans (List.prefix_append _ _))
    rw [exec_concat]
    cases op with
    | write x => exact hops.trans (List.prefix_append _ _)
    | read =>
      rw [step]
      by_cases hk : (exec n ops).handed.length < (exec n ops).written.length
      · have hle := h ops List.prefix_rfl
        rw [(latest_eq_iff hn hk).mpr hle, List.getElem?_eq_getElem hk, Option.toList_some]
        have hnext : (exec n ops).handed ++ [(exec n ops).written[(exec n ops).handed.length]] =
            (exec n ops).written.take ((exec n ops).handed.length + 1) := by
          rw [List.take_succ_eq_append_getElem hk, ← List.prefix_iff_eq_take.mp hops]
        rw [hnext]
        exact List.take_prefix _ _
      · rw [getElem_latest_eq_none (by omega), Option.toList_none, List.append_nil]
        exact hops

/-- If the elements are different and come out in order, they were read before they were
overwritten. -/
lemma kept_of_isPrefix (hn : 0 < n) (hnodup : (exec n ops).written.Nodup)
    (h : (exec n ops).handed <+: (exec n ops).written) : Kept n ops := by
  intro pre hpre
  by_cases hk : (exec n pre).handed.length < (exec n pre).written.length
  · rw [← latest_eq_iff hn hk]
    obtain ⟨hlt, -, -⟩ := latest_spec hn hk
    obtain ⟨hwritten, hhanded⟩ := exec_isPrefix (n := n) hpre
    rw [exec_concat, step, List.getElem?_eq_getElem hlt] at hwritten hhanded
    -- what the read was handed has the index `latest` and the index of the read
    have hlatest := List.prefix_iff_getElem?.mp hwritten _ hlt
    have hown := List.prefix_iff_getElem?.mp (hhanded.trans h) (exec n pre).handed.length (by simp)
    have hbound : latest n (exec n pre).written.length (exec n pre).handed.length <
        (exec n ops).written.length := hlt.trans_le hwritten.length_le
    refine (List.getElem?_inj hbound hnodup).mp (hlatest.trans ?_)
    rw [hown]
    simp
  · omega

end Tape

/-- Whatever is written to a queue and read from it, with no regard for its size: nothing stops the
process, the consumer is handed what the tape says, and the counter is the number of elements it
has not been handed.  If the elements are different, they come out in order and without loss
exactly if no read finds more of them than there are slots. -/
theorem overrun_exact {α : Type} (n : ℕ) (hn : 0 < n) (blank : α) (ops : List (QueueOp α)) :
    ∃ u, QueueUse.exec { queue := .ofCapacity n blank } ops = .ok u ∧
      u.handed = (Tape.exec n ops).handed ∧
      u.queue.numElements + u.handed.length = (Tape.exec n ops).written.length ∧
      ((Tape.exec n ops).written.Nodup →
        (u.handed <+: (Tape.exec n ops).written ↔ Tape.Kept n ops)) := by
  obtain ⟨u, hu, hshows⟩ := exists_shows hn blank ops
  have hhanded := hshows.handed
  refine ⟨u, hu, hhanded, ?_, fun hnodup => ?_⟩
  · rw [hhanded]
    exact hshows.count
  · rw [hhanded]
    exact ⟨Tape.kept_of_isPrefix hn hnodup, Tape.handed_isPrefix hn⟩

/-- Three elements in a ring of two: the first is lost, and the last comes out twice. -/
theorem overrun_exact_three : ∃ u : QueueUse ℕ,
    QueueUse.exec { queue := .ofCapacity 2 0 }
      [.write 1, .write 2, .write 3, .read, .read, .read] = .ok u ∧ u.handed = [3, 2, 3] := by
  obtain ⟨u, hu, hhanded, -, -⟩ := overrun_exact 2 (by decide) 0
    [.write 1, .write 2, .write 3, .read, .read, .read]
  exact ⟨u, hu, hhanded⟩

end MatchingEngine
