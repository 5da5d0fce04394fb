import Mathlib.Data.Nat.ModEq
import Mathlib.Logic.Function.Basic
import Mathlib.Tactic.Common

/-!
# Ring buffers

`n` slots used as a ring: `Holds n slots start l` says that `l` is stored in consecutive slots
from `start` on, wrapping around at `n`.  Writing behind the last element appends, provided the
ring is not full, and dropping the first element moves the start.

`BoundedFifo` is what a ring is used for: a queue of at most `n` elements, which leave it in the
order they entered it.

`Retains` is what is true of a ring that is written to without regard for its readers: the last `n`
elements written are in their slots, and the slot of the `k`-th holds the one of index `latest`.
-/

namespace RingBuffers

variable {α : Type*}

/-- The slots from `start` on hold `l`. -/
def Holds (n : ℕ) (slots : ℕ → α) (start : ℕ) (l : List α) : Prop :=
  ∀ i (hi : i < l.length), slots ((start + i) % n) = l[i]

variable {n start : ℕ} {slots : ℕ → α} {l : List α} {x : α}

lemma holds_nil : Holds n slots start [] := fun i hi => absurd hi (Nat.not_lt_zero i)

/-- Only the slot the list starts in matters. -/
lemma holds_mod : Holds n slots (start % n) l ↔ Holds n slots start l := by
  refine forall₂_congr fun i hi => ?_
  rw [Nat.mod_add_mod]

/-- Slots less than one turn apart are different. -/
lemma add_mod_ne {i j : ℕ} (hij : i < j) (hj : j < n) : (start + i) % n ≠ (start + j) % n := by
  intro he
  have hmod : i ≡ j [MOD n] := Nat.ModEq.add_left_cancel' start he
  exact hij.ne (hmod.eq_of_lt_of_lt (hij.trans hj) hj)

/-- Writing behind the last element. -/
lemma Holds.snoc (h : Holds n slots start l) (hroom : l.length < n) (x : α) :
    Holds n (Function.update slots ((start + l.length) % n) x) start (l ++ [x]) := by
  intro i hi
  rw [List.length_append, List.length_singleton] at hi
  rcases Nat.lt_succ_iff_lt_or_eq.mp hi with hlt | rfl
  · rw [Function.update_of_ne (add_mod_ne hlt hroom), h i hlt, List.getElem_append_left hlt]
  · rw [Function.update_self]
    simp

/-- The first element is at the start. -/
lemma Holds.head (h : Holds n slots start (x :: l)) : slots (start % n) = x :=
  h 0 (Nat.succ_pos _)

/-- Dropping the first element. -/
lemma Holds.tail (h : Holds n slots start (x :: l)) : Holds n slots ((start + 1) % n) l := by
  intro i hi
  have := h (i + 1) (Nat.succ_lt_succ hi)
  rw [Nat.mod_add_mod, Nat.add_assoc, Nat.add_comm 1 i]
  exact this

/-! ## Rings that are overrun -/

/-- Of the elements written to the slots from 0 on, turn after turn, the last `n` are still
there. -/
def Retains (n : ℕ) (slots : ℕ → α) (l : List α) : Prop :=
  ∀ i (hi : i < l.length), l.length ≤ i + n → slots (i % n) = l[i]

lemma retains_nil : Retains n slots [] := fun i hi => absurd hi (Nat.not_lt_zero i)

lemma Retains.snoc (h : Retains n slots l) (x : α) :
    Retains n (Function.update slots (l.length % n) x) (l ++ [x]) := by
  intro i hi hlast
  rw [List.length_append, List.length_singleton] at hi hlast
  rcases Nat.lt_succ_iff_lt_or_eq.mp hi with hlt | rfl
  · have hne : i % n ≠ l.length % n := by
      have hturn : l.length - i < n := by omega
      have hadd : (i + 0) % n ≠ (i + (l.length - i)) % n :=
        add_mod_ne (Nat.sub_pos_of_lt hlt) hturn
      rwa [Nat.add_zero, Nat.add_sub_cancel' hlt.le] at hadd
    rw [Function.update_of_ne hne, h i hlt (by omega), List.getElem_append_left hlt]
  · rw [Function.update_self]
    simp

/-- The index of the last of `m` elements that went to the slot of the `k`-th. -/
def latest (n m k : ℕ) : ℕ := k + n * ((m - 1 - k) / n)

lemma latest_spec {m k : ℕ} (hn : 0 < n) (hk : k < m) :
    latest n m k < m ∧ m ≤ latest n m k + n ∧ latest n m k % n = k % n := by
  have hmod := Nat.div_add_mod (m - 1 - k) n
  have hlt := Nat.mod_lt (m - 1 - k) hn
  refine ⟨?_, ?_, Nat.add_mul_mod_self_left _ _ _⟩
  · rw [latest]
    omega
  · rw [latest]
    omega

/-- Only an element that has not been overwritten is the last in its slot. -/
lemma latest_eq_iff {m k : ℕ} (hn : 0 < n) (hk : k < m) : latest n m k = k ↔ m ≤ k + n := by
  constructor
  · intro he
    have hspec := (latest_spec hn hk).2.1
    omega
  · intro hle
    have hzero : (m - 1 - k) / n = 0 := Nat.div_eq_of_lt (by omega)
    rw [latest, hzero, Nat.mul_zero, Nat.add_zero]

lemma Retains.getElem_latest (h : Retains n slots l) (hn : 0 < n) {k : ℕ} (hk : k < l.length) :
    l[latest n l.length k]? = some (slots (k % n)) := by
  obtain ⟨hlt, hlast, hmod⟩ := latest_spec hn hk
  rw [← hmod, h _ hlt hlast, List.getElem?_eq_getElem hlt]

end RingBuffers

/-- A queue of at most `n` elements, and all that entered and left it so far. -/
structure BoundedFifo (α : Type*) (n : ℕ) where
  contents : List α
  enqueued : List α
  dequeued : List α
  bounded : contents.length ≤ n
  inOrder : dequeued ++ contents = enqueued

namespace BoundedFifo

variable {α : Type*} {n : ℕ}

def empty : BoundedFifo α n where
  contents := []
  enqueued := []
  dequeued := []
  bounded := Nat.zero_le n
  inOrder := rfl

/-- `x` enters behind the others. -/
def enqueue (f : BoundedFifo α n) (x : α) (hroom : f.contents.length < n) : BoundedFifo α n where
  contents := f.contents ++ [x]
  enqueued := f.enqueued ++ [x]
  dequeued := f.dequeued
  bounded := by
    rw [List.length_append]
    exact hroom
  inOrder := by rw [← List.append_assoc, f.inOrder]

/-- The first element leaves. -/
def dequeue (f : BoundedFifo α n) {x : α} {rest : List α} (hcontents : f.contents = x :: rest) :
    BoundedFifo α n where
  contents := rest
  enqueued := f.enqueued
  dequeued := f.dequeued ++ [x]
  bounded := by
    have hbounded := f.bounded
    rw [hcontents] at hbounded
    exact Nat.le_of_succ_le hbounded
  inOrder := by
    rw [← f.inOrder, hcontents]
    exact (List.append_cons _ _ _).symm

inductive Op (α : Type*)
  | enqueue (x : α)
  | dequeue (x : α)

/-- The steps of the queue. -/
inductive Next : BoundedFifo α n → Op α → BoundedFifo α n → Prop
  | enqueue (f : BoundedFifo α n) (x : α) (hroom : f.contents.length < n) :
      Next f (.enqueue x) (f.enqueue x hroom)
  | dequeue (f : BoundedFifo α n) {x : α} {rest : List α} (hcontents : f.contents = x :: rest) :
      Next f (.dequeue x) (f.dequeue hcontents)

/-- What left the queue is the beginning of what entered it. -/
lemma dequeued_isPrefix (f : BoundedFifo α n) : f.dequeued <+: f.enqueued :=
  ⟨f.contents, f.inOrder⟩

/-- There is room if no more than `n` elements are to be in the queue afterwards. -/
lemma length_contents_lt (f : BoundedFifo α n) (x : α)
    (hroom : (f.enqueued ++ [x]).length ≤ f.dequeued.length + n) : f.contents.length < n := by
  rw [← f.inOrder, List.length_append, List.length_append, List.length_singleton] at hroom
  omega

/-- What comes next among the elements that entered is the first one in the queue. -/
lemma exists_contents_eq (f : BoundedFifo α n) {x : α}
    (hnext : f.dequeued ++ [x] <+: f.enqueued) : ∃ rest, f.contents = x :: rest := by
  obtain ⟨rest, hrest⟩ := hnext
  rw [← f.inOrder, List.append_assoc] at hrest
  exact ⟨rest, (List.append_cancel_left hrest).symm⟩

end BoundedFifo
