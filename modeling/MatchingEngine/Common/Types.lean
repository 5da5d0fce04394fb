import Mathlib.Tactic.Common

/-!
# Basic types of the exchange

`Common/types.h` and `Common/time.h`: identifiers and quantities are 64-bit unsigned, prices
and timestamps 64-bit signed, with one reserved value each.  The enumerations keep the order
of the source; `invalid` is the value zero in each of them.

The process stops in two ways only, both through `ASSERT` (`Common/macros.h`): a memory pool
or a queue is found in a state its caller must not produce.  `Fault` lists the assertions of
the modelled code with the message each prints.  `Fault.loopBound` is not one of them: it
marks the exhaustion of the step bound that a `while` loop of the source is given here so
that it is a total function, and the development proves that no run ever produces it.
`Fault.outOfBounds` stands for a write outside a fixed array, which the source does not check;
no run produces that either.
-/

namespace MatchingEngine

/-- Globally unique order identifier. -/
abbrev OrderId := UInt64
abbrev ClientId := UInt64
/-- Fixed-point price. -/
abbrev Price := Int64
abbrev Qty := UInt64
abbrev Symbol := String
/-- Nanoseconds since the epoch. -/
abbrev Nanos := Int64

def invalidOrderId : OrderId := 18446744073709551615
def invalidClientId : ClientId := 18446744073709551615
def invalidPrice : Price := -9223372036854775808
def invalidQty : Qty := 18446744073709551615

inductive Side
  | invalid | buy | sell
  deriving DecidableEq, Repr

inductive OrderType
  | invalid | limit | market
  /-- Immediate-or-cancel. -/
  | ioc
  | cancel | modify
  deriving DecidableEq, Repr

/-- Why the process stopped. -/
inductive Fault
  /-- `MemPool::allocate` found its cached block in use. -/
  | expectedFree (index : ℕ)
  /-- `MemPool::deallocate` was given a foreign element. -/
  | notInPool
  /-- `MemPool::deallocate` was given a free block. -/
  | expectedInUse (index : ℕ)
  /-- `MemPool::updateNextFreeIndex` scanned the whole pool. -/
  | outOfSpace
  /-- `LFQueue::updateReadIndex` was called on an empty queue. -/
  | readInvalid
  /-- The step bound of a loop was exhausted: no behaviour of the source. -/
  | loopBound
  /-- A write outside a fixed array: undefined in the source. -/
  | outOfBounds (index : ℕ)
  deriving DecidableEq, Repr

/-- The text `ASSERT` prints before exiting (up to the thread id of the queue's message). -/
def Fault.message : Fault → String
  | expectedFree index => "Expected free ObjectBlock at index:" ++ toString index
  | notInPool => "Element being deallocated does not belong to this Memory pool."
  | expectedInUse index => "Expected in-use ObjectBlock at index:" ++ toString index
  | outOfSpace => "Memory Pool out of space."
  | readInvalid => "Read an invalid element in:"
  | loopBound | outOfBounds _ => ""

/-! ## Quantities

The only arithmetic on quantities is a subtraction of the smaller from the larger, at a fill.
The three laws below move it to the natural numbers. -/

lemma toNat_min (a b : Qty) : (min a b).toNat = min a.toNat b.toNat := by
  rw [show min a b = if a ≤ b then a else b from rfl]
  split_ifs with h <;> rw [UInt64.le_iff_toNat_le] at h <;> omega

lemma toNat_sub_min_left (a b : Qty) : (a - min a b).toNat = a.toNat - b.toNat := by
  have hle : min a b ≤ a := by rw [UInt64.le_iff_toNat_le, toNat_min]; omega
  rw [UInt64.toNat_sub_of_le _ _ hle, toNat_min]
  omega

lemma toNat_sub_min_right (a b : Qty) : (b - min a b).toNat = b.toNat - a.toNat := by
  have hle : min a b ≤ b := by rw [UInt64.le_iff_toNat_le, toNat_min]; omega
  rw [UInt64.toNat_sub_of_le _ _ hle, toNat_min]
  omega

lemma qty_pos_iff (a : Qty) : 0 < a ↔ 0 < a.toNat := by
  rw [UInt64.lt_iff_toNat_lt]
  rfl

lemma qty_eq_zero_iff (a : Qty) : a = 0 ↔ a.toNat = 0 := by
  rw [← UInt64.toNat_inj]
  rfl

lemma qty_pos_iff_ne (a : Qty) : 0 < a ↔ a ≠ 0 := by
  rw [qty_pos_iff, Ne, qty_eq_zero_iff]
  omega

/-- `invalidQty` is the largest quantity, so a smaller quantity than a valid one is valid. -/
lemma ne_invalidQty_of_le {a b : Qty} (hle : a ≤ b) (hb : b ≠ invalidQty) : a ≠ invalidQty := by
  rintro rfl
  refine hb (UInt64.toNat_inj.mp ?_)
  rw [UInt64.le_iff_toNat_le] at hle
  have hlt := b.toNat_lt
  change 18446744073709551615 ≤ _ at hle
  change _ = 18446744073709551615
  omega

lemma lt_invalidQty {a : Qty} (h : a ≠ invalidQty) : a < invalidQty := by
  have hne : a.toNat ≠ 18446744073709551615 := fun he => h (UInt64.toNat_inj.mp he)
  have hlt := a.toNat_lt
  rw [UInt64.lt_iff_toNat_lt]
  change _ < 18446744073709551615
  omega

end MatchingEngine
