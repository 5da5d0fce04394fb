import MatchingEngine.Common.Types
import Mathlib.Data.List.Perm.Subperm
import Mathlib.Logic.Function.Basic

/-!
# The fixed-size memory pool

`Common/memory_pool.h`.  A pool is a vector of blocks, each holding an object and a free
flag, and a cached index of the next block to hand out.  A pointer into the pool is a block
index.  The vector is a function on indices together with its length; objects of freed
blocks stay where they are, as in the source, where `deallocate` runs no destructor.

`allocate` refreshes the cached index *before* returning, by a circular scan that stops the
process when it comes back to where it started.  `scanFree_spec` is the account of that scan;
`allocate_spec` and `deallocate_spec` are what callers use, under the pool invariant
`MemPool.WF` that the cached index names a free block.
-/

namespace MatchingEngine

/-- One block of a pool. -/
structure ObjectBlock (T : Type) where
  object : T
  isFree : Bool

/-- `MemPool<T>`. -/
structure MemPool (T : Type) where
  /-- `store_.size()`. -/
  size : ℕ
  store : ℕ → ObjectBlock T
  nextFreeIndex : ℕ

namespace MemPool

variable {T : Type}

/-- `MemPool(num_elems)`: every block free. -/
def new [Inhabited T] (numElems : ℕ) : MemPool T :=
  ⟨numElems, fun _ => ⟨default, true⟩, 0⟩

/-- The object a pointer designates. -/
def get (p : MemPool T) (i : ℕ) : T := (p.store i).object

/-- Write through a pointer. -/
def modify (p : MemPool T) (i : ℕ) (f : T → T) : MemPool T :=
  { p with store := Function.update p.store i { p.store i with object := f (p.get i) } }

/-- The circular scan of `updateNextFreeIndex`. -/
def scanFree (store : ℕ → ObjectBlock T) (size initial : ℕ) : ℕ → ℕ → Except Fault ℕ
  | 0, _ => .error .loopBound
  | fuel + 1, i =>
    if (store i).isFree then .ok i
    else
      let i' := if i + 1 = size then 0 else i + 1
      if initial = i' then .error .outOfSpace else scanFree store size initial fuel i'

/-- `updateNextFreeIndex`; the scan makes at most `store_.size()` steps. -/
def updateNextFreeIndex (p : MemPool T) : Except Fault (MemPool T) := do
  let i ← scanFree p.store p.size p.nextFreeIndex p.size p.nextFreeIndex
  return { p with nextFreeIndex := i }

/-- `allocate`: the object is constructed in the cached block, which is then marked in use. -/
def allocate (p : MemPool T) (object : T) : Except Fault (ℕ × MemPool T) := do
  let i := p.nextFreeIndex
  if !(p.store i).isFree then throw (.expectedFree i)
  let p ← { p with store := Function.update p.store i ⟨object, false⟩ }.updateNextFreeIndex
  return (i, p)

/-- Mark a block as free; the object stays in place. -/
def release (p : MemPool T) (i : ℕ) : MemPool T :=
  { p with store := Function.update p.store i { p.store i with isFree := true } }

/-- `deallocate`: only the free flag changes. -/
def deallocate (p : MemPool T) (i : ℕ) : Except Fault (MemPool T) := do
  if ¬ i < p.size then throw .notInPool
  if (p.store i).isFree then throw (.expectedInUse i)
  return p.release i

/-! ## The pool invariant -/

/-- The block is part of the pool and holds a live object. -/
def InUse (p : MemPool T) (i : ℕ) : Prop := i < p.size ∧ (p.store i).isFree = false

/-- The cached index names a free block of the pool. -/
structure WF (p : MemPool T) : Prop where
  next_lt : p.nextFreeIndex < p.size
  next_free : (p.store p.nextFreeIndex).isFree = true

lemma wf_new [Inhabited T] {n : ℕ} (hn : 0 < n) : (new n : MemPool T).WF := ⟨hn, rfl⟩

lemma not_inUse_new [Inhabited T] (n i : ℕ) : ¬ (new n : MemPool T).InUse i := by
  rintro ⟨-, h⟩
  exact absurd h (by simp [new])

/-! ### Writes through a pointer -/

@[simp] lemma get_modify_self (p : MemPool T) (i : ℕ) (f : T → T) :
    (p.modify i f).get i = f (p.get i) := by
  simp [modify, get]

lemma get_modify_of_ne (p : MemPool T) {i j : ℕ} (f : T → T) (h : j ≠ i) :
    (p.modify i f).get j = p.get j := by
  simp [modify, get, h]

@[simp] lemma isFree_modify (p : MemPool T) (i j : ℕ) (f : T → T) :
    ((p.modify i f).store j).isFree = (p.store j).isFree := by
  by_cases h : j = i
  · subst h; simp [modify]
  · simp [modify, h]

@[simp] lemma inUse_modify (p : MemPool T) (i j : ℕ) (f : T → T) :
    (p.modify i f).InUse j ↔ p.InUse j := by
  simp only [InUse, isFree_modify]
  rfl

/-! ### The circular scan -/

/-- What the scan has established after `k` steps from `initial`: the blocks passed are in
use.  It ends at a free block, or has passed every block. -/
lemma scanFree_spec (store : ℕ → ObjectBlock T) {size initial : ℕ} (hinit : initial < size)
    (fuel k : ℕ) (hk : k < size) (hfuel : k + fuel = size)
    (hpassed : ∀ j < k, (store ((initial + j) % size)).isFree = false) :
    (∃ i, scanFree store size initial fuel ((initial + k) % size) = .ok i ∧
        i < size ∧ (store i).isFree = true) ∨
      (scanFree store size initial fuel ((initial + k) % size) = .error .outOfSpace ∧
        ∀ i < size, (store i).isFree = false) := by
  induction fuel generalizing k with
  | zero => omega
  | succ fuel ih =>
    have hlt : (initial + k) % size < size := Nat.mod_lt _ (by omega)
    by_cases hfree : (store ((initial + k) % size)).isFree = true
    · exact .inl ⟨_, by rw [scanFree, if_pos hfree], hlt, hfree⟩
    · have hpassed' : ∀ j < k + 1, (store ((initial + j) % size)).isFree = false := by
        intro j hj
        rcases Nat.lt_succ_iff_lt_or_eq.mp hj with hj | rfl
        · exact hpassed j hj
        · simpa using hfree
      have hnext : (if (initial + k) % size + 1 = size then 0 else (initial + k) % size + 1) =
          (initial + (k + 1)) % size := by
        have hmod : (initial + (k + 1)) % size = ((initial + k) % size + 1) % size := by
          rw [Nat.mod_add_mod]
          rfl
        rw [hmod]
        split_ifs with h
        · rw [h, Nat.mod_self]
        · exact (Nat.mod_eq_of_lt (by omega)).symm
      rw [scanFree, if_neg hfree]
      simp only [hnext]
      by_cases hback : initial = (initial + (k + 1)) % size
      · -- the scan is back at its start, so every block has been passed
        refine .inr ⟨by rw [if_pos hback], fun i hi => ?_⟩
        have hlast : k + 1 = size := by
          by_contra hne
          have hlt' : k + 1 < size := by omega
          rcases Nat.lt_or_ge (initial + (k + 1)) size with h | h
          · rw [Nat.mod_eq_of_lt h] at hback; omega
          · rw [Nat.mod_eq_sub_mod h, Nat.mod_eq_of_lt (by omega)] at hback; omega
        rcases Nat.lt_or_ge i initial with h | h
        · have := hpassed' (size - initial + i) (by omega)
          rwa [show initial + (size - initial + i) = i + size by omega, Nat.add_mod_right,
            Nat.mod_eq_of_lt hi] at this
        · have := hpassed' (i - initial) (by omega)
          rwa [show initial + (i - initial) = i by omega, Nat.mod_eq_of_lt hi] at this
      · rw [if_neg hback]
        have hk' : k + 1 < size := by
          by_contra hge
          apply hback
          rw [show k + 1 = size by omega, Nat.add_mod_right, Nat.mod_eq_of_lt hinit]
        exact ih (k + 1) hk' (by omega) hpassed'

/-- A scan that has ended is not changed by a larger step bound. -/
lemma scanFree_add (store : ℕ → ObjectBlock T) (size initial fuel m i : ℕ)
    (h : scanFree store size initial fuel i ≠ .error .loopBound) :
    scanFree store size initial (fuel + m) i = scanFree store size initial fuel i := by
  induction fuel generalizing i with
  | zero => exact absurd rfl h
  | succ fuel ih =>
    rw [Nat.add_right_comm, scanFree, scanFree]
    rw [scanFree] at h
    by_cases hfree : (store i).isFree = true
    · rw [if_pos hfree, if_pos hfree]
    · rw [if_neg hfree] at h
      rw [if_neg hfree, if_neg hfree]
      set i' := if i + 1 = size then 0 else i + 1
      by_cases hback : initial = i'
      · simp only [if_pos hback]
      · simp only [if_neg hback] at h ⊢
        exact ih i' h

/-! ### Allocation and release -/

/-- The pool after the cached block was handed out for `object`. -/
structure Allocated (p : MemPool T) (object : T) (p' : MemPool T) : Prop where
  wf : p'.WF
  size : p'.size = p.size
  store : p'.store = Function.update p.store p.nextFreeIndex ⟨object, false⟩

lemma WF.not_inUse_next {p : MemPool T} (h : p.WF) : ¬ p.InUse p.nextFreeIndex := by
  rintro ⟨-, huse⟩
  rw [h.next_free] at huse
  exact absurd huse (by decide)

lemma Allocated.get_eq {p p' : MemPool T} {object : T} (h : Allocated p object p') (i : ℕ) :
    p'.get i = if i = p.nextFreeIndex then object else p.get i := by
  rw [MemPool.get, h.store, Function.update_apply]
  split_ifs <;> rfl

lemma Allocated.inUse_iff {p p' : MemPool T} {object : T} (h : Allocated p object p') (hp : p.WF)
    (i : ℕ) : p'.InUse i ↔ p.InUse i ∨ i = p.nextFreeIndex := by
  simp only [InUse, h.size, h.store, Function.update_apply]
  split_ifs with hi
  · subst hi
    simp [hp.next_lt]
  · simp [hi]

/-- `allocate` in one piece: the check of the cached block, then the scan for the next one. -/
lemma allocate_eq (p : MemPool T) (object : T) {store : ℕ → ObjectBlock T}
    (hstore : store = Function.update p.store p.nextFreeIndex ⟨object, false⟩) :
    p.allocate object =
      if (p.store p.nextFreeIndex).isFree = true then
        (scanFree store p.size p.nextFreeIndex p.size p.nextFreeIndex).bind
          fun i => .ok (p.nextFreeIndex, ⟨p.size, store, i⟩)
      else .error (.expectedFree p.nextFreeIndex) := by
  subst hstore
  by_cases hfree : (p.store p.nextFreeIndex).isFree = true
  · simp only [allocate, updateNextFreeIndex, hfree, if_true]
    cases scanFree _ p.size p.nextFreeIndex p.size p.nextFreeIndex <;> rfl
  · rw [if_neg hfree]
    simp only [allocate, hfree]
    rfl

/-- `allocate` hands out the cached block, which was free, and changes no other block; it
stops the process exactly when that was the last free block. -/
lemma allocate_spec {p : MemPool T} (h : p.WF) (object : T) :
    (∃ p', p.allocate object = .ok (p.nextFreeIndex, p') ∧ Allocated p object p') ∨
      (p.allocate object = .error .outOfSpace ∧
        ∀ i < p.size, i ≠ p.nextFreeIndex → (p.store i).isFree = false) := by
  set store' := Function.update p.store p.nextFreeIndex ⟨object, false⟩ with hstore
  have halloc : p.allocate object =
      (scanFree store' p.size p.nextFreeIndex p.size p.nextFreeIndex).bind
        fun i => .ok (p.nextFreeIndex, ⟨p.size, store', i⟩) := by
    rw [p.allocate_eq object hstore, if_pos h.next_free]
  have hscan := scanFree_spec store' h.next_lt p.size 0 (by have := h.next_lt; omega)
    (by omega) (by omega)
  rw [Nat.add_zero, Nat.mod_eq_of_lt h.next_lt] at hscan
  rcases hscan with ⟨i, hi, hlt, hfree⟩ | ⟨herr, hall⟩
  · exact .inl ⟨⟨p.size, store', i⟩, by rw [halloc, hi]; rfl, ⟨⟨hlt, hfree⟩, rfl, rfl⟩⟩
  · refine .inr ⟨by rw [halloc, herr]; rfl, fun i hi hne => ?_⟩
    have := hall i hi
    rwa [hstore, Function.update_of_ne hne] at this

/-- The blocks in use, counted: a pool never has all of its blocks in use. -/
lemma WF.length_lt {p : MemPool T} (h : p.WF) {l : List ℕ} (hnodup : l.Nodup)
    (hl : ∀ i ∈ l, p.InUse i) : l.length < p.size := by
  have hnext : p.nextFreeIndex ∉ l := fun hmem => h.not_inUse_next (hl _ hmem)
  have hsub : p.nextFreeIndex :: l ⊆ List.range p.size := by
    intro i hi
    rw [List.mem_range]
    rcases List.mem_cons.mp hi with rfl | hi
    · exact h.next_lt
    · exact (hl i hi).1
  have hle := (List.subperm_of_subset (List.nodup_cons.mpr ⟨hnext, hnodup⟩) hsub).length_le
  rw [List.length_range, List.length_cons] at hle
  exact hle

/-- `allocate` in terms of the number of blocks in use: it takes the last but one, and stops the
process instead of taking the last. -/
lemma WF.allocate_cases {p : MemPool T} (h : p.WF) {l : List ℕ} (hnodup : l.Nodup)
    (hl : ∀ i, i ∈ l ↔ p.InUse i) (object : T) :
    (l.length + 1 < p.size ∧
        ∃ p', p.allocate object = .ok (p.nextFreeIndex, p') ∧ Allocated p object p') ∨
      (l.length + 1 = p.size ∧ p.allocate object = .error .outOfSpace) := by
  have hnext : p.nextFreeIndex ∉ l := fun hmem => h.not_inUse_next ((hl _).mp hmem)
  have hnodup' : (p.nextFreeIndex :: l).Nodup := List.nodup_cons.mpr ⟨hnext, hnodup⟩
  rcases allocate_spec h object with ⟨p', hok, halloc⟩ | ⟨herr, hall⟩
  · refine .inl ⟨?_, p', hok, halloc⟩
    have huse : ∀ i ∈ p.nextFreeIndex :: l, p'.InUse i := by
      intro i hi
      rw [halloc.inUse_iff h]
      rcases List.mem_cons.mp hi with rfl | hi
      · exact .inr rfl
      · exact .inl ((hl i).mp hi)
    have hlt := halloc.wf.length_lt hnodup' huse
    rwa [halloc.size, List.length_cons] at hlt
  · refine .inr ⟨?_, herr⟩
    have hsub : List.range p.size ⊆ p.nextFreeIndex :: l := by
      intro i hi
      rw [List.mem_range] at hi
      by_cases hne : i = p.nextFreeIndex
      · exact List.mem_cons.mpr (.inl hne)
      · exact List.mem_cons_of_mem _ ((hl i).mpr ⟨hi, hall i hi hne⟩)
    have hge := (List.subperm_of_subset List.nodup_range hsub).length_le
    have hlt := h.length_lt hnodup fun i hi => (hl i).mp hi
    rw [List.length_range, List.length_cons] at hge
    omega

/-- `deallocate` of a live block succeeds and frees exactly that block. -/
lemma deallocate_spec {p : MemPool T} {i : ℕ} (hi : p.InUse i) :
    p.deallocate i = .ok (p.release i) := by
  simp [deallocate, hi.1, hi.2, pure, Except.pure]

@[simp] lemma get_release (p : MemPool T) (i j : ℕ) : (p.release i).get j = p.get j := by
  by_cases h : j = i
  · subst h; simp [release, get]
  · simp [release, get, h]

lemma isFree_release (p : MemPool T) (i j : ℕ) :
    ((p.release i).store j).isFree = if j = i then true else (p.store j).isFree := by
  by_cases h : j = i
  · subst h; simp [release]
  · simp [release, h]

lemma inUse_release (p : MemPool T) (i j : ℕ) : (p.release i).InUse j ↔ p.InUse j ∧ j ≠ i := by
  simp only [InUse, isFree_release]
  by_cases h : j = i
  · simp [h]
  · simp only [h, if_false, ne_eq, not_false_eq_true, and_true]
    rfl

lemma WF.release {p : MemPool T} (h : p.WF) (i : ℕ) : (p.release i).WF := by
  refine ⟨h.next_lt, ?_⟩
  rw [isFree_release]
  split_ifs
  · rfl
  · exact h.next_free

/-! ### Rewriting every object

Where blocks are handed out depends on the free flags only, so a pool whose objects are
rewritten hands out the same blocks. -/

/-- Apply `g` to the object of every block. -/
def map (g : T → T) (p : MemPool T) : MemPool T :=
  { p with store := fun i => ⟨g (p.store i).object, (p.store i).isFree⟩ }

lemma map_modify {g : T → T} (p : MemPool T) (i : ℕ) {f : T → T} (hf : ∀ x, g (f x) = f (g x)) :
    (p.modify i f).map g = (p.map g).modify i f := by
  simp only [map, modify, get, mk.injEq, true_and, and_true]
  funext j
  by_cases h : j = i
  · subst h
    simp [hf]
  · simp [h]

lemma scanFree_congr (store store' : ℕ → ObjectBlock T)
    (h : ∀ i, (store' i).isFree = (store i).isFree) (size initial fuel i : ℕ) :
    scanFree store' size initial fuel i = scanFree store size initial fuel i := by
  induction fuel generalizing i with
  | zero => rfl
  | succ fuel ih =>
    rw [scanFree, scanFree, h]
    simp only [ih]

lemma map_allocate (g : T → T) (p : MemPool T) (object : T) :
    Prod.map id (map g) <$> p.allocate object = (p.map g).allocate (g object) := by
  set store := Function.update p.store p.nextFreeIndex ⟨object, false⟩ with hstore
  have hmap : (fun i => ⟨g (store i).object, (store i).isFree⟩) =
      Function.update (p.map g).store (p.map g).nextFreeIndex ⟨g object, false⟩ := by
    funext i
    by_cases h : i = p.nextFreeIndex
    · subst h
      simp [hstore, map]
    · simp [hstore, h, map]
  rw [p.allocate_eq object hstore, (p.map g).allocate_eq (g object) hmap]
  have hscan := scanFree_congr store (fun i => ⟨g (store i).object, (store i).isFree⟩)
    (fun _ => rfl) p.size p.nextFreeIndex p.size p.nextFreeIndex
  change _ = if (p.store p.nextFreeIndex).isFree = true then
    (scanFree _ p.size p.nextFreeIndex p.size p.nextFreeIndex).bind _ else _
  rw [hscan]
  split_ifs
  · cases scanFree store p.size p.nextFreeIndex p.size p.nextFreeIndex <;> rfl
  · rfl

lemma map_deallocate (g : T → T) (p : MemPool T) (i : ℕ) :
    map g <$> p.deallocate i = (p.map g).deallocate i := by
  have hrelease : (p.release i).map g = (p.map g).release i := by
    simp only [map, release, mk.injEq, true_and, and_true]
    funext j
    by_cases h : j = i
    · subst h
      simp
    · simp [h]
  have hsize : (p.map g).size = p.size := rfl
  have hfree : ((p.map g).store i).isFree = (p.store i).isFree := rfl
  simp only [deallocate, ← hrelease, hsize, hfree]
  by_cases hlt : i < p.size
  · by_cases hf : (p.store i).isFree = true
    · simp only [hlt, hf]
      rfl
    · simp only [hlt, hf]
      rfl
  · simp only [hlt]
    rfl

end MemPool

end MatchingEngine
