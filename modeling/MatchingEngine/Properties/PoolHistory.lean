import MatchingEngine.Common.MemoryPool
import Mathlib.Data.List.Infix
import Mathlib.Data.List.Nodup

/-!
# Histories of a memory pool

A pool is used through `allocate` and `deallocate` only, and what its users hold at any time is
determined by the calls made so far.  `PoolState` keeps both side by side: the pool, and the blocks
that were handed out and not given back, each with the object it was allocated for.  A history is
legal if it gives back only blocks that are held.

`PoolState.Ok` is the invariant of legal histories: the blocks held are the blocks in use, they
still hold what was put into them, and the cached index names a block that is free.  Because the
next free block is looked for at the end of `allocate` and not at its beginning, a pool has to keep
one block free: the call that takes the last one finds no other and stops the process, although it
could have been served.  `pool_blocks_safe` says that nothing else can go wrong, and
`pool_serves_iff` that this does go wrong, every time.
-/

namespace MatchingEngine

variable {T : Type}

/-- A call on a pool; a pointer is the index of a block. -/
inductive PoolCall (T : Type)
  | allocate (object : T)
  | deallocate (elem : ℕ)

def PoolCall.isAllocate : PoolCall T → Bool
  | .allocate _ => true
  | .deallocate _ => false

/-- A pool, and the blocks its users hold, the latest first. -/
structure PoolState (T : Type) where
  pool : MemPool T
  live : List (ℕ × T)

namespace PoolState

/-- `MemPool(num_elems)`, of which nothing is held yet. -/
def init [Inhabited T] (numElems : ℕ) : PoolState T := ⟨.new numElems, []⟩

/-- One call. -/
def exec (s : PoolState T) : PoolCall T → Except Fault (PoolState T)
  | .allocate object => do
    let (elem, pool) ← s.pool.allocate object
    return ⟨pool, (elem, object) :: s.live⟩
  | .deallocate elem => do
    let pool ← s.pool.deallocate elem
    return ⟨pool, s.live.filter fun e => decide (e.1 ≠ elem)⟩

/-- The calls of a history, up to the one that stops the process. -/
def execAll (s : PoolState T) : List (PoolCall T) → Except Fault (PoolState T)
  | [] => .ok s
  | c :: calls => (s.exec c).bind fun s => s.execAll calls

/-- The block is held. -/
def Live (s : PoolState T) (elem : ℕ) : Prop := elem ∈ s.live.map Prod.fst

/-- Every `deallocate` of the history is given a block that is held at that point. -/
def Legal (s : PoolState T) : List (PoolCall T) → Prop
  | [] => True
  | c :: calls => (∀ elem, c = .deallocate elem → s.Live elem) ∧
      ∀ s', s.exec c = .ok s' → s'.Legal calls

/-- The number of calls of `allocate` in a history. -/
def allocations (calls : List (PoolCall T)) : ℕ := calls.countP PoolCall.isAllocate

/-- The number of calls of `deallocate` in a history. -/
def deallocations (calls : List (PoolCall T)) : ℕ := calls.countP fun c => !c.isAllocate

/-- The number of blocks that are live after a history. -/
def outstanding (calls : List (PoolCall T)) : ℕ := allocations calls - deallocations calls

/-- The invariant of legal histories on a pool of `n` blocks. -/
structure Ok (n : ℕ) (s : PoolState T) : Prop where
  size : s.pool.size = n
  /-- The cached index is in range and names a free block. -/
  next : s.pool.nextFreeIndex < n ∧ (s.pool.store s.pool.nextFreeIndex).isFree = true
  /-- The blocks held are those in use, and each is held once. -/
  live : ∀ elem, s.Live elem ↔ elem < n ∧ (s.pool.store elem).isFree = false
  nodup : (s.live.map Prod.fst).Nodup
  /-- No object that is held was overwritten. -/
  objects : ∀ e ∈ s.live, s.pool.get e.1 = e.2

/-- What a call may do: `allocate` returns a block that is not held, or stops the process because
no block would be left, and its scan ends after `n` increments at the latest; `deallocate`
returns. -/
def Answers (n : ℕ) (s : PoolState T) : PoolCall T → Prop
  | .allocate object =>
    ((∃ elem s', s.exec (.allocate object) = .ok s' ∧ s'.live = (elem, object) :: s.live ∧
        elem < n ∧ ¬ s.Live elem ∧ s'.Ok n) ∨
      s.exec (.allocate object) = .error .outOfSpace) ∧
    (s.exec (.allocate object) = .error .outOfSpace ↔ s.live.length + 1 = n) ∧
    ∀ fuel, n ≤ fuel → MemPool.scanFree
      (Function.update s.pool.store s.pool.nextFreeIndex ⟨object, false⟩) n s.pool.nextFreeIndex
        fuel s.pool.nextFreeIndex ≠ .error .loopBound
  | .deallocate elem =>
    ∃ s', s.exec (.deallocate elem) = .ok s' ∧
      s'.live = s.live.filter (fun e => decide (e.1 ≠ elem)) ∧ s'.Ok n

variable {n : ℕ} {s : PoolState T}

lemma ok_init [Inhabited T] (hn : 0 < n) : (init n : PoolState T).Ok n where
  size := rfl
  next := ⟨hn, rfl⟩
  live elem := by simp [Live, init, MemPool.new]
  nodup := .nil
  objects e he := absurd he (by simp [init])

lemma Ok.wf (h : s.Ok n) : s.pool.WF := ⟨h.size ▸ h.next.1, h.next.2⟩

lemma Ok.live_iff (h : s.Ok n) (elem : ℕ) : elem ∈ s.live.map Prod.fst ↔ s.pool.InUse elem := by
  rw [MemPool.InUse, h.size]
  exact h.live elem

lemma Ok.length_lt (h : s.Ok n) : s.live.length < n := by
  have hlt := h.wf.length_lt h.nodup fun elem he => (h.live_iff elem).mp he
  rwa [List.length_map, h.size] at hlt

/-! ## The calls -/

lemma exec_allocate_ok {object : T} {elem : ℕ} {pool : MemPool T}
    (h : s.pool.allocate object = .ok (elem, pool)) :
    s.exec (.allocate object) = .ok ⟨pool, (elem, object) :: s.live⟩ := by
  rw [exec, h]
  rfl

/-- A block that was free is handed out; the other blocks are as they were. -/
lemma Ok.allocated (h : s.Ok n) {object : T} {pool : MemPool T}
    (halloc : MemPool.Allocated s.pool object pool) :
    (⟨pool, (s.pool.nextFreeIndex, object) :: s.live⟩ : PoolState T).Ok n where
  size := halloc.size.trans h.size
  next := by
    have hwf := halloc.wf
    exact ⟨h.size ▸ halloc.size ▸ hwf.next_lt, hwf.next_free⟩
  live elem := by
    have huse := halloc.inUse_iff h.wf elem
    rw [MemPool.InUse, halloc.size, h.size] at huse
    rw [huse, Live, List.map_cons, List.mem_cons, h.live_iff]
    exact or_comm
  nodup := by
    rw [List.map_cons, List.nodup_cons, h.live_iff]
    exact ⟨h.wf.not_inUse_next, h.nodup⟩
  objects e he := by
    rw [halloc.get_eq]
    rcases List.mem_cons.mp he with rfl | he
    · rw [if_pos rfl]
    · have hne : e.1 ≠ s.pool.nextFreeIndex := fun heq =>
        h.wf.not_inUse_next (heq ▸ (h.live_iff e.1).mp (List.mem_map_of_mem he))
      rw [if_neg hne]
      exact h.objects e he

/-- `allocate`, by the number of blocks held. -/
lemma Ok.allocate (h : s.Ok n) (object : T) :
    (s.live.length + 1 < n ∧ ∃ s', s.exec (.allocate object) = .ok s' ∧
        s'.live = (s.pool.nextFreeIndex, object) :: s.live ∧ s'.Ok n) ∨
      (s.live.length + 1 = n ∧ s.exec (.allocate object) = .error .outOfSpace) := by
  have hcases := h.wf.allocate_cases h.nodup h.live_iff object
  rw [List.length_map, h.size] at hcases
  rcases hcases with ⟨hlt, pool, hok, halloc⟩ | ⟨hfull, herr⟩
  · exact .inl ⟨hlt, _, exec_allocate_ok hok, rfl, h.allocated halloc⟩
  · refine .inr ⟨hfull, ?_⟩
    rw [exec, herr]
    rfl

lemma live_filter (s : PoolState T) (elem : ℕ) :
    (s.live.filter fun e => decide (e.1 ≠ elem)).map Prod.fst =
      (s.live.map Prod.fst).filter fun i => decide (i ≠ elem) := by
  rw [List.filter_map]
  rfl

/-- `deallocate` of a block that is held. -/
lemma Ok.deallocate (h : s.Ok n) {elem : ℕ} (helem : s.Live elem) :
    ∃ s', s.exec (.deallocate elem) = .ok s' ∧
      s'.live = s.live.filter (fun e => decide (e.1 ≠ elem)) ∧ s'.Ok n := by
  have huse := (h.live_iff elem).mp helem
  refine ⟨⟨s.pool.release elem, s.live.filter fun e => decide (e.1 ≠ elem)⟩, ?_, rfl, ?_⟩
  · rw [exec, MemPool.deallocate_spec huse]
    rfl
  have hwf := h.wf.release elem
  constructor
  case size => exact h.size
  case next => exact ⟨h.next.1, hwf.next_free⟩
  case live =>
    intro i
    have hrelease := s.pool.inUse_release elem i
    rw [MemPool.InUse] at hrelease
    change _ ↔ i < n ∧ ((s.pool.release elem).store i).isFree = false
    rw [← h.size]
    refine Iff.trans ?_ hrelease.symm
    rw [Live, live_filter, List.mem_filter, h.live_iff, decide_eq_true_iff]
  case nodup =>
    rw [live_filter]
    exact h.nodup.filter _
  case objects =>
    intro e he
    rw [MemPool.get_release]
    exact h.objects e (List.mem_of_mem_filter he)

/-- Giving a block back leaves one block less. -/
lemma Ok.length_filter (h : s.Ok n) {elem : ℕ} (helem : s.Live elem) :
    (s.live.filter fun e => decide (e.1 ≠ elem)).length + 1 = s.live.length := by
  have herase : (s.live.map Prod.fst).erase elem =
      (s.live.map Prod.fst).filter fun i => decide (i ≠ elem) := by
    rw [h.nodup.erase_eq_filter]
    refine List.filter_congr fun i _ => ?_
    by_cases hi : i = elem
    · simp [hi]
    · simp [hi]
  have hlength := List.length_erase_add_one helem
  rw [herase, ← s.live_filter, List.length_map, List.length_map] at hlength
  exact hlength

/-- The scan of `allocate` ends within `n` increments. -/
lemma Ok.scan_ends (h : s.Ok n) (object : T) {fuel : ℕ} (hfuel : n ≤ fuel) :
    MemPool.scanFree (Function.update s.pool.store s.pool.nextFreeIndex ⟨object, false⟩) n
      s.pool.nextFreeIndex fuel s.pool.nextFreeIndex ≠ .error .loopBound := by
  set store := Function.update s.pool.store s.pool.nextFreeIndex ⟨object, false⟩
  have hscan := MemPool.scanFree_spec store h.next.1 n 0 (Nat.zero_lt_of_lt h.next.1)
    (Nat.zero_add n) (fun j hj => absurd hj (Nat.not_lt_zero j))
  rw [Nat.add_zero, Nat.mod_eq_of_lt h.next.1] at hscan
  have hends : MemPool.scanFree store n s.pool.nextFreeIndex n s.pool.nextFreeIndex ≠
      .error .loopBound := by
    rcases hscan with ⟨i, hi, -⟩ | ⟨herr, -⟩
    · rw [hi]
      exact fun he => by cases he
    · rw [herr]
      exact fun he => by cases he
  obtain ⟨m, rfl⟩ := Nat.exists_eq_add_of_le hfuel
  rwa [MemPool.scanFree_add _ _ _ _ _ _ hends]

/-- Every legal call is answered as it should be. -/
lemma Ok.answers (h : s.Ok n) {c : PoolCall T} (hc : ∀ elem, c = .deallocate elem → s.Live elem) :
    s.Answers n c := by
  cases c with
  | deallocate elem => exact h.deallocate (hc elem rfl)
  | allocate object =>
    refine ⟨?_, ?_, fun fuel hfuel => h.scan_ends object hfuel⟩
    · rcases h.allocate object with ⟨-, s', hok, hlive, hs'⟩ | ⟨-, herr⟩
      · have hnext : ¬ s.Live s.pool.nextFreeIndex := fun hmem =>
          h.wf.not_inUse_next ((h.live_iff _).mp hmem)
        exact .inl ⟨_, s', hok, hlive, h.next.1, hnext, hs'⟩
      · exact .inr herr
    · rcases h.allocate object with ⟨hlt, s', hok, -⟩ | ⟨hfull, herr⟩
      · rw [hok]
        refine ⟨fun he => ?_, fun he => absurd he hlt.ne⟩
        cases he
      · exact ⟨fun _ => hfull, fun _ => herr⟩

/-! ## Histories -/

/-- A legal call keeps the invariant. -/
lemma Ok.exec (h : s.Ok n) {c : PoolCall T} (hc : ∀ elem, c = .deallocate elem → s.Live elem)
    {s' : PoolState T} (hs : s.exec c = .ok s') : s'.Ok n := by
  cases c with
  | allocate object =>
    rcases h.allocate object with ⟨-, s₁, hok, -, hs₁⟩ | ⟨-, herr⟩
    · rw [hok] at hs
      exact Except.ok.inj hs ▸ hs₁
    · rw [herr] at hs
      cases hs
  | deallocate elem =>
    obtain ⟨s₁, hok, -, hs₁⟩ := h.deallocate (hc elem rfl)
    rw [hok] at hs
    exact Except.ok.inj hs ▸ hs₁

/-- The invariant holds after every legal history, and the next legal call is answered. -/
lemma Ok.execAll (h : s.Ok n) {calls : List (PoolCall T)} {c : PoolCall T}
    (hlegal : s.Legal (calls ++ [c])) {s' : PoolState T} (hs : s.execAll calls = .ok s') :
    s'.Ok n ∧ s'.Answers n c := by
  induction calls generalizing s with
  | nil =>
    obtain rfl := Except.ok.inj hs
    exact ⟨h, h.answers hlegal.1⟩
  | cons d calls ih =>
    obtain ⟨hd, hrest⟩ := hlegal
    cases hexec : s.exec d with
    | error e =>
      rw [PoolState.execAll, hexec] at hs
      cases hs
    | ok s₁ =>
      rw [PoolState.execAll, hexec] at hs
      exact ih (h.exec hd hexec) (hrest s₁ hexec) hs

section Counts

variable (object : T) (elem : ℕ) (calls : List (PoolCall T))

lemma calls_nil : allocations ([] : List (PoolCall T)) = 0 ∧
    deallocations ([] : List (PoolCall T)) = 0 := ⟨rfl, rfl⟩

lemma calls_allocate : allocations (.allocate object :: calls) = allocations calls + 1 ∧
    deallocations (.allocate object :: calls) = deallocations calls :=
  ⟨List.countP_cons_of_pos rfl, List.countP_cons_of_neg Bool.false_ne_true⟩

lemma calls_deallocate : allocations (.deallocate elem :: calls) = allocations calls ∧
    deallocations (.deallocate elem :: calls) = deallocations calls + 1 :=
  ⟨List.countP_cons_of_neg Bool.false_ne_true, List.countP_cons_of_pos rfl⟩

end Counts

lemma forall_prefix_cons {α : Type} {a : α} {l : List α} {P : List α → Prop} :
    (∀ pre, pre <+: a :: l → P pre) ↔ P [] ∧ ∀ pre, pre <+: l → P (a :: pre) := by
  constructor
  · intro hP
    exact ⟨hP [] List.nil_prefix, fun pre hpre => hP _ (List.cons_prefix_cons.mpr ⟨rfl, hpre⟩)⟩
  · rintro ⟨hnil, hcons⟩ pre hpre
    rcases List.prefix_cons_iff.mp hpre with rfl | ⟨pre', rfl, hpre'⟩
    · exact hnil
    · exact hcons pre' hpre'

/-- A history runs to its end if and only if it never leaves all blocks live. -/
lemma Ok.serves_iff (h : s.Ok n) {calls : List (PoolCall T)} (hlegal : s.Legal calls) :
    (∃ s', s.execAll calls = .ok s') ↔ ∀ pre, pre <+: calls →
      s.live.length + allocations pre < n + deallocations pre := by
  induction calls generalizing s with
  | nil =>
    have hlt := h.length_lt
    refine ⟨fun _ pre hpre => ?_, fun _ => ⟨s, rfl⟩⟩
    rw [List.prefix_nil.mp hpre]
    exact hlt
  | cons c calls ih =>
    obtain ⟨hc, hrest⟩ := hlegal
    have hlt := h.length_lt
    rw [forall_prefix_cons]
    cases c with
    | allocate object =>
      rcases h.allocate object with ⟨hroom, s₁, hok, hlive, hs₁⟩ | ⟨hfull, herr⟩
      · have hrun : s.execAll (.allocate object :: calls) = s₁.execAll calls := by
          rw [PoolState.execAll, hok]
          rfl
        rw [hrun, ih hs₁ (hrest s₁ hok), hlive]
        simp only [calls_nil, calls_allocate, List.length_cons]
        refine ⟨fun hpre => ⟨by omega, fun pre hp => ?_⟩, fun hpre pre hp => ?_⟩
        · have := hpre pre hp
          omega
        · have := hpre.2 pre hp
          omega
      · have hrun : s.execAll (.allocate object :: calls) = .error .outOfSpace := by
          rw [PoolState.execAll, herr]
          rfl
        refine ⟨fun hs => ?_, fun hpre => ?_⟩
        · obtain ⟨s', hs'⟩ := hs
          rw [hrun] at hs'
          cases hs'
        · have := hpre.2 [] List.nil_prefix
          simp only [calls_nil, calls_allocate] at this
          omega
    | deallocate elem =>
      obtain ⟨s₁, hok, hlive, hs₁⟩ := h.deallocate (hc elem rfl)
      have hlength := h.length_filter (hc elem rfl)
      have hrun : s.execAll (.deallocate elem :: calls) = s₁.execAll calls := by
        rw [PoolState.execAll, hok]
        rfl
      rw [hrun, ih hs₁ (hrest s₁ hok), hlive]
      simp only [calls_nil, calls_deallocate]
      refine ⟨fun hpre => ⟨by omega, fun pre hp => ?_⟩, fun hpre pre hp => ?_⟩
      · have := hpre pre hp
        omega
      · have := hpre.2 pre hp
        omega

end PoolState

/-- On a pool of any size, after every legal history that has not stopped the process: the blocks
held are the blocks in use and hold what was put into them, the cached index names a free block,
and the next legal call is answered.  In particular `allocate` never returns a block that is held,
no assertion but "out of space" ever fails, and that one fails exactly when the call takes the last
free block. -/
theorem pool_blocks_safe [Inhabited T] {n : ℕ} (hn : 0 < n) {calls : List (PoolCall T)}
    {c : PoolCall T} (hlegal : (PoolState.init n).Legal (calls ++ [c])) {s : PoolState T}
    (hs : (PoolState.init n).execAll calls = .ok s) : s.Ok n ∧ s.Answers n c :=
  (PoolState.ok_init hn).execAll hlegal hs

/-- A pool of two blocks, of which one is held, and a call for the other: out of space. -/
theorem pool_blocks_safe_second :
    ∃ s : PoolState ℕ, (PoolState.init 2).execAll [.allocate 7] = .ok s ∧ s.live = [(0, 7)] ∧
      s.Ok 2 ∧ s.Answers 2 (.allocate 8) := by
  refine ⟨_, rfl, rfl, ?_⟩
  have hlegal : (PoolState.init 2 : PoolState ℕ).Legal ([.allocate 7] ++ [.allocate 8]) :=
    ⟨nofun, fun _ _ => ⟨nofun, fun _ _ => trivial⟩⟩
  exact pool_blocks_safe (by decide) hlegal rfl

/-- A legal history on a pool of any size runs to its end if and only if at no time all blocks are
live. -/
theorem pool_serves_iff [Inhabited T] {n : ℕ} (hn : 0 < n) {calls : List (PoolCall T)}
    (hlegal : (PoolState.init n).Legal calls) :
    (∃ s, (PoolState.init n).execAll calls = .ok s) ↔
      ∀ pre, pre <+: calls → PoolState.outstanding pre < n := by
  rw [(PoolState.ok_init hn).serves_iff hlegal]
  refine forall_congr' fun pre => imp_congr_right fun _ => ?_
  change 0 + _ < _ ↔ _
  rw [PoolState.outstanding]
  omega

/-- A pool of two blocks serves one user at a time for ever. -/
theorem pool_serves_one_of_two :
    (∃ s : PoolState ℕ, (PoolState.init 2).execAll [.allocate 7, .deallocate 0, .allocate 8] =
        .ok s) ∧
      ∀ pre, pre <+: [PoolCall.allocate 7, .deallocate 0, .allocate 8] →
        PoolState.outstanding pre < 2 := by
  have hlegal : (PoolState.init 2 : PoolState ℕ).Legal
      [.allocate 7, .deallocate 0, .allocate 8] := by
    refine ⟨nofun, fun s₁ h₁ => ⟨fun elem he => ?_, fun s₂ _ => ⟨nofun, fun _ _ => trivial⟩⟩⟩
    obtain rfl := Except.ok.inj h₁
    obtain rfl := PoolCall.deallocate.inj he
    exact List.mem_cons_self
  have hruns : ∃ s : PoolState ℕ,
      (PoolState.init 2).execAll [.allocate 7, .deallocate 0, .allocate 8] = .ok s := ⟨_, rfl⟩
  exact ⟨hruns, (pool_serves_iff (by decide) hlegal).mp hruns⟩

/-- A pool of one block cannot serve the first call. -/
theorem pool_of_one_fails :
    (PoolState.init 1 : PoolState ℕ).Legal [.allocate 7] ∧
      (∀ pre, pre <+: [PoolCall.allocate 7] → PoolState.outstanding pre ≤ 1) ∧
      (PoolState.init 1 : PoolState ℕ).execAll [.allocate 7] = .error .outOfSpace := by
  refine ⟨⟨nofun, fun _ _ => trivial⟩, fun pre hpre => ?_, rfl⟩
  have hle := hpre.length_le
  have hcount : PoolState.allocations pre ≤ pre.length := List.countP_le_length
  rw [List.length_singleton] at hle
  rw [PoolState.outstanding]
  omega

end MatchingEngine
