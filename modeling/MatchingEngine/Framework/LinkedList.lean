import Mathlib.Data.List.Nodup
import Mathlib.Tactic.Common

/-!
# Intrusive doubly linked lists

An intrusive list stores its links inside the nodes, so the shape of the list is a property
of two functions `prev next : ι → Option ι` on node addresses, `none` being the null pointer.
`IsDList prev next head tail ps` says that the four pointers describe exactly the finite,
acyclic doubly linked list with nodes `ps` in order.

`Seg` is the open form: a run of nodes entered from `before` and left towards `after`.  It
splits at any point (`seg_append`), and its two ends can be redirected independently
(`Seg.set_before`, `Seg.set_after`).  The two list operations are assembled from these:
appending at the tail (`IsDList.append`) and unlinking an inner node (`IsDList.unlink`).

Both operations are stated against arbitrary new link functions `prev' next'` that agree
pointwise with the expected update on the nodes concerned.  A client therefore never has to
put its memory writes into one particular syntactic form, and other lists in the same memory
are carried along by `IsDList.congr`.
-/

namespace LinkedLists

variable {ι : Type*} {prev next prev' next' : ι → Option ι}

/-! ## Segments -/

/-- The nodes `ps` are linked one to the next, entered from `before` and left to `after`. -/
def Seg (prev next : ι → Option ι) : Option ι → List ι → Option ι → Prop
  | _, [], _ => True
  | before, p :: ps, after =>
    prev p = before ∧ next p = ps.head?.or after ∧ Seg prev next (some p) ps after

/-- Splitting a segment: the left part leaves to the head of the right part, the right part
is entered from the last node of the left part. -/
lemma seg_append {before after : Option ι} {xs ys : List ι} :
    Seg prev next before (xs ++ ys) after ↔
      Seg prev next before xs (ys.head?.or after) ∧
        Seg prev next (xs.getLast?.or before) ys after := by
  induction xs generalizing before with
  | nil => simp [Seg]
  | cons x xs ih =>
    have hlast : (x :: xs).getLast?.or before = xs.getLast?.or (some x) := by
      cases xs with
      | nil => simp
      | cons y ys => simp [List.getLast?_cons]
    simp only [List.cons_append, Seg, ih, hlast, List.head?_append, Option.or_assoc, and_assoc]

/-- A segment only depends on the links of its own nodes. -/
lemma Seg.congr {before after : Option ι} {ps : List ι} (h : Seg prev next before ps after)
    (hprev : ∀ q ∈ ps, prev' q = prev q) (hnext : ∀ q ∈ ps, next' q = next q) :
    Seg prev' next' before ps after := by
  induction ps generalizing before with
  | nil => trivial
  | cons p ps ih =>
    obtain ⟨hp, hn, hs⟩ := h
    refine ⟨(hprev p (by simp)).trans hp, (hnext p (by simp)).trans hn, ih hs ?_ ?_⟩
    · exact fun q hq => hprev q (by simp [hq])
    · exact fun q hq => hnext q (by simp [hq])

variable [DecidableEq ι]

/-- Redirect the exit of a segment: only the last node's `next` changes. -/
lemma Seg.set_after {before after after' : Option ι} {ps : List ι}
    (h : Seg prev next before ps after) (hnd : ps.Nodup)
    (hprev : ∀ q ∈ ps, prev' q = prev q)
    (hnext : ∀ q ∈ ps, next' q = if some q = ps.getLast? then after' else next q) :
    Seg prev' next' before ps after' := by
  induction ps generalizing before with
  | nil => trivial
  | cons p ps ih =>
    obtain ⟨hp, hn, hs⟩ := h
    obtain ⟨hpnot, hnd'⟩ := List.nodup_cons.mp hnd
    have hrest : Seg prev' next' (some p) ps after' := by
      refine ih hs hnd' (fun q hq => hprev q (by simp [hq])) (fun q hq => ?_)
      rw [hnext q (by simp [hq])]
      cases ps with
      | nil => simp at hq
      | cons r rs => simp [List.getLast?_cons]
    refine ⟨(hprev p (by simp)).trans hp, ?_, hrest⟩
    rw [hnext p (by simp)]
    cases ps with
    | nil => simp
    | cons r rs =>
      -- the last node lies in the tail, and `p` does not
      have hlast : (p :: r :: rs).getLast? ≠ some p := by
        intro heq
        have hmem : p ∈ r :: rs := by
          rw [List.getLast?_cons_cons] at heq
          exact List.mem_of_getLast? heq
        exact hpnot hmem
      rw [if_neg (fun he => hlast he.symm), hn]
      simp

/-- Redirect the entry of a segment: only the first node's `prev` changes. -/
lemma Seg.set_before {before before' after : Option ι} {ps : List ι}
    (h : Seg prev next before ps after) (hnd : ps.Nodup)
    (hprev : ∀ q ∈ ps, prev' q = if some q = ps.head? then before' else prev q)
    (hnext : ∀ q ∈ ps, next' q = next q) :
    Seg prev' next' before' ps after := by
  cases ps with
  | nil => trivial
  | cons p ps =>
    obtain ⟨-, hn, hs⟩ := h
    obtain ⟨hpnot, -⟩ := List.nodup_cons.mp hnd
    refine ⟨by rw [hprev p (by simp)]; simp, (hnext p (by simp)).trans hn, ?_⟩
    refine hs.congr (fun q hq => ?_) (fun q hq => hnext q (by simp [hq]))
    have hqp : q ≠ p := fun he => hpnot (he ▸ hq)
    rw [hprev q (by simp [hq])]
    simp [hqp]

/-! ## Whole lists -/

omit [DecidableEq ι] in
/-- `head`, `tail` and the links describe the doubly linked list with nodes `ps`. -/
structure IsDList (prev next : ι → Option ι) (head tail : Option ι) (ps : List ι) : Prop where
  head_eq : head = ps.head?
  tail_eq : tail = ps.getLast?
  nodup : ps.Nodup
  seg : Seg prev next none ps none

namespace IsDList

variable {head tail : Option ι} {ps xs ys : List ι} {p : ι}

omit [DecidableEq ι] in
/-- A list only depends on the links of its own nodes. -/
lemma congr (h : IsDList prev next head tail ps) (hprev : ∀ q ∈ ps, prev' q = prev q)
    (hnext : ∀ q ∈ ps, next' q = next q) : IsDList prev' next' head tail ps :=
  ⟨h.head_eq, h.tail_eq, h.nodup, h.seg.congr hprev hnext⟩

omit [DecidableEq ι] in
/-- The neighbours of an inner node. -/
lemma links_mid (h : IsDList prev next head tail (xs ++ p :: ys)) :
    prev p = xs.getLast? ∧ next p = ys.head? := by
  obtain ⟨-, hp, hn, -⟩ := seg_append.mp h.seg
  exact ⟨by simpa using hp, by simpa using hn⟩

/-- Append a fresh node at the tail. -/
lemma append (h : IsDList prev next head tail ps) (hp : p ∉ ps)
    (hprevp : prev' p = tail) (hnextp : next' p = none)
    (hprev : ∀ q ∈ ps, prev' q = prev q)
    (hnext : ∀ q ∈ ps, next' q = if some q = tail then some p else next q) :
    IsDList prev' next' (if tail = none then some p else head) (some p) (ps ++ [p]) := by
  have hnil : tail = none ↔ ps = [] := by rw [h.tail_eq]; exact List.getLast?_eq_none_iff
  refine ⟨?_, by simp, List.nodup_append.mpr ⟨h.nodup, by simp, ?_⟩, ?_⟩
  · cases ps with
    | nil => simp [hnil]
    | cons q qs => simp [hnil, h.head_eq]
  · intro a ha b hb
    rw [List.mem_singleton.mp hb]
    exact fun he => hp (he ▸ ha)
  · refine seg_append.mpr ⟨?_, ?_⟩
    · exact h.seg.set_after h.nodup hprev (fun q hq => by rw [hnext q hq, h.tail_eq]; rfl)
    · exact ⟨by rw [hprevp, h.tail_eq]; simp, by simp [hnextp], trivial⟩

/-- Unlink an inner node: its neighbours are joined to each other. -/
lemma unlink (h : IsDList prev next head tail (xs ++ p :: ys))
    (hprev : ∀ q ∈ xs ++ ys, prev' q = if some q = next p then prev p else prev q)
    (hnext : ∀ q ∈ xs ++ ys, next' q = if some q = prev p then next p else next q) :
    IsDList prev' next' (if prev p = none then next p else head)
      (if next p = none then prev p else tail) (xs ++ ys) := by
  obtain ⟨hpp, hnp⟩ := h.links_mid
  obtain ⟨hsx, -, -, hsy⟩ := seg_append.mp h.seg
  obtain ⟨hndx, hndpy, hdisj⟩ := List.nodup_append.mp h.nodup
  obtain ⟨hpy, hndy⟩ := List.nodup_cons.mp hndpy
  have hxy : ∀ a ∈ xs, a ∉ ys := fun a ha hay => hdisj a ha a (by simp [hay]) rfl
  refine ⟨?_, ?_, List.nodup_append.mpr ⟨hndx, hndy, ?_⟩, seg_append.mpr ⟨?_, ?_⟩⟩
  · rw [hpp, hnp, h.head_eq]
    cases xs with
    | nil => simp
    | cons x xs => simp
  · rw [hpp, hnp, h.tail_eq]
    cases ys with
    | nil => simp
    | cons y ys => simp [List.getLast?_append]
  · exact fun a ha b hb he => hxy a ha (he ▸ hb)
  · refine hsx.set_after hndx (fun q hq => ?_) (fun q hq => ?_)
    · have hne : some q ≠ next p := by
        rw [hnp]
        exact fun he => hxy q hq (List.mem_of_head? he.symm)
      rw [hprev q (by simp [hq]), if_neg hne]
    · rw [hnext q (by simp [hq]), hpp, hnp]
      simp
  · refine hsy.set_before hndy (fun q hq => ?_) (fun q hq => ?_)
    · rw [hprev q (by simp [hq]), hpp, hnp]
      simp
    · have hne : some q ≠ prev p := by
        rw [hpp]
        exact fun he => hxy q (List.mem_of_getLast? he.symm) hq
      rw [hnext q (by simp [hq]), if_neg hne]

end IsDList

/-! ## Traversal -/

/-- The nodes met when following `next` for at most `n` steps. -/
def walk (next : ι → Option ι) : ℕ → Option ι → List ι
  | 0, _ => []
  | _ + 1, none => []
  | n + 1, some p => p :: walk next n (next p)

omit [DecidableEq ι] in
/-- Enough steps from the head visit exactly the nodes of the list, in order. -/
lemma Seg.walk_eq {before : Option ι} {ps : List ι} (h : Seg prev next before ps none)
    {n : ℕ} (hn : ps.length ≤ n) : walk next n ps.head? = ps := by
  induction ps generalizing before n with
  | nil => cases n <;> rfl
  | cons p ps ih =>
    obtain ⟨-, hnext, hs⟩ := h
    cases n with
    | zero => simp at hn
    | succ n =>
      have hnext' : next p = ps.head? := by simpa using hnext
      rw [List.head?_cons, walk, hnext', ih hs (by simpa using hn)]

end LinkedLists
