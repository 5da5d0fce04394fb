import Mathlib.Data.List.Dedup
import Mathlib.Tactic.Common

/-!
# Interleavings

A consumer that reads several streams, one element at a time and in an order of its own, sees
an interleaving of them.  It is given as the list of its picks, each with the stream it came
from; what came from a stream, in the order picked, is that stream.
-/

namespace Interleavings

variable {ι α : Type*} [DecidableEq ι]

/-- The picks that came from one stream, in order. -/
def picksOf (i : ι) (picks : List (ι × α)) : List α :=
  (picks.filter fun p => decide (p.1 = i)).map Prod.snd

/-- `picks` reads every stream to its end, each in its own order. -/
def Interleaves (streams : ι → List α) (picks : List (ι × α)) : Prop :=
  ∀ i, picksOf i picks = streams i

@[simp] lemma picksOf_append (i : ι) (ps qs : List (ι × α)) :
    picksOf i (ps ++ qs) = picksOf i ps ++ picksOf i qs := by
  simp [picksOf]

lemma Interleaves.mem {streams : ι → List α} {picks : List (ι × α)} (h : Interleaves streams picks)
    {p : ι × α} (hp : p ∈ picks) : p.2 ∈ streams p.1 := by
  rw [← h p.1]
  exact List.mem_map.mpr ⟨p, List.mem_filter.mpr ⟨hp, by simp⟩, rfl⟩

/-- Elements that carry the name of their stream can be told apart without the tags. -/
lemma filter_map_snd {key : α → ι} {picks : List (ι × α)} (h : ∀ p ∈ picks, key p.2 = p.1) (i : ι) :
    (picks.map Prod.snd).filter (fun a => decide (key a = i)) = picksOf i picks := by
  rw [List.filter_map, picksOf]
  congr 1
  refine List.filter_congr fun p hp => ?_
  simp [h p hp]

/-- One stream read to its end. -/
lemma picksOf_tagged (i j : ι) (l : List α) :
    picksOf i (l.map fun a => (j, a)) = if j = i then l else [] := by
  rw [picksOf, List.filter_map, List.map_map]
  split_ifs with h
  · have : ((fun p : ι × α => decide (p.1 = i)) ∘ fun a => (j, a)) = fun _ => true := by
      funext a
      simp [h]
    rw [this, List.filter_true]
    exact List.map_id _
  · have : ((fun p : ι × α => decide (p.1 = i)) ∘ fun a => (j, a)) = fun _ => false := by
      funext a
      simp [h]
    rw [this, List.filter_false]
    rfl

/-- Streams read one after the other contribute in turn. -/
lemma picksOf_flatMap {streams : ι → List α} {is : List ι} (hnodup : is.Nodup) (i : ι) :
    picksOf i (is.flatMap fun j => (streams j).map fun a => (j, a)) =
      if i ∈ is then streams i else [] := by
  induction is with
  | nil => rfl
  | cons j js ih =>
    obtain ⟨hj, hjs⟩ := List.nodup_cons.mp hnodup
    rw [List.flatMap_cons, picksOf_append, picksOf_tagged, ih hjs]
    by_cases hji : j = i
    · subst hji
      simp [hj]
    · simp [hji, Ne.symm hji]

/-- Finitely many streams can be read to their ends. -/
lemma exists_interleaves (streams : ι → List α) (is : List ι) (h : ∀ i, i ∉ is → streams i = []) :
    ∃ picks, Interleaves streams picks := by
  refine ⟨is.dedup.flatMap fun j => (streams j).map fun a => (j, a), fun i => ?_⟩
  rw [picksOf_flatMap is.nodup_dedup]
  split_ifs with hi
  · rfl
  · exact (h i fun hmem => hi (List.mem_dedup.mpr hmem)).symm

end Interleavings
