import Mathlib.Data.List.Pairwise
import Mathlib.Order.Defs.Unbundled
import Mathlib.Tactic.Common

/-!
# Ordered maps as sorted association lists

A `std::map` with comparator `before` is rendered as the list of its entries in iteration
order, together with the proof that the keys are strictly increasing under `before`.  The
proof is a field of `OrderedMap`, so a map whose iteration order disagrees with its
comparator cannot be built.

The primitive is `insertBy`, sorted insertion into a list whose elements carry a key.  It is
stated for arbitrary elements rather than for key/value pairs, because clients keep several
parallel renderings of one map (its entries, and richer views of the same levels) and move
between them with `map_insertBy`.

The operations are the ones a client of `std::map` uses: `find`, `insert` (assignment through
`operator[]`), `erase`, `begin` and `upperBound`.  Iterators are rendered by the entry they
point to, `none` being `end()`.
-/

namespace OrderedMaps

variable {α β κ ν : Type*} (before : κ → κ → Prop) [DecidableRel before] [DecidableEq κ]

/-! ## Sorted insertion -/

/-- Insert `a` into a list kept in increasing key order, replacing an element of equal key. -/
def insertBy (key : α → κ) (a : α) : List α → List α
  | [] => [a]
  | b :: bs =>
    if key b = key a then a :: bs
    else if before (key a) (key b) then a :: b :: bs
    else b :: insertBy key a bs

/-- A map that keeps the comparisons of the new key commutes with insertion. -/
lemma map_insertBy_of_iff {κ' : Type*} (before' : κ' → κ' → Prop) [DecidableRel before']
    [DecidableEq κ'] (key : α → κ) (key' : β → κ') (f : α → β) (a : α) {l : List α}
    (heq : ∀ x ∈ l, key' (f x) = key' (f a) ↔ key x = key a)
    (hlt : ∀ x ∈ l, before' (key' (f a)) (key' (f x)) ↔ before (key a) (key x)) :
    (insertBy before key a l).map f = insertBy before' key' (f a) (l.map f) := by
  induction l with
  | nil => rfl
  | cons b bs ih =>
    simp only [insertBy, List.map_cons, heq b (by simp), hlt b (by simp)]
    split_ifs
    · rfl
    · rfl
    · rw [List.map_cons, ih (fun x hx => heq x (by simp [hx])) fun x hx => hlt x (by simp [hx])]

/-- A key-preserving map commutes with insertion. -/
lemma map_insertBy (key : α → κ) (key' : β → κ) (f : α → β) (hf : ∀ x, key' (f x) = key x)
    (a : α) (l : List α) :
    (insertBy before key a l).map f = insertBy before key' (f a) (l.map f) :=
  map_insertBy_of_iff before before key key' f a (fun x _ => by rw [hf, hf])
    fun x _ => by rw [hf, hf]

/-- Insertion under a new key adds an element. -/
lemma length_insertBy {key : α → κ} {a : α} {l : List α} (h : ∀ x ∈ l, key x ≠ key a) :
    (insertBy before key a l).length = l.length + 1 := by
  induction l with
  | nil => rfl
  | cons b bs ih =>
    simp only [insertBy, if_neg (h b (by simp))]
    split_ifs
    · rfl
    · rw [List.length_cons, ih fun x hx => h x (by simp [hx])]
      rfl

/-- An element of the result is the new one or an old one. -/
lemma mem_insertBy_imp {key : α → κ} {a x : α} {l : List α}
    (hx : x ∈ insertBy before key a l) : x = a ∨ x ∈ l := by
  induction l with
  | nil => simpa [insertBy] using hx
  | cons b bs ih =>
    simp only [insertBy] at hx
    split_ifs at hx
    · rcases List.mem_cons.mp hx with h | h
      · exact .inl h
      · exact .inr (by simp [h])
    · rcases List.mem_cons.mp hx with h | h
      · exact .inl h
      · exact .inr h
    · rcases List.mem_cons.mp hx with h | h
      · exact .inr (by simp [h])
      · rcases ih h with h | h
        · exact .inl h
        · exact .inr (by simp [h])

/-- Insertion keeps the list sorted. -/
lemma pairwise_insertBy [IsStrictTotalOrder κ before] {key : α → κ} (a : α) {l : List α}
    (hl : l.Pairwise (fun x y => before (key x) (key y))) :
    (insertBy before key a l).Pairwise (fun x y => before (key x) (key y)) := by
  induction l with
  | nil => simp [insertBy]
  | cons b bs ih =>
    obtain ⟨hb, hbs⟩ := List.pairwise_cons.mp hl
    simp only [insertBy]
    split_ifs with heq hlt
    · exact List.pairwise_cons.mpr ⟨fun c hc => heq ▸ hb c hc, hbs⟩
    · refine List.pairwise_cons.mpr ⟨fun c hc => ?_, hl⟩
      rcases List.mem_cons.mp hc with rfl | hc
      · exact hlt
      · exact trans_of before hlt (hb c hc)
    · refine List.pairwise_cons.mpr ⟨fun c hc => ?_, ih hbs⟩
      rcases mem_insertBy_imp before hc with rfl | hc
      · exact ((trichotomous_of before (key b) (key c)).resolve_right
          (not_or.mpr ⟨heq, hlt⟩))
      · exact hb c hc

omit [DecidableRel before] [DecidableEq κ] in
/-- In a sorted list an element is determined by its key. -/
lemma eq_of_key_eq [IsStrictTotalOrder κ before] {key : α → κ} {l : List α}
    (hl : l.Pairwise (fun x y => before (key x) (key y))) {x y : α} (hx : x ∈ l) (hy : y ∈ l)
    (h : key x = key y) : x = y := by
  induction l with
  | nil => simp at hx
  | cons b bs ih =>
    obtain ⟨hb, hbs⟩ := List.pairwise_cons.mp hl
    rcases List.mem_cons.mp hx with rfl | hx' <;> rcases List.mem_cons.mp hy with rfl | hy'
    · rfl
    · exact absurd (h ▸ hb y hy') (irrefl_of before (key y))
    · exact absurd (h ▸ hb x hx') (irrefl_of before (key y))
    · exact ih hbs hx' hy'

/-- In a sorted list insertion adds the new element and displaces the one of equal key. -/
lemma mem_insertBy [IsStrictTotalOrder κ before] {key : α → κ} {a x : α} {l : List α}
    (hl : l.Pairwise (fun x y => before (key x) (key y))) :
    x ∈ insertBy before key a l ↔ x = a ∨ x ∈ l ∧ key x ≠ key a := by
  induction l with
  | nil => simp [insertBy]
  | cons b bs ih =>
    obtain ⟨hb, hbs⟩ := List.pairwise_cons.mp hl
    simp only [insertBy]
    split_ifs with heq hlt
    · have hne : ∀ c ∈ bs, key c ≠ key a := fun c hc he =>
        irrefl_of before (key c) (by have := hb c hc; rwa [heq, ← he] at this)
      simp only [List.mem_cons]
      constructor
      · rintro (h | h)
        · exact .inl h
        · exact .inr ⟨.inr h, hne x h⟩
      · rintro (h | ⟨rfl | h, hk⟩)
        · exact .inl h
        · exact absurd heq hk
        · exact .inr h
    · have hne : ∀ c ∈ b :: bs, key c ≠ key a := by
        intro c hc he
        rcases List.mem_cons.mp hc with rfl | hc
        · exact heq he
        · exact irrefl_of before (key a)
            (by have := trans_of before hlt (hb c hc); rwa [he] at this)
      rw [List.mem_cons]
      exact or_congr_right ⟨fun h => ⟨h, hne x h⟩, fun h => h.1⟩
    · rw [List.mem_cons, ih hbs, List.mem_cons]
      constructor
      · rintro (rfl | h | ⟨h, hk⟩)
        · exact .inr ⟨.inl rfl, heq⟩
        · exact .inl h
        · exact .inr ⟨.inr h, hk⟩
      · rintro (h | ⟨rfl | h, hk⟩)
        · exact .inr (.inl h)
        · exact .inl rfl
        · exact .inr (.inr ⟨h, hk⟩)

/-- Inserting an element that is already there changes nothing. -/
lemma insertBy_of_mem [IsStrictTotalOrder κ before] {key : α → κ} {a : α} {l : List α}
    (hl : l.Pairwise (fun x y => before (key x) (key y))) (ha : a ∈ l) :
    insertBy before key a l = l := by
  induction l with
  | nil => simp at ha
  | cons b bs ih =>
    obtain ⟨hb, hbs⟩ := List.pairwise_cons.mp hl
    by_cases hba : b = a
    · simp [insertBy, hba]
    · have ha' : a ∈ bs := (List.mem_cons.mp ha).resolve_left (fun h => hba h.symm)
      have hlt : before (key b) (key a) := hb a ha'
      have hne : key b ≠ key a := fun he => irrefl_of before (key a) (he ▸ hlt)
      have hnlt : ¬ before (key a) (key b) := fun h => asymm_of before h hlt
      rw [insertBy, if_neg hne, if_neg hnlt, ih hbs ha']

/-! ## Ordered maps -/

/-- A `std::map` with comparator `before`: its entries in iteration order. -/
structure OrderedMap (κ ν : Type*) (before : κ → κ → Prop) where
  /-- The entries, first to last. -/
  entries : List (κ × ν)
  /-- Keys strictly increase along the iteration. -/
  sorted : entries.Pairwise (fun x y => before x.1 y.1)

namespace OrderedMap

variable {before}

/-- The empty map. -/
def empty : OrderedMap κ ν before := ⟨[], List.Pairwise.nil⟩

/-- `find`: the value stored under a key, if any. -/
def find (m : OrderedMap κ ν before) (k : κ) : Option ν :=
  (m.entries.find? (fun e => decide (e.1 = k))).map Prod.snd

/-- `operator[](k) = v`. -/
def insert [IsStrictTotalOrder κ before] (m : OrderedMap κ ν before) (k : κ) (v : ν) :
    OrderedMap κ ν before :=
  ⟨insertBy before Prod.fst (k, v) m.entries, pairwise_insertBy before (k, v) m.sorted⟩

/-- `erase` of a key. -/
def erase (m : OrderedMap κ ν before) (k : κ) : OrderedMap κ ν before :=
  ⟨m.entries.filter (fun e => decide (e.1 ≠ k)), m.sorted.filter _⟩

/-- `begin()`. -/
def begin (m : OrderedMap κ ν before) : Option (κ × ν) := m.entries.head?

/-- `upper_bound(k)`: the first entry whose key comes strictly after `k`. -/
def upperBound (m : OrderedMap κ ν before) (k : κ) : Option (κ × ν) :=
  m.entries.find? (fun e => decide (before k e.1))

omit [DecidableRel before] in
lemma find_eq_none {m : OrderedMap κ ν before} {k : κ} :
    m.find k = none ↔ ∀ e ∈ m.entries, e.1 ≠ k := by
  simp [find]

omit [DecidableRel before] in
lemma find_eq_some [IsStrictTotalOrder κ before] {m : OrderedMap κ ν before} {k : κ} {v : ν} :
    m.find k = some v ↔ (k, v) ∈ m.entries := by
  constructor
  · intro h
    obtain ⟨e, he, rfl⟩ := Option.map_eq_some_iff.mp h
    have hk : e.1 = k := by simpa using List.find?_some he
    exact hk ▸ List.mem_of_find?_eq_some he
  · intro hmem
    cases hfind : m.entries.find? (fun e => decide (e.1 = k)) with
    | none =>
      have := List.find?_eq_none.mp hfind (k, v) hmem
      simp at this
    | some e =>
      have hk : e.1 = k := by simpa using List.find?_some hfind
      have heq := eq_of_key_eq before m.sorted (List.mem_of_find?_eq_some hfind) hmem hk
      simp [find, hfind, heq]

omit [DecidableEq κ] in
/-- The upper bound of a split: everything up to the split is not after `k`, everything past
it is. -/
lemma upperBound_eq_head? {m : OrderedMap κ ν before} {k : κ} {pre post : List (κ × ν)}
    (hm : m.entries = pre ++ post) (hpre : ∀ e ∈ pre, ¬ before k e.1)
    (hpost : ∀ e ∈ post, before k e.1) : m.upperBound k = post.head? := by
  have hnone : pre.find? (fun e => decide (before k e.1)) = none :=
    List.find?_eq_none.mpr fun e he => by simpa using hpre e he
  rw [upperBound, hm, List.find?_append, hnone, Option.none_or]
  cases post with
  | nil => rfl
  | cons e es => simp [hpost e (by simp)]

end OrderedMap

end OrderedMaps
