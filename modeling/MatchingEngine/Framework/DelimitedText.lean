import Mathlib.Data.List.Infix
import Mathlib.Data.List.TakeWhile

/-!
# Reading delimited text

The `while (getline(stream, piece, delim))` loop of the standard streams, over any alphabet.  A
read takes what stands before the next delimiter and drops the delimiter; it fails only at the end
of the input.  So a delimiter ends a piece rather than separating two: text that ends in a
delimiter yields no empty last piece, and is read like the text without it.

`getlines_intercalate` is the round trip for joined pieces, and `intercalate_getlines` says that
text that does not end in a delimiter is what was read, joined.  `getlines_flatMap` is the round
trip for pieces that are each ended by a delimiter; a piece that is not runs on into the next
(`length_getlines_append`).

Joined text determines its pieces.  If the number of pieces is known, one of them, in a known
place, may even contain the delimiter (`intercalate_gap_inj`).
-/

namespace DelimitedText

variable {α : Type*} [DecidableEq α] (delim : α)

/-- One read: the piece before the next delimiter, and the input after that delimiter. -/
def getline : List α → Option (List α × List α)
  | [] => none
  | c :: s => some ((c :: s).takeWhile fun a => decide (a ≠ delim),
      ((c :: s).dropWhile fun a => decide (a ≠ delim)).tail)

lemma getline_length_lt {s piece rest : List α} (h : getline delim s = some (piece, rest)) :
    rest.length < s.length := by
  cases s with
  | nil => cases h
  | cons c s =>
    obtain ⟨-, rfl⟩ := Prod.mk.inj (Option.some.inj h)
    have hsuffix : ((c :: s).dropWhile fun a => decide (a ≠ delim)).length ≤ (c :: s).length :=
      (List.dropWhile_suffix _).length_le
    rw [List.length_tail]
    rw [List.length_cons] at hsuffix ⊢
    omega

/-- The pieces read until a read fails. -/
def getlines (s : List α) : List (List α) :=
  match _h : getline delim s with
  | none => []
  | some (piece, rest) => piece :: getlines rest
termination_by s.length
decreasing_by exact getline_length_lt delim _h

/-! ## Single reads -/

variable {delim}

lemma forall_ne_of_not_mem {s : List α} (h : delim ∉ s) : ∀ a ∈ s, decide (a ≠ delim) = true := by
  intro a ha
  have hne : a ≠ delim := fun he => h (he ▸ ha)
  exact decide_eq_true hne

lemma takeWhile_of_not_mem {s : List α} (h : delim ∉ s) (t : List α) :
    (s ++ delim :: t).takeWhile (fun a => decide (a ≠ delim)) = s := by
  rw [List.takeWhile_append_of_pos (forall_ne_of_not_mem h)]
  simp

lemma dropWhile_of_not_mem {s : List α} (h : delim ∉ s) (t : List α) :
    (s ++ delim :: t).dropWhile (fun a => decide (a ≠ delim)) = delim :: t := by
  rw [List.dropWhile_append_of_pos (forall_ne_of_not_mem h)]
  simp

lemma getline_append {s : List α} (h : delim ∉ s) (t : List α) :
    getline delim (s ++ delim :: t) = some (s, t) := by
  have htake := takeWhile_of_not_mem h t
  have hdrop := dropWhile_of_not_mem h t
  cases hs : s ++ delim :: t with
  | nil => simp at hs
  | cons c l =>
    rw [hs] at htake hdrop
    rw [getline, htake, hdrop, List.tail_cons]

lemma getline_last {s : List α} (hne : s ≠ []) (h : delim ∉ s) :
    getline delim s = some (s, []) := by
  have hall := forall_ne_of_not_mem h
  cases s with
  | nil => exact absurd rfl hne
  | cons c s =>
    rw [getline, List.takeWhile_eq_self_iff.mpr hall, List.dropWhile_eq_nil_iff.mpr hall]
    rfl

/-- Every input is at its end, or a last piece, or a piece, a delimiter and more input. -/
lemma input_cases (delim : α) (s : List α) :
    s = [] ∨ (s ≠ [] ∧ delim ∉ s) ∨ ∃ p t, delim ∉ p ∧ s = p ++ delim :: t := by
  by_cases hs : s = []
  · exact .inl hs
  by_cases hmem : delim ∈ s
  · obtain ⟨p, t, rfl, hp⟩ := List.eq_append_cons_of_mem hmem
    exact .inr (.inr ⟨p, t, hp, rfl⟩)
  · exact .inr (.inl ⟨hs, hmem⟩)

/-! ## The loop -/

@[simp] lemma getlines_nil : getlines delim [] = [] := by
  rw [getlines]
  rfl

lemma getlines_append {p : List α} (h : delim ∉ p) (s : List α) :
    getlines delim (p ++ delim :: s) = p :: getlines delim s := by
  rw [getlines]
  split
  · next hnone =>
    rw [getline_append h] at hnone
    cases hnone
  · next piece rest hsome =>
    rw [getline_append h] at hsome
    cases hsome
    rfl

lemma getlines_last {s : List α} (hne : s ≠ []) (h : delim ∉ s) : getlines delim s = [s] := by
  rw [getlines]
  split
  · next hnone =>
    rw [getline_last hne h] at hnone
    cases hnone
  · next piece rest hsome =>
    rw [getline_last hne h] at hsome
    cases hsome
    rw [getlines_nil]

/-- Induction along the reads of the loop. -/
@[elab_as_elim]
theorem getlines_induction (delim : α) {P : List α → Prop} (nil : P [])
    (last : ∀ s, s ≠ [] → delim ∉ s → P s)
    (piece : ∀ p s, delim ∉ p → P s → P (p ++ delim :: s)) (s : List α) : P s := by
  induction hn : s.length using Nat.strong_induction_on generalizing s with
  | _ n ih =>
    rcases input_cases delim s with rfl | ⟨hne, hs⟩ | ⟨p, t, hp, rfl⟩
    · exact nil
    · exact last s hne hs
    · refine piece p t hp (ih t.length ?_ t rfl)
      rw [← hn, List.length_append, List.length_cons]
      omega

/-- No piece contains the delimiter. -/
lemma not_mem_of_mem_getlines {s p : List α} (h : p ∈ getlines delim s) : delim ∉ p := by
  induction s using getlines_induction delim with
  | nil => simp at h
  | last s hne hs =>
    rw [getlines_last hne hs, List.mem_singleton] at h
    exact h ▸ hs
  | piece q s hq ih =>
    rw [getlines_append hq, List.mem_cons] at h
    rcases h with rfl | h
    · exact hq
    · exact ih h

/-- Reading undoes joining, unless the last piece is empty. -/
theorem getlines_intercalate {ps : List (List α)} (hps : ∀ p ∈ ps, delim ∉ p)
    (hlast : ∀ p ∈ ps.getLast?, p ≠ []) : getlines delim ([delim].intercalate ps) = ps := by
  induction ps with
  | nil => exact getlines_nil
  | cons p ps ih =>
    have hp := hps p List.mem_cons_self
    cases ps with
    | nil => simpa using getlines_last (hlast p rfl) hp
    | cons q ps =>
      rw [List.intercalate_cons_cons, List.append_assoc, List.singleton_append,
        getlines_append hp, ih (fun r hr => hps r (List.mem_cons_of_mem _ hr)) ?_]
      intro r hr
      exact hlast r (by rwa [List.getLast?_cons_cons])

/-- Joining undoes reading, unless the text ends in a delimiter. -/
theorem intercalate_getlines {s : List α} (hlast : s.getLast? ≠ some delim) :
    [delim].intercalate (getlines delim s) = s := by
  induction s using getlines_induction delim with
  | nil => simp
  | last s hne hs => simp [getlines_last hne hs]
  | piece p s hp ih =>
    cases hs : s with
    | nil =>
      subst hs
      simp at hlast
    | cons c t =>
      have hne : getlines delim s ≠ [] := by
        rw [hs, getlines]
        split
        · next h => cases h
        · exact List.cons_ne_nil _ _
      have hs' : s.getLast? ≠ some delim := by
        intro he
        refine hlast ?_
        rw [hs] at he ⊢
        rw [List.getLast?_append_cons, List.getLast?_cons_cons, he]
      rw [← hs, getlines_append hp]
      cases hl : getlines delim s with
      | nil => exact absurd hl hne
      | cons q qs =>
        rw [List.intercalate_cons_cons, ← hl, ih hs', List.append_assoc, List.singleton_append]

/-- Joined text consists of its separators and its pieces. -/
lemma not_mem_intercalate {α : Type*} {sep : List α} {ps : List (List α)} {a : α} (hsep : a ∉ sep)
    (hps : ∀ p ∈ ps, a ∉ p) : a ∉ sep.intercalate ps := by
  induction ps with
  | nil => simp
  | cons p ps ih =>
    have hp := hps p List.mem_cons_self
    have ih := ih fun q hq => hps q (List.mem_cons_of_mem _ hq)
    cases ps with
    | nil => simpa using hp
    | cons q ps =>
      rw [List.intercalate_cons_cons]
      simp only [List.mem_append, not_or]
      exact ⟨⟨hp, hsep⟩, ih⟩

/-- Joined text ends with its last piece. -/
lemma suffix_intercalate {α : Type*} (sep : List α) (ps : List (List α)) (p : List α) :
    p <:+ sep.intercalate (ps ++ [p]) := by
  induction ps with
  | nil => simp
  | cons q ps ih =>
    have hsplit : sep.intercalate (q :: (ps ++ [p])) =
        q ++ sep ++ sep.intercalate (ps ++ [p]) := by
      cases ps with
      | nil => exact List.intercalate_cons_cons
      | cons r ps => exact List.intercalate_cons_cons
    rw [List.cons_append, hsplit]
    exact ih.trans (List.suffix_append _ _)

/-- Reading undoes ending every piece with a delimiter. -/
theorem getlines_flatMap {ps : List (List α)} (hps : ∀ p ∈ ps, delim ∉ p) :
    getlines delim (ps.flatMap fun p => p ++ [delim]) = ps := by
  induction ps with
  | nil => exact getlines_nil
  | cons p ps ih =>
    rw [List.flatMap_cons, List.append_assoc, List.singleton_append,
      getlines_append (hps p List.mem_cons_self), ih fun q hq => hps q (List.mem_cons_of_mem _ hq)]

/-- The characters of a piece are characters of the text. -/
lemma mem_of_mem_getlines {s p : List α} (h : p ∈ getlines delim s) {a : α} (ha : a ∈ p) :
    a ∈ s := by
  induction s using getlines_induction delim with
  | nil => simp at h
  | last s hne hs =>
    rw [getlines_last hne hs, List.mem_singleton] at h
    exact h ▸ ha
  | piece q s hq ih =>
    rw [getlines_append hq, List.mem_cons] at h
    rcases h with rfl | h
    · exact List.mem_append_left _ ha
    · exact List.mem_append_right _ (List.mem_cons_of_mem _ (ih h))

/-- A text without a delimiter runs on into the first piece of what follows. -/
lemma length_getlines_append {p s : List α} (hp : delim ∉ p) (hs : s ≠ []) :
    (getlines delim (p ++ s)).length = (getlines delim s).length := by
  rcases input_cases delim s with rfl | ⟨-, hmem⟩ | ⟨q, t, hq, rfl⟩
  · exact absurd rfl hs
  · have hne : p ++ s ≠ [] := fun he => hs (List.append_eq_nil_iff.mp he).2
    rw [getlines_last hs hmem, getlines_last hne (by simp [hp, hmem])]
    rfl
  · have hpq : delim ∉ p ++ q := by simp [hp, hq]
    rw [← List.append_assoc, getlines_append hpq, getlines_append hq]
    rfl

/-! ## Joined text determines its pieces -/

/-- Text splits at its first delimiter in one way. -/
lemma append_delim_inj {p q s t : List α} (hp : delim ∉ p) (hq : delim ∉ q)
    (h : p ++ delim :: s = q ++ delim :: t) : p = q ∧ s = t := by
  have hsame := getline_append hp s
  rw [h, getline_append hq] at hsame
  exact Prod.mk.inj (Option.some.inj hsame.symm)

/-- Text splits at its last delimiter in one way. -/
lemma delim_append_inj {p q s t : List α} (hp : delim ∉ p) (hq : delim ∉ q)
    (h : s ++ delim :: p = t ++ delim :: q) : s = t ∧ p = q := by
  have hrev := congrArg List.reverse h
  simp only [List.reverse_append, List.reverse_cons, List.append_assoc, List.singleton_append]
    at hrev
  obtain ⟨hpq, hst⟩ := append_delim_inj (by simpa using hp) (by simpa using hq) hrev
  exact ⟨List.reverse_injective hst, List.reverse_injective hpq⟩

lemma intercalate_cons_append {α : Type*} (sep p q : List α) (ps qs : List (List α)) :
    sep.intercalate (p :: (ps ++ q :: qs)) = p ++ (sep ++ sep.intercalate (ps ++ q :: qs)) := by
  cases ps with
  | nil => rw [List.nil_append, List.intercalate_cons_cons, List.append_assoc]
  | cons r ps => rw [List.cons_append, List.intercalate_cons_cons, List.append_assoc]

lemma intercalate_cons_concat {α : Type*} (sep p q : List α) (ps : List (List α)) :
    sep.intercalate (p :: (ps ++ [q])) = sep.intercalate (p :: ps) ++ (sep ++ q) := by
  induction ps generalizing p with
  | nil => simp [List.intercalate_cons_cons]
  | cons r ps ih =>
    rw [List.cons_append, List.intercalate_cons_cons, List.intercalate_cons_cons, ih,
      List.append_assoc (p ++ sep)]

/-- Joined text determines its pieces, if all but the first are free of the delimiter. -/
lemma intercalate_head_inj {m m' : List α} {ps qs : List (List α)} (hlength : ps.length = qs.length)
    (hps : ∀ p ∈ ps, delim ∉ p) (hqs : ∀ q ∈ qs, delim ∉ q)
    (h : [delim].intercalate (m :: ps) = [delim].intercalate (m' :: qs)) : m = m' ∧ ps = qs := by
  induction ps using List.reverseRecOn generalizing qs with
  | nil =>
    obtain rfl : qs = [] := List.eq_nil_of_length_eq_zero hlength.symm
    exact ⟨by simpa using h, rfl⟩
  | append_singleton ps p ih =>
    rcases List.eq_nil_or_concat' qs with rfl | ⟨qs, q, rfl⟩
    · simp at hlength
    · rw [intercalate_cons_concat, intercalate_cons_concat] at h
      obtain ⟨hinit, hlast⟩ := delim_append_inj (hps p (by simp)) (hqs q (by simp)) h
      obtain ⟨hm, hrest⟩ := ih (by simpa using hlength)
        (fun r hr => hps r (List.mem_append_left _ hr))
        (fun r hr => hqs r (List.mem_append_left _ hr)) hinit
      exact ⟨hm, by rw [hrest, hlast]⟩

/-- Joined text determines its pieces, if all but one are free of the delimiter and it is known
which one. -/
theorem intercalate_gap_inj {m m' : List α} {ps ps' qs qs' : List (List α)}
    (hlength : ps.length = ps'.length) (hlength' : qs.length = qs'.length)
    (hps : ∀ p ∈ ps ++ qs, delim ∉ p) (hps' : ∀ p ∈ ps' ++ qs', delim ∉ p)
    (h : [delim].intercalate (ps ++ m :: qs) = [delim].intercalate (ps' ++ m' :: qs')) :
    ps = ps' ∧ m = m' ∧ qs = qs' := by
  induction ps generalizing ps' with
  | nil =>
    obtain rfl : ps' = [] := List.eq_nil_of_length_eq_zero hlength.symm
    obtain ⟨hm, hqs⟩ := intercalate_head_inj hlength' hps hps' h
    exact ⟨rfl, hm, hqs⟩
  | cons p ps ih =>
    cases ps' with
    | nil => cases hlength
    | cons p' ps' =>
      rw [List.cons_append, List.cons_append, intercalate_cons_append, intercalate_cons_append] at h
      obtain ⟨hp, hrest⟩ := append_delim_inj (hps p (by simp)) (hps' p' (by simp)) h
      obtain ⟨hps₁, hm, hqs⟩ := ih (Nat.succ.inj hlength)
        (fun r hr => hps r (List.mem_cons_of_mem _ hr))
        (fun r hr => hps' r (List.mem_cons_of_mem _ hr)) hrest
      exact ⟨by rw [hp, hps₁], hm, hqs⟩

/-- Joined text determines its pieces, if there are any and they are free of the delimiter. -/
theorem intercalate_inj {ps qs : List (List α)} (hne : ps ≠ []) (hne' : qs ≠ [])
    (hps : ∀ p ∈ ps, delim ∉ p) (hqs : ∀ q ∈ qs, delim ∉ q)
    (h : [delim].intercalate ps = [delim].intercalate qs) : ps = qs := by
  induction ps generalizing qs with
  | nil => exact absurd rfl hne
  | cons p ps ih =>
    cases qs with
    | nil => exact absurd rfl hne'
    | cons q qs =>
      have hp := hps p List.mem_cons_self
      have hq := hqs q List.mem_cons_self
      cases ps with
      | nil =>
        cases qs with
        | nil => simpa using h
        | cons r qs =>
          rw [List.intercalate_cons_cons, List.intercalate_singleton] at h
          exact absurd (h ▸ hp) (by simp)
      | cons r ps =>
        cases qs with
        | nil =>
          rw [List.intercalate_cons_cons, List.intercalate_singleton] at h
          exact absurd (h ▸ hq) (by simp)
        | cons r' qs =>
          rw [List.intercalate_cons_cons, List.intercalate_cons_cons, List.append_assoc,
            List.append_assoc] at h
          obtain ⟨rfl, hrest⟩ := append_delim_inj hp hq h
          rw [ih (by simp) (by simp) (fun s hs => hps s (List.mem_cons_of_mem _ hs))
            (fun s hs => hqs s (List.mem_cons_of_mem _ hs)) hrest]

end DelimitedText
