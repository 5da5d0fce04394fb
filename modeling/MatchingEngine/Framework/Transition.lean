import Mathlib.Data.List.Induction
import Mathlib.Logic.Relation
import Mathlib.Tactic.Common

/-!
# Runs of a labelled transition system

`next s a s'` is a step from `s` to `s'` by the action `a`.  A run is a chain of steps; a guarded
run is one all of whose steps are taken in states where a condition on state and action holds.

`invariant` is the induction over runs.  `guarded_iff` compares runs with guarded runs: if the
condition says of each step exactly whether it keeps a property, and the property cannot be
regained once lost, then the states with the property are those that guarded runs reach.

`simulation` takes runs to runs of another system, given that a single step may be followed there
by any number of steps.  `CountedRun.add_le` bounds the steps of a run by a potential, and
`CountedRun.exists_of_play` makes a run of a schedule that a step function carries out.
-/

namespace Transitions

open Relation

variable {σ α : Type*} {next : σ → α → σ → Prop} {good : σ → α → Prop} {s₀ s : σ}

/-- `s` can be reached from `s₀`. -/
def Run (next : σ → α → σ → Prop) (s₀ s : σ) : Prop :=
  ReflTransGen (fun s s' => ∃ a, next s a s') s₀ s

/-- `s` can be reached from `s₀` by steps that meet the condition `good`. -/
def GuardedRun (next : σ → α → σ → Prop) (good : σ → α → Prop) (s₀ s : σ) : Prop :=
  Run (fun s a s' => next s a s' ∧ good s a) s₀ s

lemma Run.refl (s : σ) : Run next s s := ReflTransGen.refl

lemma Run.tail {s' : σ} {a : α} (h : Run next s₀ s) (hs : next s a s') : Run next s₀ s' :=
  ReflTransGen.tail h ⟨a, hs⟩

lemma Run.trans {s' : σ} (h : Run next s₀ s) (h' : Run next s s') : Run next s₀ s' :=
  ReflTransGen.trans h h'

/-- What holds at the start and is kept by every step holds all along. -/
lemma Run.invariant {I : σ → Prop} (h : Run next s₀ s) (hinit : I s₀)
    (hstep : ∀ s a s', next s a s' → I s → I s') : I s := by
  induction h with
  | refl => exact hinit
  | tail _ hs ih =>
    obtain ⟨a, hs⟩ := hs
    exact hstep _ a _ hs ih

/-- If related states stay related after a step, given a number of steps on the other side, then
every run has a counterpart on the other side. -/
lemma Run.simulation {τ β : Type*} {next' : τ → β → τ → Prop} {t₀ : τ} {R : σ → τ → Prop}
    (h : Run next s₀ s) (hinit : R s₀ t₀)
    (hstep : ∀ s a s' t, next s a s' → R s t → ∃ t', Run next' t t' ∧ R s' t') :
    ∃ t, Run next' t₀ t ∧ R s t := by
  induction h with
  | refl => exact ⟨t₀, Run.refl t₀, hinit⟩
  | tail _ hs ih =>
    obtain ⟨a, hs⟩ := hs
    obtain ⟨t, hrun, hR⟩ := ih
    obtain ⟨t', hrun', hR'⟩ := hstep _ a _ t hs hR
    exact ⟨t', hrun.trans hrun', hR'⟩

lemma GuardedRun.refl (s : σ) : GuardedRun next good s s := Run.refl s

lemma GuardedRun.tail {s' : σ} {a : α} (h : GuardedRun next good s₀ s) (hs : next s a s')
    (hg : good s a) : GuardedRun next good s₀ s' :=
  Run.tail h ⟨hs, hg⟩

lemma GuardedRun.trans {s' : σ} (h : GuardedRun next good s₀ s) (h' : GuardedRun next good s s') :
    GuardedRun next good s₀ s' :=
  Run.trans h h'

lemma GuardedRun.run (h : GuardedRun next good s₀ s) : Run next s₀ s :=
  Run.invariant h (Run.refl s₀) fun _ _ _ hs ih => ih.tail hs.1

lemma GuardedRun.invariant {I : σ → Prop} (h : GuardedRun next good s₀ s) (hinit : I s₀)
    (hstep : ∀ s a s', next s a s' → good s a → I s → I s') : I s :=
  Run.invariant h hinit fun s a s' hs => hstep s a s' hs.1 hs.2

/-- `s` can be reached from `s₀` with `n` steps that count, and any number of others. -/
inductive CountedRun (next : σ → α → σ → Prop) (counts : σ → α → Bool) (s₀ : σ) : ℕ → σ → Prop
  | refl : CountedRun next counts s₀ 0 s₀
  | tail {n : ℕ} {s s' : σ} {a : α} (h : CountedRun next counts s₀ n s) (hs : next s a s') :
      CountedRun next counts s₀ (n + (counts s a).toNat) s'

lemma CountedRun.run {counts : σ → α → Bool} {n : ℕ} (h : CountedRun next counts s₀ n s) :
    Run next s₀ s := by
  induction h with
  | refl => exact Run.refl s₀
  | tail _ hs ih => exact ih.tail hs

lemma CountedRun.mono {next' : σ → α → σ → Prop} {counts : σ → α → Bool} {n : ℕ}
    (h : CountedRun next counts s₀ n s) (hstep : ∀ s a s', next s a s' → next' s a s') :
    CountedRun next' counts s₀ n s := by
  induction h with
  | refl => exact .refl
  | tail _ hs ih => exact ih.tail (hstep _ _ _ hs)

/-- If no step lowers a potential and every step that counts raises it, it bounds their number. -/
lemma CountedRun.add_le {counts : σ → α → Bool} {n : ℕ} (potential : σ → ℕ)
    (h : CountedRun next counts s₀ n s)
    (hstep : ∀ s a s', Run next s₀ s → next s a s' →
      potential s + (counts s a).toNat ≤ potential s') : potential s₀ + n ≤ potential s := by
  induction h with
  | refl => exact Nat.le_refl _
  | tail h hs ih =>
    have := hstep _ _ _ h.run hs
    omega

section Schedules

variable {γ : Type*} (step : σ → γ → Option σ) (label : γ → α) (good : σ → α → Prop)
  [∀ s a, Decidable (good s a)] (counts : σ → α → Bool)

/-- One command of a schedule is carried out, if the step function allows it and it is a good step,
and counted. -/
def play (start : ℕ × σ) (c : γ) : Option (ℕ × σ) :=
  if good start.2 (label c) then
    (step start.2 c).map fun s => (start.1 + (counts start.2 (label c)).toNat, s)
  else none

variable {step label good counts}

/-- The commands of a schedule in a row are a run, if every command is a step. -/
lemma CountedRun.of_foldlM (hsound : ∀ s c s', step s c = some s' → next s (label c) s')
    {cs : List γ} {n : ℕ} (hrun : cs.foldlM (play step label good counts) (0, s₀) = some (n, s)) :
    CountedRun (fun s a s' => next s a s' ∧ good s a) counts s₀ n s := by
  induction cs using List.reverseRecOn generalizing n s with
  | nil =>
    obtain ⟨rfl, rfl⟩ := Prod.mk.inj (Option.some.inj hrun)
    exact .refl
  | append_singleton cs c ih =>
    rw [List.foldlM_append] at hrun
    obtain ⟨⟨m, s'⟩, hfirst, hlast⟩ := Option.bind_eq_some_iff.mp hrun
    rw [List.foldlM_cons] at hlast
    obtain ⟨_, hplay, hend⟩ := Option.bind_eq_some_iff.mp hlast
    obtain rfl := Option.some.inj hend
    rw [play] at hplay
    split_ifs at hplay with hgood
    obtain ⟨_, hs, heq⟩ := Option.map_eq_some_iff.mp hplay
    obtain ⟨rfl, rfl⟩ := Prod.mk.inj heq
    exact .tail (ih hfirst) ⟨hsound _ _ _ hs, hgood⟩

/-- A schedule that is carried out and ends as it should is a run that ends so. -/
lemma CountedRun.exists_of_play {check : ℕ × σ → Bool} {cs : List γ}
    (h : (cs.foldlM (play step label good counts) (0, s₀)).any check = true)
    (hsound : ∀ s c s', step s c = some s' → next s (label c) s') :
    ∃ n s, CountedRun (fun s a s' => next s a s' ∧ good s a) counts s₀ n s ∧
      check (n, s) = true := by
  obtain ⟨⟨n, s⟩, hrun, hcheck⟩ := (Option.any_eq_true _ _).mp h
  exact ⟨n, s, .of_foldlM hsound hrun, hcheck⟩

end Schedules

/-- A property that good steps keep, bad steps break and no step restores holds exactly in the
states reached by good steps only. -/
lemma guarded_iff {I : σ → Prop} (h : Run next s₀ s) (hinit : I s₀)
    (hgood : ∀ s a s', next s a s' → I s → (good s a ↔ I s'))
    (hlost : ∀ s a s', next s a s' → ¬ I s → ¬ I s') : GuardedRun next good s₀ s ↔ I s := by
  constructor
  · intro hrun
    exact hrun.invariant hinit fun s a s' hs hg hI => (hgood s a s' hs hI).mp hg
  · intro hI
    induction h with
    | refl => exact Run.refl s₀
    | @tail s s' _ hs ih =>
      obtain ⟨a, hs⟩ := hs
      have hIs : I s := by
        by_contra hnot
        exact hlost s a s' hs hnot hI
      exact (ih hIs).tail hs ((hgood s a s' hs hIs).mpr hI)

end Transitions
