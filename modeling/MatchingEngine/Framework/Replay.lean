import Mathlib.Data.List.Induction
import Mathlib.Tactic.Common

/-!
# Replaying updates twice

A state is built from a log of updates, each acting on it by `act`.  Somebody who recovers a
copy of the state at some point of the log, without knowing which point, has to replay a part
of the log that the copy may already contain.

That is harmless when the action is *replayable*: an update made twice is an update made once,
and what an update forgets about the state stays forgotten whatever comes in between.  Then an
update that will be made again later can be left out now (`replay_act`), and so can a whole
stretch of the log (`replay_overlap`).
-/

namespace Replays

variable {σ ε : Type*} {act : ε → σ → σ}

/-- The state after a log of updates, oldest first. -/
def replay (act : ε → σ → σ) (log : List ε) (s : σ) : σ := log.foldl (fun s u => act u s) s

@[simp] lemma replay_nil (s : σ) : replay act [] s = s := rfl

@[simp] lemma replay_cons (u : ε) (log : List ε) (s : σ) :
    replay act (u :: log) s = replay act log (act u s) := rfl

lemma replay_append (log log' : List ε) (s : σ) :
    replay act (log ++ log') s = replay act log' (replay act log s) := by
  simp [replay]

/-- Updates may be made twice. -/
structure Replayable (act : ε → σ → σ) : Prop where
  idem : ∀ u s, act u (act u s) = act u s
  /-- States that `u` makes equal it still makes equal after any other update. -/
  forget : ∀ u v s s', act u s = act u s' → act u (act v s) = act u (act v s')

namespace Replayable

lemma forget_replay (h : Replayable act) (u : ε) (log : List ε) {s s' : σ}
    (hs : act u s = act u s') : act u (replay act log s) = act u (replay act log s') := by
  induction log generalizing s s' with
  | nil => exact hs
  | cons v log ih => exact ih (h.forget u v s s' hs)

/-- An update that comes again in the log need not be made before it. -/
lemma replay_act (h : Replayable act) {u : ε} {log : List ε} (hu : u ∈ log) (s : σ) :
    replay act log (act u s) = replay act log s := by
  obtain ⟨log₁, log₂, rfl⟩ := List.append_of_mem hu
  rw [replay_append, replay_append, replay_cons, replay_cons,
    h.forget_replay u log₁ (h.idem u s)]

/-- Updates that all come again in the log need not be made before it. -/
lemma replay_overlap (h : Replayable act) {log log' : List ε} (hsub : log' ⊆ log) (s : σ) :
    replay act log (replay act log' s) = replay act log s := by
  induction log' using List.reverseRecOn with
  | nil => rfl
  | append_singleton log' u ih =>
    obtain ⟨hlog', hu⟩ := List.append_subset.mp hsub
    rw [replay_append, replay_cons, replay_nil, h.replay_act (hu (by simp)), ih hlog']

end Replayable

end Replays
