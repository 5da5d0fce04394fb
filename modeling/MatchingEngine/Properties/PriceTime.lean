import MatchingEngine.Matcher.Simulation

/-!
# The book refines the naive book

The book with its maps, linked lists and id index trades exactly as the naive book of
`Matcher/Reference.lean`, and holds the same resting orders in the same order of priority.
-/

namespace MatchingEngine

namespace Reference

/-- The resting order of the book is the order `x` of the naive book. -/
structure Same (o : OrderRecord) (x : Order) : Prop where
  orderId : o.orderId = x.orderId
  clientId : o.clientId = x.clientId
  side : o.side = x.side
  price : o.price = x.price
  qty : o.qty = x.qty

/-- The side whose incoming orders trade against `s`. -/
def aggressorOf : BookSide → Side
  | .ask => .buy
  | .bid => .sell

/-- `queue` lists the naive book's orders of one side, highest priority first. -/
structure IsQueue (B : Book) (s : BookSide) (queue : List Order) : Prop where
  perm : queue.Perm (B.orders.filter fun o => decide (o.side.bookSide = s))
  sorted : queue.Pairwise fun a b => better (aggressorOf s) a b = true

lemma Sim.isQueue {idx : OrderId → ℕ} {L : Ladder} {B : Book} (h : Sim idx L B.orders B.count)
    (hwf : L.WF) (s : BookSide) : IsQueue B s ((L.orders s).map (ofRecord idx)) where
  perm := by
    have hfilter := (h.perm.trans ((L.all_perm s).map (ofRecord idx))).filter
      fun o => decide (o.side.bookSide = s)
    refine List.Perm.trans (.of_eq ?_) hfilter.symm
    rw [List.map_append, List.filter_append, List.filter_eq_self.mpr, List.filter_eq_nil_iff.mpr,
      List.append_nil]
    · intro x hx
      obtain ⟨o, ho, rfl⟩ := List.mem_map.mp hx
      have hside : o.side.bookSide = s.contra := hwf.side ho
      exact fun hd => s.contra_ne (hside.symm.trans (of_decide_eq_true hd))
    · intro x hx
      obtain ⟨o, ho, rfl⟩ := List.mem_map.mp hx
      exact decide_eq_true (hwf.side ho)
  sorted := by
    have hs : (aggressorOf s).bookSide.contra = s := by cases s <;> rfl
    rw [List.pairwise_map]
    refine ((hwf.orders_sorted s).and (h.fifo s)).imp fun {a b} hab => ?_
    exact better_ofRecord (by rw [hs]; exact hab.1) hab.2

end Reference

/-- For any requests, the book reports the same trades as the naive book, in the same order on
both streams, and its sides hold the naive book's orders in their order of priority. -/
theorem refines_reference (symbol : Symbol) (reqs : List (EngineOrderRequest × Nanos)) :
    Reaches symbol reqs fun b =>
      b.sent.filter OutMsg.isTrade = (Reference.after symbol reqs).2 ∧
      ∀ s, ∃ queue, Reference.IsQueue (Reference.after symbol reqs).1 s queue ∧
        List.Forall₂ Reference.Same (b.resting s) queue := by
  refine (run_refines symbol reqs).mono fun b ⟨S, hstate⟩ => ?_
  obtain ⟨idx, hsim, hmsgs⟩ := Reference.sim_runAll symbol reqs
  rw [← hstate.view] at hsim
  refine ⟨by rw [hstate.sent, hmsgs], fun s => ⟨_, hsim.isQueue hstate.rep.view_wf s, ?_⟩⟩
  rw [hstate.rep.resting_eq, List.forall₂_map_right_iff, List.forall₂_same]
  exact fun o _ => ⟨rfl, rfl, rfl, rfl, rfl⟩

end MatchingEngine
