import MatchingEngine.MarketData.SnapshotService
import MatchingEngine.Matcher.Branches
import MatchingEngine.Matcher.Relabelling

/-!
# Two symmetries of the engine

Two relabellings, and what the general result says of them.

* `reflection K` exchanges buying and selling and turns every price `p` into `K - p`: the branches
  of the two sides are mirror images of each other (`reflected_run`).  The branches themselves are
  written out and compared in `Matcher/Branches.lean`.
* `clientRenaming r` gives the clients other ids: the market data stay the same (`anonymous_run`).

In both cases the second run may take place at other times than the first.
-/

namespace MatchingEngine

/-! ## Buying and selling -/

def Side.opposite : Side → Side
  | .buy => .sell
  | .sell => .buy
  | .invalid => .invalid

/-- The price as far below `K` as `p` is above zero; the reserved price stays. -/
def reflectPrice (K p : Price) : Price := if p = invalidPrice then p else K - p

lemma reflectPrice_of_pos {K p : Price} (hp : 0 < p) (hK : p < K) :
    (reflectPrice K p).toInt = K.toInt - p.toInt := by
  have hvalid : p ≠ invalidPrice := by
    rintro rfl
    exact absurd hp (by decide)
  rw [reflectPrice, if_neg hvalid]
  exact Int64.toInt_sub_of_le K p (Int64.le_of_lt hp) (Int64.le_of_lt hK)

/-- Exchange the sides and count prices down from `K`. -/
def reflection (K : Price) : Relabelling where
  client := id
  side := Side.opposite
  book := BookSide.contra
  price := reflectPrice K
  CoversSide x := x ≠ .invalid
  CoversPrice p := 0 < p ∧ p < K
  client_injective := Function.injective_id
  side_invalid := rfl
  price_invalid := rfl
  book_book := BookSide.contra_contra
  book_contra _ := rfl
  bookSide_side {x} hx := by
    cases x with
    | invalid => exact absurd rfl hx
    | buy | sell => rfl
  before_price s {p q} hp hq := by
    have hp' := reflectPrice_of_pos hp.1 hp.2
    have hq' := reflectPrice_of_pos hq.1 hq.2
    cases s <;> simp only [BookSide.contra, BookSide.before, Int64.lt_iff_toInt_lt, hp', hq'] <;>
      omega
  price_le_zero {p} hp := by
    have hp' := reflectPrice_of_pos hp.1 hp.2
    have hzero : (0 : Price).toInt = 0 := rfl
    obtain ⟨hpos, hK⟩ := hp
    rw [Int64.lt_iff_toInt_lt] at hpos hK
    rw [Int64.le_iff_toInt_le, Int64.le_iff_toInt_le, hp']
    omega

/-- Processing the reflected requests from the empty book, whatever the clock reads: the pools are
exhausted in both runs or in neither, and then the second book has emitted the reflected responses
and updates in the same order and is the reflected book, with the maps exchanged and the orders of
each level in the same order.  If the clock reads the same, the time stamps agree too. -/
theorem reflected_run (symbol : Symbol) (K : Price)
    {reqs reqs' : List (EngineOrderRequest × Nanos)}
    (hreqs : ∀ r ∈ reqs, (r.1.side = .buy ∨ r.1.side = .sell) ∧ 0 < r.1.price ∧ r.1.price < K)
    (hreqs' : reqs'.map Prod.fst = reqs.map fun r =>
      { r.1 with side := r.1.side.opposite, price := reflectPrice K r.1.price }) :
    Lockstep
      (fun b b' => (reflection K).Relabelled b.untimed b'.untimed ∧
        (reqs'.map Prod.snd = reqs.map Prod.snd → (reflection K).Relabelled b b'))
      (run (.new symbol) reqs) (run (.new symbol) reqs') := by
  have hcovers : ∀ r ∈ reqs, (reflection K).CoversRequest r.1 := by
    intro r hr
    obtain ⟨hside, hprice⟩ := hreqs r hr
    refine ⟨fun hinvalid => ?_, hprice⟩
    rw [hinvalid] at hside
    exact hside.elim (fun h => by cases h) fun h => by cases h
  exact (reflection K).run_at symbol hcovers hreqs'

/-- A buy order is hit by a larger sell order, whose remainder is re-priced, taken in part and not
cancelled by a stranger. -/
def crossing : List (EngineOrderRequest × Nanos) :=
  [ (⟨.limit, 1, "ACME", 1, .buy, 60, 5, 0⟩, 10),
    (⟨.limit, 2, "ACME", 2, .sell, 40, 8, 0⟩, 20),
    (⟨.modify, 2, "ACME", 2, .sell, 70, 3, 0⟩, 30),
    (⟨.ioc, 3, "ACME", 3, .buy, 80, 2, 0⟩, 40),
    (⟨.cancel, 1, "ACME", 2, .buy, 50, 1, 0⟩, 50) ]

lemma crossing_ok : ∃ b, run (.new "ACME") crossing = .ok b ∧
    decide ((updatesOf b.sent).length = 7) = true :=
  exists_ok_of_check (by decide +kernel)

theorem reflected_run_crossing :
    (∀ r ∈ crossing, (r.1.side = .buy ∨ r.1.side = .sell) ∧ 0 < r.1.price ∧ r.1.price < 100) ∧
      ∃ b b', run (.new "ACME") crossing = .ok b ∧
        run (.new "ACME") ((reflection 100).requests crossing) = .ok b' ∧
        (reflection 100).Relabelled b b' ∧ (updatesOf b.sent).length = 7 := by
  have hreqs : ∀ r ∈ crossing,
      (r.1.side = .buy ∨ r.1.side = .sell) ∧ 0 < r.1.price ∧ r.1.price < 100 := by decide
  obtain ⟨b, hb, hlen⟩ := crossing_ok
  refine ⟨hreqs, ?_⟩
  have hreqs' : ((reflection 100).requests crossing).map Prod.fst = crossing.map fun r =>
    { r.1 with side := r.1.side.opposite, price := reflectPrice 100 r.1.price } := rfl
  rcases reflected_run "ACME" 100 hreqs hreqs' with
    ⟨herr, -⟩ | ⟨b₁, b', hb₁, hb', -, hrel⟩
  · rw [hb] at herr
    cases herr
  · rw [hb] at hb₁
    obtain rfl := Except.ok.inj hb₁
    exact ⟨b, b', hb, hb', hrel rfl, of_decide_eq_true hlen⟩

/-! ## Clients -/

/-- Give the clients other ids. -/
def clientRenaming (r : ClientId → ClientId) (hr : Function.Injective r) : Relabelling where
  client := r
  side := id
  book := id
  price := id
  CoversSide _ := True
  CoversPrice _ := True
  client_injective := hr
  side_invalid := rfl
  price_invalid := rfl
  book_book _ := rfl
  book_contra _ := rfl
  bookSide_side _ := rfl
  before_price _ _ _ _ _ := Iff.rfl
  price_le_zero _ := Iff.rfl

/-- Processing requests under other client ids from the empty book, whatever the clock reads: the
pools are exhausted in both runs or in neither, and then both books have sent the same updates, from
which the same snapshots are made, and the same responses to the renamed clients. -/
theorem anonymous_run (symbol : Symbol) {r : ClientId → ClientId} (hr : Function.Injective r)
    {reqs reqs' : List (EngineOrderRequest × Nanos)}
    (hreqs' : reqs'.map Prod.fst = reqs.map fun q =>
      { q.1 with clientId := r q.1.clientId }) :
    Lockstep
      (fun b b' => updatesOf b'.sent = updatesOf b.sent ∧
        (∀ s, (Mirror.empty.applyUpdates (updatesOf b'.sent)).snapshotFor s =
          (Mirror.empty.applyUpdates (updatesOf b.sent)).snapshotFor s) ∧
        responsesOf b'.sent = (responsesOf b.sent).map fun x =>
          { x with clientId := r x.clientId })
      (run (.new symbol) reqs) (run (.new symbol) reqs') := by
  rcases (clientRenaming r hr).run_at symbol (fun _ _ => ⟨trivial, trivial⟩) hreqs' with
    herr | ⟨b, b', hb, hb', hrel, -⟩
  · exact .inl herr
  · have hsent : b'.sent = b.sent.map (clientRenaming r hr).msg := hrel.sent
    have hupdates : updatesOf b'.sent = updatesOf b.sent := by
      rw [hsent, Relabelling.updatesOf_map_msg]
      exact List.map_id _
    refine .inr ⟨b, b', hb, hb', hupdates, fun s => by rw [hupdates], ?_⟩
    rw [hsent, Relabelling.responsesOf_map_msg]
    rfl

theorem anonymous_run_crossing :
    Function.Injective (fun c : ClientId => c + 7) ∧
      ∃ b b', run (.new "ACME") crossing = .ok b ∧
        run (.new "ACME") (crossing.map fun q => ({ q.1 with clientId := q.1.clientId + 7 }, 0)) =
          .ok b' ∧
        updatesOf b'.sent = updatesOf b.sent ∧ (updatesOf b.sent).length = 7 := by
  have hr : Function.Injective (fun c : ClientId => c + 7) := fun c c' h => by simpa using h
  obtain ⟨b, hb, hlen⟩ := crossing_ok
  refine ⟨hr, ?_⟩
  have hreqs' : (crossing.map fun q => ({ q.1 with clientId := q.1.clientId + 7 },
      (0 : Nanos))).map Prod.fst =
    crossing.map fun q => { q.1 with clientId := q.1.clientId + 7 } := rfl
  rcases anonymous_run "ACME" hr hreqs' with
    ⟨herr, -⟩ | ⟨b₁, b', hb₁, hb', hupdates, -⟩
  · rw [hb] at herr
    cases herr
  · rw [hb] at hb₁
    obtain rfl := Except.ok.inj hb₁
    exact ⟨b, b', hb, hb', hupdates, of_decide_eq_true hlen⟩

end MatchingEngine
