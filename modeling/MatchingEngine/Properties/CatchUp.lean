import MatchingEngine.Framework.Replay
import MatchingEngine.Properties.Snapshot

/-!
# Catching up from a snapshot

A consumer that comes late loads the snapshots of all symbols and then applies the book updates
it receives.  Updates carry no sequence number, so it cannot tell which of them the snapshots
already contain, and may apply some again.

The mirror, seen as a table from symbols and ids to entries, is a replayable state: `ADD` and
`CANCEL` overwrite an entry whatever it was, `MODIFY` overwrites its quantity and nothing
restores the one it had.  So the stretch of updates that snapshot and stream have in common
may be applied twice (`catchUp_overlap`), for any stream of updates whatever, also one that no
book would write.
-/

namespace MatchingEngine

open Replays

/-- Every symbol's snapshot entered into an empty mirror. -/
def Mirror.load (snapshot : Symbol → List SnapshotEntry) : Mirror := fun symbol =>
  (snapshot symbol).foldl (fun book entry => book.insert entry.orderId entry) ∅

/-! ## The mirror as a table -/

/-- What the mirror holds under each id of each symbol. -/
abbrev MirrorTable := Symbol → OrderId → Option SnapshotEntry

/-- The effect of an update on one entry. -/
def BookUpdate.onEntry (u : BookUpdate) (e : Option SnapshotEntry) : Option SnapshotEntry :=
  match u.type with
  | .add => some ⟨u.orderId, u.side, u.price, u.qty⟩
  | .modify => e.map fun e => { e with qty := u.qty }
  | .cancel => none
  | .trade | .invalid => e

/-- The effect of an update on the table. -/
def BookUpdate.onTable (u : BookUpdate) (t : MirrorTable) : MirrorTable :=
  Function.update t u.symbol
    (Function.update (t u.symbol) u.orderId (u.onEntry (t u.symbol u.orderId)))

def Mirror.table (M : Mirror) : MirrorTable := fun symbol => (M symbol).lookup

lemma MirrorBook.lookup_apply (book : MirrorBook) (u : BookUpdate) :
    (book.apply u).lookup = Function.update book.lookup u.orderId
      (u.onEntry (book.lookup u.orderId)) := by
  funext id
  by_cases hid : id = u.orderId
  · subst hid
    rw [Function.update_self]
    cases ht : u.type with
    | add => rw [lookup_apply_add _ _ ht, BookUpdate.onEntry, ht]
    | modify => rw [lookup_apply_modify _ _ ht, BookUpdate.onEntry, ht]
    | cancel => rw [lookup_apply_cancel _ _ ht, BookUpdate.onEntry, ht]
    | trade => rw [apply_trade ht, BookUpdate.onEntry, ht]
    | invalid => simp only [apply, ht, BookUpdate.onEntry]
  · rw [lookup_apply_of_ne hid, Function.update_of_ne hid]

lemma Mirror.table_applyUpdate (M : Mirror) (u : BookUpdate) :
    (M.applyUpdate u).table = u.onTable M.table := by
  funext symbol
  change (M.applyUpdate u symbol).lookup = u.onTable M.table symbol
  by_cases hs : symbol = u.symbol
  · subst hs
    rw [applyUpdate, Function.update_self, BookUpdate.onTable, Function.update_self,
      MirrorBook.lookup_apply]
    rfl
  · rw [applyUpdate, Function.update_of_ne hs, BookUpdate.onTable, Function.update_of_ne hs]
    rfl

lemma Mirror.table_applyUpdates (M : Mirror) (us : List BookUpdate) :
    (M.applyUpdates us).table = replay BookUpdate.onTable us M.table := by
  induction us generalizing M with
  | nil => rfl
  | cons u us ih =>
    change ((M.applyUpdate u).applyUpdates us).table = _
    rw [ih, table_applyUpdate, replay_cons]

/-! ## Updates may be made twice -/

lemma BookUpdate.onEntry_idem (u : BookUpdate) (e : Option SnapshotEntry) :
    u.onEntry (u.onEntry e) = u.onEntry e := by
  unfold onEntry
  cases u.type <;> simp [Function.comp_def]

/-- What an update forgets about an entry stays forgotten. -/
lemma BookUpdate.onEntry_forget (u v : BookUpdate) {e e' : Option SnapshotEntry}
    (h : u.onEntry e = u.onEntry e') : u.onEntry (v.onEntry e) = u.onEntry (v.onEntry e') := by
  unfold onEntry at h ⊢
  -- only a `MODIFY` after a `MODIFY` looks at the entry: the later quantity is the one that counts
  cases hu : u.type <;> cases hv : v.type <;> simp_all [Function.comp_def]

lemma BookUpdate.onTable_apply (u : BookUpdate) (t : MirrorTable) (symbol : Symbol)
    (id : OrderId) : u.onTable t symbol id =
      if symbol = u.symbol ∧ id = u.orderId then u.onEntry (t symbol id) else t symbol id := by
  by_cases hs : symbol = u.symbol
  · subst hs
    rw [onTable, Function.update_self, Function.update_apply]
    by_cases hid : id = u.orderId
    · simp [hid]
    · simp [hid]
  · rw [onTable, Function.update_of_ne hs, if_neg fun h => hs h.1]

lemma replayable_onTable : Replayable BookUpdate.onTable where
  idem u t := by
    funext symbol id
    simp only [BookUpdate.onTable_apply]
    split_ifs
    · exact u.onEntry_idem _
    · rfl
  forget u v t t' h := by
    funext symbol id
    have h' := congrFun (congrFun h symbol) id
    simp only [BookUpdate.onTable_apply] at h' ⊢
    by_cases hu : symbol = u.symbol ∧ id = u.orderId
    · rw [if_pos hu, if_pos hu] at h' ⊢
      by_cases hv : symbol = v.symbol ∧ id = v.orderId
      · rw [if_pos hv, if_pos hv]
        exact u.onEntry_forget v h'
      · rwa [if_neg hv, if_neg hv]
    · rw [if_neg hu, if_neg hu] at h' ⊢
      rw [h']

/-! ## Loading a snapshot -/

lemma MirrorBook.lookup_insertAll {entries : List SnapshotEntry}
    (hnodup : (entries.map SnapshotEntry.orderId).Nodup) (book : MirrorBook) (id : OrderId) :
    (entries.foldl (fun book entry => book.insert entry.orderId entry) book).lookup id =
      (entries.find? fun e => decide (e.orderId = id)).or (book.lookup id) := by
  induction entries generalizing book with
  | nil => rfl
  | cons e entries ih =>
    obtain ⟨hnotin, hnodup'⟩ := List.nodup_cons.mp hnodup
    rw [List.foldl_cons, ih hnodup', List.find?_cons]
    by_cases hid : e.orderId = id
    · subst hid
      have hnone : entries.find? (fun e' => decide (e'.orderId = e.orderId)) = none := by
        rw [List.find?_eq_none]
        intro e' he' heq
        exact hnotin (List.mem_map.mpr ⟨e', he', by simpa using heq⟩)
      simp [hnone]
    · simp [hid, AList.lookup_insert_ne (Ne.symm hid)]

/-- A loaded snapshot is the mirror it was taken from. -/
lemma Mirror.table_load {M : Mirror} (h : ∀ symbol, (M symbol).Filed) :
    (Mirror.load M.snapshotFor).table = M.table := by
  funext symbol id
  have hload := MirrorBook.lookup_insertAll (h symbol).nodup_ids ∅ id
  rw [AList.lookup_empty, Option.or_none] at hload
  refine hload.trans (Option.ext fun e => ?_)
  constructor
  · intro hfind
    have hid : e.orderId = id := by simpa using List.find?_some hfind
    subst hid
    exact (h symbol).mem_entries.mp (List.mem_of_find?_eq_some hfind)
  · intro hlookup
    have hid := h symbol id e hlookup
    subst hid
    have hmem := (h symbol).mem_entries.mpr hlookup
    cases hfind : ((M symbol).entries.map Sigma.snd).find? fun e' => decide (e'.orderId = e.orderId)
      with
    | none => exact absurd (List.find?_eq_none.mp hfind e hmem) (by simp)
    | some e' =>
      have hid : e'.orderId = e.orderId := by simpa using List.find?_some hfind
      rw [List.inj_on_of_nodup_map (h symbol).nodup_ids (List.mem_of_find?_eq_some hfind) hmem hid]

lemma Mirror.filed_load (snapshot : Symbol → List SnapshotEntry) (symbol : Symbol) :
    (Mirror.load snapshot symbol).Filed := by
  unfold Mirror.load
  generalize snapshot symbol = entries
  suffices h : ∀ book : MirrorBook, book.Filed →
      (entries.foldl (fun book entry => book.insert entry.orderId entry) book).Filed from
    h ∅ MirrorBook.filed_empty
  induction entries with
  | nil => exact fun book h => h
  | cons e entries ih =>
    intro book h
    refine ih _ fun id e' he' => ?_
    by_cases hid : id = e.orderId
    · subst hid
      rw [AList.lookup_insert] at he'
      rw [← Option.some.inj he']
    · rw [AList.lookup_insert_ne hid] at he'
      exact h id e' he'

lemma Mirror.filed_applyUpdates {M : Mirror} (h : ∀ symbol, (M symbol).Filed)
    (us : List BookUpdate) (symbol : Symbol) : (M.applyUpdates us symbol).Filed := by
  rw [applyUpdates_apply]
  exact (h symbol).applyAll _

/-- Mirrors with the same table have the same snapshots. -/
lemma Mirror.snapshotFor_perm {M M' : Mirror} (hM : ∀ symbol, (M symbol).Filed)
    (hM' : ∀ symbol, (M' symbol).Filed) (h : M.table = M'.table) (symbol : Symbol) :
    (M.snapshotFor symbol).Perm (M'.snapshotFor symbol) := by
  refine (List.perm_ext_iff_of_nodup (hM symbol).nodup_entries (hM' symbol).nodup_entries).mpr
    fun e => ?_
  have hlookup : (M symbol).lookup e.orderId = (M' symbol).lookup e.orderId :=
    congrFun (congrFun h symbol) e.orderId
  rw [(hM symbol).mem_entries, (hM' symbol).mem_entries, hlookup]

/-! ## Catching up -/

/-- A consumer that loads the snapshots taken after the first `k` updates and then applies all
updates from the `j`-th on, for any `j ≤ k`, ends up with the snapshots of the whole stream. -/
theorem catchUp_overlap (us : List BookUpdate) {j k : ℕ} (hjk : j ≤ k) (symbol : Symbol) :
    (((Mirror.load (Mirror.empty.applyUpdates (us.take k)).snapshotFor).applyUpdates
      (us.drop j)).snapshotFor symbol).Perm
      ((Mirror.empty.applyUpdates us).snapshotFor symbol) := by
  have hempty : ∀ symbol, (Mirror.empty symbol).Filed := fun _ => MirrorBook.filed_empty
  refine Mirror.snapshotFor_perm (Mirror.filed_applyUpdates (Mirror.filed_load _) _)
    (Mirror.filed_applyUpdates hempty us) ?_ symbol
  -- the stream is what comes before the overlap, the overlap, and what comes after it
  have htake : us.take k = us.take j ++ (us.drop j).take (k - j) := by
    have hsplit := List.take_append_drop j (us.take k)
    rw [List.take_take, Nat.min_eq_left hjk] at hsplit
    rw [List.take_drop, Nat.add_sub_of_le hjk, hsplit]
  rw [Mirror.table_applyUpdates, Mirror.table_load (Mirror.filed_applyUpdates hempty _),
    Mirror.table_applyUpdates, Mirror.table_applyUpdates, htake, replay_append,
    replayable_onTable.replay_overlap (List.take_subset _ _), ← replay_append,
    List.take_append_drop]

/-- A cancelled order comes back and goes again while the consumer catches up. -/
theorem catchUp_after_cancel :
    (((Mirror.load (Mirror.empty.applyUpdates
        [⟨.add, 1, "A", .buy, 10, 5⟩, ⟨.cancel, 1, "A", .buy, 10, 5⟩]).snapshotFor).applyUpdates
      [⟨.add, 1, "A", .buy, 10, 5⟩, ⟨.cancel, 1, "A", .buy, 10, 5⟩,
        ⟨.add, 2, "A", .buy, 10, 5⟩]).snapshotFor "A").Perm
      ((Mirror.empty.applyUpdates [⟨.add, 1, "A", .buy, 10, 5⟩, ⟨.cancel, 1, "A", .buy, 10, 5⟩,
        ⟨.add, 2, "A", .buy, 10, 5⟩]).snapshotFor "A") :=
  catchUp_overlap [⟨.add, 1, "A", .buy, 10, 5⟩, ⟨.cancel, 1, "A", .buy, 10, 5⟩,
    ⟨.add, 2, "A", .buy, 10, 5⟩] (Nat.zero_le 2) "A"

end MatchingEngine
