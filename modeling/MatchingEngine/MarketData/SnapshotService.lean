import Mathlib.Data.List.AList
import MatchingEngine.Matcher.Messages

/-!
# The snapshot mirror

`BookSnapshotService` (`exchange/market_data/book_snapshot_service.h`) rebuilds every symbol's
resting orders from the stream of book updates alone.  Its `mirror_` is a hash map of hash maps;
a hash map is an association list without duplicate keys here, and what is said about a snapshot
is said up to the order of its entries.  A symbol the mirror has never heard of is one with no
entries, as `snapshotFor` treats it.
-/

namespace MatchingEngine

/-- One resting order as it appears in a snapshot. -/
structure SnapshotEntry where
  orderId : OrderId := invalidOrderId
  side : Side := .invalid
  price : Price := invalidPrice
  qty : Qty := invalidQty
  deriving DecidableEq, Repr

/-- The mirrored orders of one symbol. -/
abbrev MirrorBook := AList fun _ : OrderId => SnapshotEntry

/-- A line `publishSnapshot` logs: a symbol and the number of its orders, as an `int`. -/
structure SnapshotLine where
  symbol : Symbol
  orders : ℤ
  deriving DecidableEq, Repr

/-- `SNAPSHOT_INTERVAL_NANOS`: a minute. -/
def snapshotIntervalNanos : Nanos := 60000000000

/-- The mirror of all symbols. -/
abbrev Mirror := Symbol → MirrorBook

namespace MirrorBook

/-- The effect of one update on the orders of its symbol. -/
def apply (book : MirrorBook) (update : BookUpdate) : MirrorBook :=
  match update.type with
  | .add => book.insert update.orderId ⟨update.orderId, update.side, update.price, update.qty⟩
  | .modify =>
    match book.lookup update.orderId with
    | some entry => book.insert update.orderId { entry with qty := update.qty }
    | none => book
  | .cancel => book.erase update.orderId
  | .trade | .invalid => book

/-- The effect of a sequence of updates. -/
def applyAll (book : MirrorBook) (updates : List BookUpdate) : MirrorBook :=
  updates.foldl apply book

end MirrorBook

namespace Mirror

def empty : Mirror := fun _ => ∅

def applyUpdate (mirror : Mirror) (update : BookUpdate) : Mirror :=
  Function.update mirror update.symbol ((mirror update.symbol).apply update)

/-- The mirror after a sequence of updates. -/
def applyUpdates (mirror : Mirror) (updates : List BookUpdate) : Mirror :=
  updates.foldl applyUpdate mirror

def snapshotFor (mirror : Mirror) (symbol : Symbol) : List SnapshotEntry :=
  (mirror symbol).entries.map Sigma.snd

/-- The keys of `mirror_`: the symbols of all updates, applied to orders or not. -/
def heard (updates : List BookUpdate) : List Symbol := (updates.map BookUpdate.symbol).dedup

/-- The lines are logged in the order in which the hash map has the symbols. -/
def publishSnapshot (mirror : Mirror) (symbols : List Symbol) : List SnapshotLine :=
  symbols.map fun s => ⟨s, ((mirror s).entries.length : ℤ).bmod 4294967296⟩

/-- Updates of other symbols do not matter. -/
lemma applyUpdates_apply (mirror : Mirror) (updates : List BookUpdate) (symbol : Symbol) :
    mirror.applyUpdates updates symbol =
      (mirror symbol).applyAll (updates.filter fun u => decide (u.symbol = symbol)) := by
  induction updates generalizing mirror with
  | nil => rfl
  | cons u us ih =>
    change (mirror.applyUpdate u).applyUpdates us symbol = _
    rw [ih, applyUpdate, List.filter_cons]
    by_cases h : u.symbol = symbol
    · subst h
      simp [MirrorBook.applyAll]
    · rw [Function.update_of_ne (Ne.symm h)]
      simp [h]

end Mirror

namespace MirrorBook

variable {book : MirrorBook} {u : BookUpdate} {id : OrderId}

@[simp] lemma applyAll_nil : book.applyAll [] = book := rfl

@[simp] lemma applyAll_cons (us : List BookUpdate) :
    book.applyAll (u :: us) = (book.apply u).applyAll us := rfl

lemma applyAll_append (us us' : List BookUpdate) :
    book.applyAll (us ++ us') = (book.applyAll us).applyAll us' := by
  simp [applyAll]

/-- An update leaves the other orders of its symbol alone. -/
lemma lookup_apply_of_ne (h : id ≠ u.orderId) : (book.apply u).lookup id = book.lookup id := by
  cases ht : u.type with
  | add => simp only [apply, ht, AList.lookup_insert_ne h]
  | modify =>
    simp only [apply, ht]
    cases book.lookup u.orderId with
    | none => rfl
    | some e => exact AList.lookup_insert_ne h
  | cancel => simp only [apply, ht, AList.lookup_erase_ne h]
  | trade => simp only [apply, ht]
  | invalid => simp only [apply, ht]

lemma lookup_apply_add (book : MirrorBook) (u : BookUpdate) (h : u.type = .add) :
    (book.apply u).lookup u.orderId = some ⟨u.orderId, u.side, u.price, u.qty⟩ := by
  simp only [apply, h, AList.lookup_insert]

lemma lookup_apply_cancel (book : MirrorBook) (u : BookUpdate) (h : u.type = .cancel) :
    (book.apply u).lookup u.orderId = none := by
  simp only [apply, h, AList.lookup_erase]

lemma lookup_apply_modify (book : MirrorBook) (u : BookUpdate) (h : u.type = .modify) :
    (book.apply u).lookup u.orderId =
      (book.lookup u.orderId).map fun e => { e with qty := u.qty } := by
  simp only [apply, h]
  cases hb : book.lookup u.orderId with
  | none => exact hb
  | some e => exact AList.lookup_insert _

lemma apply_trade (h : u.type = .trade) : book.apply u = book := by simp only [apply, h]

/-- An update adds at most one order. -/
lemma length_apply_le (book : MirrorBook) (u : BookUpdate) :
    (book.apply u).entries.length ≤ book.entries.length + 1 := by
  have hinsert : ∀ e, (book.insert u.orderId e).entries.length ≤ book.entries.length + 1 :=
    fun e => Nat.succ_le_succ (List.kerase_sublist u.orderId book.entries).length_le
  cases ht : u.type with
  | add =>
    simp only [apply, ht]
    exact hinsert _
  | modify =>
    simp only [apply, ht]
    cases book.lookup u.orderId with
    | none => exact Nat.le_succ _
    | some e => exact hinsert _
  | cancel =>
    simp only [apply, ht]
    exact Nat.le_succ_of_le (List.kerase_sublist u.orderId book.entries).length_le
  | trade | invalid =>
    simp only [apply, ht]
    exact Nat.le_succ _

lemma length_applyAll_le (book : MirrorBook) (us : List BookUpdate) :
    (book.applyAll us).entries.length ≤ book.entries.length + us.length := by
  induction us generalizing book with
  | nil => exact Nat.le_refl _
  | cons u us ih =>
    have hfirst := book.length_apply_le u
    have hrest := ih (book.apply u)
    rw [applyAll_cons, List.length_cons]
    omega

end MirrorBook

end MatchingEngine
