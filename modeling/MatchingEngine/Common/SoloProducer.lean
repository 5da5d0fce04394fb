import MatchingEngine.Common.SharedQueue
import Mathlib.Data.Fintype.Defs

/-!
# A queue with one producer at work

`LFQueue` is written for one producer.  As long as a producer begins to write only when no other is
at it, and only into a ring that has room, a queue does what it is meant to do, whatever the
interleaving.  `SharedQueue.Ok` is the invariant of such runs: the elements begun are those read,
those stored and not yet read, which the ring holds in order, and the one in the hands of the
producer at work, if any.  `Ok.next` says that every step keeps it.
-/

namespace MatchingEngine

namespace ProducerState

variable {α : Type}

/-- The element the producer is writing, until the write index is past it. -/
def inHand : ProducerState α → List α
  | .slotTaken x _ | .slotWritten x | .indexLoaded x _ => [x]
  | .idle | .indexStored _ => []

/-- The element in hand, once it stands in its slot. -/
def inSlot : ProducerState α → List α
  | .slotWritten x | .indexLoaded x _ => [x]
  | .idle | .slotTaken _ _ | .indexStored _ => []

/-- The element that is in the ring but not counted yet. -/
def uncounted : ProducerState α → List α
  | .indexStored x => [x]
  | _ => []

/-- The producer works with the current write index. -/
def UsesIndex (index : ℕ) : ProducerState α → Prop
  | .slotTaken _ slot => slot = index
  | .indexLoaded _ i => i = index
  | _ => True

end ProducerState

namespace ConsumerState

/-- The elements read that are still counted. -/
def owed : ConsumerState → ℕ
  | .slotRead | .indexAdvanced => 1
  | _ => 0

/-- The read index and the counter, by what the consumer is doing; `start` is the position of the
first element it has not read. -/
def Ok (n readIndex numElements start : ℕ) : ConsumerState → Prop
  | .idle => readIndex = start % n
  | .slotTaken slot | .tested slot => slot = readIndex ∧ readIndex = start % n ∧ 0 < numElements
  | .slotRead => (readIndex + 1) % n = start % n ∧ 0 < numElements
  | .indexAdvanced => readIndex = start % n ∧ 0 < numElements
  | .failed => False

lemma Ok.mono {n readIndex m m' start : ℕ} {c : ConsumerState} (h : c.Ok n readIndex m start)
    (hm : m ≤ m') : c.Ok n readIndex m' start := by
  cases c with
  | idle => exact h
  | slotTaken slot => exact ⟨h.1, h.2.1, h.2.2.trans_le hm⟩
  | tested slot => exact ⟨h.1, h.2.1, h.2.2.trans_le hm⟩
  | slotRead => exact ⟨h.1, h.2.trans_le hm⟩
  | indexAdvanced => exact ⟨h.1, h.2.trans_le hm⟩
  | failed => exact h

/-- What was read and is still counted is counted. -/
lemma Ok.owed_le {n readIndex m start : ℕ} {c : ConsumerState} (h : c.Ok n readIndex m start) :
    c.owed ≤ m := by
  cases c with
  | slotRead => exact h.2
  | indexAdvanced => exact h.2
  | _ => exact Nat.zero_le m

end ConsumerState

namespace SharedQueue

variable {ι α : Type} [DecidableEq ι]

/-- At most one producer is at work, and `cur` is where it is. -/
def Solo (producers : ι → ProducerState α) (cur : ProducerState α) : Prop :=
  (producers = fun _ => .idle) ∧ cur = .idle ∨
    ∃ p, producers = Function.update (fun _ => .idle) p cur

lemma Solo.idle {producers : ι → ProducerState α} {cur : ProducerState α} (h : Solo producers cur)
    (hidle : ∀ p, producers p = .idle) : cur = .idle ∧ producers = fun _ => .idle := by
  rcases h with ⟨hp, hcur⟩ | ⟨p, hp⟩
  · exact ⟨hcur, hp⟩
  · refine ⟨?_, funext hidle⟩
    have := hidle p
    rwa [hp, Function.update_self] at this

lemma Solo.active {producers : ι → ProducerState α} {cur : ProducerState α} (h : Solo producers cur)
    {p : ι} {st : ProducerState α} (hp : producers p = st) (hst : st ≠ .idle) :
    cur = st ∧ ∀ st', Solo (Function.update producers p st') st' := by
  rcases h with ⟨hidle, -⟩ | ⟨q, rfl⟩
  · rw [hidle] at hp
    exact absurd hp.symm hst
  · by_cases hq : p = q
    · subst hq
      rw [Function.update_self] at hp
      exact ⟨hp, fun st' => .inr ⟨p, Function.update_idem ..⟩⟩
    · rw [Function.update_of_ne hq] at hp
      exact absurd hp.symm hst

/-- The invariant of runs with one producer at work at a time: `unread` is in the ring and was not
read, and `cur` is where the producer at work is. -/
structure Ok (s : SharedQueue ι α) (unread : List α) (cur : ProducerState α) : Prop where
  capacity : 0 < s.queue.capacity
  solo : Solo s.producers cur
  begun : s.begun = s.taken ++ unread ++ cur.inHand
  written : s.taken ++ unread = s.written ++ cur.uncounted
  slots : RingBuffers.Holds s.queue.capacity s.queue.store s.taken.length (unread ++ cur.inSlot)
  writeIndex : s.queue.nextWriteIndex = (s.taken.length + unread.length) % s.queue.capacity
  usesIndex : cur.UsesIndex s.queue.nextWriteIndex
  count : s.queue.numElements + cur.uncounted.length = unread.length + s.consumer.owed
  room : unread.length + cur.inHand.length ≤ s.queue.capacity
  consumer : s.consumer.Ok s.queue.capacity s.queue.nextReadIndex s.queue.numElements
    s.taken.length

instance {P : ι → α → Prop} [∀ p x, Decidable (P p x)] (a : Action ι α) :
    Decidable (∀ p x, a = .takeSlot p x → P p x) :=
  match a with
  | .takeSlot p x => decidable_of_iff (P p x)
      ⟨fun h _ _ ha => (Action.takeSlot.inj ha).1 ▸ (Action.takeSlot.inj ha).2 ▸ h,
        fun h => h p x rfl⟩
  | .writeSlot _ | .loadIndex _ | .storeIndex _ | .increment _ | .getNextToRead | .testSize
  | .readSlot | .advanceIndex | .decrement => .isTrue nofun

instance (st : ProducerState α) : Decidable (st = .idle) :=
  match st with
  | .idle => .isTrue rfl
  | .slotTaken _ _ | .slotWritten _ | .indexLoaded _ _ | .indexStored _ => .isFalse nofun

/-- No element is begun when the ring may be full. -/
def Bounded (s : SharedQueue ι α) (a : Action ι α) : Prop :=
  ∀ p x, a = .takeSlot p x → s.begun.length < s.taken.length + s.queue.capacity

/-- A producer begins only when no producer is at work. -/
def Alone (s : SharedQueue ι α) (a : Action ι α) : Prop :=
  ∀ p x, a = .takeSlot p x → ∀ p', s.producers p' = .idle

instance (s : SharedQueue ι α) (a : Action ι α) : Decidable (s.Bounded a) :=
  inferInstanceAs (Decidable (∀ p x, a = .takeSlot p x → _))

instance [Fintype ι] (s : SharedQueue ι α) (a : Action ι α) : Decidable (s.Alone a) :=
  inferInstanceAs (Decidable (∀ p x, a = .takeSlot p x → ∀ p', s.producers p' = .idle))

variable {s s' : SharedQueue ι α} {unread : List α} {cur : ProducerState α} {p : ι} {x : α}

lemma ok_ofCapacity {n : ℕ} (hn : 0 < n) (blank : α) :
    (ofCapacity n blank : SharedQueue ι α).Ok [] .idle where
  capacity := hn
  solo := .inl ⟨rfl, rfl⟩
  begun := rfl
  written := rfl
  slots := RingBuffers.holds_nil
  writeIndex := (Nat.zero_mod n).symm
  usesIndex := trivial
  count := rfl
  room := Nat.zero_le _
  consumer := (Nat.zero_mod n).symm

/-- What the invariant says of the consumer, once it is known where the consumer is. -/
lemma Ok.at_consumer (h : s.Ok unread cur) {c : ConsumerState} (hc : s.consumer = c) :
    c.Ok s.queue.capacity s.queue.nextReadIndex s.queue.numElements s.taken.length ∧
      s.queue.numElements + cur.uncounted.length = unread.length + c.owed := by
  subst hc
  exact ⟨h.consumer, h.count⟩

/-! ## Steps of a producer -/

lemma Ok.takeSlot (h : s.Ok unread cur) (hbounded : s.Bounded (.takeSlot p x))
    (halone : s.Alone (.takeSlot p x)) (hs : Next s (.takeSlot p x) s') :
    s'.Ok unread (.slotTaken x s.queue.nextWriteIndex) := by
  obtain ⟨-, rfl⟩ := next_takeSlot hs
  obtain ⟨rfl, hidle⟩ := h.solo.idle (halone p x rfl)
  have hlength := hbounded p x rfl
  have hbegun : s.begun = s.taken ++ unread := by
    rw [h.begun]
    exact List.append_nil _
  rw [hbegun, List.length_append] at hlength
  refine { h with
    solo := .inr ⟨p, ?_⟩, begun := ?_, usesIndex := rfl, room := ?_ }
  · change Function.update s.producers p _ = _
    rw [hidle]
  · change s.begun ++ [x] = _
    rw [hbegun]
    rfl
  · change unread.length + 1 ≤ s.queue.capacity
    omega

lemma Ok.writeSlot (h : s.Ok unread cur) (hs : Next s (.writeSlot p) s') :
    ∃ cur', s'.Ok unread cur' := by
  obtain ⟨x, slot, hp, rfl⟩ := next_writeSlot hs
  obtain ⟨rfl, hsolo⟩ := h.solo.active hp (by simp)
  have hslot : slot = (s.taken.length + unread.length) % s.queue.capacity :=
    (show slot = s.queue.nextWriteIndex from h.usesIndex).trans h.writeIndex
  have hslots : RingBuffers.Holds s.queue.capacity s.queue.store s.taken.length unread := by
    simpa [ProducerState.inSlot] using h.slots
  refine ⟨.slotWritten x, { h with solo := hsolo _, slots := ?_, usesIndex := trivial }⟩
  change RingBuffers.Holds _ (Function.update s.queue.store slot x) _ (unread ++ [x])
  rw [hslot]
  exact hslots.snoc h.room x

lemma Ok.loadIndex (h : s.Ok unread cur) (hs : Next s (.loadIndex p) s') :
    ∃ cur', s'.Ok unread cur' := by
  obtain ⟨x, hp, rfl⟩ := next_loadIndex hs
  obtain ⟨rfl, hsolo⟩ := h.solo.active hp (by simp)
  exact ⟨.indexLoaded x s.queue.nextWriteIndex, { h with solo := hsolo _, usesIndex := rfl }⟩

lemma Ok.storeIndex (h : s.Ok unread cur) (hs : Next s (.storeIndex p) s') :
    ∃ unread' cur', s'.Ok unread' cur' := by
  obtain ⟨x, index, hp, rfl⟩ := next_storeIndex hs
  obtain ⟨rfl, hsolo⟩ := h.solo.active hp (by simp)
  have hindex : index = (s.taken.length + unread.length) % s.queue.capacity :=
    (show index = s.queue.nextWriteIndex from h.usesIndex).trans h.writeIndex
  have hlength : (unread ++ [x]).length = unread.length + 1 := List.length_append
  refine ⟨unread ++ [x], .indexStored x, { h with
    solo := hsolo _, begun := ?_, written := ?_, slots := ?_, writeIndex := ?_,
    usesIndex := trivial, count := ?_, room := ?_ }⟩
  · change s.begun = s.taken ++ (unread ++ [x]) ++ []
    rw [List.append_nil, ← List.append_assoc]
    exact h.begun
  · change s.taken ++ (unread ++ [x]) = s.written ++ [x]
    rw [← List.append_assoc, h.written]
    exact congrArg (· ++ [x]) (List.append_nil _)
  · change RingBuffers.Holds s.queue.capacity s.queue.store s.taken.length (unread ++ [x] ++ [])
    rw [List.append_nil]
    exact h.slots
  · change (index + 1) % s.queue.capacity = _
    rw [hindex, hlength, Nat.mod_add_mod]
    rfl
  · change s.queue.numElements + 1 = (unread ++ [x]).length + s.consumer.owed
    have hcount : s.queue.numElements = unread.length + s.consumer.owed := h.count
    rw [hlength]
    omega
  · rw [hlength]
    exact h.room

lemma Ok.increment (h : s.Ok unread cur) (hs : Next s (.increment p) s') :
    ∃ cur', s'.Ok unread cur' := by
  obtain ⟨x, hp, rfl⟩ := next_increment hs
  obtain ⟨rfl, hsolo⟩ := h.solo.active hp (by simp)
  refine ⟨.idle, { h with
    solo := hsolo _, written := ?_, usesIndex := trivial, count := h.count,
    consumer := h.consumer.mono (Nat.le_succ _) }⟩
  change s.taken ++ unread = s.written ++ [x] ++ []
  rw [List.append_nil]
  exact h.written

/-! ## Steps of the consumer -/

lemma Ok.getNextToRead (h : s.Ok unread cur) (hs : Next s .getNextToRead s') :
    s'.Ok unread cur := by
  obtain ⟨hidle, ⟨hne, rfl⟩ | rfl⟩ := next_getNextToRead hs
  · obtain ⟨hconsumer, hcount⟩ := h.at_consumer hidle
    exact { h with count := hcount, consumer := ⟨rfl, hconsumer, Nat.pos_of_ne_zero hne⟩ }
  · exact h

lemma Ok.testSize (h : s.Ok unread cur) (hs : Next s .testSize s') : s'.Ok unread cur := by
  obtain ⟨slot, htaken, rfl⟩ := next_testSize hs
  obtain ⟨hconsumer, hcount⟩ := h.at_consumer htaken
  rw [if_pos hconsumer.2.2.ne']
  exact { h with count := hcount, consumer := hconsumer }

lemma Ok.readSlot (h : s.Ok unread cur) (hs : Next s .readSlot s') :
    ∃ unread', s'.Ok unread' cur := by
  obtain ⟨slot, htested, rfl⟩ := next_readSlot hs
  obtain ⟨hconsumer, hcount⟩ := h.at_consumer htested
  obtain ⟨hslot, hindex, hpos⟩ := hconsumer
  change s.queue.numElements + _ = unread.length + 0 at hcount
  -- the counter says that there is something to read
  cases unread with
  | nil =>
    rw [List.length_nil] at hcount
    omega
  | cons y unread =>
    have hread : s.queue.store slot = y := by
      rw [hslot, hindex]
      exact h.slots.head
    have hlength : (s.taken ++ [y]).length = s.taken.length + 1 := List.length_append
    rw [hread]
    have hbegun := h.begun
    have hwritten := h.written
    have hwriteIndex := h.writeIndex
    have hroom := h.room
    rw [List.append_cons] at hbegun hwritten
    rw [List.length_cons] at hwriteIndex hcount hroom
    refine ⟨unread, { h with
      begun := hbegun, written := hwritten, slots := ?_, writeIndex := ?_, count := hcount,
      room := ?_, consumer := ⟨?_, hpos⟩ }⟩
    · change RingBuffers.Holds _ _ (s.taken ++ [y]).length _
      rw [hlength, ← RingBuffers.holds_mod]
      exact h.slots.tail
    · change s.queue.nextWriteIndex = ((s.taken ++ [y]).length + unread.length) % _
      rw [hlength, hwriteIndex, Nat.add_right_comm, Nat.add_assoc]
    · change unread.length + _ ≤ s.queue.capacity
      omega
    · change (s.queue.nextReadIndex + 1) % _ = (s.taken ++ [y]).length % _
      rw [hlength, hindex, Nat.mod_add_mod]

lemma Ok.advanceIndex (h : s.Ok unread cur) (hs : Next s .advanceIndex s') :
    s'.Ok unread cur := by
  obtain ⟨hread, rfl⟩ := next_advanceIndex hs
  obtain ⟨hconsumer, hcount⟩ := h.at_consumer hread
  exact { h with count := hcount, consumer := hconsumer }

lemma Ok.decrement (h : s.Ok unread cur) (hs : Next s .decrement s') : s'.Ok unread cur := by
  obtain ⟨hadvanced, hcases⟩ := next_decrement hs
  obtain ⟨hconsumer, hcount⟩ := h.at_consumer hadvanced
  rcases hcases with ⟨hne, rfl⟩ | ⟨hzero, -⟩
  · refine { h with count := ?_, consumer := hconsumer.1 }
    change s.queue.numElements - 1 + _ = unread.length + 0
    change s.queue.numElements + _ = unread.length + 1 at hcount
    omega
  · exact absurd hzero hconsumer.2.ne'

/-! ## Runs -/

/-- The invariant is kept by every step that begins no element beside another or in a full ring. -/
lemma Ok.next (h : s.Ok unread cur) {a : Action ι α} (hs : Next s a s') (hbounded : s.Bounded a)
    (halone : s.Alone a) : ∃ unread' cur', s'.Ok unread' cur' := by
  cases a with
  | takeSlot p x => exact ⟨_, _, h.takeSlot hbounded halone hs⟩
  | writeSlot p => exact ⟨_, h.writeSlot hs⟩
  | loadIndex p => exact ⟨_, h.loadIndex hs⟩
  | storeIndex p => exact h.storeIndex hs
  | increment p => exact ⟨_, h.increment hs⟩
  | getNextToRead => exact ⟨_, _, h.getNextToRead hs⟩
  | testSize => exact ⟨_, _, h.testSize hs⟩
  | readSlot =>
    obtain ⟨unread', h'⟩ := h.readSlot hs
    exact ⟨unread', _, h'⟩
  | advanceIndex => exact ⟨_, _, h.advanceIndex hs⟩
  | decrement => exact ⟨_, _, h.decrement hs⟩

/-! ## What the invariant says -/

/-- The counter is ahead of the elements to read by those the consumer has yet to count off. -/
lemma Ok.length_written (h : s.Ok unread cur) :
    s.written.length + s.consumer.owed = s.taken.length + s.queue.numElements := by
  have hlength := congrArg List.length h.written
  have hcount := h.count
  rw [List.length_append, List.length_append] at hlength
  omega

/-- The consumer reads elements whose write is complete, in the order they were written. -/
lemma Ok.taken_isPrefix (h : s.Ok unread cur) : s.taken <+: s.written := by
  have hle := h.consumer.owed_le
  have hlength := h.length_written
  have hwritten : s.written <+: s.taken ++ unread := by
    rw [h.written]
    exact List.prefix_append _ _
  exact List.prefix_of_prefix_length_le (List.prefix_append _ _) hwritten (by omega)

/-- Once the consumer has a pointer, testing the size again tells it nothing new: both loops take
the same steps. -/
lemma Ok.stepIn_eq (h : s.Ok unread cur) (loop : ConsumerLoop) (a : Action ι α) :
    s.stepIn loop a = s.step a := by
  unfold stepIn
  split
  · rename_i slot hconsumer
    obtain ⟨hpos, -⟩ := h.at_consumer hconsumer
    simp only [step, hconsumer]
    rw [if_pos hpos.2.2.ne']
  · rfl

/-- Between operations the queue holds what was written and not read. -/
lemma Ok.holds (h : s.Ok unread .idle) (hidle : s.consumer = .idle) :
    s.queue.Holds unread ∧ s.taken ++ unread = s.written := by
  obtain ⟨hindex, hcount⟩ := h.at_consumer hidle
  change s.queue.nextReadIndex = s.taken.length % s.queue.capacity at hindex
  refine ⟨⟨?_, hcount, ?_, ?_⟩, ?_⟩
  · rw [hindex, RingBuffers.holds_mod]
    simpa [ProducerState.inSlot] using h.slots
  · rw [hindex]
    exact Nat.mod_lt _ h.capacity
  · rw [hindex, Nat.mod_add_mod]
    exact h.writeIndex
  · rw [h.written]
    exact List.append_nil _

end SharedQueue

end MatchingEngine
