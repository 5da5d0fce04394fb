import MatchingEngine.Common.Logging
import MatchingEngine.Framework.Numerals

/-!
# The life of a logger

The background thread of a `Logger` runs `flushQueue`: while `running_` is set it drains the queue
into the file and tests the flag again.  The destructor waits until the queue is empty, clears the
flag, joins the thread and closes the file.  `Common/Logging.lean` has the queue with the threads
that push and the accesses of one round of draining; here are the loops around them.

`LOG_LINE` formats a line into a buffer of the size of a slot, so that a line that is too long loses
its end, and with it its newline.
-/

namespace MatchingEngine

/-- What a use of `LOG_LINE` prints: the time, the level, the place and the message. -/
structure LogLine where
  time : List Char
  level : List Char
  file : List Char
  line : ℕ
  func : List Char
  message : List Char

namespace LogLine

open Numerals

/-- The formatted line without its newline. -/
def text (l : LogLine) : List Char :=
  l.time ++ " [".toList ++ l.level ++ "] [".toList ++ l.file ++ [':'] ++ writeNat l.line ++ [' '] ++
    l.func ++ "] ".toList ++ l.message

/-- `snprintf(line_buf_, sizeof(line_buf_), ...)`: the line as it is passed to `pushLine`. -/
def lineBuf (l : LogLine) : List Char := (l.text ++ ['\n']).take (logLineMaxLen - 1)

/-- The line and its newline fit into a buffer. -/
def Short (l : LogLine) : Prop := l.text.length + 1 < logLineMaxLen

end LogLine

/-- Where the background thread is. -/
inductive Flusher
  /-- About to test `running_`. -/
  | testing
  /-- In the loop over the queue. -/
  | draining
  | returned
  deriving DecidableEq, Repr

/-- Where the thread that destroys the logger is. -/
inductive Closer
  /-- It has not called the destructor. -/
  | outside
  /-- In the loop that waits for the queue to be empty. -/
  | waiting
  | emptied
  /-- It has cleared `running_`. -/
  | joining
  /-- The file is closed. -/
  | closed
  deriving DecidableEq, Repr

/-- A logger, its background thread and the thread that destroys it. -/
structure LoggerThread (ι : Type) where
  logger : Logger ι := .new
  running : Bool := true
  flusher : Flusher := .testing
  closer : Closer := .outside

namespace SharedQueue.Action

variable {ι α : Type}

/-- The action is a step of a producer. -/
def isWrite : Action ι α → Bool
  | .takeSlot .. | .writeSlot _ | .loadIndex _ | .storeIndex _ | .increment _ => true
  | _ => false

/-- The action tests whether the consumer's loop goes on. -/
def isTest : Action ι α → Bool
  | .getNextToRead | .testSize => true
  | _ => false

end SharedQueue.Action

namespace SharedQueue

variable {ι α : Type} [DecidableEq ι] {s s' : SharedQueue ι α} {a : Action ι α}

/-- A producer's step leaves the consumer where it is, and is the beginning of a write unless some
producer is at work. -/
lemma next_of_isWrite (ha : a.isWrite = true) (h : Next s a s') :
    s'.consumer = s.consumer ∧
      ((∃ p x, a = .takeSlot p x) ∨ ∃ p, s.producers p ≠ .idle) := by
  cases a with
  | takeSlot p x =>
    obtain ⟨-, rfl⟩ := next_takeSlot h
    exact ⟨rfl, .inl ⟨p, x, rfl⟩⟩
  | writeSlot p =>
    obtain ⟨x, slot, hp, rfl⟩ := next_writeSlot h
    exact ⟨rfl, .inr ⟨p, by simp [hp]⟩⟩
  | loadIndex p =>
    obtain ⟨x, hp, rfl⟩ := next_loadIndex h
    exact ⟨rfl, .inr ⟨p, by simp [hp]⟩⟩
  | storeIndex p =>
    obtain ⟨x, index, hp, rfl⟩ := next_storeIndex h
    exact ⟨rfl, .inr ⟨p, by simp [hp]⟩⟩
  | increment p =>
    obtain ⟨x, hp, rfl⟩ := next_increment h
    exact ⟨rfl, .inr ⟨p, by simp [hp]⟩⟩
  | _ => cases ha

/-- A step of the consumer leaves the producers where they are, and adds nothing to the queue. -/
lemma next_of_not_isWrite (ha : a.isWrite = false) (h : Next s a s') :
    s'.producers = s.producers ∧ s'.begun = s.begun ∧
      s'.queue.numElements ≤ s.queue.numElements := by
  cases a with
  | getNextToRead =>
    obtain ⟨-, ⟨-, rfl⟩ | rfl⟩ := next_getNextToRead h
    · exact ⟨rfl, rfl, Nat.le_refl _⟩
    · exact ⟨rfl, rfl, Nat.le_refl _⟩
  | testSize =>
    obtain ⟨slot, -, rfl⟩ := next_testSize h
    exact ⟨rfl, rfl, Nat.le_refl _⟩
  | readSlot =>
    obtain ⟨slot, -, rfl⟩ := next_readSlot h
    exact ⟨rfl, rfl, Nat.le_refl _⟩
  | advanceIndex =>
    obtain ⟨-, rfl⟩ := next_advanceIndex h
    exact ⟨rfl, rfl, Nat.le_refl _⟩
  | decrement =>
    obtain ⟨-, ⟨-, rfl⟩ | ⟨-, rfl⟩⟩ := next_decrement h
    · exact ⟨rfl, rfl, Nat.sub_le _ _⟩
    · exact ⟨rfl, rfl, Nat.le_refl _⟩
  | _ => cases ha

end SharedQueue

namespace LoggerThread

variable {ι : Type} [DecidableEq ι]

inductive Action (ι : Type)
  /-- A step of `pushLine`. -/
  | push (a : SharedQueue.Action ι LogElement)
  /-- `while (running_)` in `flushQueue`. -/
  | testRunning
  /-- A step of the loop over the queue. -/
  | drain (a : SharedQueue.Action ι LogElement)
  /-- The destructor is called. -/
  | destroy
  /-- `while (queue_.size())` in the destructor. -/
  | testEmpty
  | stop
  | join

/-- One step of one thread. -/
inductive Next : LoggerThread ι → Action ι → LoggerThread ι → Prop
  | push {t : LoggerThread ι} {a : SharedQueue.Action ι LogElement} {l : Logger ι}
      (hwrite : a.isWrite = true) (hstep : t.logger.step a = some l) :
      Next t (.push a) { t with logger := l }
  | testRunning {t : LoggerThread ι} (hpos : t.flusher = .testing) :
      Next t .testRunning { t with flusher := if t.running then .draining else .returned }
  | drain {t : LoggerThread ι} {a : SharedQueue.Action ι LogElement} {l : Logger ι}
      (hpos : t.flusher = .draining) (hread : a.isWrite = false)
      (hstep : t.logger.step a = some l) :
      Next t (.drain a) { t with
        logger := l
        flusher := if a.isTest ∧ l.consumer = .idle then .testing else .draining }
  | destroy {t : LoggerThread ι} (hpos : t.closer = .outside) :
      Next t .destroy { t with closer := .waiting }
  | testEmpty {t : LoggerThread ι} (hpos : t.closer = .waiting) :
      Next t .testEmpty { t with
        closer := if t.logger.queue.numElements ≠ 0 then .waiting else .emptied }
  | stop {t : LoggerThread ι} (hpos : t.closer = .emptied) :
      Next t .stop { t with running := false, closer := .joining }
  | join {t : LoggerThread ι} (hpos : t.closer = .joining) (hdone : t.flusher = .returned) :
      Next t .join { t with closer := .closed }

/-- `Next` as a function. -/
def perform (t : LoggerThread ι) : Action ι → Option (LoggerThread ι)
  | .push a =>
    if a.isWrite = true then (t.logger.step a).map fun l => { t with logger := l } else none
  | .testRunning =>
    if t.flusher = .testing then
      some { t with flusher := if t.running then .draining else .returned }
    else none
  | .drain a =>
    if t.flusher = .draining ∧ a.isWrite = false then
      (t.logger.step a).map fun l => { t with
        logger := l
        flusher := if a.isTest ∧ l.consumer = .idle then .testing else .draining }
    else none
  | .destroy => if t.closer = .outside then some { t with closer := .waiting } else none
  | .testEmpty =>
    if t.closer = .waiting then
      some { t with closer := if t.logger.queue.numElements ≠ 0 then .waiting else .emptied }
    else none
  | .stop =>
    if t.closer = .emptied then some { t with running := false, closer := .joining } else none
  | .join =>
    if t.closer = .joining ∧ t.flusher = .returned then some { t with closer := .closed } else none

lemma next_of_perform {t t' : LoggerThread ι} {a : Action ι} (h : t.perform a = some t') :
    Next t a t' := by
  cases a with
  | push a =>
    obtain ⟨hwrite, h⟩ := Option.ite_none_right_eq_some.mp h
    obtain ⟨l, hstep, rfl⟩ := Option.map_eq_some_iff.mp h
    exact .push hwrite hstep
  | drain a =>
    obtain ⟨⟨hpos, hread⟩, h⟩ := Option.ite_none_right_eq_some.mp h
    obtain ⟨l, hstep, rfl⟩ := Option.map_eq_some_iff.mp h
    exact .drain hpos hread hstep
  | testRunning =>
    obtain ⟨hpos, h⟩ := Option.ite_none_right_eq_some.mp h
    obtain rfl := Option.some.inj h
    exact .testRunning hpos
  | destroy =>
    obtain ⟨hpos, h⟩ := Option.ite_none_right_eq_some.mp h
    obtain rfl := Option.some.inj h
    exact .destroy hpos
  | testEmpty =>
    obtain ⟨hpos, h⟩ := Option.ite_none_right_eq_some.mp h
    obtain rfl := Option.some.inj h
    exact .testEmpty hpos
  | stop =>
    obtain ⟨hpos, h⟩ := Option.ite_none_right_eq_some.mp h
    obtain rfl := Option.some.inj h
    exact .stop hpos
  | join =>
    obtain ⟨⟨hpos, hdone⟩, h⟩ := Option.ite_none_right_eq_some.mp h
    obtain rfl := Option.some.inj h
    exact .join hpos hdone

/-- The characters written to the file. -/
def text (t : LoggerThread ι) : List Char := t.logger.file.flatMap LogElement.buffer

end LoggerThread

end MatchingEngine
