import MatchingEngine.Common.SharedQueue

/-!
# The logger

`Logger` (`Common/logging.h`) is an `LFQueue` of line buffers between the threads that log and one
background thread that writes the file.  `pushLine` copies a formatted line into a slot and advances
the queue; `flushQueue` is the consumer loop, and what it reads goes to the file.  `MatchingCore`
hands one logger to the books and threads of all symbols, so `ι` is the set of these threads.
-/

namespace MatchingEngine

/-- `LOG_QUEUE_SIZE`. -/
def logQueueSize : ℕ := 8 * 1024 * 1024 / 256

/-- `LOG_LINE_MAX_LEN`. -/
def logLineMaxLen : ℕ := 256

/-- A line buffer; the terminating zero takes one of its characters. -/
structure LogElement where
  buffer : List Char
  fits : buffer.length < logLineMaxLen
  deriving DecidableEq

/-- `snprintf(buffer_, LOG_LINE_MAX_LEN, "%s", line)`: what does not fit is cut off. -/
def LogElement.ofLine (line : List Char) : LogElement where
  buffer := line.take (logLineMaxLen - 1)
  fits := by
    rw [List.length_take, logLineMaxLen]
    omega

abbrev Logger (ι : Type) := SharedQueue ι LogElement

namespace Logger

variable {ι : Type}

/-- A logger whose threads have not started. -/
def new : Logger ι := .ofCapacity logQueueSize (.ofLine [])

/-- The lines written to the file. -/
def file (s : Logger ι) : List LogElement := s.taken

/-- The first step of `pushLine(line)` by the thread `p`. -/
def pushLine (p : ι) (line : List Char) : SharedQueue.Action ι LogElement :=
  .takeSlot p (.ofLine line)

end Logger

end MatchingEngine
