import Mathlib.Logic.Function.Basic
import Scgrep.Spec.Python

/-!
# `main.py`: the logging of the service

`_configure_logging` and `_add_periodic_file_logging`. A record goes to the stream (which
is stderr) at once and to a `MemoryHandler`, which hands what it has buffered on to the
file every `interval` seconds, at an error, when it is full, and when the process exits.
The stream writes any line, the file only those that UTF-8 can encode. Each handler has a
lock of its own, so that another thread may log between the two.
-/

namespace Scgrep

/-- A record: who logs it and when, its level, and its line. -/
structure LogEntry where
  thread : ℕ
  created : ℚ
  levelno : ℕ
  line : String
deriving DecidableEq

/-- `logging.ERROR`. -/
def errorLevel : ℕ := 40

/-- `capacity` of the `MemoryHandler`. -/
def memoryCapacity : ℕ := 100000

/-- `interval` of `_add_periodic_file_logging`; `none` when `float` raises. -/
def flushInterval (value : Option PyFloat) : PyFloat :=
  match value with
  | none => .finite 60
  | some (.finite interval) => if interval ≤ 0 then .finite 60 else .finite interval
  | some .negInf => .finite 60
  -- `nan <= 0` is false
  | some interval => interval

/-- How long `time.sleep` sleeps; it raises for what is no number of nanoseconds of 64 bits. -/
def sleepSeconds : PyFloat → Option ℚ
  | .finite seconds => if 0 ≤ seconds ∧ seconds * 10 ^ 9 < 2 ^ 63 then some seconds else none
  | _ => none

structure Logging where
  now : ℚ
  /-- what the `StreamHandler` has written -/
  stream : List LogEntry
  /-- `buffer` of the `MemoryHandler` -/
  buffer : List LogEntry
  /-- what the `WatchedFileHandler` has written -/
  file : List LogEntry
  /-- the record a thread has written to the stream and not yet handed to the `MemoryHandler` -/
  inHand : ℕ → Option LogEntry
  /-- when the sleep of `flush_periodically` is over; `none` once its thread has ended -/
  flushAt : Option ℚ
  /-- `memory.close` has run, and its target is gone -/
  closed : Bool

inductive LoggingEvent where
  /-- time passes -/
  | tick (d : ℚ)
  /-- thread `j` logs a record that is enabled; the stream handler writes it -/
  | log (j : ℕ) (levelno : ℕ) (line : String)
  /-- the `MemoryHandler` is handed the record of thread `j` -/
  | hand (j : ℕ)
  /-- a turn of `flush_periodically` -/
  | flushPeriodically
  /-- `memory.close()` at exit flushes -/
  | exitFlush
  /-- .. and lets go of its target -/
  | exitClose

namespace Logging

variable (L : Lib) (interval : PyFloat)

/-- `flush_periodically` goes to sleep. An exception of `time.sleep` ends its thread. -/
def sleep (s : Logging) : Logging := { s with flushAt := (sleepSeconds interval).map (s.now + ·) }

/-- `_configure_logging`, with a log file. -/
def init (now : ℚ) : Logging := sleep interval ⟨now, [], [], [], fun _ => none, none, false⟩

/-- The records that the file handler can write. It reports an error for each of the others. -/
def writable (l : List LogEntry) : List LogEntry := l.filter fun r => L.encodes r.line

/-- `MemoryHandler.flush`. -/
def flush (s : Logging) : Logging :=
  if s.closed then s else { s with file := s.file ++ writable L s.buffer, buffer := [] }

/-- `BufferingHandler.emit`, with `MemoryHandler.shouldFlush`. -/
def emit (r : LogEntry) (s : Logging) : Logging :=
  let s := { s with buffer := s.buffer ++ [r] }
  if memoryCapacity ≤ s.buffer.length ∨ errorLevel ≤ r.levelno then s.flush L else s

/-- One step. -/
def step (s : Logging) : LoggingEvent → Logging
  | .tick d => if 0 ≤ d then { s with now := s.now + d } else s
  | .log j levelno line =>
    match s.inHand j with
    | some _ => s
    | none =>
      let r := ⟨j, s.now, levelno, line⟩
      { s with stream := s.stream ++ [r], inHand := Function.update s.inHand j (some r) }
  | .hand j =>
    match s.inHand j with
    | none => s
    | some r => emit L r { s with inHand := Function.update s.inHand j none }
  | .flushPeriodically =>
    match s.flushAt with
    | none => s
    | some till => if till ≤ s.now then (s.flush L).sleep interval else s
  | .exitFlush => s.flush L
  | .exitClose => { s with closed := true }

/-- A run. -/
def run (s : Logging) (es : List LoggingEvent) : Logging := es.foldl (step L interval) s

end Logging

/-! ## The time it takes -/

/-- The time an event takes. -/
def LoggingEvent.takes : LoggingEvent → ℚ
  | .tick d => d
  | _ => 0

/-- The clock moves only while `flush_periodically` sleeps, and no thread is between its handlers. -/
def Logging.Prompt (L : Lib) (interval : PyFloat) : Logging → List LoggingEvent → Prop
  | _, [] => True
  | s, e :: es =>
    (0 < e.takes → (∀ till ∈ s.flushAt, s.now + e.takes ≤ till) ∧
      ∀ r ∈ s.stream, s.inHand r.thread = none) ∧ Prompt L interval (s.step L interval e) es

instance decidableLoggingPrompt (L : Lib) (interval : PyFloat) : ∀ (es : List LoggingEvent) (s : Logging),
    Decidable (s.Prompt L interval es)
  | [], _ => inferInstanceAs (Decidable True)
  | e :: es, s =>
    have := decidableLoggingPrompt L interval es (s.step L interval e)
    inferInstanceAs (Decidable ((0 < e.takes → (∀ till ∈ s.flushAt, s.now + e.takes ≤ till) ∧
      ∀ r ∈ s.stream, s.inHand r.thread = none) ∧ (s.step L interval e).Prompt L interval es))

end Scgrep
