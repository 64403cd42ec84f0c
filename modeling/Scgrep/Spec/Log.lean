import Scgrep.Spec.Cycle
import Scgrep.Spec.Purge

/-!
# What `run_cycle` logs

The log lines of a cycle, under the formatter `%(asctime)s %(levelname)s [%(name)s]
%(message)s` of the service, in the order in which the main thread emits them.
-/

namespace Scgrep

/-- The shape of `asctime`: the seconds, and the milliseconds behind a comma. -/
def asctimeShape : List (Option Char) := timestampShape ++ [some ',', none, none, none]

/-- The `asctime` of a record. -/
structure LogStamp where
  text : String
  length : text.toList.length = asctimeShape.length
  shape : beginsWith asctimeShape text.toList = true

/-- The part of a stamp that `purge` reads. -/
def LogStamp.seconds (s : LogStamp) : String := String.ofList (s.text.toList.take timestampShape.length)

/-- A line of the file: an `INFO` record of `test_cycle`. -/
def cycleLine (s : LogStamp) (message : String) : String :=
  s.text ++ " INFO [scgrep.test_cycle] " ++ message ++ "\n"

/-- `protocol` of a `FetchResult`, as a text. -/
def Protocol.name : Protocol → String
  | .http => "http"
  | .mqtt => "mqtt"

/-- `int(b)`, as `%d` writes it. -/
def bit (b : Bool) : String := if b then "1" else "0"

/-- `%.0f`: the nearest integer, the even one of two. -/
def percent0f (q : ℚ) : String :=
  let a := |q|
  let n := if a - ⌊a⌋ < 1 / 2 ∨ (a - ⌊a⌋ = 1 / 2 ∧ ⌊a⌋ % 2 = 0) then ⌊a⌋ else ⌊a⌋ + 1
  (if q < 0 then "-" else "") ++ toString n

/-- The messages of a cycle: `Test period begins`, `Baseline`, `Result` and `Test period complete`. -/
inductive CycleMessage where
  | begins
  | baseline (topic : String) (count : ℕ)
  | result (r : CellResult)
  | complete

/-- `baselines.get(topic, 0)`. -/
def CycleEnv.baselineOf (cfg : Config) (E : CycleEnv) (topic : String) : ℕ :=
  ((baselineDict (E.counts cfg)).get? topic).getD 0

/-- The text of a message. -/
def CycleMessage.text (L : Lib) (cfg : Config) (E : CycleEnv) : CycleMessage → String :=
  let startIso := epochToIso L (cycleWindow cfg E.now).start
  let endIso := epochToIso L (cycleWindow cfg E.now).stop
  fun
  | .begins => "Test period begins: window " ++ startIso ++ " .. " ++ endIso
  | .baseline topic count =>
    "Baseline: topic=" ++ topic ++ " messages=" ++ toString count ++ " interval=" ++ startIso ++ "/" ++
      endIso
  | .result r =>
    "Result: centre_id=" ++ r.cell.centreId ++ " topic=" ++ r.cell.topic ++ " protocol=" ++
      r.result.protocol.name ++ " baseline=" ++ toString (E.baselineOf cfg r.cell.topic) ++
      " fetched=" ++ toString r.result.messagesFetched ++ " numberMatched=" ++
      toString r.result.numberMatched ++ " delay_ms=" ++ percent0f r.result.fetchDelayMs ++
      " aborted=" ++ bit r.result.aborted ++ " invalid_format=" ++ bit r.result.invalidFormat ++
      " invalid_numberMatched=" ++ bit r.result.invalidNumberMatched
  | .complete => "Test period complete: window " ++ startIso ++ " .. " ++ endIso

/-- The messages of `run_cycle`, in their order. -/
def cycleMessages (cfg : Config) (E : CycleEnv) : List CycleMessage :=
  .begins :: ((baselineDict (E.counts cfg)).items.map fun c => .baseline c.1 c.2) ++
    (E.results cfg).map .result ++ [.complete]

/-- An execution of `run_cycle`, with the stamps of the lines it has logged: all of them, or the
first ones when it raises or the service stops. -/
structure LoggedRun where
  cfg : Config
  env : CycleEnv
  stamps : List LogStamp

/-- Its window. -/
def LoggedRun.window (r : LoggedRun) : FloorWindow.Window := cycleWindow r.cfg r.env.now

/-- The messages it has logged, with their stamps. -/
def LoggedRun.logged (r : LoggedRun) : List (LogStamp × CycleMessage) :=
  r.stamps.zip (cycleMessages r.cfg r.env)

/-- Its lines. -/
def LoggedRun.lines (L : Lib) (r : LoggedRun) : List String :=
  r.logged.map fun q => cycleLine q.1 (q.2.text L r.cfg r.env)

end Scgrep
