import Scgrep.Lib.FloorWindow
import Scgrep.Spec.Config
import Scgrep.Spec.Fetch

/-!
# `test_cycle.py` and the message metrics

`runCycle` is the main thread of `run_cycle`. Whatever it reads from outside
(the clock, the store as each count finds it, how each fetch ends) is in the
`CycleEnv`, so that a run of cycles is a list of environments.

`baselines` is a dictionary keyed by topic, `fetch_results` a list with one
entry for each submitted fetch that returned.
-/

namespace Scgrep

open FloorWindow

/-- A (topic, Global Replay service) pair a cycle submits a synchronous and an
asynchronous fetch for. -/
structure Cell where
  topic : String
  centreId : String
  replayUrl : String

/-- The pairs, in the order of submission. -/
def Config.cells (cfg : Config) : List Cell :=
  cfg.subscriptionTopics.flatMap fun topic =>
    cfg.replayTargets.map fun target => ⟨topic, target.1, target.2⟩

/-- The store a configuration sets up. -/
def Config.store (cfg : Config) : RedisStore := ⟨cfg.redisExpiry, cfg.subscriptionTopics⟩

/-- The window of a cycle at wall time `now`. -/
def cycleWindow (cfg : Config) (now : ℚ) : Window := window cfg.timeLag cfg.testInterval now

/-- 95% of the test period. -/
def deadlineS (cfg : Config) : ℚ := 19 / 20 * cfg.testInterval

/-! ## Metrics -/

/-- The labels of the per-fetch series. -/
structure Labels where
  reportBy : String
  centreId : String
  topic : String
  protocol : Protocol
deriving DecidableEq

/-- The series `run_cycle` writes. A gauge that was never set has no value. -/
structure Metrics where
  messagesReceived : String × String → ℤ
  messagesFetched : Labels → ℤ
  testAborted : Labels → Option ℚ
  responseInvalidFormat : Labels → Option ℚ
  responseInvalidNumberMatched : Labels → Option ℚ
  fetchDelay : Labels → Option ℚ
  httpResponseCode : Labels → Option ℚ

/-- The metrics at start-up. -/
def Metrics.new : Metrics :=
  ⟨fun _ => 0, fun _ => 0, fun _ => none, fun _ => none, fun _ => none, fun _ => none, fun _ => none⟩

/-- `1 if b else 0`. -/
def flag (b : Bool) : ℚ := if b then 1 else 0

/-- `_publish`. -/
def publish (labels : Labels) (result : FetchResult) (m : Metrics) : Metrics where
  messagesReceived := m.messagesReceived
  messagesFetched := Function.update m.messagesFetched labels
    (m.messagesFetched labels + result.messagesFetched)
  testAborted := Function.update m.testAborted labels (some (flag result.aborted))
  responseInvalidFormat :=
    Function.update m.responseInvalidFormat labels (some (flag result.invalidFormat))
  -- the number is validated for the synchronous fetch only
  responseInvalidNumberMatched :=
    if result.protocol = .http then
      Function.update m.responseInvalidNumberMatched labels (some (flag result.invalidNumberMatched))
    else m.responseInvalidNumberMatched
  fetchDelay := Function.update m.fetchDelay labels (some result.fetchDelayMs)
  httpResponseCode := Function.update m.httpResponseCode labels (some (result.httpStatus : ℚ))

/-- `metrics.messages_received.labels(report_by, topic).inc(count)`. -/
def incReceived (reportBy topic : String) (count : ℕ) (m : Metrics) : Metrics :=
  { m with
    messagesReceived := Function.update m.messagesReceived (reportBy, topic)
      (m.messagesReceived (reportBy, topic) + count) }

/-! ## The main thread -/

/-- The store as one command finds it. -/
structure View where
  db : Db
  now : ℚ

/-- A result and the cell it is for. -/
structure CellResult where
  cell : Cell
  result : FetchResult

/-- The labels a result is published under. -/
def CellResult.labels (cfg : Config) (r : CellResult) : Labels :=
  ⟨cfg.sensorCentreId, r.cell.centreId, r.cell.topic, r.result.protocol⟩

/-- The re-count of a result that was not aborted. -/
def recount (W : Window) (v : View) (cell : Cell) (result : FetchResult) : FetchResult :=
  if result.protocol = .mqtt ∧ result.aborted = false then
    { result with
      messagesFetched := countReplayMessages v.now v.db cell.centreId cell.topic W.start W.stop }
  else if result.protocol = .http ∧ result.aborted = false then
    { result with
      messagesFetched := countSyncMessages v.now v.db cell.centreId cell.topic W.start W.stop }
  else result

/-- One turn of the loop over the futures: a fetch that raised is logged and skipped. -/
def collect (W : Window) (v : View) (cell : Cell) : Outcome → List CellResult
  | .error _ => []
  | .ok result => [⟨cell, recount W v cell result⟩]

/-- The `baselines` dictionary, for the counts of the topics in their order. -/
def baselineDict (counts : List (String × ℕ)) : Dict String ℕ :=
  counts.foldl (fun d c => d.set c.1 c.2) Dict.empty

/-- The publication loops. -/
def publishAll (cfg : Config) (baselines : Dict String ℕ) (results : List CellResult)
    (m : Metrics) : Metrics :=
  results.foldl (fun m r => publish (r.labels cfg) r.result m)
    (baselines.items.foldl (fun m c => incReceived cfg.sensorCentreId c.1 c.2 m) m)

/-- What a cycle reads from outside: the wall clock at its start, the store at its `k`-th
baseline count, how the two fetches of its `i`-th cell end, and the store at their re-counts. -/
structure CycleEnv where
  now : ℚ
  baseline : ℕ → View
  sync : ℕ → Outcome
  async : ℕ → Outcome
  syncRecount : ℕ → View
  asyncRecount : ℕ → View

/-- The baseline counts of a cycle. -/
def CycleEnv.counts (cfg : Config) (E : CycleEnv) : List (String × ℕ) :=
  let W := cycleWindow cfg E.now
  cfg.subscriptionTopics.zipIdx.map fun (topic, k) =>
    (topic, countMessages (E.baseline k).now (E.baseline k).db topic W.start W.stop)

/-- The results of a cycle. -/
def CycleEnv.results (cfg : Config) (E : CycleEnv) : List CellResult :=
  let W := cycleWindow cfg E.now
  cfg.cells.zipIdx.flatMap fun (cell, i) =>
    collect W (E.syncRecount i) cell (E.sync i) ++ collect W (E.asyncRecount i) cell (E.async i)

/-- `run_cycle`, when all Redis commands succeed. -/
def runCycle (cfg : Config) (E : CycleEnv) (m : Metrics) : Metrics :=
  publishAll cfg (baselineDict (E.counts cfg)) (E.results cfg) m

/-- A run of completed cycles. -/
def runCycles (cfg : Config) (Es : List CycleEnv) (m : Metrics) : Metrics :=
  Es.foldl (fun m E => runCycle cfg E m) m

end Scgrep
