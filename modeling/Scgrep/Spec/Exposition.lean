import Scgrep.Spec.Cycle

/-!
# `metrics.py`: the series, as a scrape reads them

A series has no value until the first call for its labels. `publicationCalls` are
the `inc` and `set` calls of the publication loops of `run_cycle`, in their order;
`scrape` reads all series at once, after some number of them.
-/

namespace Scgrep

/-- The series that `run_cycle` writes. -/
inductive Series where
  | messagesReceived (reportBy topic : String)
  | messagesFetched (labels : Labels)
  | testAborted (labels : Labels)
  | responseInvalidFormat (labels : Labels)
  | fetchDelay (labels : Labels)
  | httpResponseCode (labels : Labels)
  | responseInvalidNumberMatched (labels : Labels)
deriving DecidableEq

/-- Whether the series is a `Counter`. The others are `Gauge`s. -/
def Series.isCounter : Series → Bool
  | messagesReceived _ _ => true
  | messagesFetched _ => true
  | _ => false

/-- What is exposed: the value of each series that has one. -/
abbrev Exposition := Series → Option ℚ

inductive MetricOp where
  | inc (amount : ℤ)
  | set (value : ℚ)

/-- A counter starts from 0. -/
def MetricOp.apply : MetricOp → Option ℚ → Option ℚ
  | inc amount, v => some (v.getD 0 + amount)
  | set value, _ => some value

/-- `series.labels(...).inc(amount)` or `series.labels(...).set(value)`. -/
structure MetricCall where
  series : Series
  op : MetricOp

def MetricCall.apply (e : Exposition) (c : MetricCall) : Exposition :=
  Function.update e c.series (c.op.apply (e c.series))

/-- The calls of `_publish`. -/
def publishCalls (labels : Labels) (result : FetchResult) : List MetricCall :=
  [⟨.testAborted labels, .set (flag result.aborted)⟩,
    ⟨.responseInvalidFormat labels, .set (flag result.invalidFormat)⟩,
    ⟨.fetchDelay labels, .set result.fetchDelayMs⟩,
    ⟨.httpResponseCode labels, .set result.httpStatus⟩,
    ⟨.messagesFetched labels, .inc result.messagesFetched⟩] ++
  if result.protocol = .http then
    [⟨.responseInvalidNumberMatched labels, .set (flag result.invalidNumberMatched)⟩]
  else []

/-- The calls of the publication loops. -/
def publicationCalls (cfg : Config) (baselines : Dict String ℕ) (results : List CellResult) :
    List MetricCall :=
  (baselines.items.map fun c => ⟨.messagesReceived cfg.sensorCentreId c.1, .inc c.2⟩) ++
    results.flatMap fun r => publishCalls (r.labels cfg) r.result

/-- What a scrape reads after the first `k` calls. -/
def scrape (calls : List MetricCall) (k : ℕ) (e : Exposition) : Exposition :=
  (calls.take k).foldl MetricCall.apply e

end Scgrep
