import Scgrep.Lib.SortedSet
import Scgrep.Spec.Minutes

/-!
# `replay_loss_report.py`: the report message by message

`lossReport` is `main` for the sources that count messages: the window, the rows of the
table with its totals, and the differences of the histogram. A minute is again the
instant at which it begins.
-/

namespace Scgrep

/-- What the report is called with; `sources` is `SOURCES[args.source]`. -/
structure ReportArgs where
  logFiles : List String
  topic : String
  minutes : ℤ
  sources : List ReplayKind
  since : Option String
  till : Option String

/-- The paths of `main`: a pattern that matches no file stays as it is. -/
def reportPaths (glob : String → List String) (logFiles : List String) : List String :=
  logFiles.flatMap fun pattern => if glob pattern = [] then [pattern] else glob pattern

/-- `iter_log_lines`: a file that is not found has no lines. -/
def iterLogLines (content : String → Option (List String)) (paths : List String) : List String :=
  paths.flatMap fun path => (content path).getD []

/-- The keys of a dictionary. -/
def Minutes.keys (d : Minutes) : List ℤ := d.items.map Prod.fst

/-- `set(baseline) | set(replay)`. -/
def Buckets.minutes (b : Buckets) : List ℤ := b.baseline.keys ++ b.replay.keys

/-- An empty argument is as good as none. -/
def given (arg : Option String) : Option String := arg.filter (· ≠ "")

/-- `floor_minute(parse_pubtime(value))`: `None` has no `replace`. -/
def minuteOf (L : Lib) (value : String) : Except PyErr ℤ :=
  match parsePubtime L value with
  | .error e => .error e
  | .ok none => .error .attributeError
  | .ok (some dt) => .ok (floorMinute dt)

/-- An instant that is the result of adding a `timedelta`. -/
def inYears (t : ℤ) : Except PyErr ℤ :=
  if -unixEpoch ≤ t ∧ t < endOfTime then .ok t else .error .overflowError

/-- `max(replay) if replay else (max(all_minutes) if all_minutes else None)`. -/
def latestMinute (b : Buckets) : Option ℤ :=
  if b.replay.keys = [] then b.minutes.max? else b.replay.keys.max?

/-- `until` of `window_bounds`. -/
def untilBound (L : Lib) (args : ReportArgs) (b : Buckets) : Except PyErr (Option ℤ) :=
  match given args.till with
  | some value => (minuteOf L value).map some
  | none => .ok (latestMinute b)

/-- `since` of `window_bounds`. -/
def sinceBound (L : Lib) (args : ReportArgs) (till : ℤ) : Except PyErr ℤ :=
  match given args.since with
  | some value => minuteOf L value
  | none => inYears (till - 60 * (args.minutes - 1))

/-- `window_bounds`: `(since, until)`. -/
def windowBounds (L : Lib) (args : ReportArgs) (b : Buckets) : Except PyErr (Option (ℤ × ℤ)) := do
  match ← untilBound L args b with
  | none => .ok none
  | some till => .ok (some (← sinceBound L args till, till))

/-- A row of the table: `(minute, r, b, b - r)`. -/
structure LossRow where
  minute : ℤ
  replay : ℕ
  baseline : ℕ
  diff : ℤ
deriving DecidableEq

/-- A turn of the loop of `build_rows`. -/
def lossRow? (b : Buckets) (since till minute : ℤ) : Option LossRow :=
  if minute < since ∨ till < minute then none
  else
    let n := (b.baseline.at minute).card
    let r := (b.replay.at minute).card
    if n = 0 ∧ r = 0 then none else some ⟨minute, r, n, n - r⟩

/-- `build_rows`. -/
def buildRows (b : Buckets) (since till : ℤ) : List LossRow :=
  (sortedSet b.minutes).filterMap (lossRow? b since till)

/-- `tot_r` and `tot_b` of `print_table`. -/
def lossTotals (rows : List LossRow) : ℕ × ℕ :=
  rows.foldl (fun tot row => (tot.1 + row.replay, tot.2 + row.baseline)) (0, 0)

/-- What is printed. -/
inductive LossReport where
  /-- "No messages found for topic ..", and the exit code is 1 -/
  | noMessages
  /-- "No baseline or replay messages in the selected window." -/
  | noRows (since stop : ℤ)
  /-- the window, the rows, the last line, and the histogram -/
  | table (since stop : ℤ) (rows : List LossRow) (totals : ℕ × ℕ × ℤ) (histogram : List (ℤ × ℤ))
deriving DecidableEq

/-- `main`, after the scan. -/
def lossReportOf (L : Lib) (args : ReportArgs) (b : Buckets) : Except PyErr LossReport := do
  match ← windowBounds L args b with
  | none => .ok .noMessages
  | some (since, till) =>
    let rows := buildRows b since till
    -- the window is printed up to the end of its last minute
    let stop ← inYears (till + 60)
    if rows = [] then .ok (.noRows since stop)
    else
      let totals := lossTotals rows
      .ok (.table since stop rows (totals.1, totals.2, totals.2 - totals.1)
        (rows.map fun row => (row.minute, row.diff)))

/-- `main`, over the lines of the files. -/
def lossReportLines (L : Lib) (args : ReportArgs) (lines : List String) : Except PyErr LossReport := do
  let b ← scanMessages L args.topic args.sources lines
  lossReportOf L args b

/-- `main`. -/
def lossReport (L : Lib) (glob : String → List String) (content : String → Option (List String))
    (args : ReportArgs) : Except PyErr LossReport :=
  lossReportLines L args (iterLogLines content (reportPaths glob args.logFiles))

end Scgrep
