import Mathlib.Data.Prod.Lex
import Mathlib.Data.String.Basic
import Scgrep.Spec.LossReport
import Scgrep.Spec.Report

/-!
# `replay_loss_report.py`: the report in summary mode

`summaryReport` is `run_summary`, over the records of `scan_summary`.
-/

namespace Scgrep

/-- An instant with a fraction that is the result of adding a `timedelta`. -/
def instantInYears (t : ℚ) : Except PyErr ℚ :=
  if (-unixEpoch : ℚ) ≤ t ∧ t < endOfTime then .ok t else .error .overflowError

/-- The windows' starts. -/
def summaryStarts (records : Dict SummaryKey SummaryRecord) : List ℚ := records.items.map fun item => item.1.1.1

/-- `until` of `window_bounds_summary`; `none` for no records. -/
def summaryUntil (L : Lib) (args : ReportArgs) (records : Dict SummaryKey SummaryRecord) :
    Except PyErr (Option ℚ) :=
  match (summaryStarts records).max? with
  | none => .ok none
  | some latest =>
    match given args.till with
    | some value => (minuteOf L value).map fun till => some (till : ℚ)
    | none => .ok (some latest)

/-- `since` of `window_bounds_summary`: a text that is no time gives `None`. -/
def summarySince (L : Lib) (args : ReportArgs) (till : ℚ) : Except PyErr (Option ℚ) :=
  match given args.since with
  | some value => parsePubtime L value
  | none => (instantInYears (till - 60 * args.minutes)).map some

/-- What `run_summary` prints. -/
inductive SummaryReport where
  /-- "No summary lines found for topic ..", and the exit code is 1 -/
  | noLines
  /-- "No tested windows with activity in the selected range." -/
  | noRows (since till : ℚ) (series : List (Lex (String × String)))
  /-- the window, the series, the rows and the last line -/
  | table (since till : ℚ) (series : List (Lex (String × String))) (rows : List SummaryRow)
    (totals : SummaryRecord)
deriving DecidableEq

/-- The records whose windows start in the range. -/
def recordsIn (records : Dict SummaryKey SummaryRecord) (since till : ℚ) : List (SummaryKey × SummaryRecord) :=
  records.items.filter fun item => since ≤ item.1.1.1 ∧ item.1.1.1 ≤ till

/-- `series`. -/
def summarySeries (records : Dict SummaryKey SummaryRecord) (since till : ℚ) : List (Lex (String × String)) :=
  sortedSet ((recordsIn records since till).map fun item => toLex item.1.2)

/-- `tot_b`, `tot_h` and `tot_m` of `print_summary_table`. -/
def summaryTotals (rows : List SummaryRow) : SummaryRecord :=
  rows.foldl (fun tot row => ⟨tot.baseline + row.baseline, tot.http + row.http, tot.mqtt + row.mqtt⟩) ⟨0, 0, 0⟩

/-- `run_summary`, after the scan. -/
def summaryReportOf (L : Lib) (args : ReportArgs) (records : Dict SummaryKey SummaryRecord) :
    Except PyErr SummaryReport := do
  match ← summaryUntil L args records with
  | none => .ok .noLines
  | some till =>
    match ← summarySince L args till with
    | none => .ok .noLines
    | some since =>
      let series := summarySeries records since till
      let rows := buildSummaryRows records since till
      if rows = [] then .ok (.noRows since till series)
      else .ok (.table since till series rows (summaryTotals rows))

/-- `run_summary`, over the lines of the files. -/
def summaryReportLines (L : Lib) (args : ReportArgs) (lines : List String) : Except PyErr SummaryReport :=
  (scanSummary L args.topic lines).bind (summaryReportOf L args)

end Scgrep
