import Mathlib.Data.List.Sort
import Mathlib.Data.Prod.Lex
import Scgrep.Lib.Dict
import Scgrep.Lib.Pattern
import Scgrep.Spec.Datetime

/-!
# `replay_loss_report.py`, summary mode

`scanSummary` is `scan_summary` over the lines of the log files: it carries the window
of the last `Test period begins` line on to the `Result` lines after it.
-/

namespace Scgrep

/-- What `\S` matches. -/
def notSpace (c : Char) : Bool := !Text.isSpace c

/-- `TESTPERIOD_RE`: the start and the end. -/
def testPeriodRe : List (Pattern.Item Char) :=
  [.text "Test period begins: window ".toList, .run notSpace, .text " .. ".toList, .run notSpace]

/-- `RESULT_RE`: the centre, the topic, the protocol, the baseline and the fetched count. -/
def resultRe : List (Pattern.Item Char) :=
  [.text "Result: centre_id=".toList, .run notSpace, .text " topic=".toList, .run notSpace,
    .text " protocol=".toList, .run notSpace, .text " baseline=".toList, .run Text.isDecimal,
    .text " fetched=".toList, .run Text.isDecimal]

/-- `parse_pubtime`: `astimezone` raises when the instant is not in the years 1 to 9999 of UTC. -/
def parsePubtime (L : Lib) (value : String) : Except PyErr (Option ℚ) :=
  let text := Text.strip value
  let text := if Text.endsWith text "Z" || Text.endsWith text "z" then
      Text.dropEnd 1 text ++ "+00:00"
    else text
  match L.fromisoformat text with
  | none => .ok none
  | some parsed =>
    match parsed.offset with
    | none => .ok (some parsed.fields)
    | some offset =>
      let instant := parsed.fields - offset
      if (-unixEpoch : ℚ) ≤ instant ∧ instant < endOfTime then .ok (some instant)
      else .error .overflowError

/-- The counts of a record. -/
structure SummaryRecord where
  baseline : ℤ
  http : ℤ
  mqtt : ℤ
deriving DecidableEq

/-- `(window_start, window_end, centre, topic)`. -/
abbrev SummaryKey := (ℚ × ℚ) × String × String

/-- The variables of the scan. -/
structure ScanState where
  records : Dict SummaryKey SummaryRecord
  window : Option (ℚ × ℚ)

/-- `rec["baseline"] = int(..)` and `rec[protocol] = int(..)`. -/
def SummaryRecord.update (L : Lib) (r : SummaryRecord) (protocol baseline fetched : String) :
    Except PyErr SummaryRecord := do
  let r := { r with baseline := ← pyInt L (.str baseline) }
  if protocol = "http" then return { r with http := ← pyInt L (.str fetched) }
  else if protocol = "mqtt" then return { r with mqtt := ← pyInt L (.str fetched) }
  else return r

/-- One turn of the loop of `scan_summary`. -/
def scanLine (L : Lib) (topic : String) (s : ScanState) (line : String) : Except PyErr ScanState :=
  match Pattern.search testPeriodRe line.toList with
  | some [start, stop] => do
    let start ← parsePubtime L (String.ofList start)
    let stop ← parsePubtime L (String.ofList stop)
    return { s with window := start.bind fun start => stop.map fun stop => (start, stop) }
  | _ =>
    match Pattern.search resultRe line.toList, s.window with
    | some [centre, resultTopic, protocol, baseline, fetched], some window =>
      if Text.within topic (String.ofList resultTopic) then do
        let key := (window, String.ofList centre, String.ofList resultTopic)
        let record := (s.records.get? key).getD ⟨0, 0, 0⟩
        let record ← record.update L (String.ofList protocol) (String.ofList baseline) (String.ofList fetched)
        return { s with records := s.records.set key record }
      else .ok s
    | _, _ => .ok s

/-- The loop, from some records and a window. -/
def scanFrom (L : Lib) (topic : String) (lines : List String) (s : ScanState) : Except PyErr ScanState :=
  lines.foldlM (scanLine L topic) s

/-- `scan_summary`. -/
def scanSummary (L : Lib) (topic : String) (lines : List String) :
    Except PyErr (Dict SummaryKey SummaryRecord) :=
  (scanFrom L topic lines ⟨Dict.empty, none⟩).map ScanState.records

/-! ## `build_summary_rows` -/

/-- A row of the table: `(start, end, http, mqtt, baseline)`. -/
structure SummaryRow where
  start : ℚ
  stop : ℚ
  http : ℤ
  mqtt : ℤ
  baseline : ℤ
deriving DecidableEq

/-- `totals[0] += rec["baseline"]` and so on. -/
def SummaryRecord.addTo (record totals : SummaryRecord) : SummaryRecord :=
  ⟨totals.baseline + record.baseline, totals.http + record.http, totals.mqtt + record.mqtt⟩

/-- The loop over the records: `agg`, by window. -/
def aggregateRecords (records : Dict SummaryKey SummaryRecord) (since till : ℚ) :
    Dict (ℚ × ℚ) SummaryRecord :=
  records.items.foldl (fun agg item =>
    if item.1.1.1 < since ∨ till < item.1.1.1 then agg
    else agg.set item.1.1 (item.2.addTo ((agg.get? item.1.1).getD ⟨0, 0, 0⟩))) Dict.empty

/-- The order of the rows as tuples. -/
def SummaryRow.le (a b : SummaryRow) : Bool :=
  decide (toLex (a.start, toLex (a.stop, toLex (a.http, toLex (a.mqtt, a.baseline)))) ≤
    toLex (b.start, toLex (b.stop, toLex (b.http, toLex (b.mqtt, b.baseline)))))

/-- `build_summary_rows`. -/
def buildSummaryRows (records : Dict SummaryKey SummaryRecord) (since till : ℚ) : List SummaryRow :=
  ((aggregateRecords records since till).items.filterMap fun item =>
    if item.2.baseline = 0 ∧ item.2.http = 0 ∧ item.2.mqtt = 0 then none
    else some ⟨item.1.1, item.1.2, item.2.http, item.2.mqtt, item.2.baseline⟩).insertionSort
      fun a b => a.le b

end Scgrep
