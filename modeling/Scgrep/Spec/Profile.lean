import Mathlib.Data.List.MinMax
import Scgrep.Spec.Purge
import Scgrep.Spec.Report

/-!
# `replay_arrival_profile.py`

`scanProfile` is `scan`: the cycles, the arrivals and the `mqtt` results of one date, by
the second of the day. `profile` is what the script prints of a cycle.
-/

namespace Scgrep

open Pattern

/-! ## The expressions -/

/-- What the three expressions capture of the stamp of a line: the date, `hh:mm:ss`, the milliseconds. -/
structure StampMatch where
  date : String
  hms : List Char
  ms : List Char

/-- `^(\d{4}-\d{2}-\d{2}) (\d{2}:\d{2}:\d{2}),(\d+) ` and what follows it. -/
def matchStamp (l : List Char) : Option (StampMatch × List Char) :=
  if beginsWith (timestampShape ++ [some ',']) l then
    let rest := l.drop 20
    let ms := rest.takeWhile Text.isDecimal
    match rest.dropWhile Text.isDecimal with
    | ' ' :: rest =>
      if ms.isEmpty then none else some (⟨String.ofList (l.take 10), (l.drop 11).take 8, ms⟩, rest)
    | _ => none
  else none

/-- What `.` matches. -/
def notNewline (c : Char) : Bool := c != '\n'

/-- `BEGIN_RE` behind its `.*`: the window. -/
def beginRe : List (Item Char) :=
  [.text "Test period begins: window ".toList, .run notSpace, .text " .. ".toList, .run notSpace]

/-- `ASYNC_RE` behind its `.*`: the centre, which is no group, the topic and the id. -/
def asyncRe : List (Item Char) :=
  [.text "Replay message (asynchronous): centre_id=".toList, .run notSpace, .text " topic=".toList,
    .run notSpace, .text " id=".toList, .run notSpace, .text " ".toList]

/-- `BEGIN_RE.match(line)`. -/
def matchBegin (line : String) : Option (StampMatch × String × String) :=
  (matchStamp line.toList).bind fun (stamp, rest) =>
    match searchLastBy notNewline (matchHere beginRe) rest with
    | some [start, stop] => some (stamp, String.ofList start, String.ofList stop)
    | _ => none

/-- `ASYNC_RE.match(line)`: the topic. -/
def matchAsync (line : String) : Option (StampMatch × String) :=
  (matchStamp line.toList).bind fun (stamp, rest) =>
    match searchLastBy notNewline (matchHere asyncRe) rest with
    | some [_, topic, _] => some (stamp, String.ofList topic)
    | _ => none

/-- The end of `RESULT_RE`, `aborted=(\d)`. -/
def matchAborted (l : List Char) : Option ℕ :=
  match "aborted=".toList.isPrefixOf? l with
  | some (c :: _) => if Text.isDecimal c then some (Text.decimalValue c) else none
  | _ => none

/-- `RESULT_RE` behind its first `.*`: the topic, the two counts and `aborted`. -/
def matchMqttResult (l : List Char) : Option (List Char × List Char × List Char × ℕ) :=
  ("Result: centre_id=".toList.isPrefixOf? l).bind fun l =>
  (matchRun notSpace (fun l =>
    (" topic=".toList.isPrefixOf? l).bind fun l =>
    matchRun notSpace (fun l =>
      (" protocol=mqtt baseline=".toList.isPrefixOf? l).bind fun l =>
      matchRun Text.isDecimal (fun l =>
        (" fetched=".toList.isPrefixOf? l).bind fun l =>
        matchRun Text.isDecimal (fun l =>
          (" ".toList.isPrefixOf? l).bind (searchLastBy notNewline matchAborted)) l) l) l) l).map
    fun (_, topic, baseline, fetched, aborted) => (topic, baseline, fetched, aborted)

/-- `RESULT_RE.match(line)`. -/
def matchResult (line : String) : Option (StampMatch × String × ℕ × ℕ × ℕ) :=
  (matchStamp line.toList).bind fun (stamp, rest) =>
    (searchLastBy notNewline matchMqttResult rest).map fun (topic, baseline, fetched, aborted) =>
      (stamp, String.ofList topic, Text.decimalInt baseline, Text.decimalInt fetched, aborted)

/-! ## `scan` -/

/-- `secs`: the second of the day. -/
def secs (hms ms : List Char) : ℚ :=
  match hms.splitOn ':' with
  | [h, m, s] =>
    3600 * Text.decimalInt h + 60 * Text.decimalInt m + Text.decimalInt s + (Text.decimalInt ms : ℚ) / 1000
  -- the expressions capture three numbers
  | _ => 0

def StampMatch.secs (s : StampMatch) : ℚ := Scgrep.secs s.hms s.ms

/-- A cycle: when it begins, and its window. -/
structure CycleStart where
  secs : ℚ
  windowStart : String
  windowStop : String
deriving DecidableEq

/-- A `Result` line of the `mqtt` protocol. -/
structure MqttResult where
  secs : ℚ
  baseline : ℕ
  fetched : ℕ
  aborted : ℕ
deriving DecidableEq

/-- The three lists of `scan`. -/
structure ProfileScan where
  starts : List CycleStart
  arrivals : List ℚ
  results : List MqttResult

variable (date topic : String)

/-- The cycle that a line of the date begins. -/
def startOfLine (line : String) : Option CycleStart :=
  match matchBegin line with
  | some (stamp, start, stop) => if stamp.date = date then some ⟨stamp.secs, start, stop⟩ else none
  | none => none

/-- The arrival of a line of the date. -/
def arrivalOfLine (line : String) : Option ℚ :=
  match matchAsync line with
  | some (stamp, lineTopic) =>
    if stamp.date = date ∧ Text.within topic lineTopic = true then some stamp.secs else none
  | none => none

/-- The result of a line of the date. -/
def resultOfLine (line : String) : Option MqttResult :=
  match matchResult line with
  | some (stamp, lineTopic, baseline, fetched, aborted) =>
    if stamp.date = date ∧ Text.within topic lineTopic = true then
      some ⟨stamp.secs, baseline, fetched, aborted⟩
    else none
  | none => none

/-- One turn of the loop. -/
def ProfileScan.next (s : ProfileScan) (line : String) : ProfileScan :=
  match startOfLine date line with
  | some start => { s with starts := s.starts ++ [start] }
  | none =>
    match arrivalOfLine date topic line with
    | some a => { s with arrivals := s.arrivals ++ [a] }
    | none =>
      match resultOfLine date topic line with
      | some r => { s with results := s.results ++ [r] }
      | none => s

/-- The order of the cycles as tuples. -/
def CycleStart.le (a b : CycleStart) : Bool :=
  decide (a.secs < b.secs) || (decide (a.secs = b.secs) && (Text.lt a.windowStart b.windowStart ||
    (a.windowStart == b.windowStart && Text.le a.windowStop b.windowStop)))

/-- `scan`. -/
def scanProfile (lines : List String) : ProfileScan :=
  let s := lines.foldl (ProfileScan.next date topic) ⟨[], [], []⟩
  ⟨s.starts.insertionSort fun a b => a.le b, s.arrivals.insertionSort (· ≤ ·), s.results⟩

/-! ## `profile` -/

/-- The arrivals of a cycle: `got`. -/
def gotArrivals (start deadlineS : ℚ) (arrivals : List ℚ) : List ℚ :=
  arrivals.filter fun a => decide (start ≤ a ∧ a ≤ start + deadlineS)

/-- The result within 5 s of the cutoff, which the first line shows. -/
def contextOf (start deadlineS : ℚ) (results : List MqttResult) : Option MqttResult :=
  (results.argmin fun r => |r.secs - (start + deadlineS)|).filter
    fun r => decide (|r.secs - (start + deadlineS)| < 5)

/-- What is printed of a cycle. -/
structure ArrivalProfile where
  cycle : CycleStart
  context : Option MqttResult
  arrivals : ℕ
  first : ℚ
  last : ℚ
  idle : ℚ
  hist : List ℕ
  truncated : Bool
deriving DecidableEq

/-- The bucket of an arrival; `int` rounds down what is not negative. -/
def bucketOf (start width : ℚ) (buckets : ℕ) (a : ℚ) : ℕ := min ⌊(a - start) / width⌋₊ (buckets - 1)

/-- `profile`: what is printed, if anything is, and `none` for its `ZeroDivisionError`. -/
def profile (c : CycleStart) (arrivals : List ℚ) (results : List MqttResult) (deadlineS : ℚ)
    (buckets : ℕ) : Option (Option ArrivalProfile) :=
  let got := gotArrivals c.secs deadlineS arrivals
  match got.head?, got.getLast? with
  | some first, some last =>
    let idle := deadlineS - (last - c.secs)
    let width := deadlineS / buckets
    if buckets = 0 ∨ width = 0 then none
    else
      let bins := got.map (bucketOf c.secs width buckets)
      some (some ⟨c, contextOf c.secs deadlineS results, got.length, first - c.secs, last - c.secs, idle,
        (List.range buckets).map fun b => bins.count b, decide (idle < width)⟩)
  | _, _ => some none

/-- `deadline` of `main`. -/
def profileDeadline (testInterval : ℚ) : ℚ := 19 / 20 * testInterval

/-- The profiles that `main` prints: of the busiest cycles, those with more arrivals first. -/
def profileMain (cycles minMessages : ℕ) (testInterval : ℚ) (buckets : ℕ) (lines : List String) :
    Option (List ArrivalProfile) :=
  let s := scanProfile date topic lines
  let deadline := profileDeadline testInterval
  let counted := s.starts.map fun c => ((gotArrivals c.secs deadline s.arrivals).length, c)
  let busiest := (counted.filter fun x => decide (minMessages ≤ x.1)).insertionSort
    fun x y => y.1 ≤ x.1
  ((busiest.take cycles).mapM fun x => profile x.2 s.arrivals s.results deadline buckets).map
    fun printed => printed.filterMap id

end Scgrep
