import Mathlib.Data.Finset.Insert
import Scgrep.Spec.Datetime
import Scgrep.Spec.MessageLog
import Scgrep.Spec.Report

/-!
# `replay_loss_report.py`, message by message

`scanMessages` is `scan`: the ids in the lines of the messages, by the clock minute of
their times. A minute is the instant at which it begins.
-/

namespace Scgrep

/-- `BASELINE_RE`: the topic, the id and the time. -/
def baselineRe : List (Pattern.Item Char) :=
  [.text "Global Broker message: topic=".toList, .run notSpace, .text " id=".toList, .run notSpace,
    .text " time=".toList, .run notSpace]

/-- `REPLAY_RE` for one of its two kinds: the centre, the topic, the id and the time. -/
def replayKindRe (kind : ReplayKind) : List (Pattern.Item Char) :=
  [.text ("Replay message (" ++ kind.name ++ "): centre_id=").toList, .run notSpace,
    .text " topic=".toList, .run notSpace, .text " id=".toList, .run notSpace, .text " time=".toList,
    .run notSpace]

/-- `REPLAY_RE` at the beginning of a text. -/
def matchReplay (l : List Char) : Option (ReplayKind × List (List Char)) :=
  ((Pattern.matchHere (replayKindRe .synchronous) l).map (ReplayKind.synchronous, ·)).or
    ((Pattern.matchHere (replayKindRe .asynchronous) l).map (ReplayKind.asynchronous, ·))

/-- `floor_minute`. -/
def floorMinute (dt : ℚ) : ℤ := 60 * ⌊dt / 60⌋

/-- A `defaultdict(set)` by minute. -/
abbrev Minutes := Dict ℤ (Finset String)

/-- The ids of a minute. -/
def Minutes.at (d : Minutes) (minute : ℤ) : Finset String := (d.get? minute).getD ∅

/-- `d[floor_minute(parse_pubtime(time))].add(id)`, if the time can be read. -/
def Minutes.addAt (L : Lib) (d : Minutes) (time msgId : String) : Except PyErr Minutes :=
  match parsePubtime L time with
  | .error e => .error e
  | .ok none => .ok d
  | .ok (some dt) => .ok (d.set (floorMinute dt) (insert msgId (d.at (floorMinute dt))))

/-- What `scan` returns. -/
structure Buckets where
  baseline : Minutes
  replay : Minutes

/-- `SOURCES["both"]`. -/
def bothSources : List ReplayKind := [.synchronous, .asynchronous]

/-- One turn of the loop of `scan`. -/
def scanMessageLine (L : Lib) (topic : String) (sources : List ReplayKind) (b : Buckets)
    (line : String) : Except PyErr Buckets :=
  match Pattern.search baselineRe line.toList with
  | some [lineTopic, msgId, time] =>
    if Text.within topic (String.ofList lineTopic) then
      (b.baseline.addAt L (String.ofList time) (String.ofList msgId)).map fun d => { b with baseline := d }
    else .ok b
  | _ =>
    match Pattern.searchBy matchReplay line.toList with
    | some (kind, [_, lineTopic, msgId, time]) =>
      if kind ∈ sources ∧ Text.within topic (String.ofList lineTopic) then
        (b.replay.addAt L (String.ofList time) (String.ofList msgId)).map fun d => { b with replay := d }
      else .ok b
    | _ => .ok b

/-- `scan`. -/
def scanMessages (L : Lib) (topic : String) (sources : List ReplayKind) (lines : List String) :
    Except PyErr Buckets :=
  lines.foldlM (scanMessageLine L topic sources) ⟨Dict.empty, Dict.empty⟩

end Scgrep
