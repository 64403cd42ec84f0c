import Scgrep.Lib.Text
import Scgrep.Spec.Datetime

/-!
# `purge_logs.py` and the log file

`purgeFile` is `purge` over the lines of a file, `purgeLines` what its keep/drop loop
writes. Around it stands the file system as
the script and the running service see it: a file is an inode with its lines, and
the log path names one of them. The service appends to whatever inode its
`WatchedFileHandler` has open, after looking at the path; the script reads the
inode it has opened, line by line, and renames its temporary file over the path.
-/

namespace Scgrep

/-! ## The loop -/

/-- The shape of `_TIMESTAMP`, `none` for a digit: `dddd-dd-dd dd:dd:dd`. -/
def timestampShape : List (Option Char) :=
  [none, none, none, none, some '-', none, none, some '-', none, none, some ' ',
    none, none, some ':', none, none, some ':', none, none]

/-- Whether a text begins with a shape. -/
def beginsWith : List (Option Char) → List Char → Bool
  | [], _ => true
  | _ :: _, [] => false
  | none :: shape, c :: cs => Text.isDecimal c && beginsWith shape cs
  | some x :: shape, c :: cs => c == x && beginsWith shape cs

/-- `_TIMESTAMP.match(line)`, its first group. -/
def timestamp (line : String) : Option String :=
  if beginsWith timestampShape line.toList then
    some (String.ofList (line.toList.take timestampShape.length))
  else none

/-- Whether a line is kept, after one with the given decision. -/
def keepLine (cutoff : String) (keep : Bool) (line : String) : Bool :=
  match timestamp line with
  | some ts => Text.le cutoff ts
  -- a line without a timestamp belongs to the entry before it
  | none => keep

/-- The lines that `purge` keeps. -/
def purgeLines (cutoff : String) : Bool → List String → List String
  | _, [] => []
  | keep, line :: lines =>
    let keep := keepLine cutoff keep line
    if keep then line :: purgeLines cutoff keep lines else purgeLines cutoff keep lines

/-- The variables of the loop: the lines written to the temporary file, `kept`, `removed`, `keep`. -/
structure PurgeLoop where
  written : List String
  kept : ℕ
  removed : ℕ
  keep : Bool

/-- One turn of the loop. -/
def PurgeLoop.next (cutoff : String) (p : PurgeLoop) (line : String) : PurgeLoop :=
  let keep := keepLine cutoff p.keep line
  if keep then { p with keep, written := p.written ++ [line], kept := p.kept + 1 }
  else { p with keep, removed := p.removed + 1 }

/-- `strftime("%Y-%m-%d %H:%M:%S")`, for a year of four digits. -/
def cutoffText (cutoff : ℚ) : String := String.ofList ((utcStamp ⌊cutoff⌋).text ' ')

/-- `purge` of a file with the given lines, for the instant `now - timedelta(hours=max_age_hours)`. -/
def purgeFile (cutoff : ℚ) (lines : List String) : PurgeLoop :=
  lines.foldl (PurgeLoop.next (cutoffText cutoff)) ⟨[], 0, 0, true⟩

/-! ## The file -/

/-- How far a run of `purge` is: not started, reading (the inode it opened, the lines read, the last
decision), its temporary file complete, or finished. -/
inductive PurgePhase where
  | waiting
  | reading (src pos : ℕ) (keep : Bool)
  | written
  | replaced

/-- The lines of each inode, the inode at the log path, the one the handler has open. -/
structure LogState where
  file : ℕ → List String
  path : ℕ
  handler : ℕ
  phase : PurgePhase

/-- A step of the service (a record it emits) or of `purge`. -/
inductive LogEvent where
  | emit (line : String)
  | openLog
  | readLine
  | endOfFile
  | replace
deriving DecidableEq

/-- `WatchedFileHandler.emit`: `reopenIfNeeded`, then the line. -/
def LogState.emit (line : String) (s : LogState) : LogState :=
  let handler := if s.handler ≠ s.path then s.path else s.handler
  { s with handler, file := Function.update s.file handler (s.file handler ++ [line]) }

/-- One step, `none` when it cannot be taken. The temporary file is the inode `tmp`. -/
def LogState.step (cutoff : String) (tmp : ℕ) (s : LogState) : LogEvent → Option LogState
  | .emit line => some (s.emit line)
  | .openLog =>
    match s.phase with
    | .waiting => some { s with
        file := Function.update s.file tmp [], phase := .reading s.path 0 true }
    | _ => none
  | .readLine =>
    match s.phase with
    | .reading src pos keep =>
      match (s.file src)[pos]? with
      | some line =>
        let keep := keepLine cutoff keep line
        some { s with
          file := if keep then Function.update s.file tmp (s.file tmp ++ [line]) else s.file
          phase := .reading src (pos + 1) keep }
      | none => none
    | _ => none
  | .endOfFile =>
    match s.phase with
    | .reading src pos _ => if (s.file src).length ≤ pos then some { s with phase := .written } else none
    | _ => none
  | .replace =>
    match s.phase with
    | .written => some { s with path := tmp, phase := .replaced }
    | _ => none

/-- A run of the service and of one `purge`, interleaved. -/
def LogState.run (cutoff : String) (tmp : ℕ) : List LogEvent → LogState → Option LogState
  | [], s => some s
  | e :: es, s => (s.step cutoff tmp e).bind (LogState.run cutoff tmp es)

end Scgrep
