import Scgrep.Spec.Purge

/-!
# `purge_logs.py`, again and again

The log over the life of the service, while `purge` is run time after time, each run with
a cutoff and a temporary file of its own. A run ends with `os.replace`, by an exception,
which removes its temporary file, or because its process is killed, which leaves it.

`LogBook` is the same without inodes: what is in the log, what the runs have removed from
it, and what they have lost.
-/

namespace Scgrep

/-- The log, the run that is under way (its cutoff and its temporary file), the temporary files in
the directory, and the first inode that has not been used. -/
structure LogLife where
  log : LogState
  purging : Option (String × ℕ)
  temps : List ℕ
  fresh : ℕ

inductive LifeEvent where
  | emit (line : String)
  /-- `mkstemp`, and the two files are opened -/
  | begin (cutoff : String)
  | readLine
  | endOfFile
  | replace
  /-- an exception in the run -/
  | raise
  /-- the end of its process -/
  | kill
deriving DecidableEq

namespace LogLife

/-- A log with the given lines, before the first run. -/
def init (lines : List String) : LogLife :=
  ⟨⟨Function.update (fun _ => []) 0 lines, 0, 0, .waiting⟩, none, [], 1⟩

/-- A step of the run under way. -/
def purge (e : LogEvent) (s : LogLife) : LogLife :=
  match s.purging with
  | some (cutoff, tmp) => { s with log := (s.log.step cutoff tmp e).getD s.log }
  | none => s

def step (s : LogLife) : LifeEvent → LogLife
  | .emit line => { s with log := s.log.emit line }
  | .begin cutoff =>
    match s.purging with
    | some _ => s
    | none => ⟨(({ s.log with phase := .waiting } : LogState).step cutoff s.fresh .openLog).getD s.log,
      some (cutoff, s.fresh), s.fresh :: s.temps, s.fresh + 1⟩
  | .readLine => s.purge .readLine
  | .endOfFile => s.purge .endOfFile
  | .replace =>
    match s.purging with
    | some (cutoff, tmp) =>
      match s.log.step cutoff tmp .replace with
      -- the temporary file has got the name of the log
      | some log => { s with log, purging := none, temps := s.temps.erase tmp }
      | none => s
    | none => s
  | .raise =>
    match s.purging with
    | some (_, tmp) => { s with purging := none, temps := s.temps.erase tmp }
    | none => s
  | .kill => { s with purging := none }

def run (s : LogLife) (es : List LifeEvent) : LogLife := es.foldl step s

end LogLife

/-! ## Without inodes -/

/-- A run under way: how many lines it has read, or what was there at its last read and what has been
written since. -/
inductive PurgeStage where
  | reading (cutoff : String) (pos : ℕ)
  | copied (cutoff : String) (source gap : List String)

structure LogBook where
  content : List String
  stage : Option PurgeStage
  removed : List String
  lost : List String

/-- The lines that `purgeLines` leaves out. -/
def droppedLines (cutoff : String) : Bool → List String → List String
  | _, [] => []
  | keep, line :: lines =>
    let keep := keepLine cutoff keep line
    if keep then droppedLines cutoff keep lines else line :: droppedLines cutoff keep lines

namespace LogBook

def init (content : List String) : LogBook := ⟨content, none, [], []⟩

def step (b : LogBook) : LifeEvent → LogBook
  | .emit line =>
    { b with
      content := b.content ++ [line]
      stage := match b.stage with
        | some (.copied cutoff source gap) => some (.copied cutoff source (gap ++ [line]))
        | stage => stage }
  | .begin cutoff => if b.stage.isSome then b else { b with stage := some (.reading cutoff 0) }
  | .readLine =>
    match b.stage with
    | some (.reading cutoff pos) =>
      if pos < b.content.length then { b with stage := some (.reading cutoff (pos + 1)) } else b
    | _ => b
  | .endOfFile =>
    match b.stage with
    | some (.reading cutoff pos) =>
      if b.content.length ≤ pos then { b with stage := some (.copied cutoff b.content []) } else b
    | _ => b
  | .replace =>
    match b.stage with
    | some (.copied cutoff source gap) =>
      ⟨purgeLines cutoff true source, none, b.removed ++ droppedLines cutoff true source, b.lost ++ gap⟩
    | _ => b
  | .raise => { b with stage := none }
  | .kill => { b with stage := none }

def run (b : LogBook) (es : List LifeEvent) : LogBook := es.foldl step b

end LogBook

end Scgrep
