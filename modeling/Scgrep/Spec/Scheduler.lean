import Scgrep.Spec.Cycle

/-!
# `main.py`: `Scheduler.run`

The loop in terms of its clock readings: `took` is `elapsed`, whether `run_cycle`
returned or raised (the exception is logged and the loop goes on), and `late` is
how much later than asked the timed wait returns, or than at once the next cycle
starts when there is no wait. A stop ends the run between two cycles, so a run is
any finite number of iterations.
-/

namespace Scgrep

open FloorWindow

/-- One iteration of the loop. -/
structure Iteration where
  took : ℚ
  late : ℚ

/-- When the next cycle starts, for one that started at `started`. -/
def nextStart (cfg : Config) (started : ℚ) (it : Iteration) : ℚ :=
  let elapsed := it.took
  if (cfg.testInterval : ℚ) < elapsed then started + elapsed + it.late
  else started + elapsed + (cfg.testInterval - elapsed) + it.late

/-- The loop: the start of each cycle on the monotonic clock. -/
def schedulerLoop (cfg : Config) : ℚ → List Iteration → List ℚ
  | started, [] => [started]
  | started, it :: its => started :: schedulerLoop cfg (nextStart cfg started it) its

/-- `Scheduler.run`: it waits one interval before the first cycle. -/
def schedulerRun (cfg : Config) (boot firstLate : ℚ) (its : List Iteration) : List ℚ :=
  schedulerLoop cfg (boot + cfg.testInterval + firstLate) its

/-- The windows of the cycles, for the offset of the wall clock to the monotonic one. -/
def schedulerWindows (cfg : Config) (offset boot firstLate : ℚ) (its : List Iteration) :
    List Window :=
  (schedulerRun cfg boot firstLate its).map fun started => cycleWindow cfg (started + offset)

end Scgrep
