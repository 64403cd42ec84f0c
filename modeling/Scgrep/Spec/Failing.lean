import Scgrep.Lib.Raising
import Scgrep.Spec.Scheduler

/-!
# `run_cycle` and `Scheduler.run` when Redis fails

`runCycleFailing` is the main thread of `run_cycle` as a program over the metrics,
with any of its own Redis commands raising. What a fetch task raises is caught in
the loop over the futures; what a command of the main thread raises leaves the
`with` block of the pool, and `Scheduler.run` logs it and goes on.
-/

namespace Scgrep

open Raising

/-- A Redis command of the main thread. -/
inductive CycleCommand where
  /-- the `ZCOUNT` of the `k`-th topic -/
  | baseline (k : ℕ)
  /-- the `DELETE` of `clear_replay` -/
  | clearReplay
  /-- the `DELETE` of `clear_sync` -/
  | clearSync
  /-- the `ZCOUNT` for the result of the `k`-th future -/
  | recount (k : ℕ)
deriving DecidableEq

/-- What a cycle reads from outside, and what its commands raise. -/
structure FailingEnv (ε : Type) extends CycleEnv where
  raises : CycleCommand → Option ε

variable {ε : Type}

namespace FailingEnv

variable (cfg : Config) (F : FailingEnv ε)

/-- `store.count_messages(topic, start_epoch, end_epoch)` for each topic. -/
def readBaselines : Prog ε Metrics (List (String × ℕ)) :=
  let W := cycleWindow cfg F.now
  cfg.subscriptionTopics.zipIdx.mapM fun (topic, k) => do
    issue F.raises (.baseline k)
    return (topic, countMessages (F.baseline k).now (F.baseline k).db topic W.start W.stop)

/-- `clear_replay` and `clear_sync`: one `DELETE`, if there are keys. -/
def clear (key : String → String → String) (command : CycleCommand) : Prog ε Metrics PUnit :=
  let keys := cfg.replayCentreIds.flatMap fun centreId => cfg.store.topics.map (key centreId)
  if keys.isEmpty then pure ⟨⟩ else issue F.raises command

/-- Whether the main thread counts the messages of a result again. -/
def recounted (result : FetchResult) : Bool :=
  result.protocol = .mqtt && !result.aborted || result.protocol = .http && !result.aborted

/-- One turn of the loop over the futures, for the `k`-th one. -/
def collect (k : ℕ) (v : View) (cell : Cell) : Outcome → Prog ε Metrics (List CellResult)
  | .error _ => return []
  | .ok result => do
    if recounted result then issue F.raises (.recount k)
    return [⟨cell, recount (cycleWindow cfg F.now) v cell result⟩]

/-- The loop. Each cell has submitted two fetches. -/
def readResults : Prog ε Metrics (List (List CellResult)) :=
  cfg.cells.zipIdx.mapM fun (cell, i) => do
    let sync ← F.collect cfg (2 * i) (F.syncRecount i) cell (F.sync i)
    let async ← F.collect cfg (2 * i + 1) (F.asyncRecount i) cell (F.async i)
    return sync ++ async

end FailingEnv

/-- The publication loops. -/
def publication (cfg : Config) (baselines : Dict String ℕ) (results : List CellResult) :
    Prog ε Metrics PUnit := do
  forM baselines.items fun c => modify (incReceived cfg.sensorCentreId c.1 c.2)
  forM results fun r => modify (publish (r.labels cfg) r.result)

/-- `run_cycle`. -/
def runCycleFailing (cfg : Config) (F : FailingEnv ε) : Prog ε Metrics PUnit := do
  let counts ← F.readBaselines cfg
  F.clear cfg replayKey .clearReplay
  F.clear cfg syncKey .clearSync
  let results ← F.readResults cfg
  publication cfg (baselineDict counts) results.flatten

/-- A turn of the loop of `Scheduler.run`: the cycle it attempts, and its clock readings. -/
structure Attempt (ε : Type) where
  env : FailingEnv ε
  iteration : Iteration

/-- The loop of `Scheduler.run`: the starts of the cycles, with what they do to the metrics. -/
def schedulerAttempts (cfg : Config) : ℚ → List (Attempt ε) → Prog ε Metrics (List ℚ)
  | started, [] => return [started]
  | started, a :: as => do
    tryCatch (runCycleFailing cfg a.env) fun _ => pure ⟨⟩
    let starts ← schedulerAttempts cfg (nextStart cfg started a.iteration) as
    return started :: starts

end Scgrep
