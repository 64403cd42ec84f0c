import Scgrep.Lib.FifoPool
import Scgrep.Spec.Cycle

/-!
# The thread pool of `run_cycle`

The tasks a cycle submits to its `ThreadPoolExecutor`, whose queue is first in, first
out. An asynchronous fetch is given a provider that blocks on the future of the
synchronous fetch of its cell (`_number_matched_from`), whether it returns or raises.
-/

namespace Scgrep

/-- A fetch, and the future its `number_matched_provider` blocks on. -/
structure FetchTask where
  cell : Cell
  protocol : Protocol
  provider : Option ℕ

/-- The two submissions for the `i`-th cell. -/
def cellTasks (cell : Cell) (i : ℕ) : List FetchTask :=
  [⟨cell, .http, none⟩, ⟨cell, .mqtt, some (2 * i)⟩]

/-- The tasks in the order of submission, which is the order of the futures. -/
def Config.fetchTasks (cfg : Config) : List FetchTask :=
  cfg.cells.zipIdx.flatMap fun (cell, i) => cellTasks cell i

/-- The future that a task blocks on. -/
def Config.provider (cfg : Config) (k : ℕ) : Option ℕ :=
  (cfg.fetchTasks[k]?).bind FetchTask.provider

/-- `max_workers`. -/
def Config.maxWorkers (cfg : Config) : ℕ :=
  max 1 (cfg.subscriptionTopics.length * cfg.replayTargets.length * 2)

end Scgrep
