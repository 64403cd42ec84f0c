import Scgrep.Spec.Pool
import Scgrep.Spec.Tables

/-!
# The fan-out cannot deadlock

* `getElem?_fetchTasks`: the two tasks of a cell are submitted one after the other.
* `fan_out_progress`: **with any number of workers, the fetches of a cycle go on until all
  have ended.** An asynchronous fetch that waits in the pool waits for a task that left the
  queue before it.
* `fetchTasks_le_maxWorkers`: the pool that `run_cycle` makes has a worker for each.
-/

namespace Scgrep

open FifoPool

theorem getElem?_cellTasks (cells : List Cell) : ∀ (n k : ℕ),
    ((cells.zipIdx n).flatMap fun x => cellTasks x.1 x.2)[k]? =
      (cells[k / 2]?).bind fun cell => (cellTasks cell (n + k / 2))[k % 2]? := by
  induction cells with
  | nil => intro n k; rfl
  | cons cell cells ih =>
    intro n k
    rw [List.zipIdx_cons, List.flatMap_cons]
    have hlen : (cellTasks cell n).length = 2 := rfl
    by_cases hk : k < 2
    · have hdiv : k / 2 = 0 := by omega
      have hmod : k % 2 = k := by omega
      rw [List.getElem?_append_left (by rw [hlen]; exact hk), hdiv, hmod]
      rfl
    · have hdiv : k / 2 = (k - 2) / 2 + 1 := by omega
      have hmod : k % 2 = (k - 2) % 2 := by omega
      have hnum : n + 1 + (k - 2) / 2 = n + ((k - 2) / 2 + 1) := by omega
      rw [List.getElem?_append_right (by rw [hlen]; omega), hlen, ih, hdiv, hmod, hnum,
        List.getElem?_cons_succ]

/-- The `k`-th submission is for cell `k / 2`. -/
theorem getElem?_fetchTasks (cfg : Config) (k : ℕ) : cfg.fetchTasks[k]? =
    (cfg.cells[k / 2]?).bind fun cell => (cellTasks cell (k / 2))[k % 2]? := by
  have h := getElem?_cellTasks cfg.cells 0 k
  rw [Nat.zero_add] at h
  exact h

/-- A task blocks on the submission just before it. -/
theorem provider_lt (cfg : Config) (k j : ℕ) (h : cfg.provider k = some j) : j < k := by
  unfold Config.provider at h
  rw [getElem?_fetchTasks] at h
  cases hc : cfg.cells[k / 2]? with
  | none => rw [hc] at h; cases h
  | some cell =>
    rw [hc] at h
    rcases Nat.mod_two_eq_zero_or_one k with hk | hk
    · rw [hk] at h
      cases h
    · rw [hk] at h
      obtain rfl : 2 * (k / 2) = j := Option.some.inj h
      omega

/-- The executor of a cycle, with any number of workers. -/
def Config.pool (cfg : Config) (workers : ℕ) (h : 1 ≤ workers) : Pool where
  tasks := cfg.fetchTasks.length
  maxWorkers := workers
  needs := cfg.provider
  maxWorkers_pos := h
  needs_lt := provider_lt cfg

theorem length_cells (cfg : Config) :
    cfg.cells.length = cfg.subscriptionTopics.length * cfg.replayTargets.length := by
  unfold Config.cells
  rw [List.length_flatMap]
  simp only [List.length_map, List.map_const', List.sum_replicate_nat]

theorem length_fetchTasks (cfg : Config) : cfg.fetchTasks.length = 2 * cfg.cells.length := by
  unfold Config.fetchTasks cellTasks
  rw [List.length_flatMap]
  simp only [List.length_cons, List.length_nil, List.map_const', List.sum_replicate_nat,
    List.length_zipIdx]
  omega

/-- The pool that `run_cycle` makes has room for a worker for each fetch. -/
theorem fetchTasks_le_maxWorkers (cfg : Config) : cfg.fetchTasks.length ≤ cfg.maxWorkers := by
  have hmax := Nat.le_max_right 1 (cfg.subscriptionTopics.length * cfg.replayTargets.length * 2)
  rw [length_fetchTasks, length_cells]
  unfold Config.maxWorkers
  omega

/-- **The fan-out cannot deadlock.** At every point of every run of the executor, for any number of
workers, when a task is unfinished there is one that is neither finished nor blocked and that a
thread runs or is free to take; and the run can be completed. -/
theorem fan_out_progress (cfg : Config) (workers : ℕ) (hw : 1 ≤ workers) (es : List FifoPool.Event) :
    let P := cfg.pool workers hw
    let s := State.init.run P es
    ((∃ k, k < s.submitted ∧ s.done k = none) →
        ∃ k, k < s.submitted ∧ s.done k = none ∧ ¬ s.Blocked k ∧ (s.Running k ∨ s.Startable k)) ∧
      ∃ es', (s.run P es').Complete P := by
  dsimp only
  have hinv := inv_run es State.init (inv_init (P := cfg.pool workers hw))
  refine ⟨?_, completes hinv⟩
  rintro ⟨k, hk, hd⟩
  exact progress hinv hk hd

/-- One worker: the synchronous fetch raises, and the asynchronous one asks for its number. -/
theorem fan_out_sample :
    let s := State.init.run (shippedConfig.pool 1 le_rfl)
      [.submit false, .submit false, .take 0, .finish 0 false, .take 0, .wait 0]
    s.workers = [.waiting 1 0] ∧
      ∃ k, k < s.submitted ∧ s.done k = none ∧ ¬ s.Blocked k ∧ (s.Running k ∨ s.Startable k) := by
  dsimp only
  refine ⟨by decide +kernel, ?_⟩
  exact (fan_out_progress shippedConfig 1 le_rfl
    [.submit false, .submit false, .take 0, .finish 0 false, .take 0, .wait 0]).1
      ⟨1, by decide +kernel, by decide +kernel⟩

end Scgrep
