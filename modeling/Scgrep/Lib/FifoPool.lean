import Mathlib.Algebra.BigOperators.Group.List.Basic
import Mathlib.Algebra.GroupWithZero.Nat
import Mathlib.Data.Nat.Find
import Mathlib.Logic.Function.Basic

/-!
# A thread pool with a FIFO queue

Tasks are submitted in a fixed order and taken from the queue in that order, by at
most `maxWorkers` threads. A task may wait, once, for the end of an earlier task; the
thread that runs it stays taken while it waits. A task ends by returning or by raising.

The pool makes its first thread at the first submission; when it makes more is left open.

* `inv_run`: at every point the tasks that were started are an initial segment of those
  submitted, and the unfinished ones of them hold one thread each.
* `progress`: **the earliest unfinished task is never blocked**, and a thread runs it or
  is free to take it.
* `rank_step`, `completes`: every step brings the end nearer, and **every run can be
  completed.**
-/

namespace FifoPool

/-- The tasks `0, …, tasks - 1`, in the order of submission; task `k` may wait for `needs k`. -/
structure Pool where
  tasks : ℕ
  maxWorkers : ℕ
  needs : ℕ → Option ℕ
  maxWorkers_pos : 1 ≤ maxWorkers
  needs_lt : ∀ k j, needs k = some j → j < k

/-- What a thread does: nothing, a task that has waited or not, or waiting for task `j` in task `k`. -/
inductive Worker where
  | idle
  | running (k : ℕ) (waited : Bool)
  | waiting (k j : ℕ)
deriving DecidableEq

/-- The task that holds the thread. -/
def Worker.task : Worker → Option ℕ
  | idle => none
  | running k _ => some k
  | waiting k _ => some k

/-- `done k` says how task `k` has ended: whether it returned. -/
structure State where
  submitted : ℕ
  queue : List ℕ
  workers : List Worker
  done : ℕ → Option Bool

def State.init : State := ⟨0, [], [], fun _ => none⟩

inductive Event where
  /-- the next task is submitted; the pool makes another thread or not -/
  | submit (spawn : Bool)
  /-- thread `w` takes the head of the queue -/
  | take (w : ℕ)
  /-- the task of thread `w` asks for the result it needs -/
  | wait (w : ℕ)
  /-- it has it -/
  | resume (w : ℕ)
  /-- the task of thread `w` ends -/
  | finish (w : ℕ) (returned : Bool)

variable (P : Pool)

namespace State

def submit (spawn : Bool) (s : State) : State :=
  if s.submitted < P.tasks then { s with
    submitted := s.submitted + 1
    queue := s.queue ++ [s.submitted]
    workers :=
      if (spawn ∨ s.workers = []) ∧ s.workers.length < P.maxWorkers then s.workers ++ [.idle]
      else s.workers }
  else s

def take (w : ℕ) (s : State) : State :=
  match s.workers[w]?, s.queue with
  | some .idle, k :: queue =>
    { s with queue := queue, workers := s.workers.set w (.running k false) }
  | _, _ => s

def wait (w : ℕ) (s : State) : State :=
  match s.workers[w]? with
  | some (.running k false) =>
    match P.needs k with
    | some j => { s with workers := s.workers.set w (.waiting k j) }
    | none => s
  | _ => s

def resume (w : ℕ) (s : State) : State :=
  match s.workers[w]? with
  | some (.waiting k j) =>
    if s.done j ≠ none then { s with workers := s.workers.set w (.running k true) } else s
  | _ => s

def finish (w : ℕ) (returned : Bool) (s : State) : State :=
  match s.workers[w]? with
  | some (.running k _) =>
    { s with workers := s.workers.set w .idle, done := Function.update s.done k (some returned) }
  | _ => s

/-- One step. An event that cannot happen changes nothing. -/
def step (s : State) : Event → State
  | .submit spawn => s.submit P spawn
  | .take w => s.take w
  | .wait w => s.wait P w
  | .resume w => s.resume w
  | .finish w returned => s.finish w returned

/-- A run. -/
def run (s : State) (es : List Event) : State := es.foldl (step P) s

/-- The task that holds thread `w`. -/
def taskOf (s : State) (w : ℕ) : Option ℕ := (s.workers[w]?).bind Worker.task

/-- The task waits for one that has not ended. -/
def Blocked (s : State) (k : ℕ) : Prop :=
  ∃ w j : ℕ, s.workers[w]? = some (.waiting k j) ∧ s.done j = none

/-- A thread runs the task. -/
def Running (s : State) (k : ℕ) : Prop := ∃ w, s.taskOf w = some k

/-- The task is next in the queue and a thread is free. -/
def Startable (s : State) (k : ℕ) : Prop :=
  s.queue.head? = some k ∧ ∃ w : ℕ, s.workers[w]? = some .idle

end State

/-! ## What a step can do -/

/-- The steps that change something. -/
inductive Moves (s : State) : Event → State → Prop where
  | submit (spawn : Bool) (workers : List Worker) (hlt : s.submitted < P.tasks)
      (hw : workers = s.workers ∧ s.workers ≠ [] ∨
        workers = s.workers ++ [.idle] ∧ s.workers.length < P.maxWorkers) :
      Moves s (.submit spawn) ⟨s.submitted + 1, s.queue ++ [s.submitted], workers, s.done⟩
  | take (w k : ℕ) (queue : List ℕ) (hw : s.workers[w]? = some .idle) (hq : s.queue = k :: queue) :
      Moves s (.take w) ⟨s.submitted, queue, s.workers.set w (.running k false), s.done⟩
  | wait (w k j : ℕ) (hw : s.workers[w]? = some (.running k false)) (hj : P.needs k = some j) :
      Moves s (.wait w) ⟨s.submitted, s.queue, s.workers.set w (.waiting k j), s.done⟩
  | resume (w k j : ℕ) (hw : s.workers[w]? = some (.waiting k j)) (hj : s.done j ≠ none) :
      Moves s (.resume w) ⟨s.submitted, s.queue, s.workers.set w (.running k true), s.done⟩
  | finish (w k : ℕ) (waited returned : Bool) (hw : s.workers[w]? = some (.running k waited)) :
      Moves s (.finish w returned) ⟨s.submitted, s.queue, s.workers.set w .idle,
        Function.update s.done k (some returned)⟩

variable {P}

/-- **A step does nothing or is one of the moves.** -/
theorem step_spec (s : State) (e : Event) : s.step P e = s ∨ Moves P s e (s.step P e) := by
  cases e with
  | submit spawn =>
    unfold State.step State.submit
    by_cases hlt : s.submitted < P.tasks
    · right
      dsimp only
      rw [if_pos hlt]
      refine .submit spawn _ hlt ?_
      have hpos := P.maxWorkers_pos
      by_cases hc : (spawn ∨ s.workers = []) ∧ s.workers.length < P.maxWorkers
      · rw [if_pos hc]
        exact .inr ⟨rfl, hc.2⟩
      · rw [if_neg hc]
        refine .inl ⟨rfl, fun hnil => hc ⟨.inr hnil, ?_⟩⟩
        rw [hnil]
        exact hpos
    · left
      dsimp only
      rw [if_neg hlt]
  | take w =>
    unfold State.step State.take
    dsimp only
    split
    · rename_i k queue hw hq
      exact .inr (.take w k queue hw hq)
    · exact .inl rfl
  | wait w =>
    unfold State.step State.wait
    dsimp only
    split
    · rename_i k hw
      split
      · rename_i j hj
        exact .inr (.wait w k j hw hj)
      · exact .inl rfl
    · exact .inl rfl
  | resume w =>
    unfold State.step State.resume
    dsimp only
    split
    · rename_i k j hw
      by_cases hj : s.done j ≠ none
      · rw [if_pos hj]
        exact .inr (.resume w k j hw hj)
      · rw [if_neg hj]
        exact .inl rfl
    · exact .inl rfl
  | finish w returned =>
    unfold State.step State.finish
    dsimp only
    split
    · rename_i k waited hw
      exact .inr (.finish w k waited returned hw)
    · exact .inl rfl

/-! ## The invariant -/

/-- The tasks before `started` were taken from the queue, the others wait there. -/
structure InvAt (P : Pool) (s : State) (started : ℕ) : Prop where
  started_le : started ≤ s.submitted
  submitted_le : s.submitted ≤ P.tasks
  workers_le : s.workers.length ≤ P.maxWorkers
  workers_ne : 0 < s.submitted → s.workers ≠ []
  queue : s.queue = List.range' started (s.submitted - started)
  queued : ∀ k, started ≤ k → s.done k = none
  held : ∀ k, k < started → s.done k = none → s.Running k
  unfinished : ∀ w k, s.taskOf w = some k → k < started ∧ s.done k = none
  alone : ∀ w w' k, s.taskOf w = some k → s.taskOf w' = some k → w = w'
  waits : ∀ w k j : ℕ, s.workers[w]? = some (.waiting k j) → P.needs k = some j

/-- What holds at every point of a run. -/
def Inv (P : Pool) (s : State) : Prop := ∃ started, InvAt P s started

theorem inv_init : Inv P State.init := by
  refine ⟨0, le_rfl, Nat.zero_le _, Nat.zero_le _, ?_, rfl, fun _ _ => rfl, ?_, ?_, ?_, ?_⟩
  · intro h; exact absurd h (lt_irrefl 0)
  · intro k hk; omega
  · intro w k h; cases h
  · intro w w' k h; cases h
  · intro w k j h; cases h

theorem taskOf_set (s : State) {w : ℕ} {a b : Worker} (hw : s.workers[w]? = some a)
    (queue : List ℕ) (done : ℕ → Option Bool) (v : ℕ) :
    (⟨s.submitted, queue, s.workers.set w b, done⟩ : State).taskOf v =
      if v = w then b.task else s.taskOf v := by
  obtain ⟨hlt, -⟩ := List.getElem?_eq_some_iff.1 hw
  unfold State.taskOf
  rw [List.getElem?_set]
  by_cases h : v = w
  · subst h
    rw [if_pos rfl, if_pos hlt, if_pos rfl]
    rfl
  · rw [if_neg (Ne.symm h), if_neg h]

theorem taskOf_snoc (s : State) (submitted : ℕ) (queue : List ℕ) (v : ℕ) :
    (⟨submitted, queue, s.workers ++ [.idle], s.done⟩ : State).taskOf v = s.taskOf v := by
  unfold State.taskOf
  rcases Nat.lt_trichotomy v s.workers.length with h | h | h
  · rw [List.getElem?_append_left h]
  · subst h
    rw [List.getElem?_concat_length, List.getElem?_eq_none le_rfl]
    rfl
  · rw [List.getElem?_eq_none (by rw [List.length_append, List.length_singleton]; omega),
      List.getElem?_eq_none (by omega)]

/-- A thread that goes on in its task. -/
theorem InvAt.goes_on {s : State} {started w : ℕ} {a b : Worker} (h : InvAt P s started)
    (hw : s.workers[w]? = some a) (hab : b.task = a.task)
    (hb : ∀ k j, b = .waiting k j → P.needs k = some j) :
    InvAt P ⟨s.submitted, s.queue, s.workers.set w b, s.done⟩ started := by
  have htask : ∀ v, (⟨s.submitted, s.queue, s.workers.set w b, s.done⟩ : State).taskOf v =
      s.taskOf v := by
    intro v
    rw [taskOf_set s hw]
    by_cases hv : v = w
    · rw [if_pos hv, hab, hv, State.taskOf, hw]
      rfl
    · rw [if_neg hv]
  refine ⟨h.started_le, h.submitted_le, ?_, ?_, h.queue, h.queued, ?_, ?_, ?_, ?_⟩
  · rw [List.length_set]; exact h.workers_le
  · intro hpos hnil
    exact h.workers_ne hpos ((List.set_eq_nil_iff _ _).1 hnil)
  · intro k hk hd
    obtain ⟨v, hv⟩ := h.held k hk hd
    exact ⟨v, (htask v).trans hv⟩
  · intro v k hv
    exact h.unfinished v k ((htask v).symm.trans hv)
  · intro v v' k hv hv'
    exact h.alone v v' k ((htask v).symm.trans hv) ((htask v').symm.trans hv')
  · intro v k j hv
    dsimp only at hv
    rw [List.getElem?_set] at hv
    by_cases hvw : w = v
    · rw [if_pos hvw] at hv
      split at hv
      · exact hb k j (Option.some.inj hv)
      · cases hv
    · rw [if_neg hvw] at hv
      exact h.waits v k j hv

/-- A task is submitted. -/
theorem InvAt.submits {s : State} {started : ℕ} {workers : List Worker} (h : InvAt P s started)
    (hlt : s.submitted < P.tasks)
    (hw : workers = s.workers ∧ s.workers ≠ [] ∨
      workers = s.workers ++ [.idle] ∧ s.workers.length < P.maxWorkers) :
    InvAt P ⟨s.submitted + 1, s.queue ++ [s.submitted], workers, s.done⟩ started := by
  have htask : ∀ v, (⟨s.submitted + 1, s.queue ++ [s.submitted], workers, s.done⟩ : State).taskOf v =
      s.taskOf v := by
    intro v
    rcases hw with ⟨rfl, -⟩ | ⟨rfl, -⟩
    · rfl
    · exact taskOf_snoc s _ _ v
  have hle := h.started_le
  refine ⟨?_, hlt, ?_, ?_, ?_, h.queued, ?_, ?_, ?_, ?_⟩
  · dsimp only; omega
  · have hlen := h.workers_le
    rcases hw with ⟨rfl, -⟩ | ⟨rfl, hroom⟩
    · exact hlen
    · rw [List.length_append, List.length_singleton]
      exact hroom
  · intro _
    rcases hw with ⟨rfl, hne⟩ | ⟨rfl, -⟩
    · exact hne
    · exact List.append_ne_nil_of_right_ne_nil _ (List.cons_ne_nil _ _)
  · have hnum : s.submitted + 1 - started = s.submitted - started + 1 := by omega
    have hlast : started + (s.submitted - started) = s.submitted := by omega
    rw [h.queue, hnum, List.range'_concat, one_mul, hlast]
  · intro k hk hd
    obtain ⟨v, hv⟩ := h.held k hk hd
    exact ⟨v, (htask v).trans hv⟩
  · intro v k hv
    exact h.unfinished v k ((htask v).symm.trans hv)
  · intro v v' k hv hv'
    exact h.alone v v' k ((htask v).symm.trans hv) ((htask v').symm.trans hv')
  · intro v k j hv
    rcases hw with ⟨rfl, -⟩ | ⟨rfl, -⟩
    · exact h.waits v k j hv
    · refine h.waits v k j ?_
      dsimp only at hv
      rw [List.getElem?_append] at hv
      split at hv
      · exact hv
      · rw [List.getElem?_singleton] at hv
        split at hv
        · cases hv
        · cases hv

/-- A free thread takes the head of the queue, which is the first task that was not started. -/
theorem InvAt.takes {s : State} {started w k : ℕ} {queue : List ℕ} (h : InvAt P s started)
    (hw : s.workers[w]? = some .idle) (hq : s.queue = k :: queue) :
    InvAt P ⟨s.submitted, queue, s.workers.set w (.running k false), s.done⟩ (started + 1) := by
  have hqueue := h.queue
  have hle := h.started_le
  have hne : s.submitted - started ≠ 0 := by
    intro h0
    rw [hq, h0] at hqueue
    cases hqueue
  obtain ⟨m, hmlen⟩ := Nat.exists_eq_succ_of_ne_zero hne
  rw [hq, hmlen, List.range'_succ, List.cons.injEq] at hqueue
  obtain ⟨rfl, hrest⟩ := hqueue
  have hfree : s.taskOf w = none := by unfold State.taskOf; rw [hw]; rfl
  -- the head of the queue is the number of tasks started so far
  refine ⟨?_, h.submitted_le, ?_, ?_, ?_, ?_, ?_, ?_, ?_, ?_⟩
  · dsimp only; omega
  · rw [List.length_set]; exact h.workers_le
  · intro hpos hnil
    exact h.workers_ne hpos ((List.set_eq_nil_iff _ _).1 hnil)
  · have hnum : s.submitted - (k + 1) = m := by omega
    rw [hnum]
    exact hrest
  · intro j hj
    exact h.queued j (by omega)
  · intro j hj hd
    by_cases hjk : j = k
    · refine ⟨w, ?_⟩
      rw [taskOf_set s hw, if_pos rfl, hjk]
      rfl
    · obtain ⟨v, hv⟩ := h.held j (by omega) hd
      refine ⟨v, ?_⟩
      rw [taskOf_set s hw, if_neg (by rintro rfl; rw [hfree] at hv; cases hv)]
      exact hv
  · intro v j hv
    rw [taskOf_set s hw] at hv
    split at hv
    · obtain rfl := Option.some.inj hv
      exact ⟨by omega, h.queued k le_rfl⟩
    · obtain ⟨h1, h2⟩ := h.unfinished v j hv
      exact ⟨by omega, h2⟩
  · -- no thread had the task before
    have hnot : ∀ v, s.taskOf v ≠ some k := by
      intro v hv
      have := (h.unfinished v k hv).1
      omega
    intro v v' j hv hv'
    rw [taskOf_set s hw] at hv hv'
    split at hv <;> split at hv'
    · omega
    · obtain rfl := Option.some.inj hv
      exact absurd hv' (hnot v')
    · obtain rfl := Option.some.inj hv'
      exact absurd hv (hnot v)
    · exact h.alone v v' j hv hv'
  · intro v j i hv
    dsimp only at hv
    rw [List.getElem?_set] at hv
    split at hv
    · split at hv <;> cases hv
    · exact h.waits v j i hv

/-- A task ends. -/
theorem InvAt.finishes {s : State} {started w k : ℕ} {waited : Bool} (h : InvAt P s started)
    (hw : s.workers[w]? = some (.running k waited)) (returned : Bool) :
    InvAt P ⟨s.submitted, s.queue, s.workers.set w .idle,
      Function.update s.done k (some returned)⟩ started := by
  have hk : s.taskOf w = some k := by unfold State.taskOf; rw [hw]; rfl
  obtain ⟨hks, -⟩ := h.unfinished w k hk
  refine ⟨h.started_le, h.submitted_le, ?_, ?_, h.queue, ?_, ?_, ?_, ?_, ?_⟩
  · rw [List.length_set]; exact h.workers_le
  · intro hpos hnil
    exact h.workers_ne hpos ((List.set_eq_nil_iff _ _).1 hnil)
  · intro j hj
    dsimp only
    rw [Function.update_of_ne (by omega)]
    exact h.queued j hj
  · -- an unfinished task is another one, and its thread keeps it
    intro j hj hd
    dsimp only at hd
    by_cases hjk : j = k
    · rw [hjk, Function.update_self] at hd
      cases hd
    · rw [Function.update_of_ne hjk] at hd
      obtain ⟨v, hv⟩ := h.held j hj hd
      refine ⟨v, ?_⟩
      rw [taskOf_set s hw, if_neg (by rintro rfl; rw [hk] at hv; exact hjk (Option.some.inj hv).symm)]
      exact hv
  · intro v j hv
    rw [taskOf_set s hw] at hv
    split at hv
    · cases hv
    · rename_i hvw
      obtain ⟨h1, h2⟩ := h.unfinished v j hv
      refine ⟨h1, ?_⟩
      dsimp only
      rw [Function.update_of_ne (by rintro rfl; exact hvw (h.alone v w j hv hk))]
      exact h2
  · intro v v' j hv hv'
    rw [taskOf_set s hw] at hv hv'
    split at hv
    · cases hv
    · split at hv'
      · cases hv'
      · exact h.alone v v' j hv hv'
  · intro v j i hv
    dsimp only at hv
    rw [List.getElem?_set] at hv
    split at hv
    · split at hv <;> cases hv
    · exact h.waits v j i hv

/-- **One step keeps the invariant.** -/
theorem InvAt.moves {s s' : State} {started : ℕ} {e : Event} (h : InvAt P s started)
    (hm : Moves P s e s') : Inv P s' := by
  cases hm with
  | submit spawn workers hlt hw => exact ⟨started, h.submits hlt hw⟩
  | take w k queue hw hq => exact ⟨started + 1, h.takes hw hq⟩
  | wait w k j hw hj =>
    refine ⟨started, h.goes_on hw rfl ?_⟩
    intro k' j' heq
    obtain ⟨rfl, rfl⟩ := Worker.waiting.inj heq
    exact hj
  | resume w k j hw hj =>
    refine ⟨started, h.goes_on hw rfl ?_⟩
    intro k' j' heq
    cases heq
  | finish w k waited returned hw => exact ⟨started, h.finishes hw returned⟩

theorem inv_step {s : State} (h : Inv P s) (e : Event) : Inv P (s.step P e) := by
  obtain ⟨started, hat⟩ := h
  rcases step_spec (P := P) s e with heq | hm
  · rw [heq]
    exact ⟨started, hat⟩
  · exact hat.moves hm

/-- **The invariant holds at every point of a run.** -/
theorem inv_run (es : List Event) : ∀ s, Inv P s → Inv P (s.run P es) := by
  induction es with
  | nil => intro s h; exact h
  | cons e es ih => intro s h; exact ih _ (inv_step h e)

/-! ## Progress -/

/-- **No deadlock.** As long as a task is unfinished, one is neither finished nor blocked, and
a thread runs it or can take it. -/
theorem progress {s : State} (h : Inv P s) {k : ℕ} (hk : k < s.submitted) (hd : s.done k = none) :
    ∃ k, k < s.submitted ∧ s.done k = none ∧ ¬ s.Blocked k ∧ (s.Running k ∨ s.Startable k) := by
  obtain ⟨started, h⟩ := h
  -- the earliest unfinished task
  have hex : ∃ k, s.done k = none := ⟨k, hd⟩
  have hleast : ∀ j, j < Nat.find hex → s.done j ≠ none := fun j hj => Nat.find_min hex hj
  have hfirst : s.done (Nat.find hex) = none := Nat.find_spec hex
  have hle : Nat.find hex ≤ k := Nat.find_min' hex hd
  generalize Nat.find hex = k₀ at hleast hfirst hle
  have hsub : k₀ < s.submitted := by omega
  have hblocked : ¬ s.Blocked k₀ := by
    rintro ⟨w, j, hw, hj⟩
    have hlt := P.needs_lt k₀ j (h.waits w k₀ j hw)
    exact hleast j hlt hj
  refine ⟨k₀, hsub, hfirst, hblocked, ?_⟩
  by_cases hs : k₀ < started
  · exact .inl (h.held k₀ hs hfirst)
  · right
    -- no task after it was started, so it is the head of the queue
    have hstarted : started = k₀ := by
      by_contra hne
      have hlt : started < k₀ := by omega
      exact hleast started hlt (h.queued started le_rfl)
    obtain ⟨m, hm⟩ := Nat.exists_eq_succ_of_ne_zero (show s.submitted - k₀ ≠ 0 by omega)
    have hqueue := h.queue
    rw [hstarted, hm, List.range'_succ] at hqueue
    refine ⟨by rw [hqueue]; rfl, ?_⟩
    -- every task before it has ended, so no thread is taken
    obtain ⟨a, l, hl⟩ := List.exists_cons_of_ne_nil (h.workers_ne (by omega))
    have ha : s.workers[0]? = some a := by rw [hl]; rfl
    refine ⟨0, ?_⟩
    cases htask : a.task with
    | none =>
      cases a with
      | idle => exact ha
      | running k waited => cases htask
      | waiting k j => cases htask
    | some j =>
      have hj : s.taskOf 0 = some j := by unfold State.taskOf; rw [ha]; exact htask
      obtain ⟨h1, h2⟩ := h.unfinished 0 j hj
      exact absurd h2 (hleast j (by omega))

/-! ## Runs come to an end -/

/-- How many steps a thread has before it at most. -/
def Worker.rank : Worker → ℕ
  | idle => 0
  | running _ false => 3
  | waiting _ _ => 2
  | running _ true => 1

/-- How many steps all tasks have before them at most. -/
def rank (P : Pool) (s : State) : ℕ :=
  5 * (P.tasks - s.submitted) + 4 * s.queue.length + (s.workers.map Worker.rank).sum

theorem sum_rank_set {a b : Worker} (l : List Worker) : ∀ w : ℕ, l[w]? = some a →
    ((l.set w b).map Worker.rank).sum + a.rank = (l.map Worker.rank).sum + b.rank := by
  induction l with
  | nil => intro w h; cases h
  | cons c l ih =>
    intro w h
    cases w with
    | zero =>
      obtain rfl := Option.some.inj h
      simp only [List.set_cons_zero, List.map_cons, List.sum_cons]
      omega
    | succ w =>
      have hrest := ih w h
      simp only [List.set_cons_succ, List.map_cons, List.sum_cons]
      omega

/-- **Every step brings the end nearer.** -/
theorem Moves.rank_lt {s s' : State} {e : Event} (h : Moves P s e s') : rank P s' < rank P s := by
  unfold rank
  cases h with
  | submit spawn workers hlt hw =>
    dsimp only
    have hsum : (workers.map Worker.rank).sum = (s.workers.map Worker.rank).sum := by
      rcases hw with ⟨rfl, -⟩ | ⟨rfl, -⟩
      · rfl
      · rw [List.map_append, List.sum_append]
        rfl
    rw [List.length_append, List.length_singleton, hsum]
    omega
  | take w k queue hw hq =>
    dsimp only
    have hsum := sum_rank_set (b := .running k false) s.workers w hw
    rw [hq, List.length_cons]
    simp only [Worker.rank] at hsum
    omega
  | wait w k j hw hj =>
    dsimp only
    have hsum := sum_rank_set (b := .waiting k j) s.workers w hw
    simp only [Worker.rank] at hsum
    omega
  | resume w k j hw hj =>
    dsimp only
    have hsum := sum_rank_set (b := .running k true) s.workers w hw
    simp only [Worker.rank] at hsum
    omega
  | finish w k waited returned hw =>
    dsimp only
    have hsum := sum_rank_set (b := .idle) s.workers w hw
    cases waited <;> simp only [Worker.rank] at hsum <;> omega

theorem rank_step (s : State) (e : Event) : s.step P e = s ∨ rank P (s.step P e) < rank P s := by
  rcases step_spec (P := P) s e with heq | hm
  · exact .inl heq
  · exact .inr hm.rank_lt

/-- All tasks were submitted and have ended. -/
def State.Complete (P : Pool) (s : State) : Prop :=
  s.submitted = P.tasks ∧ ∀ k, k < P.tasks → s.done k ≠ none

/-- As long as the run is not complete something can happen. -/
theorem exists_step {s : State} (h : Inv P s) (hc : ¬ s.Complete P) :
    ∃ e, rank P (s.step P e) < rank P s := by
  obtain ⟨started, hat⟩ := id h
  have hle := hat.submitted_le
  by_cases hsub : s.submitted < P.tasks
  · refine ⟨.submit true, ?_⟩
    rcases rank_step (P := P) s (.submit true) with heq | hlt
    · have hsubmitted : (s.step P (.submit true)).submitted = s.submitted + 1 := by
        unfold State.step State.submit
        dsimp only
        rw [if_pos hsub]
      rw [heq] at hsubmitted
      omega
    · exact hlt
  · have hall : s.submitted = P.tasks := by omega
    have hopen : ∃ k, k < s.submitted ∧ s.done k = none := by
      by_contra hno
      refine hc ⟨hall, fun k hk hd => hno ⟨k, ?_, hd⟩⟩
      omega
    obtain ⟨k, hk, hd⟩ := hopen
    obtain ⟨k, hk, hd, hb, ⟨w, hw⟩ | ⟨hhead, w, hw⟩⟩ := progress h hk hd
    · unfold State.taskOf at hw
      obtain ⟨a, ha, hak⟩ := Option.bind_eq_some_iff.1 hw
      cases a with
      | idle => cases hak
      | running k' waited =>
        refine ⟨.finish w true, ?_⟩
        have hstep : s.step P (.finish w true) = ⟨s.submitted, s.queue, s.workers.set w .idle,
            Function.update s.done k' (some true)⟩ := by
          unfold State.step State.finish
          dsimp only
          rw [ha]
        rw [hstep]
        exact (Moves.finish (P := P) w k' waited true ha).rank_lt
      | waiting k' j =>
        obtain rfl := Option.some.inj hak
        have hj : s.done j ≠ none := fun hj => hb ⟨w, j, ha, hj⟩
        refine ⟨.resume w, ?_⟩
        have hstep : s.step P (.resume w) =
            ⟨s.submitted, s.queue, s.workers.set w (.running k' true), s.done⟩ := by
          unfold State.step State.resume
          dsimp only
          rw [ha]
          dsimp only
          rw [if_pos hj]
        rw [hstep]
        exact (Moves.resume (P := P) w k' j ha hj).rank_lt
    · obtain ⟨queue, hq⟩ : ∃ queue, s.queue = k :: queue := List.head?_eq_some_iff.1 hhead
      refine ⟨.take w, ?_⟩
      have hstep : s.step P (.take w) =
          ⟨s.submitted, queue, s.workers.set w (.running k false), s.done⟩ := by
        unfold State.step State.take
        dsimp only
        rw [hw, hq]
      rw [hstep]
      exact (Moves.take (P := P) w k queue hw hq).rank_lt

/-- **Every run can be completed.** -/
theorem completes {s : State} (h : Inv P s) : ∃ es, (s.run P es).Complete P := by
  induction hr : rank P s using Nat.strong_induction_on generalizing s with
  | _ r ih =>
    by_cases hc : s.Complete P
    · exact ⟨[], hc⟩
    · obtain ⟨e, he⟩ := exists_step h hc
      rw [hr] at he
      obtain ⟨es, hes⟩ := ih _ he (inv_step h e) rfl
      exact ⟨e :: es, hes⟩

end FifoPool
