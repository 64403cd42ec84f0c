import Scgrep.Proof.Accumulate
import Scgrep.Spec.Failing

/-!
# A failed cycle publishes nothing

All commands of the main thread come before the first metric is written.

* `runCycleFailing_commits`: the commands of a cycle, and what it writes when none raises.
* `mem_commands_iff`: which commands these are.
* `schedulerAttempts_exec`: a run of the scheduler attempts every cycle, and leaves the
  metrics of the cycles that did not fail.
* `failed_cycle_publishes_nothing`: **a cycle with a failing command leaves all metrics
  alone, and the counters of a run are the sums over its successful cycles.**
-/

namespace Scgrep

open Raising

variable {ε : Type} {cfg : Config}

namespace FailingEnv

/-! ## The commands of a cycle -/

def baselineCommands (cfg : Config) : List CycleCommand :=
  cfg.subscriptionTopics.zipIdx.map fun x => .baseline x.2

def clearCommands (cfg : Config) (key : String → String → String) (command : CycleCommand) :
    List CycleCommand :=
  let keys := cfg.replayCentreIds.flatMap fun centreId => cfg.store.topics.map (key centreId)
  if keys.isEmpty then [] else [command]

/-- The re-count of a future, if its result is counted again. -/
def recountCommands (k : ℕ) : Outcome → List CycleCommand
  | .error _ => []
  | .ok result => if recounted result then [.recount k] else []

/-- The commands of the main thread, in their order. -/
def commands (cfg : Config) (F : FailingEnv ε) : List CycleCommand :=
  baselineCommands cfg ++ (clearCommands cfg replayKey .clearReplay ++
    (clearCommands cfg syncKey .clearSync ++ (cfg.cells.zipIdx.flatMap fun x =>
      recountCommands (2 * x.2) (F.sync x.2) ++ recountCommands (2 * x.2 + 1) (F.async x.2))))

/-- No command of the cycle raises. -/
def succeeds (cfg : Config) (F : FailingEnv ε) : Bool :=
  (F.commands cfg).all fun c => (F.raises c).isNone

/-- The results of a cycle, cell by cell. -/
def resultLists (cfg : Config) (F : FailingEnv ε) : List (List CellResult) :=
  cfg.cells.zipIdx.map fun x =>
    Scgrep.collect (cycleWindow cfg F.now) (F.syncRecount x.2) x.1 (F.sync x.2) ++
      Scgrep.collect (cycleWindow cfg F.now) (F.asyncRecount x.2) x.1 (F.async x.2)

variable (cfg) (F : FailingEnv ε)

theorem readBaselines_issues :
    Issues F.raises (F.readBaselines cfg) (baselineCommands cfg) (F.counts cfg) := by
  have hone : ∀ x : String × ℕ, Issues F.raises
      (issue F.raises (.baseline x.2) >>= fun _ => pure (x.1, F.baselineAt cfg x.2 x.1) :
        Prog ε Metrics (String × ℕ))
      [.baseline x.2] (x.1, F.baselineAt cfg x.2 x.1) := fun x => (issues_command _).map _
  have h := issues_mapM hone cfg.subscriptionTopics.zipIdx
  rw [← List.map_eq_flatMap] at h
  exact h

theorem clear_issues (key : String → String → String) (command : CycleCommand) :
    Issues F.raises (F.clear cfg key command) (clearCommands cfg key command) ⟨⟩ := by
  unfold FailingEnv.clear clearCommands
  dsimp only
  split
  · exact issues_pure _
  · exact issues_command _

theorem collect_issues (k : ℕ) (v : View) (cell : Cell) (out : Outcome) :
    Issues F.raises (F.collect cfg k v cell out) (recountCommands k out)
      (Scgrep.collect (cycleWindow cfg F.now) v cell out) := by
  cases out with
  | error e => exact issues_pure _
  | ok r =>
    unfold FailingEnv.collect recountCommands Scgrep.collect
    dsimp only
    split
    · exact (issues_command _).map _
    · exact issues_pure _

theorem readResults_issues :
    Issues F.raises (F.readResults cfg)
      (cfg.cells.zipIdx.flatMap fun x =>
        recountCommands (2 * x.2) (F.sync x.2) ++ recountCommands (2 * x.2 + 1) (F.async x.2))
      (F.resultLists cfg) := by
  refine issues_mapM ?_ cfg.cells.zipIdx
  rintro ⟨cell, i⟩
  have hsync := collect_issues cfg F (2 * i) (F.syncRecount i) cell (F.sync i)
  have hasync := collect_issues cfg F (2 * i + 1) (F.asyncRecount i) cell (F.async i)
  exact hsync.bind (hasync.map _)

/-- All metrics are written in the publication loops. -/
theorem publication_commits (d : Dict String ℕ) (results : List CellResult) :
    Commits F.raises (publication cfg d results) [] (publishAll cfg d results) := by
  refine commits_write fun m => ?_
  -- neither loop issues a command, so neither raises
  have hinc := exec_forM_modify (ε := ε)
    (fun c : String × ℕ => incReceived cfg.sensorCentreId c.1 c.2) d.items m
  unfold publication publishAll
  rw [exec_bind_ok hinc]
  exact exec_forM_modify (fun r : CellResult => publish (r.labels cfg) r.result) results _

/-- **A cycle publishes all of its results, or nothing when one of its commands raises.** -/
theorem runCycleFailing_commits :
    Commits F.raises (runCycleFailing cfg F) (F.commands cfg) (runCycle cfg F.toCycleEnv) := by
  have hpub := publication_commits cfg F (baselineDict (F.counts cfg)) (F.resultLists cfg).flatten
  have hres := (readResults_issues cfg F).commit
    (f := fun results => publication cfg (baselineDict (F.counts cfg)) results.flatten) hpub
  rw [List.append_nil] at hres
  have hreplay := clear_issues cfg F replayKey .clearReplay
  have hsync := clear_issues cfg F syncKey .clearSync
  unfold runCycleFailing
  exact (readBaselines_issues cfg F).commit (hreplay.commit (hsync.commit hres))

omit F in
theorem mem_baselineCommands {c : CycleCommand} :
    c ∈ baselineCommands cfg ↔ ∃ k, k < cfg.subscriptionTopics.length ∧ c = .baseline k := by
  unfold baselineCommands
  rw [List.mem_map]
  constructor
  · rintro ⟨⟨topic, k⟩, hx, rfl⟩
    obtain ⟨hk, -⟩ := List.getElem?_eq_some_iff.1 (List.mem_zipIdx_iff_getElem?.1 hx)
    exact ⟨k, hk, rfl⟩
  · rintro ⟨k, hk, rfl⟩
    refine ⟨(cfg.subscriptionTopics[k], k), ?_, rfl⟩
    exact List.mem_zipIdx_iff_getElem?.2 (List.getElem?_eq_getElem hk)

omit F in
theorem mem_clearCommands {key : String → String → String} {command c : CycleCommand} :
    c ∈ clearCommands cfg key command ↔
      c = command ∧ cfg.replayCentreIds ≠ [] ∧ cfg.subscriptionTopics ≠ [] := by
  have hkeys : (cfg.replayCentreIds.flatMap fun centreId => cfg.store.topics.map (key centreId)) = [] ↔
      cfg.replayCentreIds = [] ∨ cfg.subscriptionTopics = [] := by
    rw [List.flatMap_eq_nil_iff]
    simp only [List.map_eq_nil_iff]
    cases cfg.replayCentreIds with
    | nil => simp
    | cons c cs =>
      simp only [Config.store, List.mem_cons, forall_eq_or_imp, reduceCtorEq, false_or, and_iff_left_iff_imp]
      exact fun h _ _ => h
  unfold clearCommands
  simp only [List.isEmpty_iff, hkeys]
  by_cases h : cfg.replayCentreIds = [] ∨ cfg.subscriptionTopics = []
  · rw [if_pos h]
    simp only [List.not_mem_nil, false_iff]
    tauto
  · rw [if_neg h, List.mem_singleton]
    tauto

omit cfg F in
theorem mem_recountCommands {k : ℕ} {out : Outcome} {c : CycleCommand} :
    c ∈ recountCommands k out ↔
      c = .recount k ∧ ∃ r : FetchResult, r.aborted = false ∧ out = .ok r := by
  cases out with
  | error e => simp [recountCommands]
  | ok r =>
    -- both protocols are re-counted
    have hr : recounted r = !r.aborted := by
      unfold recounted
      cases r.protocol <;> cases r.aborted <;> rfl
    unfold recountCommands
    cases h : r.aborted <;> simp [hr, h]

/-- Which commands a cycle issues when none raises: a count for each topic, the clears unless there is
nothing to clear, and a re-count for each future with a result that was not aborted. -/
def Issued : CycleCommand → Prop
  | .baseline k => k < cfg.subscriptionTopics.length
  | .clearReplay | .clearSync => cfg.replayCentreIds ≠ [] ∧ cfg.subscriptionTopics ≠ []
  | .recount k => k / 2 < cfg.cells.length ∧ ∃ r : FetchResult, r.aborted = false ∧
      (if k % 2 = 0 then F.sync (k / 2) else F.async (k / 2)) = .ok r

/-- They are the commands of the program. -/
theorem mem_commands_iff (c : CycleCommand) : c ∈ F.commands cfg ↔ F.Issued cfg c := by
  have hcells : ∀ i, (∃ cell, (cell, i) ∈ cfg.cells.zipIdx) ↔ i < cfg.cells.length := by
    intro i
    constructor
    · rintro ⟨cell, hx⟩
      exact (List.getElem?_eq_some_iff.1 (List.mem_zipIdx_iff_getElem?.1 hx)).1
    · intro hi
      exact ⟨cfg.cells[i], List.mem_zipIdx_iff_getElem?.2 (List.getElem?_eq_getElem hi)⟩
  unfold commands Issued
  simp only [List.mem_append, mem_baselineCommands, mem_clearCommands, List.mem_flatMap,
    mem_recountCommands]
  cases c with
  | baseline k => simp
  | clearReplay => simp
  | clearSync => simp
  | recount k =>
    simp only [reduceCtorEq, and_false, false_and, exists_false, false_or, CycleCommand.recount.injEq]
    constructor
    · rintro ⟨⟨cell, i⟩, hx, ⟨hk, r, hr, hout⟩ | ⟨hk, r, hr, hout⟩⟩
      · have hi : k / 2 = i := by omega
        have heven : k % 2 = 0 := by omega
        rw [if_pos heven, hi]
        exact ⟨(hcells i).1 ⟨cell, hx⟩, r, hr, hout⟩
      · have hi : k / 2 = i := by omega
        have hodd : ¬ k % 2 = 0 := by omega
        rw [if_neg hodd, hi]
        exact ⟨(hcells i).1 ⟨cell, hx⟩, r, hr, hout⟩
    · rintro ⟨hi, r, hr, hout⟩
      obtain ⟨cell, hx⟩ := (hcells (k / 2)).2 hi
      refine ⟨(cell, k / 2), hx, ?_⟩
      by_cases heven : k % 2 = 0
      · rw [if_pos heven] at hout
        exact .inl ⟨by omega, r, hr, hout⟩
      · rw [if_neg heven] at hout
        exact .inr ⟨by omega, r, hr, hout⟩

theorem succeeds_iff : F.succeeds cfg = true ↔ ∀ c ∈ F.commands cfg, F.raises c = none := by
  unfold succeeds
  rw [List.all_eq_true]
  exact forall₂_congr fun c _ => Option.isNone_iff_eq_none

/-- What an attempt at the cycle leaves of the metrics. -/
theorem attempt_metrics (m : Metrics) : ((runCycleFailing cfg F).exec m).2 =
    if F.succeeds cfg then runCycle cfg F.toCycleEnv m else m := by
  have hcommit := runCycleFailing_commits cfg F
  by_cases hs : F.succeeds cfg = true
  · rw [if_pos hs, hcommit.returns ((succeeds_iff cfg F).1 hs) m]
  · have hfail : ∃ c ∈ F.commands cfg, F.raises c ≠ none := by
      by_contra hno
      refine hs ((succeeds_iff cfg F).2 fun c hc => ?_)
      by_contra hr
      exact hno ⟨c, hc, hr⟩
    obtain ⟨c, hc, hr⟩ := hfail
    obtain ⟨e, he⟩ := hcommit.fails hc hr m
    rw [if_neg hs, he]

end FailingEnv

/-! ## A run of the scheduler -/

/-- The cycles of a run that did not fail. -/
def successful (cfg : Config) (as : List (Attempt ε)) : List CycleEnv :=
  (as.filter fun a => a.env.succeeds cfg).map fun a => a.env.toCycleEnv

/-- **The scheduler attempts every cycle**, and the metrics are those of the cycles that did not fail. -/
theorem schedulerAttempts_exec (cfg : Config) (as : List (Attempt ε)) : ∀ (started : ℚ) (m : Metrics),
    (schedulerAttempts cfg started as).exec m =
      (.ok (schedulerLoop cfg started (as.map Attempt.iteration)), runCycles cfg (successful cfg as) m) := by
  induction as with
  | nil => intro started m; rfl
  | cons a as ih =>
    intro started m
    have hrest := ih (nextStart cfg started a.iteration) ((runCycleFailing cfg a.env).exec m).2
    have htail : successful cfg (a :: as) =
        (if a.env.succeeds cfg then [a.env.toCycleEnv] else []) ++ successful cfg as := by
      unfold successful
      rw [List.filter_cons]
      split <;> rfl
    have hruns : runCycles cfg (successful cfg (a :: as)) m =
        runCycles cfg (successful cfg as) ((runCycleFailing cfg a.env).exec m).2 := by
      rw [htail, FailingEnv.attempt_metrics]
      unfold runCycles
      rw [List.foldl_append]
      split <;> rfl
    rw [schedulerAttempts, exec_bind_ok (exec_tryCatch _ m), exec_bind_ok hrest, hruns]
    rfl

/-! ## Counters -/

/-- What a cycle that publishes adds to a series of `messages_received`. -/
def CycleEnv.receivedInc (cfg : Config) (E : CycleEnv) (x : String × String) : ℤ :=
  if x.1 = cfg.sensorCentreId then (((baselineDict (E.counts cfg)).get? x.2).getD 0 : ℕ) else 0

/-- What it adds to a series of `messages_fetched`. -/
def CycleEnv.fetchedInc (cfg : Config) (E : CycleEnv) (l : Labels) : ℤ :=
  ((E.results cfg).map fun r => if r.labels cfg = l then r.result.messagesFetched else 0).sum

theorem incReceived_fold_other {x : String × String} (hx : x.1 ≠ cfg.sensorCentreId)
    (items : List (String × ℕ)) : ∀ m : Metrics,
    (items.foldl (fun m c => incReceived cfg.sensorCentreId c.1 c.2 m) m).messagesReceived x =
      m.messagesReceived x := by
  induction items with
  | nil => intro m; rfl
  | cons c items ih =>
    intro m
    have hne : x ≠ (cfg.sensorCentreId, c.1) := fun h => hx (congrArg Prod.fst h)
    rw [List.foldl_cons, ih]
    exact Function.update_of_ne hne _ _

theorem runCycle_receivedInc (E : CycleEnv) (m : Metrics) (x : String × String) :
    (runCycle cfg E m).messagesReceived x = m.messagesReceived x + E.receivedInc cfg x := by
  unfold CycleEnv.receivedInc
  obtain ⟨r, P⟩ := x
  by_cases hr : r = cfg.sensorCentreId
  · subst hr
    rw [if_pos rfl]
    exact publishAll_received cfg _ _ m P
  · rw [if_neg hr, add_zero]
    unfold runCycle publishAll
    rw [publish_fold_received, incReceived_fold_other hr]

theorem runCycle_fetchedInc (E : CycleEnv) (m : Metrics) (l : Labels) :
    (runCycle cfg E m).messagesFetched l = m.messagesFetched l + E.fetchedInc cfg l :=
  publishAll_fetched cfg _ _ m l

/-- **A failed cycle publishes nothing.** Whatever commands of its own raise, a cycle with one of
them raises and leaves all metrics as they were. A run of the scheduler attempts all cycles, and
each counter gains the increments of the successful ones. -/
theorem failed_cycle_publishes_nothing (cfg : Config) :
    (∀ (F : FailingEnv ε) (c : CycleCommand), F.Issued cfg c → F.raises c ≠ none →
        ∀ m, ∃ e, (runCycleFailing cfg F).exec m = (.error e, m)) ∧
      (∀ F : FailingEnv ε, (∀ c, F.Issued cfg c → F.raises c = none) →
        ∀ m, (runCycleFailing cfg F).exec m = (.ok ⟨⟩, runCycle cfg F.toCycleEnv m)) ∧
      ∀ (as : List (Attempt ε)) (started : ℚ) (m : Metrics), ∃ m' : Metrics,
        (schedulerAttempts cfg started as).exec m =
            (.ok (schedulerLoop cfg started (as.map Attempt.iteration)), m') ∧
          m' = runCycles cfg (successful cfg as) m ∧
          (∀ x, m'.messagesReceived x = m.messagesReceived x +
            ((successful cfg as).map fun E => E.receivedInc cfg x).sum) ∧
          ∀ l, m'.messagesFetched l = m.messagesFetched l +
            ((successful cfg as).map fun E => E.fetchedInc cfg l).sum := by
  refine ⟨?_, ?_, ?_⟩
  · intro F c hc hr m
    exact (FailingEnv.runCycleFailing_commits cfg F).fails ((F.mem_commands_iff cfg c).2 hc) hr m
  · intro F hn m
    exact (FailingEnv.runCycleFailing_commits cfg F).returns
      (fun c hc => hn c ((F.mem_commands_iff cfg c).1 hc)) m
  · intro as started m
    refine ⟨_, schedulerAttempts_exec cfg as started m, rfl, ?_, ?_⟩
    · intro x
      exact runCycles_sum (fun m => m.messagesReceived x) (fun E => E.receivedInc cfg x) _
        (fun E _ m => runCycle_receivedInc E m x) m
    · intro l
      exact runCycles_sum (fun m => m.messagesFetched l) (fun E => E.fetchedInc cfg l) _
        (fun E _ m => runCycle_fetchedInc E m l) m

/-- The connection is lost at the re-count of the synchronous fetch. -/
def lostRecount : FailingEnv String :=
  ⟨fullCycle sampleTables.lib shippedConfig "" sampleCall,
    fun c => if c = .recount 0 then some "ConnectionError" else none⟩

/-- The cycle before it and the one after it. -/
def keptCycle : FailingEnv String :=
  ⟨fullCycle sampleTables.lib shippedConfig "" sampleCall, fun _ => none⟩

/-- Of three cycles the second one fails. -/
theorem failed_cycle_sample :
    (∃ e, (runCycleFailing shippedConfig lostRecount).exec Metrics.new = (.error e, Metrics.new)) ∧
      ∃ m', (schedulerAttempts shippedConfig 300
          [⟨keptCycle, ⟨285, 0⟩⟩, ⟨lostRecount, ⟨285, 0⟩⟩, ⟨keptCycle, ⟨285, 0⟩⟩]).exec Metrics.new =
            (.ok [300, 600, 900, 1200], m') ∧
        m'.messagesReceived ("int-wmo", "cache/a/wis2/#") = 2 := by
  obtain ⟨hfail, -, hrun⟩ := @failed_cycle_publishes_nothing String shippedConfig
  have hissued : lostRecount.Issued shippedConfig (.recount 0) := ⟨by decide, _, rfl, rfl⟩
  refine ⟨hfail lostRecount (.recount 0) hissued (by decide +kernel) Metrics.new, ?_⟩
  obtain ⟨m', hexec, -, hreceived, -⟩ := hrun
    [⟨keptCycle, ⟨285, 0⟩⟩, ⟨lostRecount, ⟨285, 0⟩⟩, ⟨keptCycle, ⟨285, 0⟩⟩] 300 Metrics.new
  have hstarts : schedulerLoop shippedConfig 300 [⟨285, 0⟩, ⟨285, 0⟩, ⟨285, 0⟩] = [300, 600, 900, 1200] := by
    decide +kernel
  refine ⟨m', hexec.trans (by rw [← hstarts]; rfl), ?_⟩
  rw [hreceived]
  decide +kernel

end Scgrep
