import Scgrep.Proof.History
import Scgrep.Spec.Scheduler
import Scgrep.Spec.Tables

/-!
# The windows of a run

A cycle starts one interval and a delay after the one before (`schedulerLoop_eq`):
the delay is the lateness of the wait, and what the cycle overran.

* `windows_pairwise`: windows never overlap, whatever the delays.
* `noInstantSkipped_iff`: **windows are contiguous iff the fraction of the first start
  and all delays together stay below one second.** The wait is relative to each
  cycle's own start, so lateness adds up, and each time the sum passes a whole
  second one second belongs to no window.
* `counted_once`: an id with one time value is counted in one cycle at most.
-/

namespace Scgrep

open FloorWindow Redis

variable {cfg : Config} {its : List Iteration}

/-! ## Starts -/

/-- How much later than one interval after a cycle the next one starts. -/
def Iteration.delay (cfg : Config) (it : Iteration) : ℚ :=
  if (cfg.testInterval : ℚ) < it.took then it.took - cfg.testInterval + it.late else it.late

theorem nextStart_eq (cfg : Config) (started : ℚ) (it : Iteration) :
    nextStart cfg started it = started + cfg.testInterval + it.delay cfg := by
  simp only [nextStart, Iteration.delay]
  split <;> ring

/-- **The starts of the cycles**: one interval and a delay apart. -/
theorem schedulerLoop_eq (cfg : Config) (its : List Iteration) : ∀ started : ℚ,
    schedulerLoop cfg started its =
      instants cfg.testInterval started (its.map (Iteration.delay cfg)) := by
  induction its with
  | nil => intro started; rfl
  | cons it its ih =>
    intro started
    rw [schedulerLoop, ih, nextStart_eq]; rfl

theorem delay_nonneg (cfg : Config) (hlate : ∀ it ∈ its, 0 ≤ it.late) :
    ∀ d ∈ its.map (Iteration.delay cfg), 0 ≤ d := by
  intro d hd
  obtain ⟨it, hit, rfl⟩ := List.mem_map.1 hd
  have := hlate it hit
  unfold Iteration.delay
  split <;> linarith

/-- A cycle that does not overrun delays the next one by the lateness of the wait. -/
theorem delay_on_time (cfg : Config) (htook : ∀ it ∈ its, it.took ≤ cfg.testInterval) :
    its.map (Iteration.delay cfg) = its.map Iteration.late := by
  apply List.map_congr_left
  intro it hit
  unfold Iteration.delay
  rw [if_neg (not_lt.2 (htook it hit))]

/-- The windows are those of the starts on the wall clock. -/
theorem schedulerWindows_eq (cfg : Config) (offset boot firstLate : ℚ) (its : List Iteration) :
    schedulerWindows cfg offset boot firstLate its =
      (instants cfg.testInterval (boot + cfg.testInterval + firstLate + offset)
        (its.map (Iteration.delay cfg))).map (window cfg.timeLag cfg.testInterval) := by
  have hshift : ∀ (ds : List ℚ) (w : ℚ), (instants cfg.testInterval w ds).map (fun v => v + offset) =
      instants cfg.testInterval (w + offset) ds := by
    intro ds
    induction ds with
    | nil => intro w; rfl
    | cons d ds ih =>
      intro w
      simp only [instants, List.map_cons, ih]
      rw [show w + cfg.testInterval + d + offset = w + offset + cfg.testInterval + d by ring]
  unfold schedulerWindows schedulerRun
  rw [schedulerLoop_eq, ← hshift, List.map_map]
  rfl

/-! ## No gap -/

/-- The windows are contiguous, and every instant from the first to the last is in one. -/
def NoInstantSkipped (Ws : List Window) : Prop :=
  Ws.IsChain Window.Meets ∧ ∀ W V, Ws.head? = some W → Ws.getLast? = some V →
    ∀ x : ℚ, (W.start : ℚ) ≤ x → x < (V.stop : ℚ) → ∃ U ∈ Ws, U.Mem x

theorem noInstantSkipped_of_chain {Ws : List Window} (h : Ws.IsChain Window.Meets) :
    NoInstantSkipped Ws := by
  refine ⟨h, ?_⟩
  intro W V hW hV x h1 h2
  cases Ws with
  | nil => cases hW
  | cons W' l =>
    rw [List.head?_cons, Option.some.injEq] at hW
    subst hW
    rw [List.getLast?_eq_some_getLast (List.cons_ne_nil _ l), Option.some.injEq] at hV
    subst hV
    exact covers_of_contiguous h h1 h2

/-- **No instant is skipped** iff the fraction of a second at which the first cycle starts,
and the lateness of all waits, stay below one second together. -/
theorem noInstantSkipped_iff (cfg : Config) (offset boot firstLate : ℚ)
    (htook : ∀ it ∈ its, it.took ≤ cfg.testInterval) (hlate : ∀ it ∈ its, 0 ≤ it.late) :
    NoInstantSkipped (schedulerWindows cfg offset boot firstLate its) ↔
      Int.fract (boot + cfg.testInterval + firstLate + offset) + (its.map Iteration.late).sum < 1 := by
  rw [← delay_on_time cfg htook, ← contiguous_iff cfg.timeLag cfg.testInterval _ (delay_nonneg cfg hlate),
    schedulerWindows_eq]
  exact ⟨fun h => h.1, noInstantSkipped_of_chain⟩

/-- The service boots at a fraction of .995 and the wait of its first cycle returns 10 ms late. -/
theorem instant_skipped :
    schedulerWindows shippedConfig 0 (newYear + 995 / 1000) 0 [⟨285, 1 / 100⟩] =
        [⟨newYear - 300, newYear⟩, ⟨newYear + 1, newYear + 301⟩] ∧
      ¬ NoInstantSkipped
        (schedulerWindows shippedConfig 0 (newYear + 995 / 1000) 0 [⟨285, 1 / 100⟩]) := by
  have h : schedulerWindows shippedConfig 0 (newYear + 995 / 1000) 0 [⟨285, 1 / 100⟩] =
      [⟨newYear - 300, newYear⟩, ⟨newYear + 1, newYear + 301⟩] := by decide +kernel
  refine ⟨h, ?_⟩
  rw [h]
  rintro ⟨hc, -⟩
  rw [List.isChain_cons_cons] at hc
  exact absurd hc.1 (by unfold Window.Meets; decide)

theorem noInstantSkipped_sample :
    NoInstantSkipped
      (schedulerWindows shippedConfig 0 newYear 0 [⟨285, 1 / 100⟩, ⟨285, 1 / 50⟩]) :=
  (noInstantSkipped_iff shippedConfig 0 newYear 0 (by decide +kernel) (by decide +kernel)).2
    (by decide +kernel)

/-! ## No overlap -/

/-- **Windows never overlap.** -/
theorem windows_pairwise (hint : 0 ≤ cfg.testInterval) (offset boot firstLate : ℚ)
    (hlate : ∀ it ∈ its, 0 ≤ it.late) :
    (schedulerWindows cfg offset boot firstLate its).Pairwise Window.Before := by
  rw [schedulerWindows_eq]
  exact pairwise_before cfg.timeLag hint _ (delay_nonneg cfg hlate)

theorem windows_disjoint {Ws : List Window} (h : Ws.Pairwise Window.Before) {i j : ℕ} {W V : Window}
    (hi : Ws[i]? = some W) (hj : Ws[j]? = some V) (hij : i ≠ j) {x : ℚ} (hx : W.Mem x) :
    ¬ V.Mem x := by
  obtain ⟨hi', rfl⟩ := List.getElem?_eq_some_iff.1 hi
  obtain ⟨hj', rfl⟩ := List.getElem?_eq_some_iff.1 hj
  rcases Nat.lt_or_gt_of_ne hij with hlt | hgt
  · exact (List.pairwise_iff_getElem.1 h i j hi' hj' hlt).disjoint hx
  · intro hv
    exact (List.pairwise_iff_getElem.1 h j i hj' hi' hgt).disjoint hv hx

/-- When a count is taken: after that many operations of the history, at that clock reading. -/
structure Read where
  after : ℕ
  now : ℚ

/-- The store as the count finds it. -/
def Read.view (L : Lib) (S : RedisStore) (ops : List StoreOp) (r : Read) : View :=
  ⟨StoreOp.runAll L S (ops.take r.after) Db.empty, r.now⟩

/-- The ids a baseline count counts. -/
def receivedIds (v : View) (P : String) (W : Window) : Finset String :=
  zrange v.now (W.start : ℚ) (W.stop : ℚ) (v.db (topicKey P))

/-- The ids an `http` count counts. -/
def httpIds (v : View) (c P : String) (W : Window) : Finset String :=
  zrange v.now (W.start : ℚ) (W.stop : ℚ) (v.db (syncKey c P))

/-- The ids an `mqtt` count counts. -/
def mqttIds (v : View) (c P : String) (W : Window) : Finset String :=
  zrange v.now (W.start : ℚ) (W.stop : ℚ) (v.db (replayKey c P))

theorem countMessages_eq_card (v : View) (P : String) (W : Window) :
    countMessages v.now v.db P W.start W.stop = (receivedIds v P W).card := zcount_eq_card _ _ _ _

theorem countSyncMessages_eq_card (v : View) (c P : String) (W : Window) :
    countSyncMessages v.now v.db c P W.start W.stop = (httpIds v c P W).card := zcount_eq_card _ _ _ _

theorem countReplayMessages_eq_card (v : View) (c P : String) (W : Window) :
    countReplayMessages v.now v.db c P W.start W.stop = (mqttIds v c P W).card :=
  zcount_eq_card _ _ _ _

/-- A member of a set that an id with one time is counted in has that time in the window. -/
theorem mem_window_of_counted {L : Lib} {S : RedisStore} (he : 0 ≤ S.expiry) {x : String} {τ : ℚ}
    {ops : List StoreOp} (hx : StoreOp.OneTime L x τ ops) (r : Read) {k : String}
    (hk : keyFamily k ≠ some 'm') {W : Window}
    (h : x ∈ zrange (r.view L S ops).now (W.start : ℚ) (W.stop : ℚ) ((r.view L S ops).db k)) :
    W.Mem τ := by
  have hns : NotStr ((Db.empty : Db) k) := by intro y t h; cases h
  refine StoreOp.mem_zrange_scored (StoreOp.scored_runAll he hk _ hns (StoreOp.scored_none x τ) ?_) h
  exact fun op hop => hx op (List.mem_of_mem_take hop)

/-- **No message is counted in two cycles.** -/
theorem counted_once (L : Lib) (hint : 0 ≤ cfg.testInterval) (he : 0 ≤ cfg.redisExpiry)
    (offset boot firstLate : ℚ) (hlate : ∀ it ∈ its, 0 ≤ it.late) {i j : ℕ} {W V : Window}
    (hi : (schedulerWindows cfg offset boot firstLate its)[i]? = some W)
    (hj : (schedulerWindows cfg offset boot firstLate its)[j]? = some V) (hij : i ≠ j) :
    (∀ t : ℚ, W.Mem t → ¬ V.Mem t) ∧
      ∀ (ops : List StoreOp) (x : String) (τ : ℚ), StoreOp.OneTime L x τ ops →
        ∀ (r r' : Read) (P c : String),
          let v := r.view L cfg.store ops
          let v' := r'.view L cfg.store ops
          (countMessages v.now v.db P W.start W.stop = (receivedIds v P W).card ∧
              ¬ (x ∈ receivedIds v P W ∧ x ∈ receivedIds v' P V)) ∧
            (countSyncMessages v.now v.db c P W.start W.stop = (httpIds v c P W).card ∧
              ¬ (x ∈ httpIds v c P W ∧ x ∈ httpIds v' c P V)) ∧
            (countReplayMessages v.now v.db c P W.start W.stop = (mqttIds v c P W).card ∧
              ¬ (x ∈ mqttIds v c P W ∧ x ∈ mqttIds v' c P V)) := by
  have hdis : ∀ t : ℚ, W.Mem t → ¬ V.Mem t := fun t ht =>
    windows_disjoint (windows_pairwise hint offset boot firstLate hlate) hi hj hij ht
  refine ⟨hdis, ?_⟩
  intro ops x τ hx r r' P c
  have key : ∀ k, keyFamily k ≠ some 'm' →
      ¬ (x ∈ zrange r.now (W.start : ℚ) (W.stop : ℚ) ((r.view L cfg.store ops).db k) ∧
        x ∈ zrange r'.now (V.start : ℚ) (V.stop : ℚ) ((r'.view L cfg.store ops).db k)) := by
    rintro k hk ⟨h1, h2⟩
    exact hdis τ (mem_window_of_counted he hx r hk h1) (mem_window_of_counted he hx r' hk h2)
  exact ⟨⟨countMessages_eq_card _ P W, key _ (by simp)⟩,
    ⟨countSyncMessages_eq_card _ c P W, key _ (by simp)⟩,
    countReplayMessages_eq_card _ c P W, key _ (by simp)⟩

/-- A message on the boundary of two windows, which the service returns for both. -/
theorem counted_once_sample :
    let ops : List StoreOp := [.sync (newYear + 310) "c" "cache/a/wis2/#" "a" "2024-01-01T00:00:00Z",
      .sync (newYear + 610) "c" "cache/a/wis2/#" "a" "2024-01-01T00:00:00Z"]
    let v := (⟨1, newYear + 310⟩ : Read).view sampleTables.lib shippedConfig.store ops
    let v' := (⟨2, newYear + 610⟩ : Read).view sampleTables.lib shippedConfig.store ops
    ¬ ("a" ∈ httpIds v "c" "cache/a/wis2/#" ⟨newYear - 300, newYear⟩ ∧
      "a" ∈ httpIds v' "c" "cache/a/wis2/#" ⟨newYear, newYear + 300⟩) := by
  have h := @counted_once shippedConfig [⟨285, 1 / 100⟩] sampleTables.lib (by decide) (by decide)
    0 newYear 0 (by decide +kernel) 0 1 ⟨newYear - 300, newYear⟩ ⟨newYear, newYear + 300⟩
    (by decide +kernel) (by decide +kernel) (by decide)
  refine (h.2 _ "a" newYear ?_ _ _ _ _).2.1.2
  intro op hop v hv
  simp only [List.mem_cons, List.not_mem_nil, or_false] at hop
  rcases hop with rfl | rfl
  · obtain ⟨-, rfl⟩ := Prod.mk.inj (Option.some.inj hv)
    decide +kernel
  · obtain ⟨-, rfl⟩ := Prod.mk.inj (Option.some.inj hv)
    decide +kernel

end Scgrep
