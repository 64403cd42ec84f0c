import Scgrep.Proof.Publish
import Scgrep.Proof.WorldStep

/-!
# A run that publishes is a `run_cycle`

`worldAt w₀ es n` is the world after the first `n` events of a run.

* `now_mono`, `phase_mono`: the clock and the main thread never go back.
* `main_run`: what the main thread has done so far: when it counted the baselines,
  and after which event it re-counted which future.
* `published_spec`: **the metrics an interleaved cycle publishes are those of
  `runCycle`** for what it read at these instants.
-/

namespace Scgrep

variable {E : Ctx} {w₀ : World} {es : List Event}

/-- The world after the first `n` events. -/
def worldAt (E : Ctx) (w₀ : World) (es : List Event) (n : ℕ) : World := w₀.run E (es.take n)

theorem worldAt_zero : worldAt E w₀ es 0 = w₀ := by
  unfold worldAt; rw [List.take_zero]; rfl

theorem worldAt_succ {n : ℕ} {e : Event} (h : es[n]? = some e) :
    worldAt E w₀ es (n + 1) = (worldAt E w₀ es n).step E e := by
  unfold worldAt
  rw [List.take_add_one, h, Option.toList_some, run_snoc]

theorem worldAt_end {n : ℕ} (h : es.length ≤ n) : worldAt E w₀ es n = w₀.run E es := by
  unfold worldAt; rw [List.take_of_length_le h]

theorem worldAt_add {n m : ℕ} (h : n ≤ m) :
    worldAt E w₀ es m = (worldAt E w₀ es n).run E ((es.take m).drop n) := by
  have hd : es.take n = (es.take m).take n := by rw [List.take_take, min_eq_left h]
  unfold worldAt
  rw [hd, ← run_append, List.take_append_drop]

/-- What every step keeps is kept from one instant to a later one. -/
theorem keeps_from {P : World → Prop} (hstep : ∀ w e, P w → P (w.step E e)) {n m : ℕ} (h : n ≤ m)
    (hn : P (worldAt E w₀ es n)) : P (worldAt E w₀ es m) := by
  rw [worldAt_add h]; exact run_keeps hstep _ _ hn

/-- What every step keeps is kept to the end. -/
theorem keeps_end {P : World → Prop} (hstep : ∀ w e, P w → P (w.step E e)) {n : ℕ}
    (hn : P (worldAt E w₀ es n)) : P (w₀.run E es) := by
  rw [← List.take_append_drop n es, run_append]; exact run_keeps hstep _ _ hn

/-- A fetch that is over at some instant has that outcome at the end. -/
theorem async_at_end {n i : ℕ} {out : Outcome} (h : (worldAt E w₀ es n).async i = .finished out) :
    (w₀.run E es).async i = .finished out :=
  keeps_end (P := fun w => w.async i = .finished out) (fun _ e h => async_finished_step h e) h

theorem now_mono {n m : ℕ} (h : n ≤ m) : (worldAt E w₀ es n).now ≤ (worldAt E w₀ es m).now := by
  rw [worldAt_add h]; exact now_run _ _

theorem now_start (n : ℕ) : w₀.now ≤ (worldAt E w₀ es n).now := now_run _ _

theorem now_end (n : ℕ) : (worldAt E w₀ es n).now ≤ (w₀.run E es).now := by
  conv_rhs => rw [← List.take_append_drop n es, run_append]
  exact now_run _ _

/-- Of two instants, that with the smaller clock reading comes first. -/
theorem lt_of_now_lt {n m : ℕ} (h : (worldAt E w₀ es n).now < (worldAt E w₀ es m).now) : n < m := by
  by_contra hle
  have hge : (worldAt E w₀ es m).now ≤ (worldAt E w₀ es n).now := now_mono (not_lt.1 hle)
  exact absurd h (not_lt.2 hge)

/-! ## The main thread -/

/-- How far the main thread is: before the baselines, before the clearing, at the futures,
at the end. -/
def MainState.phase : MainState → ℕ
  | .begin => 0
  | .counted => 1
  | .collecting _ => 2
  | .published => 3

/-- The main thread never goes back. -/
theorem phase_step (w : World) (e : Event) : w.main.phase ≤ (w.step E e).main.phase := by
  have h := step_spec (E := E) w e
  generalize w.step E e = w' at h
  cases h with
  | readBaselines hm => rw [hm]; exact Nat.zero_le _
  | clear hm => rw [hm]; exact Nat.le_succ 1
  | collect hm hc hf => rw [hm]; exact le_rfl
  | publish hm hk hd => rw [hm]; exact Nat.le_succ 2
  | _ => exact le_rfl

theorem phase_mono {n m : ℕ} (h : n ≤ m) :
    (worldAt E w₀ es n).main.phase ≤ (worldAt E w₀ es m).main.phase :=
  keeps_from (P := fun w => (worldAt E w₀ es n).main.phase ≤ w.main.phase)
    (fun w e hw => hw.trans (phase_step w e)) h le_rfl

/-- Of two instants, that at which the main thread is less far comes first. -/
theorem lt_of_phase_lt {n m : ℕ}
    (h : (worldAt E w₀ es n).main.phase < (worldAt E w₀ es m).main.phase) : n < m := by
  by_contra hle
  have hge : (worldAt E w₀ es m).main.phase ≤ (worldAt E w₀ es n).main.phase :=
    phase_mono (not_lt.1 hle)
  omega

/-- While its fetches are submitted, the main thread is at the futures. -/
theorem World.Fetches.phase {w : World} {i : ℕ} {cell : Cell} (h : w.Fetches E i cell) :
    w.main.phase = 2 := by
  have hsub := h.2
  unfold World.submitted at hsub
  cases hm : w.main with
  | collecting k => rfl
  | _ => rw [hm] at hsub; cases hsub

/-- The results of the `k`-th future, re-counted in this world. -/
def collectedAt (E : Ctx) (w : World) (k : ℕ) : List CellResult :=
  match E.cfg.cells[k / 2]?, w.future k with
  | some cell, some out => collect E.window (w.view E) cell out
  | _, _ => []

/-- The `n`-th event re-counts the `k`-th future. -/
def CollectsAt (E : Ctx) (w₀ : World) (es : List Event) (n k : ℕ) : Prop :=
  es[n]? = some .collect ∧ (worldAt E w₀ es n).main = .collecting k ∧
    (∃ cell, E.cfg.cells[k / 2]? = some cell) ∧ ∃ out, (worldAt E w₀ es n).future k = some out

/-- The `n`-th event counts the baselines. -/
def ReadsAt (E : Ctx) (w₀ : World) (es : List Event) (n : ℕ) : Prop :=
  es[n]? = some .readBaselines ∧ (worldAt E w₀ es n).main = .begin

/-- What the main thread has done before the `n`-th event: the baselines counted at event `b`,
and the first `k` futures re-counted at the events `c`. -/
structure Progress (E : Ctx) (w₀ : World) (es : List Event) (n b : ℕ) (c : ℕ → ℕ) (k : ℕ) :
    Prop where
  reads : b < n ∧ ReadsAt E w₀ es b
  baselines : (worldAt E w₀ es n).baselines =
    baselineDict ((worldAt E w₀ es b).baselineCounts E)
  collects : ∀ j < k, c j < n ∧ CollectsAt E w₀ es (c j) j
  results : (worldAt E w₀ es n).results =
    (List.range k).flatMap fun j => collectedAt E (worldAt E w₀ es (c j)) j

/-- What the main thread has done, by where it stands. -/
def MainSpec (E : Ctx) (w₀ : World) (es : List Event) (n : ℕ) : Prop :=
  match (worldAt E w₀ es n).main with
  | .begin => (worldAt E w₀ es n).results = [] ∧ (worldAt E w₀ es n).metrics = w₀.metrics
  | .counted => (∃ b c, Progress E w₀ es n b c 0) ∧ (worldAt E w₀ es n).metrics = w₀.metrics
  | .collecting k => (∃ b c, Progress E w₀ es n b c k) ∧ (worldAt E w₀ es n).metrics = w₀.metrics
  | .published => (∃ b c, Progress E w₀ es n b c (2 * E.cfg.cells.length)) ∧
      (worldAt E w₀ es n).metrics = publishAll E.cfg (worldAt E w₀ es n).baselines
        (worldAt E w₀ es n).results w₀.metrics

/-- A step that leaves the baselines and the results alone keeps the progress. -/
theorem Progress.succ {n b k : ℕ} {c : ℕ → ℕ} (h : Progress E w₀ es n b c k)
    (hb : (worldAt E w₀ es (n + 1)).baselines = (worldAt E w₀ es n).baselines)
    (hr : (worldAt E w₀ es (n + 1)).results = (worldAt E w₀ es n).results) :
    Progress E w₀ es (n + 1) b c k := by
  obtain ⟨hlt, hreads⟩ := h.reads
  refine ⟨⟨by omega, hreads⟩, hb.trans h.baselines, fun j hj => ?_, hr.trans h.results⟩
  obtain ⟨h1, h2⟩ := h.collects j hj
  exact ⟨by omega, h2⟩

/-- A collected future is one more. -/
theorem Progress.collect {n b k : ℕ} {c : ℕ → ℕ} (h : Progress E w₀ es n b c k)
    (hc : CollectsAt E w₀ es n k)
    (hb : (worldAt E w₀ es (n + 1)).baselines = (worldAt E w₀ es n).baselines)
    (hr : (worldAt E w₀ es (n + 1)).results =
      (worldAt E w₀ es n).results ++ collectedAt E (worldAt E w₀ es n) k) :
    Progress E w₀ es (n + 1) b (Function.update c k n) (k + 1) := by
  have hold : ∀ j < k, Function.update c k n j = c j := fun j hj =>
    Function.update_of_ne (by omega) ..
  obtain ⟨hlt, hreads⟩ := h.reads
  refine ⟨⟨by omega, hreads⟩, hb.trans h.baselines, fun j hj => ?_, ?_⟩
  · by_cases hjk : j = k
    · rw [hjk, Function.update_self]; exact ⟨by omega, hc⟩
    · obtain ⟨h1, h2⟩ := h.collects j (by omega)
      rw [hold j (by omega)]; exact ⟨by omega, h2⟩
  · rw [hr, h.results, List.range_succ, List.flatMap_append, List.flatMap_singleton,
      Function.update_self]
    congr 1
    refine List.flatMap_congr fun j hj => ?_
    rw [hold j (List.mem_range.1 hj)]

/-- A step that leaves the main thread alone keeps what it has done. -/
theorem MainSpec.same {n : ℕ} {w' : World} (h : MainSpec E w₀ es n)
    (hw : worldAt E w₀ es (n + 1) = w') (hm : w'.main = (worldAt E w₀ es n).main)
    (hb : w'.baselines = (worldAt E w₀ es n).baselines)
    (hr : w'.results = (worldAt E w₀ es n).results)
    (hx : w'.metrics = (worldAt E w₀ es n).metrics) : MainSpec E w₀ es (n + 1) := by
  rw [← hw] at hm hb hr hx
  unfold MainSpec at h ⊢
  rw [hm, hx]
  cases hmain : (worldAt E w₀ es n).main with
  | begin => rw [hmain] at h; rw [hr]; exact h
  | counted =>
    rw [hmain] at h
    obtain ⟨⟨b, c, hp⟩, hmet⟩ := h
    exact ⟨⟨b, c, hp.succ hb hr⟩, hmet⟩
  | collecting k =>
    rw [hmain] at h
    obtain ⟨⟨b, c, hp⟩, hmet⟩ := h
    exact ⟨⟨b, c, hp.succ hb hr⟩, hmet⟩
  | published =>
    rw [hmain] at h
    obtain ⟨⟨b, c, hp⟩, hmet⟩ := h
    rw [hb, hr]
    exact ⟨⟨b, c, hp.succ hb hr⟩, hmet⟩

/-- **What the main thread has done**, at every instant of a run. -/
theorem main_run (hm : w₀.main = .begin) (hr : w₀.results = []) {n : ℕ} (hn : n ≤ es.length) :
    MainSpec E w₀ es n := by
  induction n with
  | zero =>
    unfold MainSpec
    rw [worldAt_zero, hm]
    exact ⟨hr, rfl⟩
  | succ n ih =>
    have ih := ih (by omega)
    obtain ⟨e, he⟩ : ∃ e, es[n]? = some e := ⟨es[n], List.getElem?_eq_getElem (by omega)⟩
    have h := step_spec (E := E) (worldAt E w₀ es n) e
    rw [← worldAt_succ he] at h
    generalize hw : worldAt E w₀ es (n + 1) = w' at h
    cases h with
    | readBaselines hmain =>
      unfold MainSpec at ih ⊢
      rw [hmain] at ih
      rw [hw]
      refine ⟨⟨n, fun _ => 0, ⟨by omega, he, hmain⟩, by rw [hw], fun j hj => by omega, ?_⟩, ih.2⟩
      rw [hw]
      exact ih.1
    | clear hmain =>
      unfold MainSpec at ih ⊢
      rw [hmain] at ih
      rw [hw]
      obtain ⟨⟨b, c, hp⟩, hmet⟩ := ih
      exact ⟨⟨b, c, hp.succ (by rw [hw]) (by rw [hw])⟩, hmet⟩
    | collect hmain hc hf =>
      unfold MainSpec at ih ⊢
      rw [hmain] at ih
      rw [hw]
      obtain ⟨⟨b, c, hp⟩, hmet⟩ := ih
      refine ⟨⟨b, _, hp.collect ⟨he, hmain, ⟨_, hc⟩, _, hf⟩ (by rw [hw]) ?_⟩, hmet⟩
      rw [hw]
      unfold collectedAt
      rw [hc, hf]
    | publish hmain hk hd =>
      unfold MainSpec at ih ⊢
      rw [hmain, hk] at ih
      rw [hw]
      obtain ⟨⟨b, c, hp⟩, hmet⟩ := ih
      refine ⟨⟨b, c, hp.succ (by rw [hw]) (by rw [hw])⟩, ?_⟩
      dsimp only
      rw [hmet]
    | _ =>
      -- no other step is one of the main thread
      exact ih.same hw rfl rfl rfl rfl

/-! ## The cycle of a run -/

/-- What a run reads from outside: the baselines at event `b`, the re-counts at the events `c`. -/
def cycleOf (E : Ctx) (w₀ : World) (es : List Event) (b : ℕ) (c : ℕ → ℕ) : CycleEnv where
  now := E.wall E.started
  baseline _ := (worldAt E w₀ es b).view E
  sync i := ((worldAt E w₀ es (c (2 * i))).future (2 * i)).getD (.error .valueError)
  async i := ((worldAt E w₀ es (c (2 * i + 1))).future (2 * i + 1)).getD (.error .valueError)
  syncRecount i := (worldAt E w₀ es (c (2 * i))).view E
  asyncRecount i := (worldAt E w₀ es (c (2 * i + 1))).view E

theorem counts_cycleOf (b : ℕ) (c : ℕ → ℕ) :
    (cycleOf E w₀ es b c).counts E.cfg = (worldAt E w₀ es b).baselineCounts E := by
  unfold CycleEnv.counts World.baselineCounts
  conv_rhs => rw [← List.zipIdx_map_fst 0 E.cfg.subscriptionTopics]
  rw [List.map_map]
  rfl

/-- A list walked in pairs. -/
theorem flatMap_pairs {α : Type} (f : ℕ → List α) (n : ℕ) :
    (List.range (2 * n)).flatMap f = (List.range n).flatMap fun i => f (2 * i) ++ f (2 * i + 1) := by
  induction n with
  | zero => rfl
  | succ n ih =>
    rw [show 2 * (n + 1) = 2 * n + 1 + 1 by omega, List.range_succ, List.range_succ, List.range_succ]
    simp only [List.flatMap_append, List.flatMap_singleton, ih, List.append_assoc]

theorem zipIdx_flatMap {α β : Type} (l : List α) (f : α → ℕ → List β) (g : ℕ → List β)
    (h : ∀ i x, l[i]? = some x → g i = f x i) :
    (List.range l.length).flatMap g = l.zipIdx.flatMap fun x => f x.1 x.2 := by
  have hz : List.range l.length = l.zipIdx.map Prod.snd := by
    rw [List.zipIdx_map_snd, List.range_eq_range']
  rw [hz, List.flatMap_map]
  refine List.flatMap_congr fun x hx => ?_
  exact h x.2 x.1 (List.mem_zipIdx_iff_getElem?.1 hx)

/-- The results of a run that has collected every future. -/
theorem results_cycleOf {n b : ℕ} {c : ℕ → ℕ}
    (h : Progress E w₀ es n b c (2 * E.cfg.cells.length)) :
    (worldAt E w₀ es n).results = (cycleOf E w₀ es b c).results E.cfg := by
  rw [h.results, flatMap_pairs]
  refine zipIdx_flatMap _ (fun cell i =>
    collect (cycleWindow E.cfg (E.wall E.started)) ((cycleOf E w₀ es b c).syncRecount i) cell
        ((cycleOf E w₀ es b c).sync i) ++
      collect (cycleWindow E.cfg (E.wall E.started)) ((cycleOf E w₀ es b c).asyncRecount i) cell
        ((cycleOf E w₀ es b c).async i)) _ fun i cell hi => ?_
  have hlt : i < E.cfg.cells.length := (List.getElem?_eq_some_iff.1 hi).1
  obtain ⟨-, -, -, -, out, hout⟩ := h.collects (2 * i) (by omega)
  obtain ⟨-, -, -, -, out', hout'⟩ := h.collects (2 * i + 1) (by omega)
  have hs : (cycleOf E w₀ es b c).sync i = out := by simp only [cycleOf, hout, Option.getD_some]
  have ha : (cycleOf E w₀ es b c).async i = out' := by simp only [cycleOf, hout', Option.getD_some]
  unfold collectedAt
  rw [show 2 * i / 2 = i by omega, show (2 * i + 1) / 2 = i by omega, hi, hout, hout', hs, ha]
  rfl

/-- A future is the outcome of a fetch that is over. -/
theorem future_sync {w : World} {i : ℕ} {out : Outcome} (h : w.future (2 * i) = some out) :
    w.sync i = .finished out := by
  unfold World.future at h
  rw [if_pos (by omega), show 2 * i / 2 = i by omega] at h
  exact sync_outcome h

theorem future_async {w : World} {i : ℕ} {out : Outcome} (h : w.future (2 * i + 1) = some out) :
    w.async i = .finished out := by
  unfold World.future at h
  rw [if_neg (by omega), show (2 * i + 1) / 2 = i by omega] at h
  exact async_outcome h

/-- A run that begins like a cycle. -/
structure Fresh (w₀ : World) : Prop where
  main : w₀.main = .begin
  results : w₀.results = []
  sync : ∀ i, w₀.sync i = .ready
  async : ∀ i, w₀.async i = .ready

theorem fresh_init (E : Ctx) (db : Db) (reg : ReplayRegistry) (m : Metrics) :
    Fresh (World.init E db reg m) := ⟨rfl, rfl, fun _ => rfl, fun _ => rfl⟩

/-- The cycle of a run: the instants at which the main thread read what it published. -/
structure CycleRun (E : Ctx) (w₀ : World) (es : List Event) (b : ℕ) (c : ℕ → ℕ) : Prop where
  reads : ReadsAt E w₀ es b
  collects : ∀ j < 2 * E.cfg.cells.length, CollectsAt E w₀ es (c j) j
  metrics : (w₀.run E es).metrics = runCycle E.cfg (cycleOf E w₀ es b c) w₀.metrics

/-- The outcomes of such a cycle are outcomes of the two fetches. -/
theorem CycleRun.proper {b : ℕ} {c : ℕ → ℕ} (hf : Fresh w₀) (h : CycleRun E w₀ es b c) :
    (cycleOf E w₀ es b c).Proper E.cfg := by
  intro i cell hi
  have hlt : i < E.cfg.cells.length := (List.getElem?_eq_some_iff.1 hi).1
  obtain ⟨-, -, -, out, hout⟩ := h.collects (2 * i) (by omega)
  obtain ⟨-, -, -, out', hout'⟩ := h.collects (2 * i + 1) (by omega)
  have hrun : ∀ n, (∀ o, (worldAt E w₀ es n).sync i = .finished o → OutcomeOf .http o) ∧
      ∀ o, (worldAt E w₀ es n).async i = .finished o → OutcomeOf .mqtt o := by
    intro n
    refine run_keeps (P := fun w => (∀ o, w.sync i = .finished o → OutcomeOf .http o) ∧
      ∀ o, w.async i = .finished o → OutcomeOf .mqtt o)
      (fun w e hw => outcomes_proper w e i hw) _ _ ⟨?_, ?_⟩
    · intro o ho; rw [hf.sync] at ho; cases ho
    · intro o ho; rw [hf.async] at ho; cases ho
  have hs : (cycleOf E w₀ es b c).sync i = out := by
    simp only [cycleOf, hout, Option.getD_some]
  have ha : (cycleOf E w₀ es b c).async i = out' := by
    simp only [cycleOf, hout', Option.getD_some]
  rw [hs, ha]
  exact ⟨(hrun _).1 out (future_sync hout), (hrun _).2 out' (future_async hout')⟩

/-- **What an interleaved cycle publishes** is what `runCycle` publishes for what it read. -/
theorem published_spec (hf : Fresh w₀) (h : (w₀.run E es).main = .published) :
    ∃ b c, CycleRun E w₀ es b c := by
  have hm : MainSpec E w₀ es es.length := main_run hf.main hf.results le_rfl
  unfold MainSpec at hm
  rw [worldAt_end le_rfl] at hm
  rw [h] at hm
  obtain ⟨⟨b, c, hp⟩, hmet⟩ := hm
  refine ⟨b, c, hp.reads.2, fun j hj => (hp.collects j hj).2, ?_⟩
  have hb := hp.baselines
  have hr := results_cycleOf hp
  rw [worldAt_end le_rfl] at hb hr
  rw [hmet, hb, hr, ← counts_cycleOf (c := c)]
  rfl

end Scgrep
