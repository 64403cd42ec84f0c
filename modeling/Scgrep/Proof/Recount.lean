import Scgrep.Proof.Aborted
import Scgrep.Proof.StoreRun

/-!
# Is the mqtt count what was delivered by the deadline?

The replay set of a cell is re-counted when the main thread comes to its future,
which is at the deadline or before it, when no messages are expected.

* `collects_unique`: each future is collected once.
* `mqtt_count_iff`: **the published count is the number of ids delivered by the
  deadline iff each of them is held at the re-count**: its last delivery before that
  lies in the window, and the set did not expire since.
-/

namespace Scgrep

open Redis

variable {E : Ctx} {w₀ : World} {es : List Event}

/-! ## One re-count for each future -/

/-- The main thread is past future `k`. -/
def Past (k : ℕ) (w : World) : Prop :=
  w.main = .published ∨ ∃ j, k < j ∧ w.main = .collecting j

theorem past_step {k : ℕ} {w : World} (h : Past k w) (e : Event) : Past k (w.step E e) := by
  have hst := step_spec (E := E) w e
  generalize w.step E e = w' at hst
  cases hst with
  | readBaselines hm =>
    rw [Past, hm] at h
    rcases h with h | ⟨j, -, h⟩ <;> cases h
  | clear hm =>
    rw [Past, hm] at h
    rcases h with h | ⟨j, -, h⟩ <;> cases h
  | collect hm hc hf =>
    rw [Past, hm] at h
    rcases h with h | ⟨j, hj, h⟩
    · cases h
    · obtain rfl := MainState.collecting.inj h
      exact Or.inr ⟨_, Nat.lt_succ_of_lt hj, rfl⟩
  | publish hm hk hd => exact Or.inl rfl
  | _ => exact h

/-- Right after it collected future `k`, the main thread is past it. -/
theorem past_of_collects {n k : ℕ} (h : CollectsAt E w₀ es n k) :
    Past k (worldAt E w₀ es (n + 1)) := by
  obtain ⟨he, hm, ⟨cell, hc⟩, out, hf⟩ := h
  rw [worldAt_succ he]
  refine Or.inr ⟨k + 1, Nat.lt_succ_self k, ?_⟩
  simp only [World.step, World.collect, hm, hc, hf]

/-- **Each future is collected once.** -/
theorem collects_unique {n n' k : ℕ} (h : CollectsAt E w₀ es n k) (h' : CollectsAt E w₀ es n' k) :
    n = n' := by
  have key : ∀ {a b : ℕ}, CollectsAt E w₀ es a k → CollectsAt E w₀ es b k → b ≤ a := by
    intro a b ha hb
    by_contra hlt
    have hp : Past k (worldAt E w₀ es b) :=
      keeps_from (P := Past k) (fun w e h => past_step h e) (by omega) (past_of_collects ha)
    rw [Past, hb.2.1] at hp
    rcases hp with hp | ⟨j, hj, hp⟩
    · cases hp
    · obtain rfl := MainState.collecting.inj hp
      omega
  have h1 := key h h'
  have h2 := key h' h
  omega

/-! ## The count of a cell -/

/-- What the run adds to the fetched counter of a cell. -/
def fetchedIn (E : Ctx) (w₀ : World) (es : List Event) (cell : Cell) (p : Protocol) : ℤ :=
  (w₀.run E es).metrics.messagesFetched (cell.labels E.cfg p) -
    w₀.metrics.messagesFetched (cell.labels E.cfg p)

/-- What is published for a cell is its re-count. -/
theorem fetchedIn_eq_recount (hf : Fresh w₀) {b : ℕ} {c : ℕ → ℕ} (hc : CycleRun E w₀ es b c)
    (hn : (E.cfg.cells.map Cell.pair).Nodup) {i : ℕ} {cell : Cell} (hi : E.cfg.cells[i]? = some cell)
    (p : Protocol) : fetchedIn E w₀ es cell p = (cycleOf E w₀ es b c).recountAt E.cfg i cell p := by
  unfold fetchedIn
  rw [hc.metrics, runCycle_fetched_cell hn (hc.proper hf) _ p hi, add_sub_cancel_left]

/-- For replays it is the size of the replay set in the window at the re-count, and 0 when the
fetch was aborted. -/
theorem fetchedIn_replays (hf : Fresh w₀) (hpub : (w₀.run E es).main = .published)
    (hn : (E.cfg.cells.map Cell.pair).Nodup) {n i : ℕ} {cell : Cell}
    (hi : E.cfg.cells[i]? = some cell) (hcol : CollectsAt E w₀ es n (2 * i + 1)) {res : FetchResult}
    (hres : (w₀.run E es).async i = .finished (.ok res)) :
    fetchedIn E w₀ es cell .mqtt = ((if res.aborted then 0 else
      (zrange (E.wall (worldAt E w₀ es n).now) (E.window.start : ℚ) (E.window.stop : ℚ)
        ((worldAt E w₀ es n).db (replayKey cell.centreId cell.topic))).card : ℕ) : ℤ) := by
  obtain ⟨b, c, hc⟩ := published_spec hf hpub
  have hlt : i < E.cfg.cells.length := (List.getElem?_eq_some_iff.1 hi).1
  have hcn : c (2 * i + 1) = n := collects_unique (hc.collects (2 * i + 1) (by omega)) hcol
  rw [fetchedIn_eq_recount hf hc hn hi, recount_of_not_aborted hc hi hres]
  unfold countReplayMessages
  rw [zcount_eq_card, ← hcn]
  rfl

/-- A cycle that publishes a count for the replays of cell `i`: the sets are cleared at event
`q`, the replay set of the cell is re-counted at event `n`, its fetch is not aborted, and no
replay is handled after the deadline. -/
structure CountsReplays (E : Ctx) (w₀ : World) (es : List Event) (q n i : ℕ) (cell : Cell) :
    Prop where
  fresh : Fresh w₀
  cell : E.cfg.cells[i]? = some cell
  published : (w₀.run E es).main = .published
  clears : ClearsAt E w₀ es q
  recounts : CollectsAt E w₀ es n (2 * i + 1)
  answered : ∃ res, (w₀.run E es).async i = .finished (.ok res) ∧ res.aborted = false
  quiet : ∀ x ∈ deliveredIn E w₀ es q es.length, Text.startsWith x.2.topic "replay/" = true →
    x.1 ≤ E.deadlineAt

/-- The distinct ids with a time in the window that replays handled by the deadline index
under a cell. -/
def claimedIds (E : Ctx) (cell : Cell) (tl : List (ℚ × MqttMessage)) : Finset String :=
  (((replaysTo E (replayKey cell.centreId cell.topic) tl).filter fun d =>
    d.hit && decide (d.now ≤ E.wall E.deadlineAt) && decide ((E.window.start : ℚ) ≤ d.score) &&
      decide (d.score < (E.window.stop : ℚ))).map fun d => d.id).toFinset

theorem mem_claimedIds {cell : Cell} {tl : List (ℚ × MqttMessage)} {m : String} :
    m ∈ claimedIds E cell tl ↔ ∃ d ∈ replaysTo E (replayKey cell.centreId cell.topic) tl,
      d.id = m ∧ d.hit = true ∧ d.now ≤ E.wall E.deadlineAt ∧ (E.window.start : ℚ) ≤ d.score ∧
        d.score < (E.window.stop : ℚ) := by
  simp only [claimedIds, List.mem_toFinset, List.mem_map, List.mem_filter, Bool.and_eq_true,
    decide_eq_true_eq]
  constructor
  · rintro ⟨d, ⟨hd, ⟨⟨h1, h2⟩, h3⟩, h4⟩, rfl⟩
    exact ⟨d, hd, rfl, h1, h2, h3, h4⟩
  · rintro ⟨d, hd, rfl, h1, h2, h3, h4⟩
    exact ⟨d, ⟨hd, ⟨⟨h1, h2⟩, h3⟩, h4⟩, rfl⟩

/-- At the re-count of the cell every id delivered by the deadline is held with a time in the
window. -/
def HeldAtRecount (E : Ctx) (w₀ : World) (es : List Event) (q n : ℕ) (cell : Cell) : Prop :=
  ∀ m ∈ claimedIds E cell (deliveredIn E w₀ es q es.length),
    ∃ s, ((E.window.start : ℚ) ≤ s ∧ s < (E.window.stop : ℚ)) ∧
      Retention.Kept (E.cfg.redisExpiry : ℚ) m s (E.wall (worldAt E w₀ es n).now)
        (replaysTo E (replayKey cell.centreId cell.topic) (deliveredIn E w₀ es q n)).reverse

namespace CountsReplays

variable {q n i : ℕ} {cell : Cell}

theorem clears_lt (h : CountsReplays E w₀ es q n i cell) : q < n := by
  have hphase : (worldAt E w₀ es q).main.phase < (worldAt E w₀ es n).main.phase := by
    rw [h.recounts.2.1, h.clears.2]
    exact Nat.one_lt_two
  exact lt_of_phase_lt hphase

/-- What is published is the size of the replay set in the window, at the re-count. -/
theorem fetchedIn_eq (h : CountsReplays E w₀ es q n i cell) (hn : (E.cfg.cells.map Cell.pair).Nodup) :
    fetchedIn E w₀ es cell .mqtt = (zrange (E.wall (worldAt E w₀ es n).now)
      (E.window.start : ℚ) (E.window.stop : ℚ)
      ((worldAt E w₀ es n).db (replayKey cell.centreId cell.topic))).card := by
  obtain ⟨res, hres, hab⟩ := h.answered
  rw [fetchedIn_replays h.fresh h.published hn h.cell h.recounts hres, if_neg (by rw [hab]; decide)]

/-- What is counted is held at the re-count. -/
theorem mem_counted (h : CountsReplays E w₀ es q n i cell) (he : 0 ≤ E.cfg.redisExpiry) {m : String} :
    m ∈ zrange (E.wall (worldAt E w₀ es n).now) (E.window.start : ℚ) (E.window.stop : ℚ)
        ((worldAt E w₀ es n).db (replayKey cell.centreId cell.topic)) ↔
      ∃ s, ((E.window.start : ℚ) ≤ s ∧ s < (E.window.stop : ℚ)) ∧
        Retention.Kept (E.cfg.redisExpiry : ℚ) m s (E.wall (worldAt E w₀ es n).now)
          (replaysTo E (replayKey cell.centreId cell.topic) (deliveredIn E w₀ es q n)).reverse := by
  rw [mem_zrange, replay_set he h.clears h.clears_lt h.cell]
  constructor
  · rintro ⟨s, hs, hlo, hhi⟩
    exact ⟨s, ⟨hlo, hhi⟩, (Retention.zscore_touched _ _).1 hs⟩
  · rintro ⟨s, ⟨hlo, hhi⟩, hk⟩
    exact ⟨s, (Retention.zscore_touched _ _).2 hk, hlo, hhi⟩

/-- Whatever is counted was delivered by the deadline. -/
theorem counted_claimed (h : CountsReplays E w₀ es q n i cell) (he : 0 ≤ E.cfg.redisExpiry)
    {m : String} (hm : m ∈ zrange (E.wall (worldAt E w₀ es n).now) (E.window.start : ℚ)
      (E.window.stop : ℚ) ((worldAt E w₀ es n).db (replayKey cell.centreId cell.topic))) :
    m ∈ claimedIds E cell (deliveredIn E w₀ es q es.length) := by
  obtain ⟨s, ⟨hlo, hhi⟩, hk⟩ := (h.mem_counted he).1 hm
  obtain ⟨d, hd, hid, hhit, rfl⟩ := hk.delivered
  rw [List.mem_reverse] at hd
  obtain ⟨t, msg, r, hx, hr, rfl⟩ := mem_replaysTo.1 hd
  have hpre : deliveredIn E w₀ es q n <+: deliveredIn E w₀ es q es.length := by
    unfold deliveredIn
    rw [List.take_length, List.drop_take]
    exact timeline_take _ _ _
  have hx' := hpre.subset hx
  have hrep : Text.startsWith msg.topic "replay/" = true := by
    by_contra hno
    unfold replayRecord at hr
    rw [if_neg hno] at hr
    cases hr
  have hdead := h.quiet _ hx' hrep
  refine mem_claimedIds.2 ⟨_, mem_replaysTo.2 ⟨t, msg, r, hx', hr, rfl⟩, hid, hhit, ?_, hlo, hhi⟩
  show E.wall t ≤ E.wall E.deadlineAt
  unfold Ctx.wall
  linarith

/-- **The count is that of the ids delivered by the deadline** iff they are all held at the
re-count. -/
theorem count_iff (h : CountsReplays E w₀ es q n i cell) (he : 0 ≤ E.cfg.redisExpiry)
    (hn : (E.cfg.cells.map Cell.pair).Nodup) :
    fetchedIn E w₀ es cell .mqtt = (claimedIds E cell (deliveredIn E w₀ es q es.length)).card ↔
      HeldAtRecount E w₀ es q n cell := by
  rw [h.fetchedIn_eq hn]
  have hsub : zrange (E.wall (worldAt E w₀ es n).now) (E.window.start : ℚ) (E.window.stop : ℚ)
      ((worldAt E w₀ es n).db (replayKey cell.centreId cell.topic)) ⊆
        claimedIds E cell (deliveredIn E w₀ es q es.length) := fun m hm => h.counted_claimed he hm
  constructor
  · intro hcard m hm
    have hcard' := Int.ofNat_inj.1 hcard
    rw [← Finset.eq_of_subset_of_card_le hsub hcard'.ge] at hm
    exact (h.mem_counted he).1 hm
  · intro hheld
    have heq := Finset.Subset.antisymm hsub fun m hm => (h.mem_counted he).2 (hheld m hm)
    rw [heq]

end CountsReplays

/-! ## Permuted lists -/

/-- Two cycles that differ in the order of the topics and of the services only. -/
structure Permuted (E E' : Ctx) : Prop where
  lib : E'.L = E.L
  started : E'.started = E.started
  offset : E'.offset = E.offset
  timeLag : E'.cfg.timeLag = E.cfg.timeLag
  testInterval : E'.cfg.testInterval = E.cfg.testInterval
  topics : E'.cfg.subscriptionTopics.Perm E.cfg.subscriptionTopics
  targets : E'.cfg.replayTargets.Perm E.cfg.replayTargets

namespace Permuted

variable {E' : Ctx}

theorem window_eq (h : Permuted E E') : E'.window = E.window := by
  unfold Ctx.window cycleWindow Ctx.wall
  rw [h.started, h.offset, h.timeLag, h.testInterval]

theorem deadline_eq (h : Permuted E E') : E'.wall E'.deadlineAt = E.wall E.deadlineAt := by
  unfold Ctx.deadlineAt Ctx.wall deadlineS
  rw [h.started, h.offset, h.testInterval]

theorem replaysTo_eq (h : Permuted E E') (k : String) (tl : List (ℚ × MqttMessage)) :
    replaysTo E' k tl = replaysTo E k tl := by
  have hind : ∀ c t, indexedUnder E'.L E'.cfg.store c t k = indexedUnder E.L E.cfg.store c t k := by
    intro c t
    rw [Bool.eq_iff_iff, h.lib]
    unfold indexedUnder Config.store
    simp only [List.any_eq_true, h.topics.mem_iff]
  have hdel : ∀ t, ReplayRecord.delivery E' t k = ReplayRecord.delivery E t k := by
    intro t
    funext r
    unfold ReplayRecord.delivery Ctx.wall
    rw [hind, h.offset]
  unfold replaysTo
  simp only [hdel, h.lib]

/-- The ids a cell is due do not depend on the order of the lists. -/
theorem claimedIds_eq (h : Permuted E E') {cell cell' : Cell} (hp : cell'.pair = cell.pair)
    (tl : List (ℚ × MqttMessage)) : claimedIds E' cell' tl = claimedIds E cell tl := by
  obtain ⟨ht, hc⟩ := Prod.mk.inj hp
  unfold claimedIds
  rw [hc, ht, h.replaysTo_eq, h.deadline_eq, h.window_eq]

theorem distinct (h : Permuted E E') (hd : E.cfg.Distinct) : E'.cfg.Distinct :=
  ⟨h.topics.nodup_iff.2 hd.1, (h.targets.map Prod.fst).nodup_iff.2 hd.2⟩

end Permuted

/-- Distinct topics and centres make distinct pairs. -/
theorem pairs_nodup {cfg : Config} (hd : cfg.Distinct) : (cfg.cells.map Cell.pair).Nodup := by
  rw [pairs_eq, List.nodup_flatMap]
  refine ⟨fun P _ => hd.2.map fun a b h => (Prod.mk.inj h).2, hd.1.imp ?_⟩
  rintro P Q hne x hx hx'
  obtain ⟨a, -, rfl⟩ := List.mem_map.1 hx
  obtain ⟨b, -, hb⟩ := List.mem_map.1 hx'
  exact hne (Prod.mk.inj hb).1.symm

/-- **The mqtt count is the number of ids delivered by the deadline iff all of them are held at
the re-count**; and where they are, it does not depend on the order of topics and services. -/
theorem mqtt_count_iff {uuid : String} {env : String → Option String}
    (hcfg : Config.fromEnv E.L uuid env = .ok E.cfg) (hd : E.cfg.Distinct) {q n i : ℕ} {cell : Cell}
    (h : CountsReplays E w₀ es q n i cell) :
    (fetchedIn E w₀ es cell .mqtt = (claimedIds E cell (deliveredIn E w₀ es q es.length)).card ↔
        HeldAtRecount E w₀ es q n cell) ∧
      ∀ (E' : Ctx) (w₀' : World) (es' : List Event) (q' n' i' : ℕ) (cell' : Cell), Permuted E E' →
        CountsReplays E' w₀' es' q' n' i' cell' → cell'.pair = cell.pair →
        deliveredIn E' w₀' es' q' es'.length = deliveredIn E w₀ es q es.length →
        HeldAtRecount E w₀ es q n cell → HeldAtRecount E' w₀' es' q' n' cell' →
          fetchedIn E' w₀' es' cell' .mqtt = fetchedIn E w₀ es cell .mqtt := by
  have he := (fromEnv_spec hcfg).redisExpiry_nonneg
  have hiff := h.count_iff he (pairs_nodup hd)
  refine ⟨hiff, ?_⟩
  intro E' w₀' es' q' n' i' cell' hp h' hpair htl hheld hheld'
  have he' : 0 ≤ E'.cfg.redisExpiry := by
    unfold Config.redisExpiry at he ⊢
    rw [hp.timeLag, hp.testInterval]
    exact he
  rw [(h'.count_iff he' (pairs_nodup (hp.distinct hd))).2 hheld', hiff.2 hheld, htl,
    hp.claimedIds_eq hpair]

/-! ## An early re-count -/

/-- Two topics, in either order. -/
def cacheFirst : Config := sampleConfig ["cache/a/wis2/#", "origin/a/wis2/#"] ["ca-eccc"] ["https://x"]

def originFirst : Config := sampleConfig ["origin/a/wis2/#", "cache/a/wis2/#"] ["ca-eccc"] ["https://x"]

/-- The cell of the topic without a baseline. -/
def originCell : Cell := ⟨"origin/a/wis2/#", "ca-eccc", "https://x"⟩

/-- A replay on each topic. -/
def replays : List Event :=
  [.tick 10, .deliver replayMessage, .deliver ⟨"replay/a/wis2/ca-eccc/sub/origin/a/wis2/us/x", "m"⟩,
    .tick 275]

/-- Up to the POSTs: one topic has a baseline, and the service cannot be reached. -/
def beforeReplays : List Event :=
  [.deliver liveMessage, .readBaselines, .clear, .register 0, .register 1, .syncBegin 0,
    .syncReply 0 .fails, .syncBegin 1, .syncReply 1 .fails, .post 0, .postReply 0 .fails, .post 1,
    .postReply 1 .fails, .decide 0, .decide 1]

/-- The first fetch waits, so the second is re-counted after the replays. -/
def cacheFirstRun : List Event :=
  beforeReplays ++ [.collect] ++ replays ++ [.finish 0, .collect, .collect, .collect, .publish]

/-- The first fetch expects nothing, and is re-counted before the replays. -/
def originFirstRun : List Event :=
  beforeReplays ++ [.collect, .collect, .collect] ++ replays ++ [.finish 1, .collect, .publish]

theorem permuted_sample : Permuted (sampleCtx cacheFirst) (sampleCtx originFirst) :=
  ⟨rfl, rfl, rfl, rfl, rfl, List.Perm.swap _ _ _, List.Perm.refl _⟩

theorem cacheFirst_counts : CountsReplays (sampleCtx cacheFirst) (emptyWorld cacheFirst) cacheFirstRun
    2 23 1 originCell :=
  ⟨fresh_init .., rfl, by decide +kernel, ⟨rfl, by decide +kernel⟩,
    ⟨rfl, by decide +kernel, ⟨_, rfl⟩, Option.isSome_iff_exists.1 (by decide +kernel)⟩,
    ended_of (by decide +kernel), by decide +kernel⟩

theorem originFirst_counts : CountsReplays (sampleCtx originFirst) (emptyWorld originFirst)
    originFirstRun 2 16 0 originCell :=
  ⟨fresh_init .., rfl, by decide +kernel, ⟨rfl, by decide +kernel⟩,
    ⟨rfl, by decide +kernel, ⟨_, rfl⟩, Option.isSome_iff_exists.1 (by decide +kernel)⟩,
    ended_of (by decide +kernel), by decide +kernel⟩

/-- The same replay is counted in one order of the topics and missed in the other. -/
theorem early_recount :
    Config.fromEnv messageTables.lib "sub"
        (sampleEnv "origin/a/wis2/#,cache/a/wis2/#" "ca-eccc" "https://x") = .ok originFirst ∧
      CountsReplays (sampleCtx originFirst) (emptyWorld originFirst) originFirstRun 2 16 0 originCell ∧
      CountsReplays (sampleCtx cacheFirst) (emptyWorld cacheFirst) cacheFirstRun 2 23 1 originCell ∧
      Permuted (sampleCtx cacheFirst) (sampleCtx originFirst) ∧
      deliveredIn (sampleCtx originFirst) (emptyWorld originFirst) originFirstRun 2
          originFirstRun.length =
        deliveredIn (sampleCtx cacheFirst) (emptyWorld cacheFirst) cacheFirstRun 2
          cacheFirstRun.length ∧
      claimedIds (sampleCtx originFirst) originCell
          (deliveredIn (sampleCtx originFirst) (emptyWorld originFirst) originFirstRun 2
            originFirstRun.length) = {"a"} ∧
      fetchedIn (sampleCtx originFirst) (emptyWorld originFirst) originFirstRun originCell .mqtt = 0 ∧
      fetchedIn (sampleCtx cacheFirst) (emptyWorld cacheFirst) cacheFirstRun originCell .mqtt = 1 := by
  refine ⟨by decide +kernel, originFirst_counts, cacheFirst_counts, permuted_sample, ?_, ?_, ?_, ?_⟩
  · decide +kernel
  · decide +kernel
  · decide +kernel
  · decide +kernel

theorem mqtt_count_sample :
    HeldAtRecount (sampleCtx cacheFirst) (emptyWorld cacheFirst) cacheFirstRun 2 23 originCell := by
  have hcfg : Config.fromEnv (sampleCtx cacheFirst).L "sub"
      (sampleEnv "cache/a/wis2/#,origin/a/wis2/#" "ca-eccc" "https://x") =
        .ok (sampleCtx cacheFirst).cfg := by decide +kernel
  have hd : (sampleCtx cacheFirst).cfg.Distinct := by unfold Config.Distinct; decide
  have hcount : fetchedIn (sampleCtx cacheFirst) (emptyWorld cacheFirst) cacheFirstRun originCell .mqtt =
      (claimedIds (sampleCtx cacheFirst) originCell (deliveredIn (sampleCtx cacheFirst)
        (emptyWorld cacheFirst) cacheFirstRun 2 cacheFirstRun.length)).card := by decide +kernel
  exact (mqtt_count_iff hcfg hd cacheFirst_counts).1.1 hcount

end Scgrep
