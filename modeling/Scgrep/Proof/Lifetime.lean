import Mathlib.Algebra.BigOperators.Ring.Finset
import Scgrep.Proof.Accumulate
import Scgrep.Proof.Baseline
import Scgrep.Proof.Schedule
import Scgrep.Spec.Tables

/-!
# The baseline of a lifetime

From the start of the process on, messages arrive, replays and synchronous fetches
write their own sets, and the scheduler runs one cycle after another, some of which
fail and publish nothing. `counted_for_life`: what `messages_received` holds for a
topic is the number of distinct ids that were delivered on it with a time in the
window of a completed cycle, before that cycle's baseline count. No id is counted
twice, in whatever cycles it is delivered again. If no instant is skipped between
the windows and each message arrives before the count of its window, these are all
ids with a time from the first window to the last.
-/

namespace Scgrep

open FloorWindow Redis

/-- A completed cycle, and when it took its baseline count of the topic. -/
structure LifeCycle where
  env : CycleEnv
  read : Read

/-- The live messages of a history. -/
def arrivals (ops : List StoreOp) : List Arrival := ops.filterMap StoreOp.arrival?

/-- The live messages the baseline count of a cycle finds delivered. -/
def LifeCycle.delivered (c : LifeCycle) (ops : List StoreOp) : List Arrival :=
  arrivals (ops.take c.read.after)

/-- The ids that count for a topic in a cycle. -/
def LifeCycle.ids (L : Lib) (cfg : Config) (P : String) (ops : List StoreOp) (c : LifeCycle) :
    Finset String := idsIn L (cycleWindow cfg c.env.now) P (c.delivered ops)

/-- What a lifetime is: the history `ops` of the store and the completed `cycles` among those
started at `starts`, which count the `k`-th topic. A message's time may be `ahead` of the clock,
and a baseline may be counted `delay` after its cycle starts. -/
structure Lifetime (L : Lib) (cfg : Config) (k : ℕ) (τ : String → ℚ) (ahead delay : ℚ)
    (ops : List StoreOp) (starts : List ℚ) (cycles : List LifeCycle) : Prop where
  clock : (arrivals ops).Pairwise fun a b => a.now ≤ b.now
  time : ∀ a ∈ arrivals ops, parseTimeToEpoch L a.timeValue = some (τ a.msgId)
  topic : ∀ a ∈ arrivals ops, ∀ b ∈ arrivals ops, a.msgId = b.msgId → a.topic = b.topic
  lead : ∀ a ∈ arrivals ops, τ a.msgId ≤ a.now + ahead
  completed : (cycles.map fun c => c.env.now).Sublist starts
  view : ∀ c ∈ cycles, c.env.baseline k = c.read.view L cfg.store ops
  before : ∀ c ∈ cycles, ∀ a ∈ c.delivered ops, a.now ≤ c.read.now
  prompt : ∀ c ∈ cycles, c.read.now ≤ c.env.now + delay

/-- Distinct sets are counted by the sum of their sizes. -/
theorem exists_union_of_disjoint {α β : Type*} [DecidableEq β] (f : α → Finset β) (l : List α)
    (h : l.Pairwise fun a b => Disjoint (f a) (f b)) :
    ∃ s : Finset β, s.card = (l.map fun a => (f a).card).sum ∧ ∀ x, x ∈ s ↔ ∃ a ∈ l, x ∈ f a := by
  induction l with
  | nil => exact ⟨∅, rfl, by simp⟩
  | cons a l ih =>
    obtain ⟨ha, hl⟩ := List.pairwise_cons.1 h
    obtain ⟨s, hs, hmem⟩ := ih hl
    have hdis : Disjoint (f a) s := by
      rw [Finset.disjoint_left]
      intro x hx hxs
      obtain ⟨b, hb, hxb⟩ := (hmem x).1 hxs
      exact Finset.disjoint_left.1 (ha b hb) hx hxb
    refine ⟨f a ∪ s, by rw [Finset.card_union_of_disjoint hdis, hs]; rfl, fun x => ?_⟩
    rw [Finset.mem_union, hmem]
    simp

/-- Windows in order lie between the first start and the last stop. -/
theorem between_ends {Ws : List Window} (h : Ws.Pairwise Window.Before)
    (hle : ∀ U ∈ Ws, U.start ≤ U.stop) {W V U : Window} (hW : Ws.head? = some W)
    (hV : Ws.getLast? = some V) (hU : U ∈ Ws) : W.start ≤ U.start ∧ U.stop ≤ V.stop := by
  constructor
  · obtain ⟨l, rfl⟩ := List.head?_eq_some_iff.1 hW
    rcases List.mem_cons.1 hU with rfl | hl
    · exact le_rfl
    · exact (hle W List.mem_cons_self).trans ((List.pairwise_cons.1 h).1 U hl)
  · obtain ⟨l, rfl⟩ := List.getLast?_eq_some_iff.1 hV
    rcases List.mem_append.1 hU with hl | hl
    · have hbefore : U.stop ≤ V.start :=
        (List.pairwise_append.1 h).2.2 U hl V (List.mem_singleton.2 rfl)
      exact hbefore.trans (hle V (List.mem_append_right _ (List.mem_singleton.2 rfl)))
    · rw [List.mem_singleton.1 hl]

section

variable {L : Lib} {cfg : Config} {k : ℕ} {τ : String → ℚ} {ahead delay : ℚ} {ops : List StoreOp}
  {starts : List ℚ} {cycles : List LifeCycle}

theorem LifeCycle.delivered_sublist (c : LifeCycle) (ops : List StoreOp) :
    (c.delivered ops).Sublist (arrivals ops) :=
  (List.take_sublist _ _).filterMap _

/-- What the baseline count of a cycle counts. -/
theorem Lifetime.receivedIds_eq (h : Lifetime L cfg k τ ahead delay ops starts cycles)
    (he : 0 ≤ cfg.redisExpiry) (h0 : 0 ≤ ahead) (hslack : ahead + delay ≤ 59) {P : String}
    (hP : P ∈ cfg.subscriptionTopics) {c : LifeCycle} (hc : c ∈ cycles) :
    receivedIds (c.env.baseline k) P (cycleWindow cfg c.env.now) = c.ids L cfg P ops := by
  have hsub := (c.delivered_sublist ops).subset
  have hset : (StoreOp.runAll L cfg.store (ops.take c.read.after) Db.empty) (topicKey P) = _ :=
    congrArg Retention.State.set (baseline_runAll (S := cfg.store) he hP (ops.take c.read.after))
  have htime : ∀ a ∈ c.delivered ops, parseTimeToEpoch L a.timeValue = some (τ a.msgId) :=
    fun a ha => h.time a (hsub ha)
  rw [show (ops.take c.read.after).filterMap StoreOp.arrival? = c.delivered ops from rfl,
    deliveries_eq_map htime] at hset
  set ds := (c.delivered ops).map (Arrival.timed τ fun a => topicMatches L P a.topic) with hds
  have hclocked : Retention.Clocked ds :=
    List.pairwise_map.2 (h.clock.sublist (c.delivered_sublist ops))
  have hone : Retention.OneHit ds := by
    intro d hd e he heq
    obtain ⟨a, ha, rfl⟩ := List.mem_map.1 hd
    obtain ⟨b, hb, rfl⟩ := List.mem_map.1 he
    exact congrArg (topicMatches L P) (h.topic a (hsub ha) b (hsub hb) heq)
  have hlead : ∀ d ∈ ds, d.hit = true → ((cycleWindow cfg c.env.now).start : ℚ) ≤ d.score →
      d.score < ((cycleWindow cfg c.env.now).stop : ℚ) → d.score ≤ d.now + ahead := by
    intro d hd _ _ _
    obtain ⟨a, ha, rfl⟩ := List.mem_map.1 hd
    exact h.lead a (hsub ha)
  have hbefore : ∀ d ∈ ds, d.now ≤ c.read.now := by
    intro d hd
    obtain ⟨a, ha, rfl⟩ := List.mem_map.1 hd
    exact h.before c hc a ha
  -- the count is taken before the window begins to lapse
  have hlo : c.read.now - (cfg.redisExpiry : ℚ) + ahead < ((cycleWindow cfg c.env.now).start : ℚ) := by
    have h1 := cutoff_lt_start cfg c.env.now
    have h2 := h.prompt c hc
    linarith
  rw [h.view c hc]
  unfold receivedIds Read.view LifeCycle.ids
  dsimp only
  rw [hset]
  ext m
  rw [mem_idsIn_timed htime]
  exact Retention.mem_retained h0 ds hclocked (oneScore_timed _ _ _) hone hlead hbefore hlo

/-- The time of an id that counts in a cycle lies in the window of the cycle. -/
theorem Lifetime.mem_window (h : Lifetime L cfg k τ ahead delay ops starts cycles) {P : String}
    {c : LifeCycle} {m : String} (hm : m ∈ c.ids L cfg P ops) :
    (cycleWindow cfg c.env.now).Mem (τ m) := by
  obtain ⟨a, ha, rfl, -, hin⟩ := mem_idsIn.1 hm
  exact (timeIn_eq_true (h.time a ((c.delivered_sublist ops).subset ha))).1 hin

/-- No id counts in two cycles. -/
theorem Lifetime.pairwise_disjoint (h : Lifetime L cfg k τ ahead delay ops starts cycles)
    (hstarts : (starts.map (cycleWindow cfg)).Pairwise Window.Before) (P : String) :
    cycles.Pairwise fun c c' => Disjoint (c.ids L cfg P ops) (c'.ids L cfg P ops) := by
  have hws : (cycles.map fun c => cycleWindow cfg c.env.now).Pairwise Window.Before := by
    have := hstarts.sublist (h.completed.map (cycleWindow cfg))
    rwa [List.map_map] at this
  refine (List.pairwise_map.1 hws).imp fun {c c'} hbefore => ?_
  rw [Finset.disjoint_left]
  intro m hm hm'
  exact hbefore.disjoint (h.mem_window hm) (h.mem_window hm')

end

/-- **The baseline counter of a lifetime counts each message once.** -/
theorem counted_for_life {L : Lib} {cfg : Config} {k : ℕ} {τ : String → ℚ} {ahead delay : ℚ}
    {ops : List StoreOp} {cycles : List LifeCycle} {offset boot firstLate : ℚ} {its : List Iteration}
    (h : Lifetime L cfg k τ ahead delay ops
      ((schedulerRun cfg boot firstLate its).map fun started => started + offset) cycles)
    (hint : 0 ≤ cfg.testInterval) (he : 0 ≤ cfg.redisExpiry) (hn : cfg.subscriptionTopics.Nodup)
    (hlate : ∀ it ∈ its, 0 ≤ it.late) (h0 : 0 ≤ ahead) (hslack : ahead + delay ≤ 59) {P : String}
    (hk : cfg.subscriptionTopics[k]? = some P) :
    ∃ ids : Finset String,
      (runCycles cfg (cycles.map LifeCycle.env) Metrics.new).messagesReceived (cfg.sensorCentreId, P) =
        ids.card ∧
      (∀ m, m ∈ ids ↔ ∃ c ∈ cycles, ∃ a ∈ c.delivered ops, a.msgId = m ∧
        topicMatches L P a.topic = true ∧ (cycleWindow cfg c.env.now).Mem (τ m)) ∧
      (NoInstantSkipped (schedulerWindows cfg offset boot firstLate its) →
        (∀ started ∈ schedulerRun cfg boot firstLate its, ∃ c ∈ cycles, c.env.now = started + offset) →
        (∀ c ∈ cycles, ∀ a ∈ arrivals ops, (cycleWindow cfg c.env.now).Mem (τ a.msgId) →
          a ∈ c.delivered ops) →
        ∀ W V, (schedulerWindows cfg offset boot firstLate its).head? = some W →
          (schedulerWindows cfg offset boot firstLate its).getLast? = some V →
            ids = idsIn L ⟨W.start, V.stop⟩ P (arrivals ops)) := by
  have hP : P ∈ cfg.subscriptionTopics := List.mem_of_getElem? hk
  have hws : ((schedulerRun cfg boot firstLate its).map fun started => started + offset).map
      (cycleWindow cfg) = schedulerWindows cfg offset boot firstLate its := by
    rw [List.map_map]; rfl
  have hbefore := @windows_pairwise cfg its hint offset boot firstLate hlate
  obtain ⟨ids, hcard, hmem⟩ := exists_union_of_disjoint (LifeCycle.ids L cfg P ops) cycles
    (h.pairwise_disjoint (by rw [hws]; exact hbefore) P)
  have hids : ∀ m, m ∈ ids ↔ ∃ c ∈ cycles, ∃ a ∈ c.delivered ops, a.msgId = m ∧
      topicMatches L P a.topic = true ∧ (cycleWindow cfg c.env.now).Mem (τ m) := by
    intro m
    rw [hmem]
    refine exists_congr fun c => and_congr_right fun hc => ?_
    unfold LifeCycle.ids
    rw [mem_idsIn]
    refine exists_congr fun a => and_congr_right fun ha => and_congr_right ?_
    rintro rfl
    exact and_congr_right fun _ =>
      timeIn_eq_true (h.time a ((c.delivered_sublist ops).subset ha))
  refine ⟨ids, ?_, hids, ?_⟩
  · rw [runCycles_received hn hk, hcard, List.map_map]
    have hcounts : cycles.map ((fun E : CycleEnv => (E.baselineAt cfg k P : ℤ)) ∘ LifeCycle.env) =
        cycles.map fun c => ((c.ids L cfg P ops).card : ℤ) := by
      refine List.map_congr_left fun c hc => ?_
      rw [← h.receivedIds_eq he h0 hslack hP hc, ← countMessages_eq_card]
      rfl
    rw [hcounts, show (Metrics.new.messagesReceived (cfg.sensorCentreId, P)) = 0 from rfl, zero_add]
    rw [Nat.cast_list_sum, List.map_map]
    rfl
  · intro hskip hall hdue W V hW hV
    ext m
    rw [hids, mem_idsIn]
    constructor
    · rintro ⟨c, hc, a, ha, rfl, ht, hin⟩
      have ha' := (c.delivered_sublist ops).subset ha
      refine ⟨a, ha', rfl, ht, (timeIn_eq_true (h.time a ha')).2 ?_⟩
      have hU : cycleWindow cfg c.env.now ∈ schedulerWindows cfg offset boot firstLate its := by
        rw [← hws]
        exact List.mem_map_of_mem (h.completed.subset (List.mem_map_of_mem hc))
      have hle : ∀ U ∈ schedulerWindows cfg offset boot firstLate its, U.start ≤ U.stop := by
        intro U hU
        obtain ⟨started, -, rfl⟩ := List.mem_map.1 hU
        exact sub_le_self _ hint
      obtain ⟨h1, h2⟩ := between_ends hbefore hle hW hV hU
      have h1' : (W.start : ℚ) ≤ ((cycleWindow cfg c.env.now).start : ℚ) := by exact_mod_cast h1
      have h2' : ((cycleWindow cfg c.env.now).stop : ℚ) ≤ (V.stop : ℚ) := by exact_mod_cast h2
      exact ⟨h1'.trans hin.1, hin.2.trans_le h2'⟩
    · rintro ⟨a, ha, rfl, ht, hin⟩
      have hspan := (timeIn_eq_true (h.time a ha)).1 hin
      obtain ⟨U, hU, hUm⟩ := hskip.2 W V hW hV (τ a.msgId) hspan.1 hspan.2
      obtain ⟨started, hs, rfl⟩ := List.mem_map.1 hU
      obtain ⟨c, hc, hcnow⟩ := hall started hs
      rw [← hcnow] at hUm
      exact ⟨c, hc, a, hdue c hc a ha hUm, rfl, ht, hUm⟩

/-- Two messages, the first of them delivered again in the second cycle. -/
def lifeOps : List StoreOp :=
  [.message (newYear + 40) "a" "2024-01-01T00:00:00Z" "cache/a/wis2/x",
    .message (newYear + 65) "b" "2024-01-01T00:01:00Z" "cache/a/wis2/y",
    .message (newYear + 400) "a" "2024-01-01T00:00:00Z" "cache/a/wis2/x"]

/-- A cycle that takes its baseline count as it starts. -/
def lifeCycle (now : ℚ) (after : ℕ) : LifeCycle where
  env := ⟨now, fun _ => (⟨after, now⟩ : Read).view sampleTables.lib shippedConfig.store lifeOps,
    fun _ => .error .requestException, fun _ => .error .requestException,
    fun _ => ⟨Db.empty, now⟩, fun _ => ⟨Db.empty, now⟩⟩
  read := ⟨after, now⟩

def lifeCycles : List LifeCycle := [lifeCycle (newYear + 330) 2, lifeCycle (newYear + 630) 3]

theorem lifetime_sample : Lifetime sampleTables.lib shippedConfig 0
    (fun m => if m = "a" then newYear else newYear + 60) 0 0 lifeOps
    ((schedulerRun shippedConfig (newYear + 30) 0 [⟨285, 0⟩]).map fun started => started + 0)
    lifeCycles where
  clock := by decide +kernel
  time := by decide +kernel
  topic := by decide +kernel
  lead := by decide +kernel
  completed := by decide +kernel
  view := by
    intro c hc
    simp only [lifeCycles, List.mem_cons, List.not_mem_nil, or_false] at hc
    rcases hc with rfl | rfl <;> rfl
  before := by
    intro c hc
    simp only [lifeCycles, List.mem_cons, List.not_mem_nil, or_false] at hc
    rcases hc with rfl | rfl <;> decide +kernel
  prompt := by
    intro c hc
    simp only [lifeCycles, List.mem_cons, List.not_mem_nil, or_false] at hc
    rcases hc with rfl | rfl <;> decide +kernel

theorem counted_for_life_sample :
    ∃ ids : Finset String,
      (runCycles shippedConfig (lifeCycles.map LifeCycle.env) Metrics.new).messagesReceived
        ("int-wmo", "cache/a/wis2/#") = ids.card ∧ "a" ∈ ids := by
  obtain ⟨ids, hcount, hids, -⟩ := @counted_for_life sampleTables.lib shippedConfig 0 _ 0 0 lifeOps lifeCycles 0
    (newYear + 30) 0 [⟨285, 0⟩] lifetime_sample (by decide) (by decide) (by decide) (by decide +kernel)
    le_rfl (by norm_num) "cache/a/wis2/#" rfl
  refine ⟨ids, hcount, (hids "a").2 ⟨_, List.mem_cons_self, _, List.mem_cons_self, rfl, ?_, ?_⟩⟩
  · decide +kernel
  · exact ⟨by decide +kernel, by decide +kernel⟩

end Scgrep
