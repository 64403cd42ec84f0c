import Scgrep.Proof.Baseline
import Scgrep.Proof.Recount

/-!
# What the baseline of a cycle counts

The baselines are counted over everything the store was told before: the calls of
earlier cycles, and the messages handled since the cycle began.

* `mem_timeline`, `mem_deliveredIn`: the timeline of a run, event by event.
* `db_before_reads`: the store at the baseline counts is that of a history.
* `baseline_at_read`: **so the baseline of a topic is the number of ids delivered live** on
  it with a time in the window.
-/

namespace Scgrep

open Redis

variable {E : Ctx} {w₀ : World} {es : List Event}

/-! ## The timeline -/

/-- A timeline tells when each message was delivered. -/
theorem mem_timeline {w : World} {es : List Event} {t : ℚ} {msg : MqttMessage} :
    (t, msg) ∈ timeline w.now es ↔
      ∃ n, es[n]? = some (.deliver msg) ∧ (worldAt E w es n).now = t := by
  induction es generalizing w with
  | nil => exact ⟨fun h => (by cases h), fun ⟨n, h, _⟩ => (by cases h)⟩
  | cons e es ih =>
    rw [timeline_cons, List.mem_append, ← now_step (E := E), ih]
    constructor
    · rintro (h | ⟨n, hn, ht⟩)
      · refine ⟨0, ?_, ?_⟩
        · cases e with
          | deliver m =>
            obtain ⟨-, rfl⟩ := Prod.mk.inj (List.mem_singleton.1 h)
            rfl
          | _ => cases h
        · cases e with
          | deliver m => exact (Prod.mk.inj (List.mem_singleton.1 h)).1.symm
          | _ => cases h
      · exact ⟨n + 1, hn, ht⟩
    · rintro ⟨n, hn, rfl⟩
      cases n with
      | zero =>
        obtain rfl := Option.some.inj hn
        exact Or.inl (List.mem_singleton_self _)
      | succ n => exact Or.inr ⟨n, hn, rfl⟩

/-- No message of a run is delivered before its begin or after its end. -/
theorem timeline_now {w : World} {es : List Event} {x : ℚ × MqttMessage}
    (hx : x ∈ timeline w.now es) : w.now ≤ x.1 ∧ x.1 ≤ (w.run E es).now := by
  obtain ⟨n, hn, ht⟩ := (mem_timeline (E := E)).1 hx
  have h0 : w.now ≤ (worldAt E w es n).now := now_start n
  have h1 : (worldAt E w es n).now ≤ (w.run E es).now := now_end n
  rw [ht] at h0 h1
  exact ⟨h0, h1⟩

/-- The clock readings of a timeline never go back. -/
theorem timeline_clocked (E : Ctx) (w : World) (es : List Event) :
    (timeline w.now es).Pairwise fun x y => x.1 ≤ y.1 := by
  induction es generalizing w with
  | nil => exact List.Pairwise.nil
  | cons e es ih =>
    rw [timeline_cons, ← now_step (E := E), List.pairwise_append]
    refine ⟨?_, ih (w.step E e), fun x hx y hy => ?_⟩
    · cases e with
      | deliver m => exact List.pairwise_singleton _ _
      | _ => exact List.Pairwise.nil
    · have hle := (timeline_now (E := E) hx).2
      exact hle.trans (timeline_now (E := E) hy).1

/-- The messages delivered between two instants. -/
theorem mem_deliveredIn {q n : ℕ} {t : ℚ} {msg : MqttMessage} :
    (t, msg) ∈ deliveredIn E w₀ es q n ↔
      ∃ d, q < d ∧ d < n ∧ es[d]? = some (.deliver msg) ∧ (worldAt E w₀ es d).now = t := by
  unfold deliveredIn
  rw [mem_timeline (E := E)]
  have hget : ∀ k, q + 1 + k < n → ((es.take n).drop (q + 1))[k]? = es[q + 1 + k]? := by
    intro k hk
    rw [List.getElem?_drop, List.getElem?_take_of_lt hk]
  have hat : ∀ k, q + 1 + k ≤ n → worldAt E (worldAt E w₀ es (q + 1)) ((es.take n).drop (q + 1)) k =
      worldAt E w₀ es (q + 1 + k) := by
    intro k hk
    have hadd : worldAt E w₀ es (q + 1 + k) = (worldAt E w₀ es (q + 1)).run E
        ((es.take (q + 1 + k)).drop (q + 1)) := worldAt_add (by omega)
    rw [hadd]
    unfold worldAt
    rw [List.take_drop, List.take_take, min_eq_left hk]
  constructor
  · rintro ⟨k, hk, ht⟩
    have hlt : q + 1 + k < n := by
      have hlen := (List.getElem?_eq_some_iff.1 hk).1
      rw [List.length_drop, List.length_take] at hlen
      omega
    rw [hget k hlt] at hk
    rw [hat k hlt.le] at ht
    exact ⟨q + 1 + k, by omega, hlt, hk, ht⟩
  · rintro ⟨d, hqd, hdn, hd, ht⟩
    obtain ⟨k, rfl⟩ : ∃ k, d = q + 1 + k := ⟨d - (q + 1), by omega⟩
    exact ⟨k, by rw [hget k hdn]; exact hd, by rw [hat k hdn.le]; exact ht⟩

/-! ## The store before the baseline counts -/

/-- What the messages of a timeline have the store do. -/
def messageOps (E : Ctx) (tl : List (ℚ × MqttMessage)) : List StoreOp :=
  tl.filterMap fun x => messageOp E.L (E.wall x.1) x.2

/-- Before the baselines are counted only messages change the store. -/
theorem StepTo.db_begin {w w' : World} {e : Event} (h : StepTo E w e w') (hm : w.main = .begin)
    (he : ∀ msg, e ≠ .deliver msg) : w'.db = w.db := by
  cases h with
  | deliver msg => exact absurd rfl (he msg)
  | clear hm' => rw [hm] at hm'; cases hm'
  | syncTurn hi hs =>
    have hphase := hi.phase
    rw [hm] at hphase
    cases hphase
  | _ => rfl

theorem main_begin {w : World} (h : w.main.phase = 0) : w.main = .begin := by
  cases hm : w.main with
  | begin => rfl
  | counted => rw [hm] at h; cases h
  | collecting k => rw [hm] at h; cases h
  | published => rw [hm] at h; cases h

/-- **The store at the baseline counts** is what the messages so far made of it. -/
theorem db_before_reads (es : List Event) {w : World} (h : (w.run E es).main = .begin) :
    (w.run E es).db = StoreOp.runAll E.L E.cfg.store (messageOps E (timeline w.now es)) w.db := by
  induction es generalizing w with
  | nil => rfl
  | cons e es ih =>
    have hm : w.main = .begin := by
      have hle : (worldAt E w (e :: es) 0).main.phase ≤
          (worldAt E w (e :: es) (e :: es).length).main.phase := phase_mono (Nat.zero_le _)
      rw [worldAt_zero, worldAt_end le_rfl, h] at hle
      exact main_begin (Nat.le_zero.1 hle)
    have hstep : (w.step E e).db =
        StoreOp.runAll E.L E.cfg.store (messageOps E (timeline w.now [e])) w.db := by
      cases e with
      | deliver msg =>
        show (w.deliver E msg).db = _
        rw [deliver_db]
        unfold messageOps timeline timeline
        rw [List.filterMap_cons, List.filterMap_nil]
        cases messageOp E.L (E.wall w.now) msg <;> rfl
      | _ => exact (step_spec w _).db_begin hm (by intro msg h; cases h)
    have hops : messageOps E (timeline w.now (e :: es)) =
        messageOps E (timeline w.now [e]) ++ messageOps E (timeline (e.clock w.now) es) := by
      unfold messageOps
      rw [timeline_cons, List.filterMap_append]
    rw [run_cons, ih (by rw [← run_cons]; exact h), hstep, hops, StoreOp.runAll_append, now_step]

/-! ## The baseline of a topic -/

/-- The live messages of a history and of the first `n` events of the cycle after it. -/
def liveArrivals (E : Ctx) (ops : List StoreOp) (es : List Event) (n : ℕ) : List Arrival :=
  ops.filterMap StoreOp.arrival? ++
    (messageOps E (timeline E.started (es.take n))).filterMap StoreOp.arrival?

/-- A cycle that begins after a history of calls. -/
def afterHistory (E : Ctx) (ops : List StoreOp) (reg : ReplayRegistry) (m : Metrics) : World :=
  World.init E (StoreOp.runAll E.L E.cfg.store ops Db.empty) reg m

variable {ops : List StoreOp} {reg : ReplayRegistry} {m : Metrics}

theorem fresh_afterHistory : Fresh (afterHistory E ops reg m) := fresh_init ..

/-- A message that is stored live arrives when it is handled. -/
theorem arrival_of_messageOp {L : Lib} {t : ℚ} {msg : MqttMessage} {op : StoreOp} {a : Arrival}
    (h : messageOp L t msg = some op) (ha : op.arrival? = some a) : a.now = t := by
  unfold messageOp at h
  split at h
  · split at h
    · cases h
    split at h
    · obtain ⟨parts, -, rfl⟩ := Option.map_eq_some_iff.1 h
      cases ha
    · obtain rfl := Option.some.inj h
      obtain rfl := Option.some.inj ha
      rfl
  · cases h

/-- The live messages of the history, and those of the run. -/
theorem mem_liveArrivals {n : ℕ} {a : Arrival} : a ∈ liveArrivals E ops es n ↔
    a ∈ ops.filterMap StoreOp.arrival? ∨ ∃ t msg op, (t, msg) ∈ timeline E.started (es.take n) ∧
      messageOp E.L (E.wall t) msg = some op ∧ op.arrival? = some a := by
  unfold liveArrivals messageOps
  rw [List.mem_append, List.mem_filterMap (l := List.filterMap _ (timeline _ _))]
  refine or_congr_right ?_
  constructor
  · rintro ⟨op, hop, ha⟩
    obtain ⟨⟨t, msg⟩, hx, hop⟩ := List.mem_filterMap.1 hop
    exact ⟨t, msg, op, hx, hop, ha⟩
  · rintro ⟨t, msg, op, hx, hop, ha⟩
    exact ⟨op, List.mem_filterMap.2 ⟨(t, msg), hx, hop⟩, ha⟩

/-- The live messages of a clock-ordered history and of the run after it are clock-ordered. -/
theorem liveArrivals_clocked (hpast : (ops.filterMap StoreOp.arrival?).Pairwise fun a a' => a.now ≤ a'.now)
    (hnow : ∀ a ∈ ops.filterMap StoreOp.arrival?, a.now ≤ E.wall E.started) (n : ℕ) :
    (liveArrivals E ops es n).Pairwise fun a a' => a.now ≤ a'.now := by
  unfold liveArrivals messageOps
  rw [List.pairwise_append]
  refine ⟨hpast, ?_, fun a ha a' ha' => (hnow a ha).trans ?_⟩
  · rw [List.filterMap_filterMap]
    refine (timeline_clocked E (afterHistory E ops ReplayRegistry.new Metrics.new) (es.take n)).filterMap _ ?_
    intro x y hxy a ha a' ha'
    obtain ⟨op, hop, ha⟩ := Option.bind_eq_some_iff.1 ha
    obtain ⟨op', hop', ha'⟩ := Option.bind_eq_some_iff.1 ha'
    rw [arrival_of_messageOp hop ha, arrival_of_messageOp hop' ha']
    unfold Ctx.wall
    linarith
  · obtain ⟨op, hop, ha'⟩ := List.mem_filterMap.1 ha'
    obtain ⟨⟨t, msg⟩, hx, hop⟩ := List.mem_filterMap.1 hop
    have hle : E.started ≤ t := (timeline_now (E := E)
      (w := afterHistory E ops ReplayRegistry.new Metrics.new) hx).1
    rw [arrival_of_messageOp hop ha']
    unfold Ctx.wall
    linarith

/-- They arrive before the run has come so far. -/
theorem liveArrivals_now (hnow : ∀ a ∈ ops.filterMap StoreOp.arrival?, a.now ≤ E.wall E.started) {n : ℕ}
    {a : Arrival} (ha : a ∈ liveArrivals E ops es n) :
    a.now ≤ E.wall (worldAt E (afterHistory E ops reg m) es n).now := by
  rcases mem_liveArrivals.1 ha with ha | ⟨t, msg, op, hx, hop, ha⟩
  · have hle : E.started ≤ (worldAt E (afterHistory E ops reg m) es n).now := now_start n
    have := hnow a ha
    unfold Ctx.wall at this ⊢
    linarith
  · have hle : t ≤ (worldAt E (afterHistory E ops reg m) es n).now :=
      (timeline_now (w := afterHistory E ops reg m) hx).2
    rw [arrival_of_messageOp hop ha]
    unfold Ctx.wall
    linarith

/-- The baselines are counted once. -/
theorem reads_unique {b b' : ℕ} (h : ReadsAt E w₀ es b) (h' : ReadsAt E w₀ es b') : b = b' := by
  have key : ∀ {a c : ℕ}, ReadsAt E w₀ es a → ReadsAt E w₀ es c → c ≤ a := by
    intro a c ha hc
    by_contra hlt
    have hnext : (worldAt E w₀ es (a + 1)).main = .counted := by
      rw [worldAt_succ ha.1]
      simp only [World.step, World.readBaselines, ha.2]
    have hlt' : c < a + 1 := lt_of_phase_lt (by rw [hnext, hc.2]; exact Nat.zero_lt_one)
    omega
  have h1 := key h h'
  have h2 := key h' h
  omega

/-- The baseline of a topic at the baseline counts. -/
theorem baseline_at_read (he : 0 ≤ E.cfg.redisExpiry) {P : String}
    (hP : P ∈ E.cfg.subscriptionTopics) {b : ℕ} (hb : ReadsAt E (afterHistory E ops reg m) es b) :
    baseline (worldAt E (afterHistory E ops reg m) es b).db P =
      Retention.run (E.cfg.redisExpiry : ℚ)
        (deliveries E.L (fun a => topicMatches E.L P a.topic) (liveArrivals E ops es b)) := by
  have hdb : (worldAt E (afterHistory E ops reg m) es b).db = StoreOp.runAll E.L E.cfg.store
      (ops ++ messageOps E (timeline E.started (es.take b))) Db.empty := by
    rw [StoreOp.runAll_append]
    exact db_before_reads (es.take b) hb.2
  unfold liveArrivals
  rw [hdb, ← List.filterMap_append]
  exact baseline_runAll (S := E.cfg.store) he hP _

/-- What the run adds to the received counter of a topic. -/
def receivedIn (E : Ctx) (w₀ : World) (es : List Event) (P : String) : ℤ :=
  (w₀.run E es).metrics.messagesReceived (E.cfg.sensorCentreId, P) -
    w₀.metrics.messagesReceived (E.cfg.sensorCentreId, P)

/-- What is published for a topic is its count at the baseline counts. -/
theorem receivedIn_eq (hf : Fresh w₀) (hpub : (w₀.run E es).main = .published)
    (hn : E.cfg.subscriptionTopics.Nodup) {P : String} (hP : P ∈ E.cfg.subscriptionTopics) {b : ℕ}
    (hb : ReadsAt E w₀ es b) :
    receivedIn E w₀ es P = countMessages (E.wall (worldAt E w₀ es b).now) (worldAt E w₀ es b).db P
      E.window.start E.window.stop := by
  obtain ⟨b', c, hc⟩ := published_spec hf hpub
  obtain rfl := reads_unique hb hc.reads
  obtain ⟨k, hk⟩ := List.getElem?_of_mem hP
  unfold receivedIn
  rw [hc.metrics, runCycle_received hn _ _ hk, add_sub_cancel_left]
  rfl

end Scgrep
