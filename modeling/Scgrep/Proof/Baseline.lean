import Scgrep.Proof.History
import Scgrep.Spec.Tables
import Scgrep.Spec.Cycle

/-!
# Baseline and replay counts over a history of deliveries

`storeAll` and `replayAll` feed a history to `store_message` and to
`store_replay_message`.

* `count_retained`: **retention never loses a baseline message.** A cycle counts
  every id delivered on a matching topic in its window.
* `counts_agree_iff`: within one retention period **both paths count the same iff
  every id counted for a replay was first delivered on a matching topic**: the
  baseline drops an id for every pattern once it was seen on any topic.
-/

namespace Scgrep

open Redis FloorWindow

/-- A message as it reaches the store. -/
structure Arrival where
  now : ℚ
  msgId : String
  timeValue : String
  topic : String
deriving DecidableEq

variable (L : Lib) (S : RedisStore)

/-- `store_message` on each arrival. -/
def storeAll (as : List Arrival) (db : Db) : Db :=
  as.foldl (fun db a => (storeMessage L S a.now a.msgId a.timeValue a.topic db).2) db

/-- `store_replay_message` on each arrival, for one centre. -/
def replayAll (centreId : String) (as : List Arrival) (db : Db) : Db :=
  as.foldl (fun db a => (storeReplayMessage L S a.now centreId a.msgId a.timeValue a.topic db).2) db

/-- Whether a time value lies in the window. -/
def timeIn (W : Window) (timeValue : String) : Bool :=
  match parseTimeToEpoch L timeValue with
  | some τ => decide ((W.start : ℚ) ≤ τ) && decide (τ < (W.stop : ℚ))
  | none => false

/-- The distinct ids delivered on a topic matching `P` with a time in the window. -/
def idsIn (W : Window) (P : String) (as : List Arrival) : Finset String :=
  ((as.filter fun a => topicMatches L P a.topic && timeIn L W a.timeValue).map Arrival.msgId).toFinset

variable {L S}

theorem mem_idsIn {W : Window} {P : String} {as : List Arrival} {m : String} :
    m ∈ idsIn L W P as ↔
      ∃ a ∈ as, a.msgId = m ∧ topicMatches L P a.topic = true ∧ timeIn L W a.timeValue = true := by
  simp only [idsIn, List.mem_toFinset, List.mem_map, List.mem_filter, Bool.and_eq_true]
  constructor
  · rintro ⟨a, ⟨ha, h1, h2⟩, rfl⟩; exact ⟨a, ha, rfl, h1, h2⟩
  · rintro ⟨a, ha, rfl, h1, h2⟩; exact ⟨a, ⟨ha, h1, h2⟩, rfl⟩

theorem timeIn_eq_true {W : Window} {timeValue : String} {τ : ℚ}
    (ht : parseTimeToEpoch L timeValue = some τ) :
    timeIn L W timeValue = true ↔ (W.start : ℚ) ≤ τ ∧ τ < (W.stop : ℚ) := by
  simp [timeIn, ht]

/-! ## The two paths as indexing -/

/-- An arrival as the set of a topic sees it; one without a time is dropped. -/
def Arrival.delivery? (L : Lib) (hit : Arrival → Bool) (a : Arrival) :
    Option (Retention.Delivery String String ℚ) :=
  (parseTimeToEpoch L a.timeValue).map fun τ => ⟨a.now, a.msgId, τ, a.topic, hit a⟩

/-- The history of a topic's set. -/
def deliveries (L : Lib) (hit : Arrival → Bool) (as : List Arrival) :
    List (Retention.Delivery String String ℚ) := as.filterMap (Arrival.delivery? L hit)

theorem deliveries_append (hit : Arrival → Bool) (as : List Arrival) (a : Arrival) :
    deliveries L hit (as ++ [a]) =
      deliveries L hit as ++ (a.delivery? L hit).toList := by
  simp only [deliveries, List.filterMap_append]
  cases h : a.delivery? L hit <;> simp [h]

theorem replayAll_append (centreId : String) (as : List Arrival) (a : Arrival) (db : Db) :
    replayAll L S centreId (as ++ [a]) db =
      (storeReplayMessage L S a.now centreId a.msgId a.timeValue a.topic
        (replayAll L S centreId as db)).2 := by
  simp [replayAll, List.foldl_append]

/-- The live message that a call stores. -/
def StoreOp.arrival? : StoreOp → Option Arrival
  | message now msgId timeValue topic => some ⟨now, msgId, timeValue, topic⟩
  | _ => none

/-- The call that stores a live message. -/
def Arrival.op (a : Arrival) : StoreOp := .message a.now a.msgId a.timeValue a.topic

theorem storeAll_eq (as : List Arrival) (db : Db) :
    storeAll L S as db = StoreOp.runAll L S (as.map Arrival.op) db := by
  unfold storeAll StoreOp.runAll
  rw [List.foldl_map]
  rfl

/-- Only live messages change the baseline of a topic. -/
theorem baseline_frame {op : StoreOp} (h : op.arrival? = none) (P : String) (db : Db) :
    baseline (op.run L S db) P = baseline db P := by
  have key : ∀ k, keyFamily k = some 'm' ∨ keyFamily k = some 't' → op.run L S db k = db k := by
    intro k hk
    have hr : keyFamily k ≠ some 'r' := by rcases hk with hk | hk <;> rw [hk] <;> decide
    have hs : keyFamily k ≠ some 's' := by rcases hk with hk | hk <;> rw [hk] <;> decide
    cases op with
    | message now msgId timeValue topic => cases h
    | replay now centreId msgId timeValue originalTopic => exact storeReplayMessage_frame hr ..
    | sync now centreId pattern msgId timeValue =>
      refine storeSyncMessage_frame ?_ now msgId timeValue db
      rintro rfl
      exact hs (keyFamily_syncKey _ _)
    | clearReplay centreIds => exact clearReplay_frame S centreIds hr db
    | clearSync centreIds => exact clearSync_frame S centreIds hs db
  unfold baseline
  rw [key _ (Or.inr (keyFamily_topicKey P))]
  congr 1
  funext m
  exact key _ (Or.inl (keyFamily_msgKey m))

/-- **The baseline of a topic is deduplicated indexing with retention** of the live messages
among whatever the store was told. -/
theorem baseline_runAll (he : 0 ≤ S.expiry) {P : String} (hP : P ∈ S.topics) (ops : List StoreOp) :
    baseline (StoreOp.runAll L S ops Db.empty) P = Retention.run (S.expiry : ℚ)
      (deliveries L (fun a => topicMatches L P a.topic) (ops.filterMap StoreOp.arrival?)) := by
  induction ops using List.reverseRecOn with
  | nil => rfl
  | append_singleton ops op ih =>
    rw [StoreOp.runAll_append]
    show baseline (op.run L S (StoreOp.runAll L S ops Db.empty)) P = _
    rw [List.filterMap_append]
    cases ha : op.arrival? with
    | none =>
      rw [baseline_frame ha, ih, List.filterMap_cons, ha, List.filterMap_nil, List.append_nil]
    | some a =>
      obtain rfl : op = a.op := by
        cases op with
        | message now msgId timeValue topic => cases ha; rfl
        | _ => cases ha
      rw [List.filterMap_cons, ha, List.filterMap_nil, deliveries_append]
      have hset := congrArg Retention.State.set ih
      have hns : NotStr (StoreOp.runAll L S ops Db.empty (topicKey P)) := by
        show NotStr (baseline (StoreOp.runAll L S ops Db.empty) P).set
        rw [hset]; exact Retention.notStr_run _ _
      show baseline (storeMessage L S a.now a.msgId a.timeValue a.topic _).2 P = _
      cases ht : parseTimeToEpoch L a.timeValue with
      | none =>
        rw [storeMessage_unparsed _ ht, ih]
        simp [Arrival.delivery?, ht]
      | some τ =>
        rw [baseline_storeMessage he hP hns _ _ ht, ih]
        simp [Arrival.delivery?, ht, Retention.run_append]

/-- The baseline of a topic after a history of live messages. -/
theorem baseline_storeAll (he : 0 ≤ S.expiry) {P : String} (hP : P ∈ S.topics) (as : List Arrival) :
    baseline (storeAll L S as Db.empty) P =
      Retention.run (S.expiry : ℚ) (deliveries L (fun a => topicMatches L P a.topic) as) := by
  have has : (as.map Arrival.op).filterMap StoreOp.arrival? = as := by
    rw [List.filterMap_map]
    exact List.filterMap_some
  rw [storeAll_eq, baseline_runAll he hP, has]

/-- The replay set of a topic is scored and renewed. -/
theorem replay_replayAll (he : 0 ≤ S.expiry) {P : String} (hP : P ∈ S.topics) (centreId : String)
    (as : List Arrival) :
    (replayAll L S centreId as Db.empty) (replayKey centreId P) =
      Retention.touched (S.expiry : ℚ) (deliveries L (fun a => topicMatches L P a.topic) as) := by
  induction as using List.reverseRecOn with
  | nil => rfl
  | append_singleton as a ih =>
    rw [replayAll_append, deliveries_append]
    cases ht : parseTimeToEpoch L a.timeValue with
    | none =>
      rw [storeReplayMessage_unparsed ht, ih]
      simp [Arrival.delivery?, ht]
    | some τ =>
      rw [storeReplayMessage_at he (by rw [ih]; exact Retention.notStr_touched _ _) _ _ _ ht, ih,
        indexedUnder_replayKey hP]
      simp [Arrival.delivery?, ht, Retention.touched_append]

/-! ## Histories with one time for each id -/

section OneTime

variable {as : List Arrival} {τ : String → ℚ}

/-- An arrival of an id with time `τ msgId`, as the set of a topic sees it. -/
def Arrival.timed (τ : String → ℚ) (hit : Arrival → Bool) (a : Arrival) :
    Retention.Delivery String String ℚ := ⟨a.now, a.msgId, τ a.msgId, a.topic, hit a⟩

theorem deliveries_eq_map (htime : ∀ a ∈ as, parseTimeToEpoch L a.timeValue = some (τ a.msgId))
    (hit : Arrival → Bool) : deliveries L hit as = as.map (Arrival.timed τ hit) := by
  unfold deliveries
  induction as with
  | nil => rfl
  | cons a as ih =>
    have ha : a.delivery? L hit = some (a.timed τ hit) := by
      simp [Arrival.delivery?, Arrival.timed, htime a List.mem_cons_self]
    rw [List.filterMap_cons_some ha, List.map_cons, ih fun b hb => htime b (List.mem_cons_of_mem _ hb)]

theorem oneScore_timed (as : List Arrival) (τ : String → ℚ) (hit : Arrival → Bool) :
    Retention.OneScore (as.map (Arrival.timed τ hit)) := by
  intro d hd e he h
  obtain ⟨a, -, rfl⟩ := List.mem_map.1 hd
  obtain ⟨b, -, rfl⟩ := List.mem_map.1 he
  exact congrArg τ h

/-- The ids in a window, read off the timed history. -/
theorem mem_idsIn_timed (htime : ∀ a ∈ as, parseTimeToEpoch L a.timeValue = some (τ a.msgId))
    {W : Window} {P m : String} :
    m ∈ idsIn L W P as ↔
      ∃ d ∈ as.map (Arrival.timed τ fun a => topicMatches L P a.topic),
        d.id = m ∧ d.hit = true ∧ (W.start : ℚ) ≤ d.score ∧ d.score < (W.stop : ℚ) := by
  rw [mem_idsIn]
  constructor
  · rintro ⟨a, ha, hm, h1, h2⟩
    exact ⟨_, List.mem_map_of_mem ha, hm, h1, (timeIn_eq_true (htime a ha)).1 h2⟩
  · rintro ⟨d, hd, hm, h1, h2⟩
    obtain ⟨a, ha, rfl⟩ := List.mem_map.1 hd
    exact ⟨a, ha, hm, h1, (timeIn_eq_true (htime a ha)).2 h2⟩

end OneTime

/-! ## Retention -/

section Retention

variable {cfg : Config} {as : List Arrival} {τ : String → ℚ}

/-- The window of a cycle begins less than the retention period before it. -/
theorem cutoff_lt_start (cfg : Config) (now : ℚ) :
    now - (cfg.redisExpiry : ℚ) + 59 < ((cycleWindow cfg now).start : ℚ) := by
  unfold cycleWindow window Config.redisExpiry
  have := Int.lt_floor_add_one (now - (cfg.timeLag : ℚ))
  push_cast
  linarith

/-- What a baseline of clock-ordered live messages counts, in a window in which none of them can
have been pruned or have expired. -/
theorem count_of_baseline (hclock : as.Pairwise fun a b => a.now ≤ b.now)
    (htime : ∀ a ∈ as, parseTimeToEpoch L a.timeValue = some (τ a.msgId))
    (htopic : ∀ a ∈ as, ∀ b ∈ as, a.msgId = b.msgId → a.topic = b.topic) {now : ℚ}
    (hnow : ∀ a ∈ as, a.now ≤ now) {db : Db} {P : String} {W : Window}
    (hahead : ∀ a ∈ as, a.msgId ∈ idsIn L W P as → τ a.msgId ≤ a.now + 59)
    (hdb : baseline db P = Retention.run (cfg.redisExpiry : ℚ)
      (deliveries L (fun a => topicMatches L P a.topic) as))
    (hW : now - (cfg.redisExpiry : ℚ) + 59 < (W.start : ℚ)) :
    countMessages now db P W.start W.stop = (idsIn L W P as).card := by
  have hset : db (topicKey P) = _ := congrArg Retention.State.set hdb
  simp only [deliveries_eq_map htime] at hset
  set ds := as.map (Arrival.timed τ fun a => topicMatches L P a.topic) with hds
  have hc : Retention.Clocked ds := List.pairwise_map.2 hclock
  have hh : Retention.OneHit ds := by
    intro d hd e he h
    obtain ⟨a, ha, rfl⟩ := List.mem_map.1 hd
    obtain ⟨b, hb, rfl⟩ := List.mem_map.1 he
    exact congrArg (topicMatches L P) (htopic a ha b hb h)
  have ha : ∀ d ∈ ds, d.hit = true → (W.start : ℚ) ≤ d.score → d.score < (W.stop : ℚ) →
      d.score ≤ d.now + 59 := by
    intro d hd hhit hlo hhi
    have hin : d.id ∈ idsIn L W P as := (mem_idsIn_timed htime).2 ⟨d, hd, rfl, hhit, hlo, hhi⟩
    obtain ⟨a, ha, rfl⟩ := List.mem_map.1 hd
    exact hahead a ha hin
  have hn : ∀ d ∈ ds, d.now ≤ now := by
    intro d hd
    obtain ⟨a, ha, rfl⟩ := List.mem_map.1 hd
    exact hnow a ha
  unfold countMessages
  rw [zcount_eq_card, hset]
  congr 1
  ext m
  rw [mem_idsIn_timed htime]
  exact Retention.mem_retained (by norm_num) ds hc (oneScore_timed _ _ _) hh ha hn hW

/-- **Retention never loses a baseline message.** -/
theorem count_retained (he : 0 ≤ cfg.redisExpiry)
    (hclock : as.Pairwise fun a b => a.now ≤ b.now)
    (htime : ∀ a ∈ as, parseTimeToEpoch L a.timeValue = some (τ a.msgId))
    (htopic : ∀ a ∈ as, ∀ b ∈ as, a.msgId = b.msgId → a.topic = b.topic)
    (hahead : ∀ a ∈ as, τ a.msgId ≤ a.now + 59)
    {P : String} (hP : P ∈ cfg.subscriptionTopics) {now : ℚ} (hnow : ∀ a ∈ as, a.now ≤ now) :
    countMessages now (storeAll L cfg.store as Db.empty) P
        (⌊now - (cfg.timeLag : ℚ)⌋ - cfg.testInterval) ⌊now - (cfg.timeLag : ℚ)⌋ =
      (idsIn L (cycleWindow cfg now) P as).card := by
  have hdb := baseline_storeAll (L := L) (S := cfg.store) he hP as
  exact count_of_baseline (W := cycleWindow cfg now) hclock htime htopic hnow
    (fun a ha _ => hahead a ha) hdb (cutoff_lt_start cfg now)

/-- Two ids, one of them delivered again from another broker. -/
def sampleArrivals : List Arrival :=
  [⟨newYear + 1, "a", "2024-01-01T00:00:00Z", "cache/a/wis2/x"⟩,
    ⟨newYear + 2, "b", "2024-01-01T00:01:00Z", "cache/a/wis2/y"⟩,
    ⟨newYear + 9, "a", "2024-01-01T00:00:00Z", "cache/a/wis2/x"⟩]

theorem count_retained_sample :
    countMessages (newYear + 330) (storeAll sampleTables.lib shippedConfig.store sampleArrivals Db.empty)
        "cache/a/wis2/#" (⌊(newYear + 330 : ℚ) - (shippedConfig.timeLag : ℚ)⌋ - shippedConfig.testInterval)
        ⌊(newYear + 330 : ℚ) - (shippedConfig.timeLag : ℚ)⌋ = 1 := by
  have h := @count_retained sampleTables.lib shippedConfig sampleArrivals
    (fun m => if m = "a" then newYear else newYear + 60) (by decide) (by decide +kernel)
    (by decide +kernel) (by decide +kernel) (by decide +kernel) "cache/a/wis2/#" (by decide)
    (newYear + 330) (by decide +kernel)
  rw [h]
  decide +kernel

end Retention

/-! ## One retention period -/

section Period

variable {as : List Arrival} {τ : String → ℚ}

/-- The first arrival of an id. -/
def firstArrival (as : List Arrival) (m : String) : Option Arrival :=
  as.find? fun a => decide (a.msgId = m)

theorem first_timed (as : List Arrival) (hit : Arrival → Bool) (m : String) :
    Retention.first (as.map (Arrival.timed τ hit)) m =
      (firstArrival as m).map (Arrival.timed τ hit) := by
  unfold Retention.first firstArrival
  rw [List.find?_map]
  rfl

/-- The baseline counts the ids whose first arrival matches. -/
theorem mem_baseline_period (he : 0 ≤ S.expiry)
    (htime : ∀ a ∈ as, parseTimeToEpoch L a.timeValue = some (τ a.msgId)) {t₀ now : ℚ}
    (h0 : ∀ a ∈ as, t₀ ≤ a.now) (hn : ∀ a ∈ as, a.now ≤ now) (hp : now ≤ t₀ + S.expiry)
    {P : String} (hP : P ∈ S.topics) {lo hi : ℚ} (hlo : now - S.expiry < lo) {m : String} :
    m ∈ zrange now lo hi ((storeAll L S as Db.empty) (topicKey P)) ↔
      ∃ a, firstArrival as m = some a ∧ topicMatches L P a.topic = true ∧ lo ≤ τ m ∧ τ m < hi := by
  have hset := congrArg Retention.State.set (baseline_storeAll (L := L) he hP as)
  simp only [baseline, deliveries_eq_map htime] at hset
  rw [hset, Retention.mem_first _ (by simpa [Arrival.timed] using h0)
    (by simpa [Arrival.timed] using hn) hp hlo]
  constructor
  · rintro ⟨d, hd, hh, h1, h2⟩
    rw [first_timed] at hd
    obtain ⟨a, ha, rfl⟩ := Option.map_eq_some_iff.1 hd
    have hm : a.msgId = m := by simpa using List.find?_some ha
    exact ⟨a, ha, hh, hm ▸ h1, hm ▸ h2⟩
  · rintro ⟨a, ha, hh, h1, h2⟩
    have hm : a.msgId = m := by simpa using List.find?_some ha
    refine ⟨a.timed τ fun a => topicMatches L P a.topic, ?_, hh, ?_, ?_⟩
    · rw [first_timed, ha]; rfl
    · rw [← hm] at h1; exact h1
    · rw [← hm] at h2; exact h2

/-- The replay count counts the ids of which some arrival matches. -/
theorem mem_replay_period (he : 0 ≤ S.expiry)
    (htime : ∀ a ∈ as, parseTimeToEpoch L a.timeValue = some (τ a.msgId)) {t₀ now : ℚ}
    (h0 : ∀ a ∈ as, t₀ ≤ a.now) (hn : ∀ a ∈ as, a.now ≤ now) (hp : now ≤ t₀ + S.expiry)
    {P : String} (hP : P ∈ S.topics) (centreId : String) {lo hi : ℚ} {m : String} :
    m ∈ zrange now lo hi ((replayAll L S centreId as Db.empty) (replayKey centreId P)) ↔
      ∃ a ∈ as, a.msgId = m ∧ topicMatches L P a.topic = true ∧ lo ≤ τ m ∧ τ m < hi := by
  rw [replay_replayAll he hP, deliveries_eq_map htime,
    Retention.mem_touched _ (oneScore_timed _ _ _) _ hp]
  · constructor
    · rintro ⟨d, hd, rfl, hh, h1, h2⟩
      obtain ⟨a, ha, rfl⟩ := List.mem_map.1 hd
      exact ⟨a, ha, rfl, hh, h1, h2⟩
    · rintro ⟨a, ha, rfl, hh, h1, h2⟩
      exact ⟨_, List.mem_map_of_mem ha, rfl, hh, h1, h2⟩
  · intro d hd
    obtain ⟨a, ha, rfl⟩ := List.mem_map.1 hd
    exact ⟨h0 a ha, (hn a ha).trans hp⟩

/-- **Both paths count the same** within one retention period iff every id that a replay
counts arrived first on a topic that matches too. -/
theorem counts_agree_iff (he : 0 ≤ S.expiry)
    (htime : ∀ a ∈ as, parseTimeToEpoch L a.timeValue = some (τ a.msgId)) {t₀ now : ℚ}
    (h0 : ∀ a ∈ as, t₀ ≤ a.now) (hn : ∀ a ∈ as, a.now ≤ now) (hp : now ≤ t₀ + S.expiry)
    {P : String} (hP : P ∈ S.topics) (centreId : String) {lo hi : ℤ}
    (hlo : now - S.expiry < (lo : ℚ)) :
    countMessages now (storeAll L S as Db.empty) P lo hi =
        countReplayMessages now (replayAll L S centreId as Db.empty) centreId P lo hi ↔
      ∀ a ∈ as, topicMatches L P a.topic = true → (lo : ℚ) ≤ τ a.msgId → τ a.msgId < (hi : ℚ) →
        ∃ b, firstArrival as a.msgId = some b ∧ topicMatches L P b.topic = true := by
  unfold countMessages countReplayMessages
  rw [zcount_eq_card, zcount_eq_card]
  set B := zrange now (lo : ℚ) (hi : ℚ) ((storeAll L S as Db.empty) (topicKey P)) with hB
  set R := zrange now (lo : ℚ) (hi : ℚ) ((replayAll L S centreId as Db.empty) (replayKey centreId P))
    with hR
  have hmB : ∀ m, m ∈ B ↔ _ := fun m => mem_baseline_period he htime h0 hn hp hP hlo
  have hmR : ∀ m, m ∈ R ↔ _ := fun m => mem_replay_period he htime h0 hn hp hP centreId
  -- the first arrival is an arrival, so the baseline never counts more
  have hsub : B ⊆ R := by
    intro m hm
    obtain ⟨a, ha, hh, h1, h2⟩ := (hmB m).1 hm
    have hid : a.msgId = m := by simpa using List.find?_some ha
    exact (hmR m).2 ⟨a, List.mem_of_find?_eq_some ha, hid, hh, h1, h2⟩
  constructor
  · intro hcard a ha hh h1 h2
    have heq : B = R := Finset.eq_of_subset_of_card_le hsub hcard.ge
    have hm : a.msgId ∈ B := by rw [heq]; exact (hmR _).2 ⟨a, ha, rfl, hh, h1, h2⟩
    obtain ⟨b, hb, hbh, -⟩ := (hmB _).1 hm
    exact ⟨b, hb, hbh⟩
  · intro hall
    congr 1
    refine Finset.Subset.antisymm hsub fun m hm => ?_
    obtain ⟨a, ha, rfl, hh, h1, h2⟩ := (hmR m).1 hm
    obtain ⟨b, hb, hbh⟩ := hall a ha hh h1 h2
    exact (hmB _).2 ⟨b, hb, hbh, h1, h2⟩

/-- Original and cached messages are tested against one service. -/
def bothConfig : Config :=
  sampleConfig ["origin/a/wis2/#", "cache/a/wis2/#"] ["ca-eccc"] ["https://x"]

/-- One message that arrived on two topics. -/
def twoTopics : List Arrival :=
  [⟨newYear + 1, "a", "2024-01-01T00:00:00Z", "origin/a/wis2/x"⟩,
    ⟨newYear + 2, "a", "2024-01-01T00:00:00Z", "cache/a/wis2/x"⟩]

/-- The id was seen on the other topic before, so the baseline misses it. -/
theorem counts_disagree :
    "cache/a/wis2/#" ∈ bothConfig.store.topics ∧
    countMessages (newYear + 330) (storeAll sampleTables.lib bothConfig.store twoTopics Db.empty)
        "cache/a/wis2/#" (newYear - 270) (newYear + 30) = 0 ∧
      countReplayMessages (newYear + 330)
        (replayAll sampleTables.lib bothConfig.store "ca-eccc" twoTopics Db.empty) "ca-eccc"
        "cache/a/wis2/#" (newYear - 270) (newYear + 30) = 1 := by decide +kernel

theorem counts_agree_sample :
    countMessages (newYear + 330)
        (storeAll sampleTables.lib shippedConfig.store sampleArrivals Db.empty)
        "cache/a/wis2/#" (newYear - 270) (newYear + 30) =
      countReplayMessages (newYear + 330)
        (replayAll sampleTables.lib shippedConfig.store "c" sampleArrivals Db.empty) "c"
        "cache/a/wis2/#" (newYear - 270) (newYear + 30) := by
  refine (@counts_agree_iff sampleTables.lib shippedConfig.store sampleArrivals
    (fun m => if m = "a" then newYear else newYear + 60) (by decide) (by decide +kernel)
    newYear (newYear + 330) (by decide +kernel) (by decide +kernel) (by decide +kernel)
    "cache/a/wis2/#" (by decide) "c" (newYear - 270) (newYear + 30) (by decide +kernel)).2 ?_
  have h : ∀ a ∈ sampleArrivals,
      (firstArrival sampleArrivals a.msgId).any
        (fun b => topicMatches sampleTables.lib "cache/a/wis2/#" b.topic) = true := by decide +kernel
  intro a ha _ _ _
  exact (Option.any_eq_true _ _).1 (h a ha)

end Period

end Scgrep
