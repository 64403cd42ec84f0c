import Scgrep.Proof.Channels
import Scgrep.Proof.Identity

/-!
# Replays in any order

What the replay sets hold after a `clear_replay` and a list of replay messages,
read within one expiry period.

* `received_at`: a cleared set sees the deliveries as scored and renewed hits.
* `count_received`: **its count is the number of ids whose last indexed delivery has
  its time in the range**, unless the key of another centre is the same.
* `scores_confluent`: **with one time for each id, the order and the number of the
  deliveries do not matter.**
* `replays_confluent`: both together.
-/

namespace Scgrep

open Redis Retention

/-- A replay message as a broker delivers it, at a wall and a monotonic time. -/
structure ReplayDelivery where
  wall : ℚ
  mono : ℚ
  centreId : String
  subscriberId : String
  topic : String
  payload : String

/-- The id and the instant of a payload, if it has both and the id is text UTF-8 can encode. -/
def identityOf (L : Lib) (payload : String) : Option (String × ℚ) :=
  match L.loads payload with
  | .ok data => (featureRecord L data).bind fun m =>
    if L.encodes m.1 then (parseTimeToEpoch L m.2).map fun τ => (m.1, τ) else none
  | _ => none

namespace ReplayDelivery

def message (d : ReplayDelivery) : MqttMessage :=
  ⟨replayTopic d.centreId d.subscriberId d.topic, d.payload⟩

/-- What is delivered, without the times. -/
def content (d : ReplayDelivery) : String × String × String × String :=
  (d.centreId, d.subscriberId, d.topic, d.payload)

/-- Centre and subscriber are single levels, and the payload is a JSON object. -/
structure Plain (L : Lib) (d : ReplayDelivery) : Prop where
  centre : '/' ∉ d.centreId.toList
  subscriber : '/' ∉ d.subscriberId.toList
  object : ∃ kvs, L.loads d.payload = .ok (.obj kvs)

/-- What a delivery indexes for a centre and a topic: its id and its time. -/
def indexedFor (L : Lib) (c P : String) (d : ReplayDelivery) : Option (String × ℚ) :=
  if d.centreId = c ∧ topicMatches L P d.topic = true then identityOf L d.payload else none

end ReplayDelivery

open ReplayDelivery

variable {L : Lib} {S : RedisStore}

/-- The handler's state after all deliveries. -/
def received (L : Lib) (S : RedisStore) (ds : List ReplayDelivery) (s : HandlerState) : HandlerState :=
  ds.foldl (fun s d => (onMessage L S d.wall d.mono d.message s).2) s

/-- The deliveries and a reading lie within one expiry period from `t₀` on. -/
structure InPeriod (S : RedisStore) (t₀ : ℚ) (ds : List ReplayDelivery) (now : ℚ) : Prop where
  deliveries : ∀ d ∈ ds, t₀ ≤ d.wall ∧ d.wall ≤ t₀ + S.expiry
  reading : t₀ ≤ now ∧ now ≤ t₀ + S.expiry

/-- No delivery indexes under the key of the centre and the topic for another centre. -/
def KeyApart (S : RedisStore) (ds : List ReplayDelivery) (c P : String) : Prop :=
  ∀ d ∈ ds, ∀ Q ∈ S.topics, replayKey d.centreId Q = replayKey c P → d.centreId = c

/-- One list is a permutation of the other, up to repetitions. -/
def SameMessages (ds ds' : List ReplayDelivery) : Prop :=
  ∀ x, x ∈ ds.map ReplayDelivery.content ↔ x ∈ ds'.map ReplayDelivery.content

/-- An id is delivered with one time only. -/
def OneTimeEach (L : Lib) (ds : List ReplayDelivery) : Prop :=
  ∀ d ∈ ds, ∀ e ∈ ds, ∀ p q, identityOf L d.payload = some p → identityOf L e.payload = some q →
    p.1 = q.1 → p.2 = q.2

/-! ## One delivery -/

/-- A delivery as the set under a key sees it. -/
def ReplayDelivery.delivery (L : Lib) (S : RedisStore) (k : String) (d : ReplayDelivery) :
    Option (Delivery String String ℚ) :=
  (identityOf L d.payload).map fun p => ⟨d.wall, p.1, p.2, d.topic, indexedUnder L S d.centreId d.topic k⟩

/-- **A delivery, as a replay set sees it**, is scored and renews the set. -/
theorem onMessage_replay (he : 0 ≤ S.expiry) {d : ReplayDelivery} (hd : d.Plain L) {s : HandlerState}
    {k : String} (hns : NotStr (s.db k)) :
    (onMessage L S d.wall d.mono d.message s).2.db k =
      (d.delivery L S k).toList.foldl (touchStep (S.expiry : ℚ)) (s.db k) := by
  obtain ⟨kvs, hobj⟩ := hd.object
  have hr : Text.startsWith d.message.topic "replay/" = true := replay_startsWith _ _ _
  have hparts : replayParts d.message.topic = some (d.centreId, d.topic) :=
    replayParts_replayTopic hd.centre hd.subscriber d.topic
  have hparse : parseMessage L d.message.payload = .ok (featureRecord L (.obj kvs)) :=
    parseMessage_eq hobj
  have hid : identityOf L d.payload = (featureRecord L (.obj kvs)).bind fun m =>
      if L.encodes m.1 then (parseTimeToEpoch L m.2).map fun τ => (m.1, τ) else none := by
    unfold identityOf
    rw [hobj]
  unfold onMessage handleReplayMessage ReplayDelivery.delivery
  rw [if_pos hr, hparts, hparse, hid]
  cases hf : featureRecord L (.obj kvs) with
  | none => rfl
  | some m =>
    dsimp only [Option.bind_some]
    cases ht : parseTimeToEpoch L m.2 with
    | none =>
      rw [refusesReplay_of_refuses (refuses_unparsed ht m.1) d.topic, storeReplayMessage_unparsed ht]
      cases L.encodes m.1 <;> rfl
    | some τ =>
      cases henc : L.encodes m.1 with
      | true =>
        rw [refusesReplay_of_refuses (refuses_of_encodes henc m.2) d.topic, if_neg (by decide)]
        dsimp only
        rw [storeReplayMessage_at he hns _ _ _ ht]
        rfl
      | false =>
        -- it raises for a topic that matches; for others it has no command to send
        cases hany : S.topics.any (topicMatches L · d.topic) with
        | true =>
          have hyes : refusesReplay L S m.1 m.2 d.topic = true := by
            simp [refusesReplay, refuses, hany, ht, henc]
          rw [hyes]
          rfl
        | false =>
          rw [refusesReplay_unmatched hany m.1 m.2, if_neg (by decide)]
          dsimp only
          rw [storeReplayMessage_unmatched hany]
          rfl

/-! ## All deliveries -/

/-- **A set sees the deliveries** as scored and renewed hits. -/
theorem received_at (he : 0 ≤ S.expiry) {k : String} (ds : List ReplayDelivery)
    (hd : ∀ d ∈ ds, d.Plain L) {s : HandlerState} (h0 : s.db k = none) :
    (received L S ds s).db k = touched (S.expiry : ℚ) (ds.filterMap (ReplayDelivery.delivery L S k)) := by
  induction ds using List.reverseRecOn with
  | nil => exact h0
  | append_singleton ds d ih =>
    have ih := ih fun x hx => hd x (List.mem_append_left _ hx)
    have hlast : received L S (ds ++ [d]) s = (onMessage L S d.wall d.mono d.message (received L S ds s)).2 := by
      unfold received
      rw [List.foldl_append]
      rfl
    have hns : NotStr ((received L S ds s).db k) := by rw [ih]; exact notStr_touched _ _
    rw [hlast, onMessage_replay he (hd d (by simp)) hns, ih, List.filterMap_append]
    unfold touched
    rw [List.foldl_append]
    cases hx : d.delivery L S k <;> simp [hx]

/-- The scored hits of the deliveries, for a key of one centre and topic. -/
theorem hits_deliveries {c P : String} (hP : P ∈ S.topics) (ds : List ReplayDelivery)
    (hk : KeyApart S ds c P) :
    hits (ds.filterMap (ReplayDelivery.delivery L S (replayKey c P))) = ds.filterMap (indexedFor L c P) := by
  induction ds with
  | nil => rfl
  | cons d ds ih =>
    have ih := ih fun x hx => hk x (List.mem_cons_of_mem _ hx)
    have hhit : indexedUnder L S d.centreId d.topic (replayKey c P) =
        decide (d.centreId = c ∧ topicMatches L P d.topic = true) := by
      by_cases hc : d.centreId = c
      · subst hc
        rw [indexedUnder_replayKey hP]
        simp
      · rw [decide_eq_false (fun h => hc h.1)]
        unfold indexedUnder
        rw [List.any_eq_false]
        intro Q hQ h
        rw [Bool.and_eq_true, decide_eq_true_eq] at h
        exact hc (hk d List.mem_cons_self Q hQ h.2)
    have hdel : d.delivery L S (replayKey c P) = (identityOf L d.payload).map fun p =>
        ⟨d.wall, p.1, p.2, d.topic, decide (d.centreId = c ∧ topicMatches L P d.topic = true)⟩ := by
      unfold ReplayDelivery.delivery
      rw [hhit]
    have hidx : indexedFor L c P d =
        if d.centreId = c ∧ topicMatches L P d.topic = true then identityOf L d.payload else none := rfl
    rw [List.filterMap_cons, List.filterMap_cons, hdel, hidx]
    cases identityOf L d.payload with
    | none => rw [Option.map_none, ite_self]; exact ih
    | some p =>
      by_cases h : d.centreId = c ∧ topicMatches L P d.topic = true
      · rw [if_pos h, decide_eq_true h, ← ih]; rfl
      · rw [if_neg h, decide_eq_false h, ← ih]; rfl

theorem mem_hits_deliveries {k : String} {ds : List ReplayDelivery} {p : String × ℚ} :
    p ∈ hits (ds.filterMap (ReplayDelivery.delivery L S k)) ↔ ∃ d ∈ ds,
      identityOf L d.payload = some p ∧ indexedUnder L S d.centreId d.topic k = true := by
  unfold hits ReplayDelivery.delivery
  simp only [List.mem_map, List.mem_filter, List.mem_filterMap, Option.map_eq_some_iff]
  constructor
  · rintro ⟨x, ⟨⟨d, hd, q, hq, rfl⟩, hh⟩, rfl⟩; exact ⟨d, hd, hq, hh⟩
  · rintro ⟨d, hd, hq, hh⟩; exact ⟨_, ⟨⟨d, hd, p, hq, rfl⟩, hh⟩, rfl⟩

section Cleared

variable {centreIds : List String} {ds : List ReplayDelivery} {c P : String} {t₀ now : ℚ}

/-- The handler's state after a `clear_replay` and all deliveries. -/
def receivedCleared (L : Lib) (S : RedisStore) (centreIds : List String) (ds : List ReplayDelivery)
    (s : HandlerState) : HandlerState :=
  received L S ds { s with db := clearReplay S centreIds s.db }

/-- The scores of a cleared set are the last scores of its hits. -/
theorem zscore_received (hd : ∀ d ∈ ds, d.Plain L) (hc : c ∈ centreIds) (hP : P ∈ S.topics)
    (hper : InPeriod S t₀ ds now) (s : HandlerState) (m : String) :
    zscore now ((receivedCleared L S centreIds ds s).db (replayKey c P)) m =
      latest (hits (ds.filterMap (ReplayDelivery.delivery L S (replayKey c P)))) m := by
  obtain ⟨h1, h2⟩ := hper.reading
  have he : 0 ≤ S.expiry := by
    have : (0 : ℚ) ≤ S.expiry := by linarith
    exact_mod_cast this
  unfold receivedCleared
  rw [received_at he ds hd (clearReplay_at S hc hP s.db)]
  refine zscore_hits _ (fun x hx => ?_) h2 m
  obtain ⟨d, hds, hx⟩ := List.mem_filterMap.1 hx
  obtain ⟨p, -, rfl⟩ := Option.map_eq_some_iff.1 hx
  exact hper.deliveries d hds

/-- **The count of a cleared set** is the number of ids whose last indexed delivery has its
time in the range. -/
theorem count_received (hd : ∀ d ∈ ds, d.Plain L) (hc : c ∈ centreIds) (hP : P ∈ S.topics)
    (hper : InPeriod S t₀ ds now) (hk : KeyApart S ds c P) (s : HandlerState) (startEpoch endEpoch : ℤ) :
    countReplayMessages now (receivedCleared L S centreIds ds s).db c P startEpoch endEpoch =
      (latestIn (startEpoch : ℚ) endEpoch (ds.filterMap (indexedFor L c P))).card := by
  rw [← hits_deliveries hP ds hk]
  exact zcount_latest fun m => zscore_received hd hc hP hper s m

/-- **With one time for each id**, the order and the number of the deliveries do not matter. -/
theorem scores_confluent (hd : ∀ d ∈ ds, d.Plain L) (hc : c ∈ centreIds) (hP : P ∈ S.topics)
    (hper : InPeriod S t₀ ds now) (hone : OneTimeEach L ds) {ds' : List ReplayDelivery} {t₀' now' : ℚ}
    (hsame : SameMessages ds ds')
    (hper' : InPeriod S t₀' ds' now') (s s' : HandlerState) (m : String) :
    zscore now ((receivedCleared L S centreIds ds s).db (replayKey c P)) m =
      zscore now' ((receivedCleared L S centreIds ds' s').db (replayKey c P)) m := by
  have sub : ∀ {ds ds' : List ReplayDelivery}, (∀ x, x ∈ ds.map content → x ∈ ds'.map content) →
      ∀ d ∈ ds, ∃ d' ∈ ds', d'.centreId = d.centreId ∧ d'.subscriberId = d.subscriberId ∧
        d'.topic = d.topic ∧ d'.payload = d.payload := by
    intro ds ds' h d hd
    obtain ⟨d', hd', he⟩ := List.mem_map.1 (h _ (List.mem_map.2 ⟨d, hd, rfl⟩))
    simp only [content, Prod.mk.injEq] at he
    exact ⟨d', hd', he⟩
  have hto := sub fun x => (hsame x).1
  have hfrom := sub fun x => (hsame x).2
  have hd' : ∀ d ∈ ds', d.Plain L := by
    intro d' hd'
    obtain ⟨d, hds, h1, h2, h3, h4⟩ := hfrom d' hd'
    obtain ⟨p1, p2, p3⟩ := hd d hds
    exact ⟨by rw [← h1]; exact p1, by rw [← h2]; exact p2, by rw [← h4]; exact p3⟩
  rw [zscore_received hd hc hP hper, zscore_received hd' hc hP hper']
  refine latest_congr ?_ (fun p => ?_) m
  · intro p hp q hq
    obtain ⟨d, hds, hpd, -⟩ := mem_hits_deliveries.1 hp
    obtain ⟨e, hes, hqe, -⟩ := mem_hits_deliveries.1 hq
    exact hone d hds e hes p q hpd hqe
  · rw [mem_hits_deliveries, mem_hits_deliveries]
    constructor
    · rintro ⟨d, hds, hp, hh⟩
      obtain ⟨d', hd', h1, -, h3, h4⟩ := hto d hds
      exact ⟨d', hd', by rw [h4]; exact hp, by rw [h1, h3]; exact hh⟩
    · rintro ⟨d', hds', hp, hh⟩
      obtain ⟨d, hds, h1, -, h3, h4⟩ := hfrom d' hds'
      exact ⟨d, hds, by rw [h4]; exact hp, by rw [h1, h3]; exact hh⟩

/-- **Replay counting does not depend on order and duplication.** After a `clear_replay` naming the
centre, the count for a topic is the number of ids whose last indexed delivery has its time in
the range, unless another centre shares the key; and when each id has one time, any permutation
with any repetitions gives the same set and the same counts. -/
theorem replays_confluent (hd : ∀ d ∈ ds, d.Plain L) (hc : c ∈ centreIds) (hP : P ∈ S.topics)
    (hper : InPeriod S t₀ ds now) (s : HandlerState) :
    (KeyApart S ds c P → ∀ startEpoch endEpoch : ℤ,
      countReplayMessages now (receivedCleared L S centreIds ds s).db c P startEpoch endEpoch =
        (latestIn (startEpoch : ℚ) endEpoch (ds.filterMap (indexedFor L c P))).card) ∧
    (OneTimeEach L ds → ∀ (ds' : List ReplayDelivery) (t₀' now' : ℚ) (s' : HandlerState),
      SameMessages ds ds' → InPeriod S t₀' ds' now' →
      (∀ m, zscore now ((receivedCleared L S centreIds ds s).db (replayKey c P)) m =
        zscore now' ((receivedCleared L S centreIds ds' s').db (replayKey c P)) m) ∧
      ∀ startEpoch endEpoch : ℤ,
        countReplayMessages now (receivedCleared L S centreIds ds s).db c P startEpoch endEpoch =
          countReplayMessages now' (receivedCleared L S centreIds ds' s').db c P startEpoch endEpoch) := by
  refine ⟨fun hk startEpoch endEpoch => count_received hd hc hP hper hk s startEpoch endEpoch, ?_⟩
  intro hone ds' t₀' now' s' hsame hper'
  have hscores := scores_confluent hd hc hP hper hone hsame hper' s s'
  exact ⟨hscores, fun _ _ => zcount_congr hscores _ _⟩

end Cleared

/-! ## Samples -/

/-- One payload with an id and a time. -/
def replayLib : Lib :=
  { sampleTables with
    jsons := [("m", .ok (.obj [("id", .str "a"), ("time", .str "2024-01-01T00:00:00Z")]))] }.lib

/-- A delivery of that payload by a centre. -/
def sampleDelivery (wall : ℚ) (centreId topic : String) : ReplayDelivery :=
  ⟨wall, wall, centreId, "sub", topic, "m"⟩

def emptyHandler : HandlerState := ⟨ReplayRegistry.new, Redis.Db.empty⟩

theorem sampleDelivery_plain {wall : ℚ} {centreId topic : String} (hc : '/' ∉ centreId.toList) :
    (sampleDelivery wall centreId topic).Plain replayLib where
  centre := hc
  subscriber := by
    show '/' ∉ "sub".toList
    decide
  object := ⟨_, rfl⟩

/-- The same message three times, and once. -/
def thrice : List ReplayDelivery :=
  [sampleDelivery newYear "c" "x/1", sampleDelivery (newYear + 1) "c" "x/1",
    sampleDelivery (newYear + 2) "c" "x/1"]

def once : List ReplayDelivery := [sampleDelivery (newYear + 5) "c" "x/1"]

/-- A store with two topics, one of which begins with the end of a centre's name. -/
def clashStore : RedisStore := ⟨660, ["b:x/#", "x/#"]⟩

theorem mem_thrice {d : ReplayDelivery} (h : d ∈ thrice) :
    ∃ wall : ℚ, d = sampleDelivery wall "c" "x/1" ∧ newYear ≤ wall ∧ wall ≤ newYear + 2 := by
  simp only [thrice, List.mem_cons, List.not_mem_nil, or_false] at h
  rcases h with rfl | rfl | rfl
  · exact ⟨_, rfl, by decide +kernel, by decide +kernel⟩
  · exact ⟨_, rfl, by decide +kernel, by decide +kernel⟩
  · exact ⟨_, rfl, by decide +kernel, by decide +kernel⟩

theorem replays_confluent_sample :
    countReplayMessages (newYear + 9) (receivedCleared replayLib clashStore ["c"] thrice emptyHandler).db
        "c" "x/#" newYear (newYear + 60) =
      (latestIn (newYear : ℚ) ((newYear + 60 : ℤ) : ℚ)
        (thrice.filterMap (indexedFor replayLib "c" "x/#"))).card ∧
    countReplayMessages (newYear + 9) (receivedCleared replayLib clashStore ["c"] thrice emptyHandler).db
        "c" "x/#" newYear (newYear + 60) =
      countReplayMessages (newYear + 9) (receivedCleared replayLib clashStore ["c"] once emptyHandler).db
        "c" "x/#" newYear (newYear + 60) := by
  have hper : InPeriod clashStore newYear thrice (newYear + 9) := by
    refine ⟨fun d hd => ?_, by decide +kernel⟩
    obtain ⟨wall, rfl, h1, h2⟩ := mem_thrice hd
    refine ⟨h1, h2.trans ?_⟩
    decide +kernel
  have hper' : InPeriod clashStore newYear once (newYear + 9) := by
    refine ⟨fun d hd => ?_, by decide +kernel⟩
    obtain rfl := List.mem_singleton.1 hd
    decide +kernel
  have hplain : ∀ d ∈ thrice, d.Plain replayLib := by
    intro d hd
    obtain ⟨wall, rfl, -, -⟩ := mem_thrice hd
    exact sampleDelivery_plain (by decide)
  have h := replays_confluent hplain (show "c" ∈ ["c"] by decide) (show "x/#" ∈ clashStore.topics by decide)
    hper emptyHandler
  refine ⟨h.1 ?_ _ _, (h.2 ?_ once newYear (newYear + 9) emptyHandler ?_ hper').2 _ _⟩
  · intro d hd Q _ _
    obtain ⟨wall, rfl, -, -⟩ := mem_thrice hd
    rfl
  · intro d hd e he p q hp hq _
    obtain ⟨wall, rfl, -, -⟩ := mem_thrice hd
    obtain ⟨wall', rfl, -, -⟩ := mem_thrice he
    rw [Option.some.inj (hp.symm.trans hq)]
  · intro x
    simp [thrice, once, content, sampleDelivery]

/-- **Two centres can share a key**: a delivery of `a` on `b:x/y` is counted for `a:b` and `x/#`. -/
theorem replays_clash :
    (∀ d ∈ [sampleDelivery newYear "a" "b:x/y"], d.Plain replayLib) ∧
    InPeriod clashStore newYear [sampleDelivery newYear "a" "b:x/y"] newYear ∧
    countReplayMessages newYear (receivedCleared replayLib clashStore ["a", "a:b"]
      [sampleDelivery newYear "a" "b:x/y"] emptyHandler).db "a:b" "x/#" newYear (newYear + 60) ≠
    (latestIn (newYear : ℚ) ((newYear + 60 : ℤ) : ℚ)
      ([sampleDelivery newYear "a" "b:x/y"].filterMap (indexedFor replayLib "a:b" "x/#"))).card := by
  refine ⟨?_, ?_, by decide +kernel⟩
  · intro d hd
    obtain rfl := List.mem_singleton.1 hd
    exact sampleDelivery_plain (by decide)
  · refine ⟨fun d hd => ?_, by decide +kernel⟩
    obtain rfl := List.mem_singleton.1 hd
    decide +kernel

end Scgrep
