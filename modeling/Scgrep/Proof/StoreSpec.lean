import Scgrep.Lib.Retention
import Scgrep.Spec.Store

/-!
# What the store operations do to one key

The keys of the four families are told apart by one character (`keyFamily`), so
each operation is seen from one key at a time:

* `baseline_storeMessage`: under one topic, `store_message` is one step of
  deduplicated indexing.
* `storeReplayMessage_at`, `storeSyncMessage_at`: the replay and sync sets are
  scored and renewed.
* `storeReplayMessage_frame` and its likes: no operation works on a set of another family.
-/

namespace Scgrep

open Redis

/-! ## Keys -/

/-- The character that tells the families of keys apart. -/
def keyFamily (key : String) : Option Char := key.toList[7]?

theorem keyFamily_append {pre : String} (h : 7 < pre.toList.length) (s : String) :
    keyFamily (pre ++ s) = pre.toList[7]? := by
  unfold keyFamily
  rw [String.toList_append, List.getElem?_append_left h]

@[simp] theorem keyFamily_msgKey (m : String) : keyFamily (msgKey m) = some 'm' :=
  keyFamily_append (by decide) m

@[simp] theorem keyFamily_topicKey (P : String) : keyFamily (topicKey P) = some 't' :=
  keyFamily_append (by decide) P

@[simp] theorem keyFamily_replayKey (c P : String) : keyFamily (replayKey c P) = some 'r' :=
  keyFamily_append (by decide) _

@[simp] theorem keyFamily_syncKey (c P : String) : keyFamily (syncKey c P) = some 's' :=
  keyFamily_append (by decide) _

theorem keys_ne {k k' : String} {a b : Char} (hk : keyFamily k = some a) (hk' : keyFamily k' = some b)
    (h : a ≠ b) : k ≠ k' := by
  rintro rfl
  rw [hk] at hk'
  exact h (Option.some.inj hk')

theorem msgKey_injective : Function.Injective msgKey :=
  fun _ _ h => (String.append_right_inj _).1 h

theorem topicKey_injective : Function.Injective topicKey :=
  fun _ _ h => (String.append_right_inj _).1 h

theorem replayKey_injective (c : String) : Function.Injective (replayKey c) := by
  intro P Q h
  have h := (String.append_right_inj _).1 h
  exact (String.append_right_inj _).1 h

/-- A centre without a colon is told apart from the topic behind it. -/
theorem colon_inj {c c' P Q : String} (hc : ':' ∉ c.toList) (hc' : ':' ∉ c'.toList)
    (h : c ++ ":" ++ P = c' ++ ":" ++ Q) : c = c' ∧ P = Q := by
  have hsplit : ∀ {a : String}, ':' ∉ a.toList → ∀ b : String,
      Text.split ':' (a ++ ":" ++ b) = a :: Text.split ':' b := by
    intro a ha b
    rw [Text.split_append (a := a) (b := b) (by simp), Text.split_of_not_mem ha]
    rfl
  have hl := congrArg (Text.split ':') h
  rw [hsplit hc, hsplit hc', List.cons.injEq] at hl
  exact ⟨hl.1, Text.split_injective hl.2⟩

theorem replayKey_inj {c c' P Q : String} (hc : ':' ∉ c.toList) (hc' : ':' ∉ c'.toList)
    (h : replayKey c P = replayKey c' Q) : c = c' ∧ P = Q :=
  colon_inj hc hc' ((String.append_right_inj _).1 h)

theorem syncKey_inj {c c' P Q : String} (hc : ':' ∉ c.toList) (hc' : ':' ∉ c'.toList)
    (h : syncKey c P = syncKey c' Q) : c = c' ∧ P = Q :=
  colon_inj hc hc' ((String.append_right_inj _).1 h)

/-! ## One key at a time -/

theorem Db.at_self (db : Db) (k : String) (f : Slot → Slot) : db.at k f k = f (db k) :=
  Function.update_self ..

theorem Db.at_ne (db : Db) {k k' : String} (h : k' ≠ k) (f : Slot → Slot) : db.at k f k' = db k' :=
  Function.update_of_ne h ..

/-- A loop over patterns that runs one idempotent command on the keys of some of them. -/
theorem foldl_at (key : String → String) (c : String → Bool) (f : Slot → Slot) (k : String)
    (topics : List String) (db : Db) (hf : f (f (db k)) = f (db k)) :
    (topics.foldl (fun (db : Db) P => if c P then db.at (key P) f else db) db) k =
      if ∃ P ∈ topics, c P = true ∧ key P = k then f (db k) else db k :=
  foldl_update_idem key c f k topics db hf

/-- Such a loop leaves a key alone that is none of its keys. -/
theorem foldl_at_ne (key : String → String) (c : String → Bool) (f : Slot → Slot) (k : String)
    (hk : ∀ P, key P ≠ k) (topics : List String) : ∀ db : Db,
    (topics.foldl (fun (db : Db) P => if c P then db.at (key P) f else db) db) k = db k := by
  induction topics with
  | nil => intro db; rfl
  | cons P Ps ih =>
    intro db
    rw [List.foldl_cons, ih]
    split
    · exact Db.at_ne _ (Ne.symm (hk P)) _
    · rfl

variable {L : Lib} {S : RedisStore}

/-! ## The baseline -/

/-- What `store_message` does when it stores: the marker, and the loop over the topics. -/
theorem storeMessage_new {db : Db} {now : ℚ} {msgId timeValue : String} {τ : ℚ} (topic : String)
    (ht : parseTimeToEpoch L timeValue = some τ) (hp : purge now (db (msgKey msgId)) = none) :
    (storeMessage L S now msgId timeValue topic db).2 =
      S.topics.foldl (fun (db : Db) P => if topicMatches L P topic then
          db.at (topicKey P) (index now msgId τ (now - S.expiry) S.expiry) else db)
        (db.at (msgKey msgId) fun _ => some ⟨.str topic, some (now + S.expiry)⟩) := by
  simp only [storeMessage, ht, setNxEx, hp]

theorem storeMessage_seen {db : Db} {now : ℚ} {msgId timeValue : String} (topic : String)
    {e : Entry String String ℚ} (hp : purge now (db (msgKey msgId)) = some e) :
    (storeMessage L S now msgId timeValue topic db).2 = db := by
  unfold storeMessage
  cases parseTimeToEpoch L timeValue with
  | none => rfl
  | some τ => simp only [setNxEx, hp]

theorem storeMessage_unparsed {db : Db} {now : ℚ} {msgId timeValue : String} (topic : String)
    (ht : parseTimeToEpoch L timeValue = none) :
    (storeMessage L S now msgId timeValue topic db).2 = db := by
  simp only [storeMessage, ht]

/-- `store_message` only works on markers and baseline sets. -/
theorem storeMessage_frame {k : String} (hm : keyFamily k ≠ some 'm') (ht : keyFamily k ≠ some 't')
    (now : ℚ) (msgId timeValue topic : String) (db : Db) :
    (storeMessage L S now msgId timeValue topic db).2 k = db k := by
  cases hp : parseTimeToEpoch L timeValue with
  | none => rw [storeMessage_unparsed topic hp]
  | some τ =>
    cases hq : purge now (db (msgKey msgId)) with
    | some e => rw [storeMessage_seen topic hq]
    | none =>
      rw [storeMessage_new topic hp hq, foldl_at_ne]
      · exact Db.at_ne _ (fun h => hm (by rw [h]; simp)) _
      · rintro Q rfl; exact ht (by simp)

/-- The part of the keyspace `store_message` works on for one topic. -/
def baseline (db : Db) (P : String) : Retention.State String String ℚ :=
  ⟨fun m => db (msgKey m), db (topicKey P)⟩

/-- **Under one topic, `store_message` is one step of deduplicated indexing.** -/
theorem baseline_storeMessage (he : 0 ≤ S.expiry) {P : String} (hP : P ∈ S.topics) {db : Db}
    (hns : NotStr (db (topicKey P))) (now : ℚ) (msgId : String) {timeValue : String} {τ : ℚ}
    (ht : parseTimeToEpoch L timeValue = some τ) (topic : String) :
    baseline (storeMessage L S now msgId timeValue topic db).2 P =
      Retention.step (S.expiry : ℚ) (baseline db P)
        ⟨now, msgId, τ, topic, topicMatches L P topic⟩ := by
  have he' : (0 : ℚ) ≤ S.expiry := by exact_mod_cast he
  cases hp : purge now (db (msgKey msgId)) with
  | some e =>
    have hm : purge now ((baseline db P).marks msgId) = some e := hp
    rw [storeMessage_seen topic hp, Retention.step_marked hm]
  | none =>
    have hm : purge now ((baseline db P).marks msgId) = none := hp
    rw [storeMessage_new topic ht hp, Retention.step_unmarked hm]
    set db₁ := db.at (msgKey msgId) fun _ => some ⟨.str topic, some (now + S.expiry)⟩ with hdb₁
    have ht₁ : db₁ (topicKey P) = db (topicKey P) :=
      Db.at_ne _ (keys_ne (keyFamily_topicKey P) (keyFamily_msgKey msgId) (by decide)) _
    ext1
    · funext m
      simp only [baseline]
      -- a loop over topic keys does not touch the markers
      rw [foldl_at_ne _ _ _ _ fun Q => keys_ne (keyFamily_topicKey Q) (keyFamily_msgKey m) (by decide),
        hdb₁]
      by_cases hmm : m = msgId
      · subst hmm; rw [Db.at_self, Function.update_self]
      · rw [Db.at_ne _ fun h => hmm (msgKey_injective h), Function.update_of_ne hmm]
    · simp only [baseline]
      rw [foldl_at _ _ _ _ _ _ (by rw [ht₁]; exact index_index hns (by linarith) _ _ _), ht₁]
      have hiff : (∃ Q ∈ S.topics, topicMatches L Q topic = true ∧ topicKey Q = topicKey P) ↔
          topicMatches L P topic = true := by
        constructor
        · rintro ⟨Q, -, hQ, h⟩; rwa [topicKey_injective h] at hQ
        · intro h; exact ⟨P, hP, h, rfl⟩
      simp only [hiff]

/-! ## The replay and the sync sets -/

/-- Whether a replayed message of a centre is indexed under the key `k`. -/
def indexedUnder (L : Lib) (S : RedisStore) (centreId originalTopic k : String) : Bool :=
  S.topics.any fun P => topicMatches L P originalTopic && decide (replayKey centreId P = k)

theorem storeReplayMessage_snd {now : ℚ} {centreId msgId timeValue originalTopic : String} {τ : ℚ}
    (ht : parseTimeToEpoch L timeValue = some τ) (db : Db) :
    (storeReplayMessage L S now centreId msgId timeValue originalTopic db).2 =
      S.topics.foldl (fun (db : Db) P => if topicMatches L P originalTopic then
        db.at (replayKey centreId P) (touch now msgId τ S.expiry) else db) db := by
  have key : ∀ (topics : List String) (b : Bool) (db : Db),
      (topics.foldl (fun (s : Bool × Db) P => if topicMatches L P originalTopic then
          (s.1 || zadded now msgId (s.2 (replayKey centreId P)),
            s.2.at (replayKey centreId P) (touch now msgId τ S.expiry)) else s) (b, db)).2 =
        topics.foldl (fun (db : Db) P => if topicMatches L P originalTopic then
          db.at (replayKey centreId P) (touch now msgId τ S.expiry) else db) db := by
    intro topics
    induction topics with
    | nil => intro b db; rfl
    | cons P Ps ih =>
      intro b db
      rw [List.foldl_cons, List.foldl_cons]
      by_cases h : topicMatches L P originalTopic = true
      · rw [if_pos h, if_pos h]; exact ih _ _
      · rw [if_neg h, if_neg h]; exact ih _ _
  unfold storeReplayMessage
  simp only [ht]
  rw [← key S.topics false db]

/-- **Under one key, `store_replay_message` scores and renews.** -/
theorem storeReplayMessage_at (he : 0 ≤ S.expiry) {db : Db} {k : String} (hns : NotStr (db k))
    (now : ℚ) (centreId msgId : String) {timeValue : String} {τ : ℚ}
    (ht : parseTimeToEpoch L timeValue = some τ) (originalTopic : String) :
    (storeReplayMessage L S now centreId msgId timeValue originalTopic db).2 k =
      Retention.touchStep (S.expiry : ℚ) (db k)
        ⟨now, msgId, τ, originalTopic, indexedUnder L S centreId originalTopic k⟩ := by
  have he' : (0 : ℚ) ≤ S.expiry := by exact_mod_cast he
  rw [storeReplayMessage_snd ht, foldl_at _ _ _ _ _ _ (touch_touch hns (by linarith) _ _)]
  have hiff : (∃ P ∈ S.topics, topicMatches L P originalTopic = true ∧ replayKey centreId P = k) ↔
      indexedUnder L S centreId originalTopic k = true := by
    simp [indexedUnder]
  simp only [Retention.touchStep, hiff]

theorem storeReplayMessage_unparsed {timeValue : String} (ht : parseTimeToEpoch L timeValue = none)
    (now : ℚ) (centreId msgId originalTopic : String) (db : Db) :
    (storeReplayMessage L S now centreId msgId timeValue originalTopic db).2 = db := by
  simp only [storeReplayMessage, ht]

/-! ## Refused ids -/

/-- An id that UTF-8 can encode is not refused. -/
theorem refuses_of_encodes {msgId : String} (h : L.encodes msgId = true) (timeValue : String) :
    refuses L msgId timeValue = false := by
  unfold refuses
  rw [h, Bool.not_true, Bool.and_false]

/-- Without a time nothing is refused. -/
theorem refuses_unparsed {timeValue : String} (h : parseTimeToEpoch L timeValue = none) (msgId : String) :
    refuses L msgId timeValue = false := by
  unfold refuses
  rw [h]
  rfl

theorem refusesReplay_of_refuses {msgId timeValue : String} (h : refuses L msgId timeValue = false)
    (originalTopic : String) : refusesReplay L S msgId timeValue originalTopic = false := by
  unfold refusesReplay
  rw [h, Bool.and_false]

/-- On a topic that no pattern selects no command is sent. -/
theorem refusesReplay_unmatched {originalTopic : String}
    (h : S.topics.any (topicMatches L · originalTopic) = false) (msgId timeValue : String) :
    refusesReplay L S msgId timeValue originalTopic = false := by
  unfold refusesReplay
  rw [h, Bool.false_and]

/-- On a topic that no pattern selects it does nothing. -/
theorem storeReplayMessage_unmatched {originalTopic : String}
    (h : S.topics.any (topicMatches L · originalTopic) = false) (now : ℚ)
    (centreId msgId timeValue : String) (db : Db) :
    (storeReplayMessage L S now centreId msgId timeValue originalTopic db).2 = db := by
  cases ht : parseTimeToEpoch L timeValue with
  | none => rw [storeReplayMessage_unparsed ht]
  | some τ =>
    rw [storeReplayMessage_snd ht]
    have hno := List.any_eq_false.1 h
    generalize S.topics = topics at hno
    induction topics with
    | nil => rfl
    | cons P Ps ih =>
      rw [List.foldl_cons, if_neg (hno P List.mem_cons_self)]
      exact ih fun Q hQ => hno Q (List.mem_cons_of_mem P hQ)

/-- A topic is indexed under the key of a pattern exactly when the pattern selects it. -/
theorem indexedUnder_replayKey {P : String} (hP : P ∈ S.topics) (centreId originalTopic : String) :
    indexedUnder L S centreId originalTopic (replayKey centreId P) =
      topicMatches L P originalTopic := by
  rw [Bool.eq_iff_iff]
  simp only [indexedUnder, List.any_eq_true, Bool.and_eq_true, decide_eq_true_eq]
  constructor
  · rintro ⟨Q, -, hQ, h⟩; rwa [replayKey_injective centreId h] at hQ
  · intro h; exact ⟨P, hP, h, rfl⟩

/-- `store_replay_message` only works on replay sets. -/
theorem storeReplayMessage_frame {k : String} (hk : keyFamily k ≠ some 'r') (now : ℚ)
    (centreId msgId timeValue originalTopic : String) (db : Db) :
    (storeReplayMessage L S now centreId msgId timeValue originalTopic db).2 k = db k := by
  cases ht : parseTimeToEpoch L timeValue with
  | none => rw [storeReplayMessage_unparsed ht]
  | some τ =>
    rw [storeReplayMessage_snd ht, foldl_at_ne]
    rintro P rfl; exact hk (by simp)

theorem storeSyncMessage_at {now : ℚ} {centreId P msgId timeValue : String} {τ : ℚ}
    (ht : parseTimeToEpoch L timeValue = some τ) (db : Db) (k : String) :
    (storeSyncMessage L S now centreId P msgId timeValue db).2 k =
      Retention.touchStep (S.expiry : ℚ) (db k)
        ⟨now, msgId, τ, P, decide (syncKey centreId P = k)⟩ := by
  simp only [storeSyncMessage, ht, Retention.touchStep, decide_eq_true_eq]
  split
  · rename_i h; subst h; exact Db.at_self _ _ _
  · rename_i h; exact Db.at_ne _ (Ne.symm h) _

theorem storeSyncMessage_unparsed {timeValue : String} (ht : parseTimeToEpoch L timeValue = none)
    (now : ℚ) (centreId P msgId : String) (db : Db) :
    (storeSyncMessage L S now centreId P msgId timeValue db).2 = db := by
  simp only [storeSyncMessage, ht]

/-- `store_sync_message` only works on its own set. -/
theorem storeSyncMessage_frame {k : String} {centreId P : String} (hk : k ≠ syncKey centreId P)
    (now : ℚ) (msgId timeValue : String) (db : Db) :
    (storeSyncMessage L S now centreId P msgId timeValue db).2 k = db k := by
  cases ht : parseTimeToEpoch L timeValue with
  | none => rw [storeSyncMessage_unparsed ht]
  | some τ => rw [storeSyncMessage_at ht, Retention.touchStep]; simp [Ne.symm hk]

theorem clearReplay_at (S : RedisStore) {centreIds : List String} {c P : String}
    (hc : c ∈ centreIds) (hP : P ∈ S.topics) (db : Db) :
    clearReplay S centreIds db (replayKey c P) = none := by
  unfold clearReplay Db.delete
  rw [if_pos]
  exact List.mem_flatMap.2 ⟨c, hc, List.mem_map.2 ⟨P, hP, rfl⟩⟩

theorem clearSync_at (S : RedisStore) {centreIds : List String} {c P : String}
    (hc : c ∈ centreIds) (hP : P ∈ S.topics) (db : Db) :
    clearSync S centreIds db (syncKey c P) = none := by
  unfold clearSync Db.delete
  rw [if_pos]
  exact List.mem_flatMap.2 ⟨c, hc, List.mem_map.2 ⟨P, hP, rfl⟩⟩

theorem clearReplay_frame (S : RedisStore) (centreIds : List String) {k : String}
    (hk : keyFamily k ≠ some 'r') (db : Db) : clearReplay S centreIds db k = db k := by
  unfold clearReplay Db.delete
  rw [if_neg]
  simp only [List.mem_flatMap, List.mem_map]
  rintro ⟨c, -, P, -, rfl⟩
  exact hk (by simp)

theorem clearSync_frame (S : RedisStore) (centreIds : List String) {k : String}
    (hk : keyFamily k ≠ some 's') (db : Db) : clearSync S centreIds db k = db k := by
  unfold clearSync Db.delete
  rw [if_neg]
  simp only [List.mem_flatMap, List.mem_map]
  rintro ⟨c, -, P, -, rfl⟩
  exact hk (by simp)

end Scgrep
