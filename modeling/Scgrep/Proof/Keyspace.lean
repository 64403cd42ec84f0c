import Scgrep.Lib.Noninterference
import Scgrep.Proof.History
import Scgrep.Spec.Tables

/-!
# The three keyspaces

Each of the counts reads one family of keys. With centres that hold no colon, the
operations of the other families, and those of other centres and topics, leave
what it reads alone (`Noninterference.Unwinds`), so a history can be cut down to
the operations that concern a count:

* `baseline_unwinds`: the baseline to `store_message`.
* `replay_unwinds`: the replays of a centre to `store_replay_message` for it and
  `clear_replay` naming it.
* `sync_unwinds`: the sync set of a centre and a topic to `store_sync_message` for
  them and `clear_sync` naming the centre.
* `counts_apart`: **the counts after a history are those after its parts.**
-/

namespace Scgrep

open Redis Noninterference

variable {L : Lib} {S : RedisStore}

/-- A loop over patterns, seen from one key, depends on what is under that key. -/
theorem foldl_at_congr (key : String → String) (c : String → Bool) (f : Slot → Slot) {k : String}
    (topics : List String) : ∀ {db db' : Db}, db k = db' k →
    (topics.foldl (fun (db : Db) P => if c P then db.at (key P) f else db) db) k =
      (topics.foldl (fun (db : Db) P => if c P then db.at (key P) f else db) db') k := by
  induction topics with
  | nil => intro db db' h; exact h
  | cons P Ps ih =>
    intro db db' h
    rw [List.foldl_cons, List.foldl_cons]
    apply ih
    by_cases hc : c P = true
    · rw [if_pos hc, if_pos hc]
      by_cases hk : k = key P
      · rw [hk, Db.at_self, Db.at_self, ← hk, h]
      · rw [Db.at_ne _ hk, Db.at_ne _ hk, h]
    · rw [if_neg hc, if_neg hc]; exact h

namespace StoreOp

/-- The centres a call names. -/
def centres : StoreOp → List String
  | message .. => []
  | replay _ centreId .. => [centreId]
  | sync _ centreId .. => [centreId]
  | clearReplay centreIds => centreIds
  | clearSync centreIds => centreIds

/-- No centre it names holds a colon. -/
def ColonFree (op : StoreOp) : Prop := ∀ c ∈ op.centres, ':' ∉ c.toList

instance (op : StoreOp) : Decidable op.ColonFree :=
  inferInstanceAs (Decidable (∀ c ∈ op.centres, ':' ∉ c.toList))

/-- `store_message` calls. -/
def isMessage : StoreOp → Bool
  | message .. => true
  | _ => false

/-- `store_replay_message` calls for the centre, and `clear_replay` calls naming it. -/
def isReplayOf (c : String) : StoreOp → Bool
  | replay _ centreId .. => decide (centreId = c)
  | clearReplay centreIds => decide (c ∈ centreIds)
  | _ => false

/-- `store_sync_message` calls for the centre and the topic, and `clear_sync` calls
naming the centre. -/
def isSyncOf (c P : String) : StoreOp → Bool
  | sync _ centreId pattern .. => decide (centreId = c ∧ pattern = P)
  | clearSync centreIds => decide (c ∈ centreIds)
  | _ => false

/-! ## The baseline -/

/-- All markers and all baseline sets. -/
def baselineView (db : Db) : (String → Slot) × (String → Slot) :=
  (fun m => db (msgKey m), fun P => db (topicKey P))

/-- What a message does to the baseline depends on the baseline. -/
theorem baselineView_message {db db' : Db} (h : baselineView db = baselineView db') (now : ℚ)
    (msgId timeValue topic : String) :
    baselineView (storeMessage L S now msgId timeValue topic db).2 =
      baselineView (storeMessage L S now msgId timeValue topic db').2 := by
  have hm : ∀ m, db (msgKey m) = db' (msgKey m) := congrFun (congrArg Prod.fst h)
  have ht : ∀ P, db (topicKey P) = db' (topicKey P) := congrFun (congrArg Prod.snd h)
  cases hp : parseTimeToEpoch L timeValue with
  | none => rw [storeMessage_unparsed topic hp, storeMessage_unparsed topic hp, h]
  | some τ =>
    cases hq : purge now (db (msgKey msgId)) with
    | some e =>
      rw [storeMessage_seen topic hq, storeMessage_seen topic (by rw [← hm]; exact hq), h]
    | none =>
      rw [storeMessage_new topic hp hq, storeMessage_new topic hp (by rw [← hm]; exact hq)]
      set mark : Slot → Slot := fun _ => some ⟨.str topic, some (now + S.expiry)⟩
      -- both states get the marker, so the loops start from agreeing states
      have hmark : ∀ k, db k = db' k → (db.at (msgKey msgId) mark) k = (db'.at (msgKey msgId) mark) k := by
        intro k hk
        by_cases hkm : k = msgKey msgId
        · rw [hkm, Db.at_self, Db.at_self]
        · rw [Db.at_ne _ hkm, Db.at_ne _ hkm, hk]
      unfold baselineView
      refine Prod.ext ?_ ?_
      · funext m; exact foldl_at_congr _ _ _ _ (hmark _ (hm m))
      · funext P; exact foldl_at_congr _ _ _ _ (hmark _ (ht P))

theorem baseline_unwinds : Unwinds (run L S) baselineView isMessage fun _ => True where
  own := by
    intro op _ hmine db db' h
    cases op with
    | message now msgId timeValue topic => exact baselineView_message h now msgId timeValue topic
    | _ => cases hmine
  other := by
    intro op _ hmine db
    have key : ∀ db' : Db, (∀ k, keyFamily k ≠ some 'r' → keyFamily k ≠ some 's' → db' k = db k) →
        baselineView db' = baselineView db := by
      intro db' h
      refine Prod.ext ?_ ?_
      · funext m; exact h _ (by simp) (by simp)
      · funext P; exact h _ (by simp) (by simp)
    apply key
    intro k hr hs
    cases op with
    | message => cases hmine
    | replay => exact storeReplayMessage_frame hr _ _ _ _ _ _
    | sync => exact storeSyncMessage_frame (by rintro rfl; exact hs (by simp)) _ _ _ _
    | clearReplay => exact clearReplay_frame S _ hr db
    | clearSync => exact clearSync_frame S _ hs db

/-! ## The replays of a centre -/

/-- A loop over the patterns of one centre does not work on the sets of another. -/
theorem replay_other {c c' : String} (hc : ':' ∉ c.toList) (hc' : ':' ∉ c'.toList) (hne : c' ≠ c)
    (P : String) : ∀ Q, replayKey c' Q ≠ replayKey c P :=
  fun _ h => hne (replayKey_inj hc' hc h).1

theorem replay_unwinds {c : String} (hc : ':' ∉ c.toList) (P : String) :
    Unwinds (run L S) (fun db => db (replayKey c P)) (isReplayOf c) ColonFree where
  own := by
    intro op _ hmine db db' h
    cases op with
    | replay now centreId msgId timeValue topic =>
      simp only [run]
      cases hp : parseTimeToEpoch L timeValue with
      | none => rw [storeReplayMessage_unparsed hp, storeReplayMessage_unparsed hp]; exact h
      | some τ =>
        rw [storeReplayMessage_snd hp, storeReplayMessage_snd hp]
        exact foldl_at_congr _ _ _ _ h
    | clearReplay centreIds =>
      simp only [run, Scgrep.clearReplay, Db.delete]
      rw [h]
    | _ => cases hmine
  other := by
    intro op hok hmine db
    cases op with
    | message => exact storeMessage_frame (by simp) (by simp) _ _ _ _ _
    | replay now centreId msgId timeValue topic =>
      have hne : centreId ≠ c := by simpa [isReplayOf] using hmine
      simp only [run]
      cases hp : parseTimeToEpoch L timeValue with
      | none => rw [storeReplayMessage_unparsed hp]
      | some τ =>
        rw [storeReplayMessage_snd hp]
        exact foldl_at_ne _ _ _ _ (replay_other hc (hok _ (by simp [centres])) hne P) _ _
    | sync => exact storeSyncMessage_frame (keys_ne (keyFamily_replayKey c P) (keyFamily_syncKey _ _)
        (by decide)) _ _ _ _
    | clearReplay centreIds =>
      have hnot : c ∉ centreIds := by simpa [isReplayOf] using hmine
      simp only [run, Scgrep.clearReplay, Db.delete]
      rw [if_neg]
      simp only [List.mem_flatMap, List.mem_map]
      rintro ⟨c', hc', Q, -, hk⟩
      exact replay_other hc (hok c' hc') (fun e => hnot (e ▸ hc')) P Q hk
    | clearSync => exact clearSync_frame S _ (by simp) db

/-! ## The sync set of a centre and a topic -/

theorem sync_unwinds {c : String} (hc : ':' ∉ c.toList) (P : String) :
    Unwinds (run L S) (fun db => db (syncKey c P)) (isSyncOf c P) ColonFree where
  own := by
    intro op _ hmine db db' h
    cases op with
    | sync now centreId pattern msgId timeValue =>
      simp only [run]
      cases hp : parseTimeToEpoch L timeValue with
      | none => rw [storeSyncMessage_unparsed hp, storeSyncMessage_unparsed hp]; exact h
      | some τ => rw [storeSyncMessage_at hp, storeSyncMessage_at hp, h]
    | clearSync centreIds =>
      simp only [run, Scgrep.clearSync, Db.delete]
      rw [h]
    | _ => cases hmine
  other := by
    intro op hok hmine db
    cases op with
    | message => exact storeMessage_frame (by simp) (by simp) _ _ _ _ _
    | replay => exact storeReplayMessage_frame (by simp) _ _ _ _ _ _
    | sync now centreId pattern msgId timeValue =>
      have hne : ¬ (centreId = c ∧ pattern = P) := by simpa [isSyncOf] using hmine
      refine storeSyncMessage_frame (fun hk => ?_) _ _ _ _
      obtain ⟨h1, h2⟩ := syncKey_inj hc (hok _ (by simp [centres])) hk
      exact hne ⟨h1.symm, h2.symm⟩
    | clearReplay => exact clearReplay_frame S _ (by simp) db
    | clearSync centreIds =>
      have hnot : c ∉ centreIds := by simpa [isSyncOf] using hmine
      simp only [run, Scgrep.clearSync, Db.delete]
      rw [if_neg]
      simp only [List.mem_flatMap, List.mem_map]
      rintro ⟨c', hc', Q, -, hk⟩
      exact hnot ((syncKey_inj (hok c' hc') hc hk).1 ▸ hc')

/-! ## The counts -/

/-- **The counts after a history are those after its parts**: the baseline after the
`store_message` calls, the replays of a centre after the calls for it, and a sync count
after the calls for its centre and topic. -/
theorem counts_apart (ops : List StoreOp) (hops : ∀ op ∈ ops, op.ColonFree) {c : String}
    (hc : ':' ∉ c.toList) (P : String) (startEpoch endEpoch : ℤ) (now : ℚ) (db : Db) :
    countMessages now (runAll L S ops db) P startEpoch endEpoch =
        countMessages now (runAll L S (ops.filter isMessage) db) P startEpoch endEpoch ∧
      countReplayMessages now (runAll L S ops db) c P startEpoch endEpoch =
        countReplayMessages now (runAll L S (ops.filter (isReplayOf c)) db) c P startEpoch endEpoch ∧
      countSyncMessages now (runAll L S ops db) c P startEpoch endEpoch =
        countSyncMessages now (runAll L S (ops.filter (isSyncOf c P)) db) c P startEpoch endEpoch := by
  refine ⟨?_, ?_, ?_⟩
  · have h := (baseline_unwinds (L := L) (S := S)).run ops (fun _ _ => trivial) (s := db) rfl
    have hP : runAll L S ops db (topicKey P) = runAll L S (ops.filter isMessage) db (topicKey P) :=
      congrFun (congrArg Prod.snd h) P
    unfold countMessages
    rw [hP]
  · have h : runAll L S ops db (replayKey c P) = runAll L S (ops.filter (isReplayOf c)) db (replayKey c P) :=
      (replay_unwinds hc P).run ops hops rfl
    unfold countReplayMessages
    rw [h]
  · have h : runAll L S ops db (syncKey c P) = runAll L S (ops.filter (isSyncOf c P)) db (syncKey c P) :=
      (sync_unwinds hc P).run ops hops rfl
    unfold countSyncMessages
    rw [h]

/-- One message on all three ways, replayed by two centres of which one is cleared. -/
def sampleOps : List StoreOp :=
  [message newYear "m1" "2024-01-01T00:00:00Z" "cache/a/wis2/x",
    replay (newYear + 60) "ca-eccc" "m1" "2024-01-01T00:00:00Z" "cache/a/wis2/x",
    replay (newYear + 61) "fr-mf" "m1" "2024-01-01T00:00:00Z" "cache/a/wis2/x",
    sync (newYear + 62) "ca-eccc" "cache/a/wis2/#" "m1" "2024-01-01T00:00:00Z",
    clearReplay ["fr-mf"]]

/-- The store of the shipped deployment. -/
def sampleStore : RedisStore := ⟨660, ["cache/a/wis2/#"]⟩

theorem counts_apart_sample :
    countMessages newYear (runAll sampleTables.lib sampleStore sampleOps Redis.Db.empty)
        "cache/a/wis2/#" 0 newYear =
      countMessages newYear (runAll sampleTables.lib sampleStore (sampleOps.filter isMessage)
        Redis.Db.empty) "cache/a/wis2/#" 0 newYear ∧
    countReplayMessages newYear (runAll sampleTables.lib sampleStore sampleOps Redis.Db.empty)
        "ca-eccc" "cache/a/wis2/#" 0 newYear =
      countReplayMessages newYear (runAll sampleTables.lib sampleStore
        (sampleOps.filter (isReplayOf "ca-eccc")) Redis.Db.empty) "ca-eccc" "cache/a/wis2/#" 0 newYear ∧
    countSyncMessages newYear (runAll sampleTables.lib sampleStore sampleOps Redis.Db.empty)
        "ca-eccc" "cache/a/wis2/#" 0 newYear =
      countSyncMessages newYear (runAll sampleTables.lib sampleStore
        (sampleOps.filter (isSyncOf "ca-eccc" "cache/a/wis2/#")) Redis.Db.empty)
        "ca-eccc" "cache/a/wis2/#" 0 newYear :=
  counts_apart sampleOps (by decide) (by decide) _ _ _ _ _

end StoreOp

end Scgrep
