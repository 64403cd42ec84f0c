import Scgrep.Proof.MessageLines
import Scgrep.Proof.StoreSpec

/-!
# The report message by message

* `scanMessages_records`, `mem_buckets_iff`: over the lines of legible records the report
  holds an id in a minute iff one of them has that id and a time of that minute.
* `newlyStored_logged`, `logged_carried`: what is newly stored is logged, and what is
  logged was handled.
* `reads_back`: **a run of which every record is legible is read back.**
* `minute_misread`: a time with a space in it is counted under another minute.
-/

namespace Scgrep

open Pattern

variable {L : Lib} {S : RedisStore}

/-! ## The lines of a run -/

/-- The lines of some records, each with a stamp of its own. -/
def Printed (L : Lib) (records : List LogRecord) (lines : List String) : Prop :=
  List.Forall₂ (fun r line => ∃ s, line = r.line L s) records lines

/-- **The scan of the lines of legible records.** -/
theorem scanMessages_records {records : List LogRecord} {lines : List String}
    (h : ∀ r ∈ records, r.Legible L) (hlines : Printed L records lines) : ∀ b : Buckets,
    lines.foldlM (scanMessageLine L "" bothSources) b = .ok (records.foldl (LogRecord.add L) b) := by
  induction hlines with
  | nil => intro b; rfl
  | cons hline _ ih =>
    intro b
    obtain ⟨s, rfl⟩ := hline
    have hone := scanMessageLine_record (h _ List.mem_cons_self) s b
    have hrest := ih fun r hr => h r (List.mem_cons_of_mem _ hr)
    rw [List.foldlM_cons, hone, List.foldl_cons]
    exact hrest _

theorem Minutes.mem_addTime_iff {d : Minutes} {timeValue msgId x : String} {m : ℤ} :
    x ∈ (d.addTime L timeValue msgId).at m ↔
      x ∈ d.at m ∨ msgId = x ∧ (parseTimeToEpoch L timeValue).map floorMinute = some m := by
  unfold Minutes.addTime
  cases h : (parseTimeToEpoch L timeValue).map floorMinute with
  | none => simp
  | some minute =>
    dsimp only
    rw [Minutes.at_add]
    by_cases hm : m = minute
    · subst hm
      rw [if_pos rfl, Finset.mem_insert]
      tauto
    · have hne : (some minute : Option ℤ) ≠ some m := fun he => hm (Option.some.inj he).symm
      rw [if_neg hm]
      tauto

theorem mem_addTime_iff {b : Buckets} {timeValue msgId x : String} {side side' : Side} {m : ℤ} :
    x ∈ ((b.addTime L timeValue msgId side').on side).at m ↔ x ∈ (b.on side).at m ∨
      side' = side ∧ msgId = x ∧ (parseTimeToEpoch L timeValue).map floorMinute = some m := by
  cases side' with
  | baseline =>
    cases side with
    | baseline => exact Minutes.mem_addTime_iff.trans (or_congr_right (by tauto))
    | replay => exact (or_iff_left (by rintro ⟨h, -⟩; cases h)).symm
  | replay =>
    cases side with
    | baseline => exact (or_iff_left (by rintro ⟨h, -⟩; cases h)).symm
    | replay => exact Minutes.mem_addTime_iff.trans (or_congr_right (by tauto))

/-- A record has this id, on this side and at a time of this minute. -/
def LogRecord.For (L : Lib) (side : Side) (x : String) (m : ℤ) (r : LogRecord) : Prop :=
  ∃ timeValue, r.entry = some (side, x, timeValue) ∧ (parseTimeToEpoch L timeValue).map floorMinute = some m

theorem mem_add_iff {b : Buckets} {r : LogRecord} {side : Side} {x : String} {m : ℤ} :
    x ∈ ((r.add L b).on side).at m ↔ x ∈ (b.on side).at m ∨ r.For L side x m := by
  unfold LogRecord.add LogRecord.For
  cases h : r.entry with
  | none => simp
  | some e =>
    obtain ⟨side', msgId, timeValue⟩ := e
    dsimp only
    rw [mem_addTime_iff]
    refine or_congr_right ⟨?_, ?_⟩
    · rintro ⟨rfl, rfl, ht⟩
      exact ⟨timeValue, rfl, ht⟩
    · rintro ⟨t, he, ht⟩
      obtain ⟨rfl, rfl, rfl⟩ : side' = side ∧ msgId = x ∧ timeValue = t := by
        simpa using he
      exact ⟨rfl, rfl, ht⟩

/-- **What the report holds**: the ids of the records, in the minutes of their times. -/
theorem mem_buckets_iff {side : Side} {x : String} {m : ℤ} (records : List LogRecord) : ∀ b : Buckets,
    x ∈ ((records.foldl (LogRecord.add L) b).on side).at m ↔
      x ∈ (b.on side).at m ∨ ∃ r ∈ records, r.For L side x m := by
  induction records with
  | nil => intro b; simp
  | cons r records ih =>
    intro b
    rw [List.foldl_cons, ih, mem_add_iff, List.exists_mem_cons_iff, or_assoc]

/-! ## What is stored is logged, what is logged was handled -/

namespace Handled

/-- The side, the id and the time that a call works on. -/
def carries (L : Lib) : Handled → Option (Side × String × String)
  | .message _ _ _ msg =>
    if Text.startsWith msg.topic "replay/" then
      match replayParts msg.topic, parseMessage L msg.payload with
      | some _, .ok (some (msgId, timeValue)) => some (.replay, msgId, timeValue)
      | _, _ => none
    else
      match parseMessage L msg.payload with
      | .ok (some (msgId, timeValue)) => some (.baseline, msgId, timeValue)
      | _ => none
  | .feature _ _ _ item => (featureRecord L item).map fun m => (.replay, m.1, m.2)

/-- What the store reports of the call: whether the message is newly stored. -/
def isNew (L : Lib) (S : RedisStore) (s : HandlerState) : Handled → Bool
  | .message wall _ _ msg =>
    match parseMessage L msg.payload with
    | .ok (some (msgId, timeValue)) =>
      if Text.startsWith msg.topic "replay/" then
        match replayParts msg.topic with
        | some (centreId, originalTopic) => !refusesReplay L S msgId timeValue originalTopic &&
          (storeReplayMessage L S wall centreId msgId timeValue originalTopic s.db).1
        | none => false
      else !refuses L msgId timeValue && (storeMessage L S wall msgId timeValue msg.topic s.db).1
    | _ => false
  | .feature wall centreId topic item =>
    match featureRecord L item with
    | some (msgId, timeValue) => !refuses L msgId timeValue &&
      (storeSyncMessage L S wall centreId topic msgId timeValue s.db).1
    | none => false

end Handled

theorem storeMessage_parsed {now : ℚ} {msgId timeValue topic : String} {db : Db}
    (h : (storeMessage L S now msgId timeValue topic db).1 = true) : parseTimeToEpoch L timeValue ≠ none := by
  intro hn
  unfold storeMessage at h
  rw [hn] at h
  cases h

theorem storeReplayMessage_parsed {now : ℚ} {centreId msgId timeValue topic : String} {db : Db}
    (h : (storeReplayMessage L S now centreId msgId timeValue topic db).1 = true) :
    parseTimeToEpoch L timeValue ≠ none := by
  intro hn
  unfold storeReplayMessage at h
  rw [hn] at h
  cases h

theorem storeSyncMessage_parsed {now : ℚ} {centreId topic msgId timeValue : String} {db : Db}
    (h : (storeSyncMessage L S now centreId topic msgId timeValue db).1 = true) :
    parseTimeToEpoch L timeValue ≠ none := by
  intro hn
  unfold storeSyncMessage at h
  rw [hn] at h
  cases h

/-- **What is newly stored is logged**, and its time is one. -/
theorem newlyStored_logged {h : Handled} {s : HandlerState} {side : Side} {x timeValue : String}
    (hnew : h.isNew L S s = true) (hc : h.carries L = some (side, x, timeValue)) :
    parseTimeToEpoch L timeValue ≠ none ∧
      ∃ r ∈ h.records L S s, r.isDebug = false ∧ r.entry = some (side, x, timeValue) := by
  cases h with
  | message wall mono brokerUrl msg =>
    simp only [Handled.isNew, Handled.carries, Handled.records, onMessageRecords] at hnew hc ⊢
    by_cases hreplay : Text.startsWith msg.topic "replay/" = true
    · simp only [hreplay, if_true] at hnew hc ⊢
      cases hparts : replayParts msg.topic with
      | none => rw [hparts] at hc; cases hc
      | some parts =>
        obtain ⟨centreId, originalTopic⟩ := parts
        rcases hparse : parseMessage L msg.payload with e | _ | ⟨msgId, t⟩
        · rw [hparts, hparse] at hc; cases hc
        · rw [hparts, hparse] at hc; cases hc
        · rw [hparts, hparse] at hc hnew
          obtain ⟨rfl, rfl, rfl⟩ : Side.replay = side ∧ msgId = x ∧ t = timeValue := by simpa using hc
          obtain ⟨hkept, hnew⟩ := Bool.and_eq_true_iff.1 hnew
          rw [Bool.not_eq_true'] at hkept
          dsimp only
          -- the replay line is logged exactly when the message is new
          refine ⟨storeReplayMessage_parsed hnew, ?_⟩
          rw [hkept, if_neg Bool.false_ne_true, if_pos hnew]
          exact ⟨_, List.mem_append_left _ (List.mem_singleton_self _), rfl, rfl⟩
    · simp only [hreplay, if_false, Bool.false_eq_true] at hnew hc ⊢
      rcases hparse : parseMessage L msg.payload with e | _ | ⟨msgId, t⟩
      · rw [hparse] at hc; cases hc
      · rw [hparse] at hc; cases hc
      · rw [hparse] at hc hnew
        obtain ⟨rfl, rfl, rfl⟩ : Side.baseline = side ∧ msgId = x ∧ t = timeValue := by simpa using hc
        obtain ⟨hkept, hnew⟩ := Bool.and_eq_true_iff.1 hnew
        rw [Bool.not_eq_true'] at hkept
        dsimp only
        -- a new message is logged behind a warning about its time, which there is none of
        refine ⟨storeMessage_parsed hnew, ?_⟩
        rw [hkept, if_neg Bool.false_ne_true, if_pos hnew]
        exact ⟨_, List.mem_append_left _ (List.mem_append_right _ (List.mem_singleton_self _)), rfl, rfl⟩
  | feature wall centreId topic item =>
    simp only [Handled.isNew, Handled.carries, Handled.records, featureRecords] at hnew hc ⊢
    cases hf : featureRecord L item with
    | none => rw [hf] at hc; cases hc
    | some m =>
      obtain ⟨msgId, t⟩ := m
      rw [hf] at hc hnew
      obtain ⟨rfl, rfl, rfl⟩ : Side.replay = side ∧ msgId = x ∧ t = timeValue := by simpa using hc
      have hdict : item.isDict = true := by
        by_contra hd
        unfold featureRecord at hf
        rw [Bool.not_eq_true] at hd
        rw [hd] at hf
        cases hf
      -- a feature is logged whether it is new or not
      obtain ⟨hkept, hnew⟩ := Bool.and_eq_true_iff.1 hnew
      rw [Bool.not_eq_true'] at hkept
      refine ⟨storeSyncMessage_parsed hnew, ?_⟩
      dsimp only
      rw [hdict, hkept]
      exact ⟨_, List.mem_singleton_self _, rfl, rfl⟩

/-- **What is logged was handled.** -/
theorem logged_carried {h : Handled} {s : HandlerState} {r : LogRecord} (hr : r ∈ h.records L S s)
    {e : Side × String × String} (he : r.entry = some e) : h.carries L = some e := by
  cases h with
  | message wall mono brokerUrl msg =>
    simp only [Handled.carries, Handled.records, onMessageRecords] at hr ⊢
    by_cases hreplay : Text.startsWith msg.topic "replay/" = true
    · simp only [hreplay, if_true] at hr ⊢
      cases hparts : replayParts msg.topic with
      | none => rw [hparts] at hr; cases hr
      | some parts =>
        obtain ⟨centreId, originalTopic⟩ := parts
        rw [hparts] at hr
        rcases hparse : parseMessage L msg.payload with err | _ | ⟨msgId, t⟩
        · rw [hparse] at hr; cases hr
        · rw [hparse] at hr
          obtain rfl := List.mem_singleton.1 hr
          cases he
        · rw [hparse] at hr
          dsimp only at hr
          split at hr
          · cases hr
          rcases List.mem_append.1 hr with hr | hr
          · split at hr
            · obtain rfl := List.mem_singleton.1 hr
              exact he
            · cases hr
          · obtain rfl := List.mem_singleton.1 hr
            cases he
    · simp only [hreplay, if_false, Bool.false_eq_true] at hr ⊢
      rcases hparse : parseMessage L msg.payload with err | _ | ⟨msgId, t⟩
      · rw [hparse] at hr; cases hr
      · rw [hparse] at hr
        obtain rfl := List.mem_singleton.1 hr
        cases he
      · rw [hparse] at hr
        dsimp only at hr
        split at hr
        · cases hr
        rcases List.mem_append.1 hr with hr | hr
        · rcases List.mem_append.1 hr with hr | hr
          · split at hr
            · obtain rfl := List.mem_singleton.1 hr
              cases he
            · cases hr
          · split at hr
            · obtain rfl := List.mem_singleton.1 hr
              exact he
            · cases hr
        · obtain rfl := List.mem_singleton.1 hr
          cases he
  | feature wall centreId topic item =>
    simp only [Handled.carries, Handled.records, featureRecords] at hr ⊢
    split at hr
    · cases hr
    · cases hf : featureRecord L item with
      | none =>
        rw [hf] at hr
        obtain rfl := List.mem_singleton.1 hr
        cases he
      | some m =>
        obtain ⟨msgId, t⟩ := m
        rw [hf] at hr
        dsimp only at hr
        split at hr
        · cases hr
        obtain rfl := List.mem_singleton.1 hr
        exact he

theorem mem_loggedRecords {debug : Bool} {hs : List Handled} {s : HandlerState} {r : LogRecord} :
    r ∈ loggedRecords L S debug hs s ↔
      (∃ x ∈ handledStates L S hs s, r ∈ x.1.records L S x.2) ∧ (debug = true ∨ r.isDebug = false) := by
  unfold loggedRecords
  rw [List.mem_filter, List.mem_flatMap, Bool.or_eq_true, Bool.not_eq_true']

/-! ## The report of a run -/

/-- What is newly stored is in the minute of its time, on its side, and what is in a minute was
handled with a time of that minute. -/
def ReadsBack (L : Lib) (S : RedisStore) (hs : List Handled) (s : HandlerState) (lines : List String) :
    Prop :=
  ∃ b, scanMessages L "" bothSources lines = .ok b ∧
    (∀ x ∈ handledStates L S hs s, ∀ side msgId timeValue, x.1.isNew L S x.2 = true →
      x.1.carries L = some (side, msgId, timeValue) →
        ∃ epoch, parseTimeToEpoch L timeValue = some epoch ∧ msgId ∈ (b.on side).at (floorMinute epoch)) ∧
    ∀ side msgId minute, msgId ∈ (b.on side).at minute →
      ∃ x ∈ handledStates L S hs s, ∃ timeValue epoch, x.1.carries L = some (side, msgId, timeValue) ∧
        parseTimeToEpoch L timeValue = some epoch ∧ floorMinute epoch = minute

/-- **The report reads back what was stored**, over every run in which all records are legible. -/
theorem reads_back (debug : Bool) (hs : List Handled) (s : HandlerState) {lines : List String}
    (hlines : Printed L (loggedRecords L S debug hs s) lines)
    (hlegible : ∀ r ∈ loggedRecords L S debug hs s, r.Legible L) : ReadsBack L S hs s lines := by
  have hscan := scanMessages_records hlegible hlines ⟨Dict.empty, Dict.empty⟩
  have hempty : ∀ (side : Side) (x : String) (m : ℤ),
      x ∉ ((⟨Dict.empty, Dict.empty⟩ : Buckets).on side).at m := by
    intro side x m h
    cases side with
    | baseline => cases h
    | replay => cases h
  refine ⟨_, hscan, ?_, ?_⟩
  · intro x hx side msgId timeValue hnew hc
    obtain ⟨hparsed, r, hr, hlevel, hentry⟩ := newlyStored_logged hnew hc
    obtain ⟨epoch, hepoch⟩ := Option.ne_none_iff_exists'.1 hparsed
    have hlogged : r ∈ loggedRecords L S debug hs s := mem_loggedRecords.2 ⟨⟨x, hx, hr⟩, .inr hlevel⟩
    refine ⟨epoch, hepoch, (mem_buckets_iff _ _).2 (.inr ⟨r, hlogged, timeValue, hentry, ?_⟩)⟩
    rw [hepoch]
    rfl
  · intro side msgId minute hmem
    rcases (mem_buckets_iff _ _).1 hmem with h | ⟨r, hr, timeValue, hentry, hminute⟩
    · exact absurd h (hempty side msgId minute)
    · obtain ⟨⟨x, hx, hrx⟩, -⟩ := mem_loggedRecords.1 hr
      obtain ⟨epoch, hepoch, rfl⟩ := Option.map_eq_some_iff.1 hminute
      exact ⟨x, hx, timeValue, epoch, logged_carried hrx hentry, hepoch, rfl⟩

/-! ## A time with a space in it -/

/-- A library that reads `2024-01-01 00:01:00Z`, as RFC 3339 allows it, and `2024-01-01`. -/
def spacedLib : Lib := Tables.lib { sampleTables with
  times := ("2024-01-01 00:01:00+00:00", ⟨newYear + 60, some 0⟩) :: ("2024-01-01", ⟨newYear, none⟩) ::
    sampleTables.times
  jsons := [("spaced", .ok (.obj [("id", .str "a"), ("time", .str "2024-01-01 00:01:00Z")])),
    ("plain", .ok (.obj [("id", .str "b"), ("time", .str "2024-01-01T00:01:00Z")]))] }

/-- A message from a Global Broker. -/
def sampleMessage (payload : String) : Handled :=
  .message (newYear + 100) 100 "mqtts://globalbroker.meteo.fr:8883" ⟨"cache/a/wis2/x", payload⟩

/-- The state of the handler when the service starts. -/
def freshHandler : HandlerState := ⟨ReplayRegistry.new, Redis.Db.empty⟩

def sampleStamp : LogStamp := ⟨"2024-01-01 00:01:40,000", by decide, by decide⟩

/-- The message is stored at 00:01 and counted at 00:00, the minute of its date. -/
theorem minute_misread :
    ∃ lines, Printed spacedLib
        (loggedRecords spacedLib shippedConfig.store false [sampleMessage "spaced"] freshHandler) lines ∧
      ¬ ReadsBack spacedLib shippedConfig.store [sampleMessage "spaced"] freshHandler lines := by
  have hrecords : loggedRecords spacedLib shippedConfig.store false [sampleMessage "spaced"] freshHandler =
      [.received "cache/a/wis2/x" "a" "2024-01-01 00:01:00Z"] := by decide +kernel
  refine ⟨[(LogRecord.received "cache/a/wis2/x" "a" "2024-01-01 00:01:00Z").line spacedLib sampleStamp], ?_, ?_⟩
  · rw [hrecords]
    exact .cons ⟨sampleStamp, rfl⟩ .nil
  · rintro ⟨b, hscan, hstored, -⟩
    -- the id is not in the minute of its time
    have hmissed : (match scanMessages spacedLib "" bothSources
        [(LogRecord.received "cache/a/wis2/x" "a" "2024-01-01 00:01:00Z").line spacedLib sampleStamp] with
        | .ok b => decide ("a" ∈ b.baseline.at (newYear + 60))
        | .error _ => true) = false := by decide +kernel
    rw [hscan] at hmissed
    obtain ⟨epoch, hepoch, hmem⟩ := hstored (sampleMessage "spaced", freshHandler) List.mem_cons_self
      .baseline "a" "2024-01-01 00:01:00Z" (by decide +kernel) (by decide +kernel)
    have hvalue : parseTimeToEpoch spacedLib "2024-01-01 00:01:00Z" = some (newYear + 60 : ℚ) := by
      decide +kernel
    obtain rfl : (newYear + 60 : ℚ) = epoch := Option.some.inj (hvalue.symm.trans hepoch)
    have hminute : floorMinute (newYear + 60 : ℚ) = newYear + 60 := by decide +kernel
    rw [hminute] at hmem
    exact of_decide_eq_false hmissed hmem

theorem reads_back_sample :
    ReadsBack spacedLib shippedConfig.store [sampleMessage "plain"] freshHandler
      [(LogRecord.received "cache/a/wis2/x" "b" "2024-01-01T00:01:00Z").line spacedLib sampleStamp] := by
  have hrecords : loggedRecords spacedLib shippedConfig.store false [sampleMessage "plain"] freshHandler =
      [.received "cache/a/wis2/x" "b" "2024-01-01T00:01:00Z"] := by decide +kernel
  refine reads_back false _ _ ?_ ?_
  · rw [hrecords]
    exact .cons ⟨sampleStamp, rfl⟩ .nil
  · rw [hrecords]
    intro r hr
    obtain rfl := List.mem_singleton.1 hr
    refine ⟨plain_of (by decide) (by decide), plain_of (by decide) (by decide), ⟨by decide, ?_⟩⟩
    exact ⟨newYear + 60, newYear + 60, by decide +kernel, by decide +kernel, rfl⟩

end Scgrep
