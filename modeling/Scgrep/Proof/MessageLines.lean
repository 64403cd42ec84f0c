import Scgrep.Proof.LogLines
import Scgrep.Spec.Minutes

/-!
# What the report reads in the line of a message

`\S+` ends a name and a time at their first white space. `LogRecord.Legible` are the
records for which that is no harm.

* `baseline_received`, `replay_replayed`: what the two expressions capture.
* `scanMessageLine_record`: **the line of a legible record adds its id to the minute of
  its time.**
-/

namespace Scgrep

open Pattern

variable {L : Lib}

/-! ## Legible records -/

/-- What `\S+` captures of a text that is followed by white space. -/
def firstWord (s : String) : String := String.ofList (s.toList.takeWhile notSpace)

/-- The time up to its first white space names an instant that `datetime` has in UTC, in the same
minute as the time itself. -/
structure TimeLegible (L : Lib) (timeValue : String) : Prop where
  ne : firstWord timeValue ≠ ""
  parse : ∃ dt t, parsePubtime L (firstWord timeValue) = .ok (some dt) ∧
    parseTimeToEpoch L timeValue = some t ∧ floorMinute dt = floorMinute t

/-- Neither expression matches the line. -/
def LogRecord.Unread (L : Lib) (r : LogRecord) : Prop :=
  ∀ s, search baselineRe (r.line L s).toList = none ∧ searchBy matchReplay (r.line L s).toList = none

/-- The names are not empty and have no white space, the time is legible, and no line matches an
expression of another kind. A feature is also logged when its time is none: then neither
expression may match. -/
def LogRecord.Legible (L : Lib) (r : LogRecord) : Prop :=
  match r with
  | .received topic msgId timeValue => Plain topic ∧ Plain msgId ∧ TimeLegible L timeValue
  | .replayed _ centreId topic msgId timeValue =>
    (Plain centreId ∧ Plain topic ∧ Plain msgId ∧ TimeLegible L timeValue ∧
      ∀ s, search baselineRe (r.line L s).toList = none) ∨
    parseTimeToEpoch L timeValue = none ∧ r.Unread L
  | _ => r.Unread L

/-! ## What is captured -/

theorem firstWord_toList (s : String) : (firstWord s).toList = s.toList.takeWhile notSpace := by
  unfold firstWord
  rw [String.toList_ofList]

/-- The time at the end of a line is captured up to its first white space. -/
theorem matchHere_time {timeValue : String} (hne : firstWord timeValue ≠ "") :
    matchHere [.run notSpace] (timeValue.toList ++ "\n".toList) = some [(firstWord timeValue).toList] := by
  have hword : ∀ c ∈ (firstWord timeValue).toList, notSpace c = true := by
    intro c hc
    rw [firstWord_toList] at hc
    exact List.mem_takeWhile_imp hc
  have hnil : (firstWord timeValue).toList ≠ [] := fun h => hne (String.toList_inj.1 h)
  have hsplit : timeValue.toList ++ "\n".toList =
      (firstWord timeValue).toList ++ (timeValue.toList.dropWhile notSpace ++ "\n".toList) := by
    rw [firstWord_toList, ← List.append_assoc, List.takeWhile_append_dropWhile]
  have hend : (timeValue.toList.dropWhile notSpace ++ "\n".toList).head?.any notSpace = false := by
    cases h : timeValue.toList.dropWhile notSpace with
    | nil => decide
    | cons c cs =>
      have hhead := List.head?_dropWhile_not notSpace timeValue.toList
      rw [h] at hhead
      exact hhead
  rw [hsplit]
  exact matchHere_run hnil hword hend rfl

/-- What stands before a message. -/
def recordHead (s : LogStamp) (r : LogRecord) : List Char := s.text.toList ++ r.head.toList

theorem not_mem_recordHead (s : LogStamp) {r : LogRecord} {c : Char} (hc : Text.isDecimal c = false)
    (ha : some c ∉ asctimeShape) (hr : c ∉ r.head.toList) : c ∉ recordHead s r := by
  unfold recordHead
  rw [List.mem_append, not_or]
  exact ⟨s.not_mem hc ha, hr⟩

theorem line_toList (s : LogStamp) (r : LogRecord) :
    (r.line L s).toList = recordHead s r ++ ((r.text L).toList ++ "\n".toList) := by
  unfold LogRecord.line recordHead
  simp only [String.toList_append, List.append_assoc]

/-- **`BASELINE_RE` captures a new message.** -/
theorem baseline_received {topic msgId timeValue : String} (htopic : Plain topic) (hid : Plain msgId)
    (htime : firstWord timeValue ≠ "") (s : LogStamp) :
    search baselineRe ((LogRecord.received topic msgId timeValue).line L s).toList =
      some [topic.toList, msgId.toList, (firstWord timeValue).toList] := by
  have htext : ((LogRecord.received topic msgId timeValue).text L).toList ++ "\n".toList =
      "Global Broker message: topic=".toList ++ (topic.toList ++ (" id=".toList ++ (msgId.toList ++
        (" time=".toList ++ (timeValue.toList ++ "\n".toList))))) := by
    change ("Global Broker message: topic=" ++ topic ++ " id=" ++ msgId ++ " time=" ++ timeValue).toList ++ _ = _
    simp only [String.toList_append, List.append_assoc]
  have hskip : 'G' ∉ recordHead s (.received topic msgId timeValue) :=
    not_mem_recordHead s (by decide) (by decide) (show 'G' ∉ " INFO [scgrep.mqtt_client] ".toList by decide)
  rw [line_toList, htext]
  refine (search_skip hskip _).trans ?_
  apply search_of_matchHere
  refine (matchHere_text _ _ _).trans ?_
  apply matchHere_run_text htopic.toList_ne htopic.notSpace (by decide) (by decide)
  apply matchHere_run_text hid.toList_ne hid.notSpace (by decide) (by decide)
  exact matchHere_time htime

theorem matchReplay_head {d : Char} (l : List Char) (hd : d ≠ 'R') : matchReplay (d :: l) = none := by
  have hkind : ∀ kind, matchHere (replayKindRe kind) (d :: l) = none := by
    intro kind
    cases hm : matchHere (replayKindRe kind) (d :: l) with
    | none => rfl
    | some ms =>
      have hpre : 'R' :: ("eplay message (" ++ kind.name ++ "): centre_id=").toList <+: d :: l := by
        have h := prefix_of_matchHere hm
        simpa using h
      exact absurd (List.cons_prefix_cons.1 hpre).1 (Ne.symm hd)
  unfold matchReplay
  rw [hkind, hkind]
  rfl

/-- One of the two kinds matches at the beginning of a text. -/
theorem matchReplay_of {kind : ReplayKind} {l : List Char} {ms : List (List Char)}
    (h : matchHere (replayKindRe kind) l = some ms) : matchReplay l = some (kind, ms) := by
  unfold matchReplay
  cases kind with
  | synchronous => rw [h]; rfl
  | asynchronous =>
    have hother : matchHere (replayKindRe .synchronous) l = none := by
      cases hs : matchHere (replayKindRe .synchronous) l with
      | none => rfl
      | some ms' =>
        have h1 := prefix_of_matchHere h
        have h2 := prefix_of_matchHere hs
        rcases List.prefix_or_prefix_of_prefix h1 h2 with h' | h'
        · exact absurd h' (by decide)
        · exact absurd h' (by decide)
    rw [hother, h]
    rfl

/-- **`REPLAY_RE` captures a replayed message.** -/
theorem replay_replayed {kind : ReplayKind} {centreId topic msgId timeValue : String}
    (hcentre : Plain centreId) (htopic : Plain topic) (hid : Plain msgId)
    (htime : firstWord timeValue ≠ "") (s : LogStamp) :
    searchBy matchReplay ((LogRecord.replayed kind centreId topic msgId timeValue).line L s).toList =
      some (kind, [centreId.toList, topic.toList, msgId.toList, (firstWord timeValue).toList]) := by
  have htext : ((LogRecord.replayed kind centreId topic msgId timeValue).text L).toList ++ "\n".toList =
      ("Replay message (" ++ kind.name ++ "): centre_id=").toList ++ (centreId.toList ++
        (" topic=".toList ++ (topic.toList ++ (" id=".toList ++ (msgId.toList ++
          (" time=".toList ++ (timeValue.toList ++ "\n".toList))))))) := by
    change ("Replay message (" ++ kind.name ++ "): centre_id=" ++ centreId ++ " topic=" ++ topic ++ " id=" ++
      msgId ++ " time=" ++ timeValue).toList ++ _ = _
    simp only [String.toList_append, List.append_assoc]
  have hskip : 'R' ∉ recordHead s (.replayed kind centreId topic msgId timeValue) := by
    cases kind with
    | synchronous =>
      exact not_mem_recordHead s (by decide) (by decide)
        (show 'R' ∉ " INFO [scgrep.replay_tester] ".toList by decide)
    | asynchronous =>
      exact not_mem_recordHead s (by decide) (by decide)
        (show 'R' ∉ " INFO [scgrep.mqtt_client] ".toList by decide)
  rw [line_toList, htext]
  refine (searchBy_skip (fun d l hd => matchReplay_head l hd) hskip _).trans ?_
  apply searchBy_of
  apply matchReplay_of
  refine (matchHere_text _ _ _).trans ?_
  apply matchHere_run_text hcentre.toList_ne hcentre.notSpace (by decide) (by decide)
  apply matchHere_run_text htopic.toList_ne htopic.notSpace (by decide) (by decide)
  apply matchHere_run_text hid.toList_ne hid.notSpace (by decide) (by decide)
  exact matchHere_time htime

/-! ## What is added -/

/-- `d[minute].add(msg_id)`. -/
def Minutes.add (d : Minutes) (minute : ℤ) (msgId : String) : Minutes :=
  d.set minute (insert msgId (d.at minute))

theorem Minutes.at_add (d : Minutes) (minute : ℤ) (msgId : String) (m : ℤ) :
    (d.add minute msgId).at m = if m = minute then insert msgId (d.at minute) else d.at m := by
  unfold Minutes.add
  rw [Minutes.at, Dict.get?_set]
  by_cases h : m = minute
  · rw [if_pos h, if_pos h]
    rfl
  · rw [if_neg h, if_neg h]
    rfl

/-- An id goes to the minute of the time, if it is one. -/
def Minutes.addTime (L : Lib) (d : Minutes) (timeValue msgId : String) : Minutes :=
  match (parseTimeToEpoch L timeValue).map floorMinute with
  | none => d
  | some minute => d.add minute msgId

/-- The two dictionaries of the report. -/
inductive Side where
  | baseline
  | replay
deriving DecidableEq

def Buckets.on (b : Buckets) : Side → Minutes
  | .baseline => b.baseline
  | .replay => b.replay

def Buckets.addTime (L : Lib) (b : Buckets) (timeValue msgId : String) : Side → Buckets
  | .baseline => { b with baseline := b.baseline.addTime L timeValue msgId }
  | .replay => { b with replay := b.replay.addTime L timeValue msgId }

/-- The side, the id and the time of a record. -/
def LogRecord.entry : LogRecord → Option (Side × String × String)
  | .received _ msgId timeValue => some (.baseline, msgId, timeValue)
  | .replayed _ _ _ msgId timeValue => some (.replay, msgId, timeValue)
  | _ => none

/-- What a record adds. -/
def LogRecord.add (L : Lib) (b : Buckets) (r : LogRecord) : Buckets :=
  match r.entry with
  | none => b
  | some (side, msgId, timeValue) => b.addTime L timeValue msgId side

theorem addAt_legible {timeValue : String} (h : TimeLegible L timeValue) (d : Minutes) (msgId : String) :
    d.addAt L (firstWord timeValue) msgId = .ok (d.addTime L timeValue msgId) := by
  obtain ⟨dt, t, hparse, htime, hminute⟩ := h.parse
  unfold Minutes.addAt Minutes.addTime
  rw [hparse, htime, Option.map_some, ← hminute]
  rfl

theorem within_empty (s : String) : Text.within "" s = true := by
  unfold Text.within
  rw [decide_eq_true_eq]
  exact List.nil_infix

/-- **The line of a legible record** adds its id to the minute of its time. -/
theorem scanMessageLine_record {r : LogRecord} (h : r.Legible L) (s : LogStamp) (b : Buckets) :
    scanMessageLine L "" bothSources b (r.line L s) = .ok (r.add L b) := by
  have hunread : r.Unread L → scanMessageLine L "" bothSources b (r.line L s) = .ok b := by
    intro hr
    obtain ⟨h1, h2⟩ := hr s
    unfold scanMessageLine
    rw [h1, h2]
  cases r with
  | received topic msgId timeValue =>
    obtain ⟨htopic, hid, htime⟩ := h
    unfold scanMessageLine
    rw [baseline_received htopic hid htime.ne]
    simp only [String.ofList_toList, within_empty, if_true, addAt_legible htime]
    rfl
  | replayed kind centreId topic msgId timeValue =>
    rcases h with ⟨hcentre, htopic, hid, htime, hbase⟩ | ⟨hnone, hr⟩
    · have hkind : kind ∈ bothSources := by cases kind <;> decide
      unfold scanMessageLine
      rw [hbase s, replay_replayed hcentre htopic hid htime.ne]
      simp only [String.ofList_toList, within_empty, hkind, and_self, if_true, addAt_legible htime]
      rfl
    · have hadd : (LogRecord.replayed kind centreId topic msgId timeValue).add L b = b := by
        change { b with replay := b.replay.addTime L timeValue msgId } = b
        unfold Minutes.addTime
        rw [hnone]
        rfl
      rw [hadd]
      exact hunread hr
  | discarded msgId timeValue => exact hunread h
  | missing centreId topic => exact hunread h
  | unparseable brokerUrl topic reason => exact hunread h
  | arrived brokerUrl topic msgId timeValue isNew => exact hunread h

end Scgrep
