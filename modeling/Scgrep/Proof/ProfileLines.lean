import Scgrep.Proof.Instants
import Scgrep.Proof.LogLines
import Scgrep.Spec.MessageLog
import Scgrep.Spec.Profile

/-!
# The lines that the arrival profile reads

* `matchStamp_asctime`, `secs_stamp`: the expressions capture the stamp of a line, and
  `secs` is its time since midnight.
* `begins_cycleLine`, `arrival_recordLine`: the lines of the service are what the
  expressions say.
* `unread_of_noWord`: other lines are not.
-/

namespace Scgrep

open Calendar Pattern

/-! ## Stamps -/

/-- The instant of a log line, to the millisecond. -/
structure LogInstant where
  stamp : Stamp
  ms : ℕ
  ms_lt : ms < 1000
  year_lt : stamp.date.year < 10000
deriving DecidableEq

namespace LogInstant

/-- The seconds since the beginning of the year 1. -/
def instant (t : LogInstant) : ℚ := t.stamp.seconds + (t.ms : ℚ) / 1000

/-- The seconds since midnight. -/
def ofDay (t : LogInstant) : ℚ := t.stamp.secondOfDay + (t.ms : ℚ) / 1000

def dateText (t : LogInstant) : String := String.ofList t.stamp.date.text

/-- `asctime`. -/
def asctime (t : LogInstant) : List Char := t.stamp.text ' ' ++ ',' :: digits 3 t.ms

end LogInstant

theorem decimalValue_digitChar {n : ℕ} (h : n < 10) : Text.decimalValue (Nat.digitChar n) = n := by
  interval_cases n <;> decide

/-- `int` of the digits of a number. -/
theorem decimalInt_digits (k : ℕ) : ∀ {n : ℕ}, n < 10 ^ k → Text.decimalInt (digits k n) = n := by
  induction k with
  | zero =>
    intro n h
    obtain rfl : n = 0 := by omega
    rfl
  | succ k ih =>
    intro n h
    have hdiv : n / 10 < 10 ^ k := by
      rw [pow_succ] at h
      omega
    unfold digits Text.decimalInt
    rw [List.foldl_append]
    change 10 * Text.decimalInt (digits k (n / 10)) + _ = n
    rw [ih hdiv, decimalValue_digitChar (Nat.mod_lt _ (by decide))]
    omega

theorem digits_decimal {k n : ℕ} : ∀ c ∈ digits k n, Text.isDecimal c = true := fun _ h =>
  isDigit_isDecimal (mem_digits h)

theorem length_dateTime (t : Stamp) : (t.text ' ').length = 19 := by
  unfold Stamp.text
  rw [List.length_append, List.length_cons, Date.length_text, Stamp.length_timeText]

/-- The expressions capture the stamp. -/
theorem matchStamp_asctime (t : LogInstant) (rest : List Char) :
    matchStamp (t.asctime ++ ' ' :: rest) =
      some (⟨t.dateText, t.stamp.timeText, digits 3 t.ms⟩, rest) := by
  have hline : t.asctime ++ ' ' :: rest =
      (t.stamp.text ' ' ++ [',']) ++ (digits 3 t.ms ++ ' ' :: rest) := by
    unfold LogInstant.asctime
    simp only [List.append_assoc, List.cons_append, List.nil_append]
  have hshape : beginsWith (timestampShape ++ [some ',']) (t.asctime ++ ' ' :: rest) = true := by
    have h := beginsWith_append (digits 3 t.ms ++ ' ' :: rest) (beginsWith_text t.stamp ' ' [','])
    rw [hline]
    exact h
  have hlength : (t.stamp.text ' ' ++ [',']).length = 20 := by
    rw [List.length_append, length_dateTime]
    rfl
  -- the milliseconds end at the blank
  have hdrop : (t.asctime ++ ' ' :: rest).drop 20 = digits 3 t.ms ++ ' ' :: rest := by
    rw [hline, ← hlength, List.drop_left]
  have hms : (digits 3 t.ms ++ ' ' :: rest).takeWhile Text.isDecimal = digits 3 t.ms ∧
      (digits 3 t.ms ++ ' ' :: rest).dropWhile Text.isDecimal = ' ' :: rest := by
    rw [List.takeWhile_append_of_pos digits_decimal, List.dropWhile_append_of_pos digits_decimal]
    have hspace : ¬ Text.isDecimal ' ' = true := by decide
    rw [List.takeWhile_cons_of_neg hspace, List.dropWhile_cons_of_neg hspace, List.append_nil]
    exact ⟨rfl, rfl⟩
  have hdate : (t.asctime ++ ' ' :: rest).take 10 = t.stamp.date.text := by
    have h := Date.length_text t.stamp.date
    rw [hline]
    unfold Stamp.text
    rw [List.append_assoc, List.append_assoc, ← h, List.take_left]
  have htime : ((t.asctime ++ ' ' :: rest).drop 11).take 8 = t.stamp.timeText := by
    have hd : (t.stamp.date.text ++ [' ']).length = 11 := by
      rw [List.length_append, Date.length_text]
      rfl
    have ht := Stamp.length_timeText t.stamp
    have hsplit : t.asctime ++ ' ' :: rest = (t.stamp.date.text ++ [' ']) ++
        (t.stamp.timeText ++ ([','] ++ (digits 3 t.ms ++ ' ' :: rest))) := by
      rw [hline]
      unfold Stamp.text
      simp only [List.append_assoc, List.cons_append, List.nil_append]
    rw [hsplit, ← hd, List.drop_left, ← ht, List.take_left]
  have hne : (digits 3 t.ms).isEmpty = false := by
    rw [List.isEmpty_eq_false_iff, ← List.length_pos_iff, length_digits]
    decide
  unfold matchStamp
  rw [if_pos hshape, hdrop]
  dsimp only
  rw [hms.1, hms.2, hdate, htime]
  rw [hne]
  rfl

/-- **`secs` of a stamp** is its time since midnight. -/
theorem secs_stamp (t : LogInstant) : secs t.stamp.timeText (digits 3 t.ms) = t.ofDay := by
  have hcolon : ∀ {n : ℕ}, ':' ∉ digits 2 n := by
    intro n h
    exact absurd (digits_decimal _ h) (by decide)
  have hsplit : t.stamp.timeText.splitOn ':' =
      [digits 2 t.stamp.hour, digits 2 t.stamp.minute, digits 2 t.stamp.second] := by
    unfold Stamp.timeText
    rw [List.splitOn_append_cons_self_of_not_mem hcolon, List.splitOn_append_cons_self_of_not_mem hcolon,
      List.splitOn_eq_singleton hcolon]
  have h1 := t.stamp.hour_lt
  have h2 := t.stamp.minute_lt
  have h3 := t.stamp.second_lt
  unfold secs
  rw [hsplit]
  dsimp only
  rw [decimalInt_digits 2 (show t.stamp.hour < 10 ^ 2 by omega),
    decimalInt_digits 2 (show t.stamp.minute < 10 ^ 2 by omega),
    decimalInt_digits 2 (show t.stamp.second < 10 ^ 2 by omega),
    decimalInt_digits 3 (show t.ms < 10 ^ 3 from t.ms_lt)]
  unfold LogInstant.ofDay Stamp.secondOfDay
  push_cast
  ring

/-- Dates with one text are one date. -/
theorem dateText_injective {s t : LogInstant} (h : s.dateText = t.dateText) : s.stamp.date = t.stamp.date := by
  have htext : s.stamp.date.text = t.stamp.date.text := by
    have h' := congrArg String.toList h
    unfold LogInstant.dateText at h'
    rwa [String.toList_ofList, String.toList_ofList] at h'
  have hlt := @Date.text_append_lt s.stamp.date t.stamp.date s.year_lt t.year_lt [] []
  have hgt := @Date.text_append_lt t.stamp.date s.stamp.date t.year_lt s.year_lt [] []
  rw [htext] at hlt hgt
  rcases Date.before_trichotomy s.stamp.date t.stamp.date with hb | heq | hb
  · exact absurd (hlt.2 (Or.inl hb)) (List.lt_irrefl _)
  · exact heq
  · exact absurd (hgt.2 (Or.inl hb)) (List.lt_irrefl _)

/-- On one date the instants differ as the times since midnight. -/
theorem sub_of_date {s t : LogInstant} (h : s.stamp.date = t.stamp.date) :
    s.instant - t.instant = s.ofDay - t.ofDay := by
  unfold LogInstant.instant LogInstant.ofDay Stamp.seconds
  rw [h]
  push_cast
  ring

/-! ## The file -/

/-- A line of the file: a record with its stamp, or a line that neither expression matches. -/
inductive FileLine where
  | stamped (t : LogInstant) (rest : String)
  | other (line : String) (hbegin : matchBegin line = none) (hasync : matchAsync line = none)

namespace FileLine

def text : FileLine → String
  | stamped t rest => String.ofList (t.asctime ++ ' ' :: rest.toList)
  | other line _ _ => line

/-- The beginning of a cycle: when it is, and the window. -/
def begins? : FileLine → Option (LogInstant × String × String)
  | stamped t rest => (matchBegin (stamped t rest).text).map fun m => (t, m.2)
  | other _ _ _ => none

/-- An asynchronous replay line of the topic: when it is. -/
def arrival? (topic : String) : FileLine → Option LogInstant
  | stamped t rest =>
    if (matchBegin (stamped t rest).text).isNone &&
        (matchAsync (stamped t rest).text).any fun m => Text.within topic m.2 then some t
    else none
  | other _ _ _ => none

end FileLine

theorem FileLine.begins?_stamped (t : LogInstant) (rest : String) :
    (stamped t rest).begins? = (matchBegin (stamped t rest).text).map fun m => (t, m.2) := rfl

theorem FileLine.arrival?_stamped (topic : String) (t : LogInstant) (rest : String) :
    (stamped t rest).arrival? topic = if (matchBegin (stamped t rest).text).isNone &&
      (matchAsync (stamped t rest).text).any fun m => Text.within topic m.2 then some t else none := rfl

/-- A line that begins a cycle is no arrival. -/
theorem FileLine.arrival?_of_begins {x : FileLine} {c : LogInstant × String × String}
    (h : x.begins? = some c) (topic : String) : x.arrival? topic = none := by
  cases x with
  | stamped t rest =>
    rw [begins?_stamped] at h
    obtain ⟨m, hm, -⟩ := Option.map_eq_some_iff.1 h
    rw [arrival?_stamped, hm, Option.isNone_some, Bool.false_and]
    exact if_neg Bool.false_ne_true
  | other line hbegin hasync => rfl

/-- What the expressions say of the stamp. -/
def LogInstant.matched (t : LogInstant) : StampMatch := ⟨t.dateText, t.stamp.timeText, digits 3 t.ms⟩

@[simp]
theorem LogInstant.matched_date (t : LogInstant) : t.matched.date = t.dateText := rfl

@[simp]
theorem LogInstant.matched_secs (t : LogInstant) : t.matched.secs = t.ofDay := secs_stamp t

theorem matchBegin_stamped (t : LogInstant) (rest : String) : matchBegin (FileLine.stamped t rest).text =
    match searchLastBy notNewline (matchHere beginRe) rest.toList with
    | some [start, stop] => some (t.matched, String.ofList start, String.ofList stop)
    | _ => none := by
  unfold matchBegin FileLine.text
  rw [String.toList_ofList, matchStamp_asctime]
  rfl

theorem matchAsync_stamped (t : LogInstant) (rest : String) : matchAsync (FileLine.stamped t rest).text =
    match searchLastBy notNewline (matchHere asyncRe) rest.toList with
    | some [_, topic, _] => some (t.matched, String.ofList topic)
    | _ => none := by
  unfold matchAsync FileLine.text
  rw [String.toList_ofList, matchStamp_asctime]
  rfl

theorem stamp_of_begin {t : LogInstant} {rest : String} {m : StampMatch × String × String}
    (h : matchBegin (FileLine.stamped t rest).text = some m) : m.1 = t.matched := by
  rw [matchBegin_stamped] at h
  split at h
  · rw [← Option.some.inj h]
  · cases h

theorem stamp_of_async {t : LogInstant} {rest : String} {m : StampMatch × String}
    (h : matchAsync (FileLine.stamped t rest).text = some m) : m.1 = t.matched := by
  rw [matchAsync_stamped] at h
  split at h
  · rw [← Option.some.inj h]
  · cases h

/-! ## The lines of the service -/

/-- The stamp of the formatter. -/
def LogInstant.logStamp (t : LogInstant) : LogStamp where
  text := String.ofList t.asctime
  length := by
    unfold LogInstant.asctime
    rw [String.toList_ofList, List.length_append, List.length_cons, length_dateTime, length_digits]
    rfl
  shape := by
    have hdate := beginsWith_text t.stamp ' ' []
    rw [List.map_nil, List.append_nil, List.append_nil] at hdate
    have hms := beginsWith_digits 3 [] t.ms []
    rw [List.append_nil, List.append_nil] at hms
    rw [String.toList_ofList]
    refine (beginsWith_append_of_length _ hdate (length_dateTime t.stamp)).trans ?_
    exact (beginsWith_cons ',' _ _).trans hms

variable {L : Lib} {cfg : Config} {E : CycleEnv} {t : LogInstant}

/-- A line of a cycle, behind its stamp. -/
def cycleFileLine (L : Lib) (cfg : Config) (E : CycleEnv) (t : LogInstant) (m : CycleMessage) : FileLine :=
  .stamped t ("INFO [scgrep.test_cycle] " ++ m.text L cfg E ++ "\n")

/-- The line of an asynchronous replay message. -/
def asyncFileLine (t : LogInstant) (centreId topic msgId timeValue : String) : FileLine :=
  .stamped t ("INFO [scgrep.mqtt_client] Replay message (asynchronous): centre_id=" ++ centreId ++
    " topic=" ++ topic ++ " id=" ++ msgId ++ " time=" ++ timeValue ++ "\n")

/-- **A line without its word** is not of a kind. -/
theorem matchHere_of_noWord {w lit : List Char} {items : List (Item Char)} {l : List Char} (hw : ' ' ∉ w)
    (hlit : ' ' :: w <:+: lit) (h : NoWord ' ' w l) : ∀ r, r <:+ l → matchHere (.text lit :: items) r = none :=
  fun _ => matchHere_eq_none fun hinf => not_infix_of_noWord hw h (hlit.trans hinf)

theorem matchBegin_of_noWord {rest : String} (h : NoWord ' ' "begins:".toList rest.toList) :
    matchBegin (FileLine.stamped t rest).text = none := by
  have hnone : ∀ r, r <:+ rest.toList → matchHere beginRe r = none :=
    matchHere_of_noWord (by decide) (by decide) h
  rw [matchBegin_stamped, searchLastBy_eq_none hnone]

theorem matchAsync_of_noWord {rest : String} (h : NoWord ' ' "(asynchronous):".toList rest.toList) :
    matchAsync (FileLine.stamped t rest).text = none := by
  have hnone : ∀ r, r <:+ rest.toList → matchHere asyncRe r = none :=
    matchHere_of_noWord (by decide) (by decide) h
  rw [matchAsync_stamped, searchLastBy_eq_none hnone]

/-- **The line that begins a cycle** is read as one, with its window. -/
theorem begins_cycleLine (hiso : WindowReadsBack L cfg E) :
    (cycleFileLine L cfg E t .begins).begins? = some (t, epochToIso L (cycleWindow cfg E.now).start,
      epochToIso L (cycleWindow cfg E.now).stop) := by
  have hS := hiso.1.plain
  have hE := hiso.2.plain
  have hline : ("INFO [scgrep.test_cycle] " ++ CycleMessage.begins.text L cfg E ++ "\n").toList =
      "INFO [scgrep.test_cycle] ".toList ++ ("Test period begins: window ".toList ++
        ((epochToIso L (cycleWindow cfg E.now).start).toList ++ (" .. ".toList ++
          ((epochToIso L (cycleWindow cfg E.now).stop).toList ++ "\n".toList)))) := by
    simp only [CycleMessage.text, String.toList_append, List.append_assoc]
  -- there is no `p` behind the first text of the expression
  have hlast : ¬ "Test period begins: window ".toList <:+:
      (epochToIso L (cycleWindow cfg E.now).start).toList ++ (" .. ".toList ++
        ((epochToIso L (cycleWindow cfg E.now).stop).toList ++ "\n".toList)) := by
    intro hinf
    have hp := hinf.subset (show 'p' ∈ "Test period begins: window ".toList by decide)
    rw [List.mem_append, List.mem_append, List.mem_append] at hp
    rcases hp with h | h | h | h
    · exact hiso.1.not_mem (by decide) (by decide) h
    · exact absurd h (by decide)
    · exact hiso.2.not_mem (by decide) (by decide) h
    · exact absurd h (by decide)
  have hsearch : searchLastBy notNewline (matchHere beginRe)
      ("INFO [scgrep.test_cycle] " ++ CycleMessage.begins.text L cfg E ++ "\n").toList =
        some [(epochToIso L (cycleWindow cfg E.now).start).toList,
          (epochToIso L (cycleWindow cfg E.now).stop).toList] := by
    rw [hline]
    refine searchLastBy_text (c := 'T') (by decide) (by decide) (List.all_eq_true.1 (by decide)) ?_ hlast
    apply matchHere_run_text hS.toList_ne hS.notSpace (by decide) (by decide)
    exact matchHere_run hE.toList_ne hE.notSpace (by decide) rfl
  unfold cycleFileLine
  rw [FileLine.begins?_stamped, matchBegin_stamped, hsearch]
  simp only [Option.map_some, String.ofList_toList]

theorem noWord_asyncLine {centreId topic msgId timeValue : String} (hcentre : Plain centreId)
    (htopic : Plain topic) (hid : Plain msgId) (htime : Plain timeValue) :
    NoWord ' ' "begins:".toList ("INFO [scgrep.mqtt_client] Replay message (asynchronous): centre_id=" ++
      centreId ++ " topic=" ++ topic ++ " id=" ++ msgId ++ " time=" ++ timeValue ++ "\n").toList := by
  have hwords : ("INFO [scgrep.mqtt_client] Replay message (asynchronous): centre_id=" ++ centreId ++
      " topic=" ++ topic ++ " id=" ++ msgId ++ " time=" ++ timeValue ++ "\n").toList =
        [' '].intercalate (["INFO", "[scgrep.mqtt_client]", "Replay", "message", "(asynchronous):",
          "centre_id=" ++ centreId, "topic=" ++ topic, "id=" ++ msgId,
          "time=" ++ timeValue ++ "\n"].map String.toList) := by
    simp [List.intercalate]
  have h1 := hcentre.space_not_mem
  have h2 := htopic.space_not_mem
  have h3 := hid.space_not_mem
  have h4 := htime.space_not_mem
  rw [hwords, noWord_intercalate (by simp) (by simp [h1, h2, h3, h4])]
  simp

/-- **The line of an asynchronous replay message** is an arrival of the topics it contains. -/
theorem arrival_asyncLine {centreId lineTopic msgId timeValue : String} (hcentre : Plain centreId)
    (htopic : Plain lineTopic) (hid : Plain msgId) (htime : Plain timeValue) (topic : String) :
    (asyncFileLine t centreId lineTopic msgId timeValue).arrival? topic =
      if Text.within topic lineTopic then some t else none := by
  have hline : ("INFO [scgrep.mqtt_client] Replay message (asynchronous): centre_id=" ++ centreId ++
      " topic=" ++ lineTopic ++ " id=" ++ msgId ++ " time=" ++ timeValue ++ "\n").toList =
        "INFO [scgrep.mqtt_client] ".toList ++ ("Replay message (asynchronous): centre_id=".toList ++
          (centreId.toList ++ (" topic=".toList ++ (lineTopic.toList ++ (" id=".toList ++ (msgId.toList ++
            (" ".toList ++ ("time=" ++ timeValue ++ "\n").toList))))))) := by
    simp
  have hlast : ¬ "Replay message (asynchronous): centre_id=".toList <:+:
      centreId.toList ++ (" topic=".toList ++ (lineTopic.toList ++ (" id=".toList ++ (msgId.toList ++
        (" ".toList ++ ("time=" ++ timeValue ++ "\n").toList))))) := by
    intro hinf
    -- no later word begins with `(asynchronous):`
    have hword : ' ' :: "(asynchronous):".toList <:+: "Replay message (asynchronous): centre_id=".toList := by
      decide
    have hrest := infix_of_head_not_mem hcentre.space_not_mem (hword.trans hinf)
    refine not_infix_of_noWord (by decide) ?_ hrest
    have hwords : " topic=".toList ++ (lineTopic.toList ++ (" id=".toList ++ (msgId.toList ++
        (" ".toList ++ ("time=" ++ timeValue ++ "\n").toList)))) =
          [' '].intercalate (["", "topic=" ++ lineTopic, "id=" ++ msgId,
            "time=" ++ timeValue ++ "\n"].map String.toList) := by
      simp [List.intercalate]
    have h1 := htopic.space_not_mem
    have h2 := hid.space_not_mem
    have h3 := htime.space_not_mem
    rw [hwords, noWord_intercalate (by simp) (by simp [h1, h2, h3])]
    simp
  have hsearch : searchLastBy notNewline (matchHere asyncRe)
      ("INFO [scgrep.mqtt_client] Replay message (asynchronous): centre_id=" ++ centreId ++
        " topic=" ++ lineTopic ++ " id=" ++ msgId ++ " time=" ++ timeValue ++ "\n").toList =
          some [centreId.toList, lineTopic.toList, msgId.toList] := by
    rw [hline]
    refine searchLastBy_text (c := 'R') (by decide) (by decide) (List.all_eq_true.1 (by decide)) ?_ hlast
    apply matchHere_run_text hcentre.toList_ne hcentre.notSpace (by decide) (by decide)
    apply matchHere_run_text htopic.toList_ne htopic.notSpace (by decide) (by decide)
    exact matchHere_run_text hid.toList_ne hid.notSpace (by decide) (by decide) rfl
  have hbegin := matchBegin_of_noWord (t := t) (noWord_asyncLine hcentre htopic hid htime)
  unfold asyncFileLine
  rw [FileLine.arrival?_stamped, hbegin, matchAsync_stamped, hsearch]
  simp

/-- **A line without the two words** is of neither kind. -/
theorem unread_of_noWord {rest : String} (hbegin : NoWord ' ' "begins:".toList rest.toList)
    (hasync : NoWord ' ' "(asynchronous):".toList rest.toList) (topic : String) :
    (FileLine.stamped t rest).begins? = none ∧ (FileLine.stamped t rest).arrival? topic = none := by
  refine ⟨?_, ?_⟩
  · rw [FileLine.begins?_stamped, matchBegin_of_noWord hbegin, Option.map_none]
  · rw [FileLine.arrival?_stamped, matchAsync_of_noWord hasync, Option.any_none, Bool.and_false]
    exact if_neg Bool.false_ne_true

end Scgrep
