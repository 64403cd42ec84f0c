import Scgrep.Proof.ConfigSpec
import Scgrep.Proof.LogLines
import Scgrep.Spec.Datetime
import Scgrep.Spec.World

/-!
# Texts of instants

With a library that keeps to the calendar:

* `parse_epochToIso`: `parse_time_to_epoch` undoes `epoch_to_iso`.
* `epochToIso_lt_iff`: texts are in order as the instants are.
* `interval_exact`: **the interval that a cycle asks for is the one that it counts.**
-/

namespace Scgrep

open Calendar

variable {L : Lib}

/-! ## Seconds and instants -/

theorem seconds_utcStamp {n : ℤ} (h : -unixEpoch ≤ n) : ((utcStamp n).seconds : ℤ) = n + unixEpoch := by
  unfold utcStamp
  rw [Stamp.seconds_ofSeconds]
  omega

theorem neg_unixEpoch_le {n : ℤ} (h : 0 ≤ n) : -unixEpoch ≤ n := by
  unfold unixEpoch
  omega

/-- **The timestamp of the date and time of a second** is that second. -/
theorem timestampOf_utcStamp {n : ℤ} (h : -unixEpoch ≤ n) : timestampOf (utcStamp n) = n := by
  unfold timestampOf
  rw [seconds_utcStamp h]
  omega

theorem year_utcStamp {n : ℤ} (h0 : 0 ≤ n) (h : n < endOfTime) : (utcStamp n).date.year < 10000 := by
  have hs := seconds_utcStamp (neg_unixEpoch_le h0)
  refine Stamp.year_lt_of_seconds ?_
  have hdays : 86400 * daysBeforeYear 10000 = 315537897600 := by decide
  rw [hdays]
  unfold unixEpoch at hs
  unfold endOfTime at h
  omega

/-! ## Texts -/

theorem isDigit_isDecimal {c : Char} (h : c.isDigit = true) : Text.isDecimal c = true := by
  have hrange : 48 ≤ c.toNat ∧ c.toNat ≤ 57 := by
    unfold Char.isDigit at h
    simp only [Bool.and_eq_true, decide_eq_true_eq] at h
    exact h
  unfold Text.isDecimal Text.decimalZeros
  rw [List.any_cons, Bool.or_eq_true]
  left
  simp only [Bool.and_eq_true, decide_eq_true_eq]
  omega

/-- The characters of a text of an instant. -/
theorem mem_isoText {t : Stamp} {c : Char} (h : c ∈ (isoText t).toList) :
    Text.isDecimal c = true ∨ c = '-' ∨ c = ':' ∨ c = 'T' := by
  have hd : ∀ {k n : ℕ}, c ∈ digits k n → Text.isDecimal c = true := fun h =>
    isDigit_isDecimal (mem_digits h)
  unfold isoText Stamp.text Date.text Stamp.timeText at h
  simp only [String.toList_ofList, List.mem_append, List.mem_cons] at h
  rcases h with (h | h | h | h | h) | h | h | h | h | h | h
  all_goals first | exact Or.inl (hd h) | simp [h]

theorem isoText_solid (t : Stamp) : ∀ c ∈ (isoText t ++ "Z").toList, Text.isSpace c = false := by
  intro c hc
  rw [String.toList_append] at hc
  rcases List.mem_append.1 hc with hc | hc
  · rcases mem_isoText hc with h | rfl | rfl | rfl
    · exact Text.not_isSpace_of_isDecimal h
    all_goals decide
  · obtain rfl := List.mem_singleton.1 hc
    decide

theorem beginsWith_digits (k : ℕ) : ∀ (shape : List (Option Char)) (n : ℕ) (l : List Char),
    beginsWith (List.replicate k none ++ shape) (digits k n ++ l) = beginsWith shape l := by
  induction k with
  | zero => intro shape n l; rfl
  | succ k ih =>
    intro shape n l
    have hd : Text.isDecimal (Nat.digitChar (n % 10)) = true :=
      isDigit_isDecimal (isDigit_digitChar (Nat.mod_lt _ (by decide)))
    have hsplit : List.replicate (k + 1) (none : Option Char) ++ shape =
        List.replicate k none ++ (none :: shape) := by
      rw [List.replicate_succ', List.append_assoc]
      rfl
    unfold digits
    rw [hsplit, List.append_assoc, ih]
    change (Text.isDecimal _ && beginsWith shape l) = _
    rw [hd, Bool.true_and]

theorem beginsWith_cons (c : Char) (shape : List (Option Char)) (l : List Char) :
    beginsWith (some c :: shape) (c :: l) = beginsWith shape l := by
  change (c == c && beginsWith shape l) = _
  rw [beq_self_eq_true, Bool.true_and]

/-- A text of an instant has the shape of one. -/
theorem beginsWith_text (t : Stamp) (sep : Char) (l : List Char) :
    beginsWith ([none, none, none, none, some '-', none, none, some '-', none, none, some sep, none, none,
      some ':', none, none, some ':', none, none] ++ l.map some) (t.text sep ++ l) = true := by
  have hrest : ∀ l : List Char, beginsWith (l.map some) l = true := by
    intro l
    induction l with
    | nil => rfl
    | cons c l ih => rw [List.map_cons, beginsWith_cons, ih]
  unfold Stamp.text Date.text Stamp.timeText
  simp only [List.append_assoc, List.cons_append]
  refine (beginsWith_digits 4 _ _ _).trans ?_
  rw [beginsWith_cons]
  refine (beginsWith_digits 2 _ _ _).trans ?_
  rw [beginsWith_cons]
  refine (beginsWith_digits 2 _ _ _).trans ?_
  rw [beginsWith_cons]
  refine (beginsWith_digits 2 _ _ _).trans ?_
  rw [beginsWith_cons]
  refine (beginsWith_digits 2 _ _ _).trans ?_
  rw [beginsWith_cons]
  refine (beginsWith_digits 2 _ _ _).trans ?_
  exact hrest l

/-- **Reading undoes writing**: `parse_time_to_epoch` of the text of an instant. -/
theorem parse_isoText (hL : L.Gregorian) {t : Stamp} (ht : t.date.year < 10000) :
    parseTimeToEpoch L (isoText t ++ "Z") = some (timestampOf t : ℚ) := by
  unfold parseTimeToEpoch
  dsimp only
  rw [Text.strip_of_solid (isoText_solid t), Text.endsWith_append, Bool.true_or, if_pos rfl,
    Text.dropEnd_append (n := 1) rfl, hL.fromisoformat t ht]
  simp

/-- The report reads an instant as the service does, in the years that `datetime` has. -/
theorem parsePubtime_of_parse {value : String} {t : ℚ} (h : parseTimeToEpoch L value = some t)
    (h0 : (-unixEpoch : ℚ) ≤ t) (hend : t < endOfTime) : parsePubtime L value = .ok (some t) := by
  unfold parseTimeToEpoch at h
  obtain ⟨parsed, hparsed, rfl⟩ := Option.map_eq_some_iff.1 h
  unfold parsePubtime
  dsimp only
  rw [hparsed]
  cases hoffset : parsed.offset with
  | none => simp [hoffset]
  | some offset =>
    rw [hoffset, Option.getD_some] at h0 hend
    simp [hoffset, h0, hend]

section Range

variable (hL : L.Gregorian) {n : ℤ} (h0 : 0 ≤ n) (h : n < endOfTime)

include hL h0 h

theorem parse_epochToIso : parseTimeToEpoch L (epochToIso L n) = some (n : ℚ) := by
  unfold epochToIso
  rw [hL.utcIso n h0 h, parse_isoText hL (year_utcStamp h0 h), timestampOf_utcStamp (neg_unixEpoch_le h0)]

theorem toList_epochToIso : (epochToIso L n).toList = (utcStamp n).text 'T' ++ ['Z'] := by
  unfold epochToIso
  rw [hL.utcIso n h0 h, isoText, String.toList_append, String.toList_ofList]
  rfl

/-- **Texts are in order as the instants are.** -/
theorem epochToIso_lt_iff {m : ℤ} (hm0 : 0 ≤ m) (hm : m < endOfTime) :
    Text.lt (epochToIso L n) (epochToIso L m) = true ↔ n < m := by
  unfold Text.lt
  rw [decide_eq_true_iff, toList_epochToIso hL h0 h, toList_epochToIso hL hm0 hm,
    Stamp.text_append_lt (year_utcStamp h0 h) (year_utcStamp hm0 hm)]
  have hs := seconds_utcStamp (neg_unixEpoch_le h0)
  have hs' := seconds_utcStamp (neg_unixEpoch_le hm0)
  have hirrefl : ¬ ['Z'] < ['Z'] := List.lt_irrefl _
  simp only [hirrefl, and_false, or_false]
  omega

/-- What `epoch_to_iso` writes is read back by the report. -/
theorem isoReadsBack : IsoReadsBack L n where
  length := by
    rw [toList_epochToIso hL h0 h, List.length_append, Stamp.text, List.length_append, List.length_cons,
      Date.length_text, Stamp.length_timeText]
    rfl
  shape := by
    rw [toList_epochToIso hL h0 h]
    exact beginsWith_text (utcStamp n) 'T' ['Z']
  parse := by
    have hn : (-unixEpoch : ℚ) ≤ n := by exact_mod_cast neg_unixEpoch_le h0
    exact parsePubtime_of_parse (parse_epochToIso hL h0 h) hn (by exact_mod_cast h)

end Range

/-- There is such a library. -/
theorem withCalendar_gregorian (L : Lib) : L.withCalendar.Gregorian where
  utcIso _ _ _ := rfl
  fromisoformat := by
    intro t ht
    have hread : readStamp 'T' (isoText t ++ "+00:00").toList = some (t, "+00:00".toList) := by
      rw [String.toList_append, isoText, String.toList_ofList]
      exact readStamp_text ht _
    unfold Lib.withCalendar
    dsimp only
    rw [hread]
    rfl

/-! ## A cycle -/

/-- **The interval asked of the service is the interval counted**, to the second. And later seconds
have later texts. -/
theorem interval_exact {uuid : String} {env : String → Option String} {E : Ctx} (hL : E.L.Gregorian)
    (hcfg : Config.fromEnv E.L uuid env = .ok E.cfg) (h0 : 0 ≤ E.window.start)
    (h : E.window.stop < endOfTime) :
    (∀ cell, parseTimeToEpoch E.L (E.call cell).startIso = some (E.window.start : ℚ) ∧
      parseTimeToEpoch E.L (E.call cell).endIso = some (E.window.stop : ℚ)) ∧
    ∀ a b : ℤ, 0 ≤ a → a < b → b < endOfTime →
      Text.lt (epochToIso E.L a) (epochToIso E.L b) = true ∧
        ∃ x y, parseTimeToEpoch E.L (epochToIso E.L a) = some x ∧
          parseTimeToEpoch E.L (epochToIso E.L b) = some y ∧ x < y := by
  have hlen : E.window.start < E.window.stop := by
    have hint := (fromEnv_spec hcfg).testInterval_pos
    unfold Ctx.window cycleWindow FloorWindow.window
    dsimp only
    omega
  refine ⟨?_, ?_⟩
  · intro cell
    exact ⟨parse_epochToIso hL h0 (hlen.trans h), parse_epochToIso hL (h0.trans hlen.le) h⟩
  · intro a b ha hab hb
    have ha' : a < endOfTime := hab.trans hb
    have hb0 : 0 ≤ b := ha.trans hab.le
    refine ⟨(epochToIso_lt_iff hL ha ha' hb0 hb).2 hab, a, b, parse_epochToIso hL ha ha',
      parse_epochToIso hL hb0 hb, ?_⟩
    exact_mod_cast hab

/-- A cycle of the sample configuration, a third of a second after the start of the year. -/
def newYearCycle : Ctx where
  L := sampleTables.lib.withCalendar
  cfg := sampleConfig ["cache/a/wis2/#", "origin/a/wis2/#"] ["ca-eccc"] ["https://x"]
  started := 1 / 3
  offset := newYear

theorem interval_sample : (∀ cell,
      parseTimeToEpoch newYearCycle.L (newYearCycle.call cell).startIso = some (newYearCycle.window.start : ℚ) ∧
      parseTimeToEpoch newYearCycle.L (newYearCycle.call cell).endIso = some (newYearCycle.window.stop : ℚ)) ∧
    ∀ a b : ℤ, 0 ≤ a → a < b → b < endOfTime →
      Text.lt (epochToIso newYearCycle.L a) (epochToIso newYearCycle.L b) = true ∧
        ∃ x y, parseTimeToEpoch newYearCycle.L (epochToIso newYearCycle.L a) = some x ∧
          parseTimeToEpoch newYearCycle.L (epochToIso newYearCycle.L b) = some y ∧ x < y :=
  interval_exact (withCalendar_gregorian _) fromEnv_sampleConfig (by decide +kernel) (by decide +kernel)

end Scgrep
