import Scgrep.Proof.ConfigSpec
import Scgrep.Proof.Scrape
import Scgrep.Spec.Log
import Scgrep.Spec.Report

/-!
# What the report reads in a line of a cycle

* `timestamp_cycleLine`: `purge` reads the stamp.
* `cycleLine_words`: the words of a line; from them, which messages `TESTPERIOD_RE` and
  `RESULT_RE` do not match (`testPeriod_none`, `result_none`).
* `testPeriod_begins`, `result_result`: what they capture of the others.
-/

namespace Scgrep

open Pattern

/-! ## Shapes -/

theorem beginsWith_of_append {a b : List (Option Char)} : ∀ {l : List Char},
    beginsWith (a ++ b) l = true → beginsWith a l = true := by
  induction a with
  | nil => intro l _; rfl
  | cons x a ih =>
    intro l h
    cases l with
    | nil => cases x <;> exact h
    | cons c cs =>
      cases x with
      | none =>
        have h' := Bool.and_eq_true_iff.1 h
        exact Bool.and_eq_true_iff.2 ⟨h'.1, ih h'.2⟩
      | some y =>
        have h' := Bool.and_eq_true_iff.1 h
        exact Bool.and_eq_true_iff.2 ⟨h'.1, ih h'.2⟩

theorem beginsWith_append {a : List (Option Char)} {l : List Char} (r : List Char) :
    beginsWith a l = true → beginsWith a (l ++ r) = true := by
  induction a generalizing l with
  | nil => intro _; cases l ++ r <;> rfl
  | cons x a ih =>
    intro h
    cases l with
    | nil => cases x <;> cases h
    | cons c cs =>
      cases x with
      | none =>
        have h' := Bool.and_eq_true_iff.1 h
        exact Bool.and_eq_true_iff.2 ⟨h'.1, ih h'.2⟩
      | some y =>
        have h' := Bool.and_eq_true_iff.1 h
        exact Bool.and_eq_true_iff.2 ⟨h'.1, ih h'.2⟩

/-- Behind a text of exactly a shape, the rest of the shape. -/
theorem beginsWith_append_of_length {a b : List (Option Char)} {l : List Char} (r : List Char)
    (h : beginsWith a l = true) (hlen : l.length = a.length) :
    beginsWith (a ++ b) (l ++ r) = beginsWith b r := by
  induction a generalizing l with
  | nil =>
    obtain rfl := List.length_eq_zero_iff.1 hlen
    rfl
  | cons x a ih =>
    obtain ⟨c, cs, rfl⟩ := List.exists_cons_of_length_eq_add_one hlen
    have hcs : cs.length = a.length := Nat.succ.inj hlen
    cases x with
    | none =>
      have h' := Bool.and_eq_true_iff.1 h
      change (Text.isDecimal c && beginsWith (a ++ b) (cs ++ r)) = _
      rw [h'.1, Bool.true_and, ih h'.2 hcs]
    | some y =>
      have h' := Bool.and_eq_true_iff.1 h
      change (c == y && beginsWith (a ++ b) (cs ++ r)) = _
      rw [h'.1, Bool.true_and, ih h'.2 hcs]

/-- A text of exactly a shape has its letters and digits. -/
theorem mem_of_beginsWith {a : List (Option Char)} {l : List Char} (h : beginsWith a l = true)
    (hlen : l.length = a.length) : ∀ c ∈ l, Text.isDecimal c = true ∨ some c ∈ a := by
  induction a generalizing l with
  | nil =>
    obtain rfl := List.length_eq_zero_iff.1 hlen
    intro c hc
    cases hc
  | cons x a ih =>
    cases l with
    | nil => cases hlen
    | cons d cs =>
      have hlen' : cs.length = a.length := Nat.succ.inj hlen
      intro c hc
      cases x with
      | none =>
        have h' := Bool.and_eq_true_iff.1 h
        rcases List.mem_cons.1 hc with rfl | hc
        · exact Or.inl h'.1
        · exact (ih h'.2 hlen' c hc).imp_right (List.mem_cons_of_mem _)
      | some y =>
        have h' := Bool.and_eq_true_iff.1 h
        rcases List.mem_cons.1 hc with rfl | hc
        · refine Or.inr ?_
          rw [beq_iff_eq.1 h'.1]
          exact List.mem_cons_self
        · exact (ih h'.2 hlen' c hc).imp_right (List.mem_cons_of_mem _)

/-- A letter that is no digit and not in the shape is not in the text. -/
theorem not_mem_of_beginsWith {a : List (Option Char)} {l : List Char} (h : beginsWith a l = true)
    (hlen : l.length = a.length) {c : Char} (hc : Text.isDecimal c = false) (ha : some c ∉ a) :
    c ∉ l := by
  intro hmem
  rcases mem_of_beginsWith h hlen c hmem with hd | hd
  · rw [hc] at hd
    cases hd
  · exact ha hd

/-! ## Stamps -/

theorem LogStamp.not_mem (s : LogStamp) {c : Char} (hc : Text.isDecimal c = false)
    (ha : some c ∉ asctimeShape) : c ∉ s.text.toList := not_mem_of_beginsWith s.shape s.length hc ha

/-- **`purge` reads the stamp** of a line. -/
theorem timestamp_cycleLine (s : LogStamp) (message : String) :
    timestamp (cycleLine s message) = some s.seconds := by
  have hline : (cycleLine s message).toList = s.text.toList ++
      (" INFO [scgrep.test_cycle] " ++ message ++ "\n").toList := by
    simp only [cycleLine, String.toList_append, List.append_assoc]
  have hlen : timestampShape.length ≤ s.text.toList.length := by
    rw [s.length]
    decide
  unfold timestamp LogStamp.seconds
  rw [hline, if_pos (beginsWith_append _ (beginsWith_of_append s.shape)), List.take_append_of_le_length hlen]

/-- So its keeping does not depend on the line before. -/
theorem keepLine_cycleLine (cutoff : String) (keep : Bool) (s : LogStamp) (message : String) :
    keepLine cutoff keep (cycleLine s message) = Text.le cutoff s.seconds := by
  unfold keepLine
  rw [timestamp_cycleLine]

/-! ## Numbers -/

theorem toString_digits (n : ℕ) : ∀ c ∈ (toString n).toList, c.isDigit = true := by
  intro c hc
  rw [show toString n = n.repr from rfl, Nat.toList_repr] at hc
  exact Nat.isDigit_of_mem_toDigits (by decide) (by decide) hc

theorem toString_ne_nil (n : ℕ) : (toString n).toList ≠ [] := by
  rw [show toString n = n.repr from rfl, Nat.toList_repr]
  exact Nat.toDigits_ne_nil

theorem isDecimal_of_isDigit {c : Char} (h : c.isDigit = true) : Text.isDecimal c = true := by
  have h' := Char.isDigit_iff_toNat.1 h
  unfold Text.isDecimal
  rw [List.any_eq_true]
  refine ⟨0x30, by decide, ?_⟩
  have h0 : '0'.toNat = 48 := rfl
  have h9 : '9'.toNat = 57 := rfl
  rw [Bool.and_eq_true, decide_eq_true_eq, decide_eq_true_eq]
  omega

/-- An integer is written without a space. -/
theorem space_not_mem_toString (i : ℤ) : ' ' ∉ (toString i).toList := by
  have hnat : ∀ n : ℕ, ' ' ∉ (toString n).toList := by
    intro n h
    exact absurd (toString_digits n ' ' h) (by decide)
  cases i with
  | ofNat n => exact hnat n
  | negSucc n =>
    have htext : (toString (Int.negSucc n)).toList = '-' :: (toString (n + 1)).toList := by
      show ("-" ++ toString (n + 1)).toList = _
      simp
    rw [htext, List.mem_cons, not_or]
    exact ⟨by decide, hnat (n + 1)⟩

theorem space_not_mem_percent0f (q : ℚ) : ' ' ∉ (percent0f q).toList := by
  unfold percent0f
  rw [String.toList_append, List.mem_append, not_or]
  refine ⟨?_, space_not_mem_toString _⟩
  split <;> decide

theorem space_not_mem_bit (b : Bool) : ' ' ∉ (bit b).toList := by
  cases b <;> decide

/-! ## Words -/

/-- A name, of one letter or more and without white space. -/
structure Plain (s : String) : Prop where
  ne : s ≠ ""
  solid : ∀ c ∈ s.toList, Text.isSpace c = false

theorem plain_of {s : String} (hne : s ≠ "") (hs : s.toList.any Text.isSpace = false) : Plain s := by
  refine ⟨hne, ?_⟩
  intro c hc
  simpa using List.any_eq_false.1 hs c hc

theorem Plain.space_not_mem {s : String} (h : Plain s) : ' ' ∉ s.toList := by
  intro hmem
  exact absurd (h.solid ' ' hmem) (by decide)

/-- `YYYY-mm-ddTHH:MM:SSZ`. -/
def isoShape : List (Option Char) :=
  [none, none, none, none, some '-', none, none, some '-', none, none, some 'T', none, none,
    some ':', none, none, some ':', none, none, some 'Z']

/-- `epoch_to_iso` writes the instant in its format, and `parse_pubtime` reads it back. -/
structure IsoReadsBack (L : Lib) (epoch : ℤ) : Prop where
  length : (epochToIso L epoch).toList.length = isoShape.length
  shape : beginsWith isoShape (epochToIso L epoch).toList = true
  parse : parsePubtime L (epochToIso L epoch) = .ok (some (epoch : ℚ))

theorem IsoReadsBack.not_mem {L : Lib} {n : ℤ} (h : IsoReadsBack L n) {c : Char}
    (hc : Text.isDecimal c = false) (ha : some c ∉ isoShape) : c ∉ (epochToIso L n).toList :=
  not_mem_of_beginsWith h.shape h.length hc ha

theorem IsoReadsBack.plain {L : Lib} {n : ℤ} (h : IsoReadsBack L n) : Plain (epochToIso L n) := by
  refine ⟨?_, ?_⟩
  · intro he
    have hlen := h.length
    rw [he] at hlen
    exact absurd hlen (by decide)
  · intro c hc
    rcases mem_of_beginsWith h.shape h.length c hc with hd | hd
    · exact Text.not_isSpace_of_isDecimal hd
    · have hall : isoShape.all (fun x => !x.any Text.isSpace) = true := by decide
      simpa using List.all_eq_true.1 hall _ hd

variable (L : Lib) (cfg : Config) (E : CycleEnv)

/-- The words of a line behind its stamp. -/
def CycleMessage.words : CycleMessage → List String :=
  let startIso := epochToIso L (cycleWindow cfg E.now).start
  let endIso := epochToIso L (cycleWindow cfg E.now).stop
  fun
  | .begins =>
    ["INFO", "[scgrep.test_cycle]", "Test", "period", "begins:", "window", startIso, "..", endIso ++ "\n"]
  | .baseline topic count =>
    ["INFO", "[scgrep.test_cycle]", "Baseline:", "topic=" ++ topic, "messages=" ++ toString count,
      "interval=" ++ startIso ++ "/" ++ endIso ++ "\n"]
  | .result r =>
    ["INFO", "[scgrep.test_cycle]", "Result:", "centre_id=" ++ r.cell.centreId, "topic=" ++ r.cell.topic,
      "protocol=" ++ r.result.protocol.name, "baseline=" ++ toString (E.baselineOf cfg r.cell.topic),
      "fetched=" ++ toString r.result.messagesFetched, "numberMatched=" ++ toString r.result.numberMatched,
      "delay_ms=" ++ percent0f r.result.fetchDelayMs, "aborted=" ++ bit r.result.aborted,
      "invalid_format=" ++ bit r.result.invalidFormat,
      "invalid_numberMatched=" ++ bit r.result.invalidNumberMatched ++ "\n"]
  | .complete =>
    ["INFO", "[scgrep.test_cycle]", "Test", "period", "complete:", "window", startIso, "..",
      endIso ++ "\n"]

variable {L cfg E}

/-- **A line is its words**, behind its stamp. -/
theorem cycleLine_words (s : LogStamp) (m : CycleMessage) :
    (cycleLine s (m.text L cfg E)).toList =
      s.text.toList ++ ' ' :: [' '].intercalate ((m.words L cfg E).map String.toList) := by
  cases m with
  | begins => simp [cycleLine, CycleMessage.text, CycleMessage.words, List.intercalate]
  | baseline topic count => simp [cycleLine, CycleMessage.text, CycleMessage.words, List.intercalate]
  | result r => simp [cycleLine, CycleMessage.text, CycleMessage.words, List.intercalate]
  | complete => simp [cycleLine, CycleMessage.text, CycleMessage.words, List.intercalate]

/-- The names in a message are plain. -/
def CycleMessage.Named : CycleMessage → Prop
  | .baseline topic _ => Plain topic
  | .result r => Plain r.cell.centreId ∧ Plain r.cell.topic
  | _ => True

/-- The bounds of the window of a cycle are read back. -/
def WindowReadsBack (L : Lib) (cfg : Config) (E : CycleEnv) : Prop :=
  IsoReadsBack L (cycleWindow cfg E.now).start ∧ IsoReadsBack L (cycleWindow cfg E.now).stop

theorem words_solid (hiso : WindowReadsBack L cfg E) {m : CycleMessage} (hm : m.Named) :
    ∀ x ∈ (m.words L cfg E).map String.toList, ' ' ∉ x := by
  have hS := hiso.1.plain.space_not_mem
  have hE := hiso.2.plain.space_not_mem
  have hdigit : ∀ n : ℕ, ' ' ∉ Nat.toDigits 10 n := fun n hmem =>
    absurd (Nat.isDigit_of_mem_toDigits (by decide) (by decide) hmem) (by decide)
  have hint : ∀ i : ℤ, ' ' ∉ i.repr.toList := space_not_mem_toString
  cases m with
  | begins => simp [CycleMessage.words, hS, hE]
  | baseline topic count =>
    have ht := Plain.space_not_mem hm
    simp [CycleMessage.words, hS, hE, ht, hdigit]
  | result r =>
    have hc := Plain.space_not_mem hm.1
    have ht := Plain.space_not_mem hm.2
    have hp : ' ' ∉ r.result.protocol.name.toList := by cases r.result.protocol <;> decide
    simp [CycleMessage.words, hc, ht, hp, hdigit, hint, space_not_mem_percent0f, space_not_mem_bit]
  | complete => simp [CycleMessage.words, hS, hE]

/-- **No word, no match**: a pattern that begins with a text in which a word begins with `w` matches
no line without such a word. -/
theorem search_line_none {c : Char} {w lit : List Char} {items : List (Item Char)}
    (hlit : ' ' :: c :: w <:+: lit) (hw : ' ' ∉ c :: w) (hc : Text.isDecimal c = false)
    (ha : some c ∉ asctimeShape) (s : LogStamp) {m : CycleMessage}
    (hsolid : ∀ x ∈ (m.words L cfg E).map String.toList, ' ' ∉ x)
    (hno : ∀ x ∈ (m.words L cfg E).map String.toList, ¬ c :: w <+: x) :
    search (.text lit :: items) (cycleLine s (m.text L cfg E)).toList = none := by
  have hne : (m.words L cfg E).map String.toList ≠ [] := by
    cases m with
    | begins => simp [CycleMessage.words]
    | baseline topic count => simp [CycleMessage.words]
    | result r => simp [CycleMessage.words]
    | complete => simp [CycleMessage.words]
  have hstamp : NoWord ' ' (c :: w) s.text.toList :=
    noWord_of_head_not_mem (s.not_mem hc ha)
  have hline : NoWord ' ' (c :: w) (cycleLine s (m.text L cfg E)).toList := by
    rw [cycleLine_words, noWord_append, noWord_intercalate hne hsolid]
    exact ⟨hstamp, hno⟩
  cases hm : search (.text lit :: items) (cycleLine s (m.text L cfg E)).toList with
  | none => rfl
  | some ms => exact absurd (hlit.trans (infix_of_search hm)) (not_infix_of_noWord hw hline)

theorem not_prefix_of_not_mem {c : Char} {w l : List Char} (h : c ∉ l) : ¬ c :: w <+: l := by
  intro hpre
  exact h (hpre.subset List.mem_cons_self)

/-- **`TESTPERIOD_RE` matches no other message.** -/
theorem testPeriod_none (hiso : WindowReadsBack L cfg E) (s : LogStamp) {m : CycleMessage} (hm : m.Named)
    (hne : m ≠ .begins) : search testPeriodRe (cycleLine s (m.text L cfg E)).toList = none := by
  have hS : 'b' ∉ (epochToIso L (cycleWindow cfg E.now).start).toList := hiso.1.not_mem (by decide) (by decide)
  have hE : 'b' ∉ (epochToIso L (cycleWindow cfg E.now).stop).toList := hiso.2.not_mem (by decide) (by decide)
  have hS' : ∀ w, ¬ 'b' :: w <+: (epochToIso L (cycleWindow cfg E.now).start).toList :=
    fun w => not_prefix_of_not_mem hS
  have hE' : ∀ w, ¬ 'b' :: w <+: (epochToIso L (cycleWindow cfg E.now).stop).toList ++ ['\n'] :=
    fun w => not_prefix_of_not_mem (by simp [hE])
  have hlit : ' ' :: 'b' :: "egins:".toList <:+: "Test period begins: window ".toList := by decide
  refine search_line_none hlit (by decide) (by decide) (by decide) s (words_solid hiso hm) ?_
  cases m with
  | begins => exact absurd rfl hne
  | baseline topic count => simp [CycleMessage.words, List.cons_prefix_cons]
  | result r => simp [CycleMessage.words, List.cons_prefix_cons]
  | complete => simp [CycleMessage.words, List.cons_prefix_cons, hS', hE']

/-- **`RESULT_RE` matches neither a baseline nor the end.** -/
theorem result_none (hiso : WindowReadsBack L cfg E) (s : LogStamp) {m : CycleMessage} (hm : m.Named)
    (hne : ∀ r, m ≠ .result r) : search resultRe (cycleLine s (m.text L cfg E)).toList = none := by
  have hS : 'c' ∉ (epochToIso L (cycleWindow cfg E.now).start).toList := hiso.1.not_mem (by decide) (by decide)
  have hE : 'c' ∉ (epochToIso L (cycleWindow cfg E.now).stop).toList := hiso.2.not_mem (by decide) (by decide)
  have hS' : ∀ w, ¬ 'c' :: w <+: (epochToIso L (cycleWindow cfg E.now).start).toList :=
    fun w => not_prefix_of_not_mem hS
  have hE' : ∀ w, ¬ 'c' :: w <+: (epochToIso L (cycleWindow cfg E.now).stop).toList ++ ['\n'] :=
    fun w => not_prefix_of_not_mem (by simp [hE])
  have hlit : ' ' :: 'c' :: "entre_id=".toList <:+: "Result: centre_id=".toList := by decide
  refine search_line_none hlit (by decide) (by decide) (by decide) s (words_solid hiso hm) ?_
  cases m with
  | begins => simp [CycleMessage.words, List.cons_prefix_cons, hS', hE']
  | baseline topic count => simp [CycleMessage.words, List.cons_prefix_cons]
  | result r => exact absurd rfl (hne r)
  | complete => simp [CycleMessage.words, List.cons_prefix_cons, hS', hE']

/-! ## Matches -/

theorem Plain.notSpace {s : String} (h : Plain s) : ∀ c ∈ s.toList, notSpace c = true := by
  intro c hc
  unfold Scgrep.notSpace
  rw [h.solid c hc]
  rfl

theorem Plain.toList_ne {s : String} (h : Plain s) : s.toList ≠ [] := by
  intro hnil
  exact h.ne (String.toList_inj.1 hnil)

/-- What stands before the message. -/
def cycleHead (s : LogStamp) : List Char := s.text.toList ++ " INFO [scgrep.test_cycle] ".toList

theorem LogStamp.not_mem_head (s : LogStamp) {c : Char} (hc : Text.isDecimal c = false)
    (ha : some c ∉ asctimeShape) (hh : c ∉ " INFO [scgrep.test_cycle] ".toList) : c ∉ cycleHead s := by
  unfold cycleHead
  rw [List.mem_append, not_or]
  exact ⟨s.not_mem hc ha, hh⟩

/-- **`TESTPERIOD_RE` captures the window** of the line that begins a cycle. -/
theorem testPeriod_begins (hiso : WindowReadsBack L cfg E) (s : LogStamp) :
    search testPeriodRe (cycleLine s (CycleMessage.begins.text L cfg E)).toList =
      some [(epochToIso L (cycleWindow cfg E.now).start).toList,
        (epochToIso L (cycleWindow cfg E.now).stop).toList] := by
  have hS := hiso.1.plain
  have hE := hiso.2.plain
  have hline : (cycleLine s (CycleMessage.begins.text L cfg E)).toList = cycleHead s ++
      ("Test period begins: window ".toList ++ ((epochToIso L (cycleWindow cfg E.now).start).toList ++
        (" .. ".toList ++ ((epochToIso L (cycleWindow cfg E.now).stop).toList ++ "\n".toList)))) := by
    simp only [cycleLine, CycleMessage.text, cycleHead, String.toList_append, List.append_assoc]
  have hend : matchHere [.run notSpace]
      ((epochToIso L (cycleWindow cfg E.now).stop).toList ++ "\n".toList) =
        some [(epochToIso L (cycleWindow cfg E.now).stop).toList] :=
    matchHere_run hE.toList_ne hE.notSpace (by decide) rfl
  rw [hline]
  refine (search_skip (c := 'T') (s.not_mem_head (by decide) (by decide) (by decide)) _).trans ?_
  apply search_of_matchHere
  refine (matchHere_text _ _ _).trans ?_
  exact matchHere_run_text hS.toList_ne hS.notSpace (by decide) (by decide) hend

/-- **`RESULT_RE` captures the result** of a line. -/
theorem result_result (s : LogStamp) {r : CellResult} (hm : (CycleMessage.result r).Named)
    (hcount : 0 ≤ r.result.messagesFetched) :
    search resultRe (cycleLine s ((CycleMessage.result r).text L cfg E)).toList =
      some [r.cell.centreId.toList, r.cell.topic.toList, r.result.protocol.name.toList,
        (toString (E.baselineOf cfg r.cell.topic)).toList,
        (toString r.result.messagesFetched).toList] := by
  obtain ⟨hc, ht⟩ := hm
  have hp : Plain r.result.protocol.name := by
    cases r.result.protocol with
    | http => exact plain_of (by decide) (by decide)
    | mqtt => exact plain_of (by decide) (by decide)
  have hdigit : ∀ (n : ℕ), ∀ c ∈ (toString n).toList, Text.isDecimal c = true := fun n c hc =>
    isDecimal_of_isDigit (toString_digits n c hc)
  obtain ⟨n, hn⟩ := Int.eq_ofNat_of_zero_le hcount
  have hfetched : toString r.result.messagesFetched = toString n := by rw [hn]; rfl
  rw [hfetched]
  set rest := " numberMatched=".toList ++ ((toString r.result.numberMatched).toList ++
    (" delay_ms=".toList ++ ((percent0f r.result.fetchDelayMs).toList ++ (" aborted=".toList ++
      ((bit r.result.aborted).toList ++ (" invalid_format=".toList ++
        ((bit r.result.invalidFormat).toList ++ (" invalid_numberMatched=".toList ++
          ((bit r.result.invalidNumberMatched).toList ++ "\n".toList))))))))) with hrest
  have hline : (cycleLine s ((CycleMessage.result r).text L cfg E)).toList = cycleHead s ++
      ("Result: centre_id=".toList ++ (r.cell.centreId.toList ++ (" topic=".toList ++
        (r.cell.topic.toList ++ (" protocol=".toList ++ (r.result.protocol.name.toList ++
          (" baseline=".toList ++ ((toString (E.baselineOf cfg r.cell.topic)).toList ++
            (" fetched=".toList ++ ((toString n).toList ++ rest)))))))))) := by
    simp only [cycleLine, CycleMessage.text, cycleHead, String.toList_append, List.append_assoc, hfetched, hrest]
  have hend : matchHere [.run Text.isDecimal] ((toString n).toList ++ rest) = some [(toString n).toList] :=
    matchHere_run (toString_ne_nil n) (hdigit n) (head_append (by decide) (by decide) _) rfl
  rw [hline]
  refine (search_skip (c := 'R') (s.not_mem_head (by decide) (by decide) (by decide)) _).trans ?_
  apply search_of_matchHere
  refine (matchHere_text _ _ _).trans ?_
  apply matchHere_run_text hc.toList_ne hc.notSpace (by decide) (by decide)
  apply matchHere_run_text ht.toList_ne ht.notSpace (by decide) (by decide)
  apply matchHere_run_text hp.toList_ne hp.notSpace (by decide) (by decide)
  apply matchHere_run_text (toString_ne_nil _) (hdigit _) (by decide) (by decide)
  exact hend

end Scgrep
