import Scgrep.Proof.ConfigSpec
import Scgrep.Proof.MessageLines
import Scgrep.Spec.LossReport
import Scgrep.Spec.Tables

/-!
# The report as a function of the lines

`lineEntry` is what a line says by itself: an id in a minute on one side. `Holds` ties
the dictionaries of the scan to the entries of all lines, whatever their order.

* `lossReport_files`: **the order of the files, a file named twice and a line repeated
  make no difference.**
* `lossReport_table`: **what the table says**: the minutes with an entry in the window,
  in order, each with the number of distinct ids on either side.
-/

namespace Scgrep

open Pattern

variable {L : Lib} {args : ReportArgs}

/-! ## One line -/

/-- An id in the minute of a time, if that can be read. -/
def entryAt (L : Lib) (side : Side) (time msgId : String) : Except PyErr (Option (Side × ℤ × String)) :=
  (parsePubtime L time).map fun dt => dt.map fun dt => (side, floorMinute dt, msgId)

/-- What a line says. -/
def lineEntry (L : Lib) (args : ReportArgs) (line : String) : Except PyErr (Option (Side × ℤ × String)) :=
  match search baselineRe line.toList with
  | some [lineTopic, msgId, time] =>
    if Text.within args.topic (String.ofList lineTopic) then
      entryAt L .baseline (String.ofList time) (String.ofList msgId)
    else .ok none
  | _ =>
    match searchBy matchReplay line.toList with
    | some (kind, [_, lineTopic, msgId, time]) =>
      if kind ∈ args.sources ∧ Text.within args.topic (String.ofList lineTopic) then
        entryAt L .replay (String.ofList time) (String.ofList msgId)
      else .ok none
    | _ => .ok none

def Buckets.add (b : Buckets) (minute : ℤ) (msgId : String) : Side → Buckets
  | .baseline => { b with baseline := b.baseline.add minute msgId }
  | .replay => { b with replay := b.replay.add minute msgId }

def Buckets.enter (b : Buckets) : Option (Side × ℤ × String) → Buckets
  | none => b
  | some (side, minute, msgId) => b.add minute msgId side

theorem parsePubtime_error {value : String} {e : PyErr} (h : parsePubtime L value = .error e) :
    e = .overflowError := by
  unfold parsePubtime at h
  dsimp only at h
  split at h
  · cases h
  · split at h
    · cases h
    · split at h
      · cases h
      · cases h
        rfl

theorem lineEntry_error {line : String} {e : PyErr} (h : lineEntry L args line = .error e) :
    e = .overflowError := by
  have hat : ∀ {side time msgId}, entryAt L side time msgId = .error e → e = .overflowError := by
    intro side time msgId hat
    unfold entryAt at hat
    cases hp : parsePubtime L time with
    | error e' => rw [hp] at hat; cases hat; exact parsePubtime_error hp
    | ok dt => rw [hp] at hat; cases hat
  unfold lineEntry at h
  split at h
  · split at h
    · exact hat h
    · cases h
  · split at h
    · split at h
      · exact hat h
      · cases h
    · cases h

theorem addAt_entry (d : Minutes) (side : Side) (time msgId : String) (b : Minutes → Buckets)
    (hb : ∀ minute, b (d.add minute msgId) = (b d).add minute msgId side) :
    (d.addAt L time msgId).map b = (entryAt L side time msgId).map (b d).enter := by
  unfold Minutes.addAt entryAt
  cases parsePubtime L time with
  | error e => rfl
  | ok dt =>
    cases dt with
    | none => rfl
    | some dt => exact congrArg Except.ok (hb (floorMinute dt))

theorem lineEntry_baseline {line : String} {lineTopic msgId time : List Char}
    (h : search baselineRe line.toList = some [lineTopic, msgId, time]) :
    lineEntry L args line = if Text.within args.topic (String.ofList lineTopic) then
      entryAt L .baseline (String.ofList time) (String.ofList msgId) else .ok none := by
  unfold lineEntry
  rw [h]

theorem lineEntry_replay {line : String} {kind : ReplayKind} {centreId lineTopic msgId time : List Char}
    (hno : ∀ lineTopic msgId time, search baselineRe line.toList = some [lineTopic, msgId, time] → False)
    (h : searchBy matchReplay line.toList = some (kind, [centreId, lineTopic, msgId, time])) :
    lineEntry L args line = if kind ∈ args.sources ∧ Text.within args.topic (String.ofList lineTopic) then
      entryAt L .replay (String.ofList time) (String.ofList msgId) else .ok none := by
  unfold lineEntry
  split
  · next heq => exact (hno _ _ _ heq).elim
  · rw [h]

theorem lineEntry_other {line : String}
    (hno : ∀ lineTopic msgId time, search baselineRe line.toList = some [lineTopic, msgId, time] → False)
    (hno' : ∀ kind centreId lineTopic msgId time,
      searchBy matchReplay line.toList = some (kind, [centreId, lineTopic, msgId, time]) → False) :
    lineEntry L args line = .ok none := by
  unfold lineEntry
  split
  · next heq => exact (hno _ _ _ heq).elim
  · split
    · next heq => exact (hno' _ _ _ _ _ heq).elim
    · rfl

/-- **A turn of the scan enters what the line says.** -/
theorem scanMessageLine_entry (b : Buckets) (line : String) :
    scanMessageLine L args.topic args.sources b line = (lineEntry L args line).map b.enter := by
  unfold scanMessageLine
  split
  · next heq =>
    rw [lineEntry_baseline heq]
    split
    · exact addAt_entry b.baseline .baseline _ _ (fun d => { b with baseline := d }) fun _ => rfl
    · rfl
  · next hno =>
    split
    · next heq =>
      rw [lineEntry_replay hno heq]
      split
      · exact addAt_entry b.replay .replay _ _ (fun d => { b with replay := d }) fun _ => rfl
      · rfl
    · next hno' =>
      rw [lineEntry_other hno hno']
      rfl

/-! ## All lines -/

/-- An id stands in a minute on one side of the lines. -/
def Stands (L : Lib) (args : ReportArgs) (lines : List String) (side : Side) (minute : ℤ) (msgId : String) :
    Prop := ∃ line ∈ lines, lineEntry L args line = .ok (some (side, minute, msgId))

/-- The dictionaries hold what stands in the lines; a minute is a key when it has an id. -/
structure Buckets.Holds (L : Lib) (args : ReportArgs) (lines : List String) (b : Buckets) : Prop where
  mem : ∀ side m x, x ∈ (b.on side).at m ↔ Stands L args lines side m x
  keys : ∀ side m, m ∈ (b.on side).keys ↔ ((b.on side).at m).Nonempty

theorem Minutes.mem_keys {d : Minutes} {m : ℤ} : m ∈ d.keys ↔ d.get? m ≠ none := by
  rw [Ne, Dict.get?_eq_none, not_not]
  rfl

theorem Minutes.mem_keys_add {d : Minutes} {minute m : ℤ} {msgId : String} :
    m ∈ (d.add minute msgId).keys ↔ m = minute ∨ m ∈ d.keys := by
  rw [Minutes.mem_keys, Minutes.mem_keys, Minutes.add, Dict.get?_set]
  by_cases h : m = minute
  · rw [if_pos h]
    exact iff_of_true (Option.some_ne_none _) (.inl h)
  · rw [if_neg h]
    exact (or_iff_right h).symm

theorem on_add (b : Buckets) (minute : ℤ) (msgId : String) (side side' : Side) :
    (b.add minute msgId side').on side =
      if side = side' then (b.on side).add minute msgId else b.on side := by
  cases side <;> cases side' <;> rfl

theorem holds_init : (⟨Dict.empty, Dict.empty⟩ : Buckets).Holds L args [] := by
  refine ⟨fun side m x => iff_of_false ?_ ?_, fun side m => iff_of_false ?_ ?_⟩
  · cases side <;> exact Finset.notMem_empty x
  · rintro ⟨line, hline, -⟩
    cases hline
  · cases side <;> exact List.not_mem_nil
  · cases side <;> exact Finset.not_nonempty_empty

theorem stands_concat {lines : List String} {line : String} {side : Side} {m : ℤ} {x : String} :
    Stands L args (lines ++ [line]) side m x ↔
      Stands L args lines side m x ∨ lineEntry L args line = .ok (some (side, m, x)) := by
  unfold Stands
  simp only [List.mem_append, List.mem_singleton]
  constructor
  · rintro ⟨l, hl | rfl, h⟩
    · exact .inl ⟨l, hl, h⟩
    · exact .inr h
  · rintro (⟨l, hl, h⟩ | h)
    · exact ⟨l, .inl hl, h⟩
    · exact ⟨line, .inr rfl, h⟩

/-- **A line more.** -/
theorem Buckets.Holds.enter {lines : List String} {b : Buckets} (h : b.Holds L args lines) {line : String}
    {entry : Option (Side × ℤ × String)} (hline : lineEntry L args line = .ok entry) :
    (b.enter entry).Holds L args (lines ++ [line]) := by
  cases entry with
  | none =>
    refine ⟨fun side m x => (h.mem side m x).trans ?_, h.keys⟩
    rw [stands_concat, hline]
    exact (or_iff_left (by intro he; cases he)).symm
  | some entry =>
    obtain ⟨side', minute, msgId⟩ := entry
    constructor
    · intro side m x
      rw [stands_concat, hline, ← h.mem, Buckets.enter, on_add]
      by_cases hside : side = side'
      · subst hside
        rw [if_pos rfl, Minutes.at_add]
        by_cases hm : m = minute
        · subst hm
          rw [if_pos rfl, Finset.mem_insert, or_comm]
          refine or_congr_right ⟨fun hx => by rw [hx], fun he => ?_⟩
          cases he
          rfl
        · rw [if_neg hm]
          refine (or_iff_left fun he => ?_).symm
          cases he
          exact hm rfl
      · rw [if_neg hside]
        refine (or_iff_left fun he => ?_).symm
        cases he
        exact hside rfl
    · intro side m
      rw [Buckets.enter, on_add]
      by_cases hside : side = side'
      · rw [if_pos hside, Minutes.mem_keys_add, Minutes.at_add, h.keys]
        by_cases hm : m = minute
        · rw [if_pos hm]
          exact iff_of_true (.inl hm) (Finset.insert_nonempty _ _)
        · rw [if_neg hm]
          exact or_iff_right hm
      · rw [if_neg hside]
        exact h.keys side m

/-- No line raises. -/
def Clean (L : Lib) (args : ReportArgs) (lines : List String) : Prop :=
  ∀ line ∈ lines, ∃ entry, lineEntry L args line = .ok entry

theorem scan_clean {lines : List String} (hclean : Clean L args lines) :
    ∃ b, scanMessages L args.topic args.sources lines = .ok b ∧ b.Holds L args lines := by
  suffices h : ∀ (rest before : List String) (b : Buckets), Clean L args rest → b.Holds L args before →
      ∃ b', rest.foldlM (scanMessageLine L args.topic args.sources) b = .ok b' ∧
        b'.Holds L args (before ++ rest) from h lines [] _ hclean holds_init
  intro rest
  induction rest with
  | nil =>
    intro before b _ hb
    exact ⟨b, rfl, by rwa [List.append_nil]⟩
  | cons line rest ih =>
    intro before b hrest hb
    obtain ⟨entry, hline⟩ := hrest line List.mem_cons_self
    obtain ⟨b', hb', hholds⟩ := ih (before ++ [line]) (b.enter entry)
      (fun l hl => hrest l (List.mem_cons_of_mem _ hl)) (hb.enter hline)
    refine ⟨b', ?_, by rwa [List.append_assoc] at hholds⟩
    rw [List.foldlM_cons, scanMessageLine_entry, hline]
    exact hb'

theorem scan_unclean {lines : List String} (hclean : ¬ Clean L args lines) :
    scanMessages L args.topic args.sources lines = .error .overflowError := by
  suffices h : ∀ (rest : List String) (b : Buckets), ¬ Clean L args rest →
      rest.foldlM (scanMessageLine L args.topic args.sources) b = .error .overflowError from h lines _ hclean
  intro rest
  induction rest with
  | nil =>
    intro b hrest
    exact absurd (fun line hline => by cases hline) hrest
  | cons line rest ih =>
    intro b hrest
    rw [List.foldlM_cons, scanMessageLine_entry]
    cases hline : lineEntry L args line with
    | error e =>
      rw [lineEntry_error hline]
      rfl
    | ok entry =>
      refine ih (b.enter entry) fun hrest' => hrest fun l hl => ?_
      rcases List.mem_cons.1 hl with rfl | hl
      · exact ⟨entry, hline⟩
      · exact hrest' l hl

/-! ## The same lines in another order -/

/-- The same ids in each minute. -/
structure Buckets.Same (b b' : Buckets) : Prop where
  at_eq : ∀ side m, (b.on side).at m = (b'.on side).at m
  keys : ∀ side m, m ∈ (b.on side).keys ↔ m ∈ (b'.on side).keys

theorem Buckets.Holds.same {lines lines' : List String} {b b' : Buckets} (h : b.Holds L args lines)
    (h' : b'.Holds L args lines') (hlines : ∀ line, line ∈ lines ↔ line ∈ lines') : b.Same b' := by
  have hat : ∀ side m, (b.on side).at m = (b'.on side).at m := by
    intro side m
    ext x
    rw [h.mem, h'.mem]
    unfold Stands
    simp only [hlines]
  refine ⟨hat, fun side m => ?_⟩
  rw [h.keys, h'.keys, hat]

theorem Buckets.mem_minutes {b : Buckets} {m : ℤ} : m ∈ b.minutes ↔ ∃ side, m ∈ (b.on side).keys := by
  unfold Buckets.minutes
  rw [List.mem_append]
  constructor
  · rintro (h | h)
    · exact ⟨.baseline, h⟩
    · exact ⟨.replay, h⟩
  · rintro ⟨_ | _, h⟩
    · exact .inl h
    · exact .inr h

theorem max?_congr {l l' : List ℤ} (h : ∀ m, m ∈ l ↔ m ∈ l') : l.max? = l'.max? := by
  apply Option.ext
  intro m
  rw [List.max?_eq_some_iff, List.max?_eq_some_iff]
  simp only [h]

theorem Buckets.Same.minutes {b b' : Buckets} (h : b.Same b') (m : ℤ) : m ∈ b.minutes ↔ m ∈ b'.minutes := by
  simp only [Buckets.mem_minutes, h.keys]

theorem Buckets.Same.latestMinute {b b' : Buckets} (h : b.Same b') : latestMinute b = latestMinute b' := by
  have hreplay : ∀ m, m ∈ b.replay.keys ↔ m ∈ b'.replay.keys := h.keys .replay
  unfold Scgrep.latestMinute
  simp only [List.eq_nil_iff_forall_not_mem, hreplay]
  rw [max?_congr hreplay, max?_congr h.minutes]

theorem Buckets.Same.buildRows {b b' : Buckets} (h : b.Same b') (since till : ℤ) :
    buildRows b since till = buildRows b' since till := by
  have hrow : lossRow? b since till = lossRow? b' since till := by
    funext m
    have hbaseline : b.baseline.at m = b'.baseline.at m := h.at_eq .baseline m
    have hreplay : b.replay.at m = b'.replay.at m := h.at_eq .replay m
    unfold lossRow?
    rw [hbaseline, hreplay]
  unfold Scgrep.buildRows
  rw [SortedSet.congr h.minutes, hrow]

theorem Buckets.Same.lossReportOf {b b' : Buckets} (h : b.Same b') :
    lossReportOf L args b = lossReportOf L args b' := by
  unfold Scgrep.lossReportOf windowBounds untilBound
  rw [h.latestMinute]
  simp only [h.buildRows]

theorem lossReportLines_congr {lines lines' : List String} (h : ∀ line, line ∈ lines ↔ line ∈ lines') :
    lossReportLines L args lines = lossReportLines L args lines' := by
  have hiff : Clean L args lines ↔ Clean L args lines' := by
    unfold Clean
    simp only [h]
  unfold lossReportLines
  by_cases hclean : Clean L args lines
  · obtain ⟨b, hb, hholds⟩ := scan_clean hclean
    obtain ⟨b', hb', hholds'⟩ := scan_clean (hiff.1 hclean)
    rw [hb, hb']
    exact (hholds.same hholds' h).lossReportOf
  · rw [scan_unclean hclean, scan_unclean (mt hiff.2 hclean)]

/-- **The report depends on the lines only, not on the files they are in.** The files may be named
in any order and more than once, and lines may be repeated or moved from one file to another. -/
theorem lossReport_files {glob glob' : String → List String} {content content' : String → Option (List String)}
    {files files' : List String}
    (h : ∀ line, line ∈ iterLogLines content (reportPaths glob files) ↔
      line ∈ iterLogLines content' (reportPaths glob' files')) :
    lossReport L glob content { args with logFiles := files } =
      lossReport L glob' content' { args with logFiles := files' } :=
  -- nothing but the lines depends on the names of the files
  @lossReportLines_congr L { args with logFiles := files } _ _ h

/-- Two messages are received in one minute, one of them is replayed, and one more is received in the
minute after. -/
def lossContent : String → Option (List String)
  | "scgrep.log" => some [
      "2024-01-01 00:00:10,000 INFO [scgrep.mqtt_client] Global Broker message: topic=x " ++
        "id=a time=2024-01-01T00:00:00Z\n",
      "2024-01-01 00:00:20,000 INFO [scgrep.mqtt_client] Global Broker message: topic=x " ++
        "id=b time=2024-01-01T00:00:00Z\n"]
  | "scgrep.log.1" => some [
      "2024-01-01 00:05:10,000 INFO [scgrep.replay_tester] Replay message (synchronous): " ++
        "centre_id=c topic=x id=b time=2024-01-01T00:00:00Z\n",
      "2024-01-01 00:05:20,000 INFO [scgrep.mqtt_client] Global Broker message: topic=x " ++
        "id=d time=2024-01-01T00:01:00Z\n"]
  | _ => none

def lossArgs : ReportArgs := ⟨["scgrep.log", "scgrep.log.1"], "x", 60, bothSources, none, none⟩

theorem lossReport_files_sample :
    lossReport sampleTables.lib (fun _ => []) lossContent lossArgs =
      lossReport sampleTables.lib (fun _ => ["scgrep.log.1", "scgrep.log"]) lossContent
        { lossArgs with logFiles := ["*", "scgrep.log", "no.log"] } :=
  @lossReport_files sampleTables.lib lossArgs _ _ _ _ _ _ fun line => by
    have hpaths : reportPaths (fun _ => ["scgrep.log.1", "scgrep.log"]) ["*", "scgrep.log", "no.log"] =
        ["scgrep.log.1", "scgrep.log", "scgrep.log.1", "scgrep.log", "scgrep.log.1", "scgrep.log"] := rfl
    rw [hpaths, show reportPaths (fun _ => []) ["scgrep.log", "scgrep.log.1"] =
      ["scgrep.log", "scgrep.log.1"] from rfl]
    unfold iterLogLines
    simp only [List.flatMap_cons, List.flatMap_nil, List.mem_append]
    tauto

/-! ## What the table says -/

/-- What the lines say, each by itself. -/
def lineEntries (L : Lib) (args : ReportArgs) (lines : List String) : List (Side × ℤ × String) :=
  lines.filterMap fun line => (lineEntry L args line).toOption.join

/-- The minutes and ids of one side from `since` to `stop`. -/
def entriesIn (L : Lib) (args : ReportArgs) (lines : List String) (side : Side) (since stop : ℤ) :
    Finset (ℤ × String) :=
  (((lineEntries L args lines).filter fun e => e.1 = side ∧ since ≤ e.2.1 ∧ e.2.1 + 60 ≤ stop).map
    Prod.snd).toFinset

/-- The ids of one side in a minute. -/
def idsAt (L : Lib) (args : ReportArgs) (lines : List String) (side : Side) (minute : ℤ) : Finset String :=
  (entriesIn L args lines side minute (minute + 60)).image Prod.snd

theorem mem_lineEntries {lines : List String} {side : Side} {m : ℤ} {x : String} :
    (side, m, x) ∈ lineEntries L args lines ↔ Stands L args lines side m x := by
  unfold lineEntries Stands
  rw [List.mem_filterMap]
  refine exists_congr fun line => and_congr_right fun _ => ?_
  rcases lineEntry L args line with e | _ | entry
  · exact iff_of_false (by intro h; cases h) (by intro h; cases h)
  · exact iff_of_false (by intro h; cases h) (by intro h; cases h)
  · exact ⟨fun h => congrArg Except.ok h, fun h => Except.ok.inj h⟩

theorem mem_entriesIn {lines : List String} {side : Side} {since stop m : ℤ} {x : String} :
    (m, x) ∈ entriesIn L args lines side since stop ↔
      Stands L args lines side m x ∧ since ≤ m ∧ m + 60 ≤ stop := by
  unfold entriesIn
  rw [List.mem_toFinset, List.mem_map, ← mem_lineEntries]
  constructor
  · rintro ⟨⟨side', m', x'⟩, he, heq⟩
    cases heq
    obtain ⟨hmem, hcond⟩ := List.mem_filter.1 he
    obtain ⟨hside, h⟩ := of_decide_eq_true hcond
    dsimp only at hside
    exact ⟨hside ▸ hmem, h⟩
  · rintro ⟨he, h⟩
    exact ⟨(side, m, x), List.mem_filter.2 ⟨he, decide_eq_true ⟨rfl, h⟩⟩, rfl⟩

theorem mem_idsAt {lines : List String} {side : Side} {m : ℤ} {x : String} :
    x ∈ idsAt L args lines side m ↔ Stands L args lines side m x := by
  unfold idsAt
  rw [Finset.mem_image]
  constructor
  · rintro ⟨⟨m', x'⟩, he, rfl⟩
    obtain ⟨hstands, hle, hge⟩ := mem_entriesIn.1 he
    obtain rfl : m' = m := by omega
    exact hstands
  · intro h
    exact ⟨(m, x), mem_entriesIn.2 ⟨h, le_rfl, le_rfl⟩, rfl⟩

theorem Buckets.Holds.at_eq {lines : List String} {b : Buckets} (h : b.Holds L args lines) (side : Side)
    (m : ℤ) : (b.on side).at m = idsAt L args lines side m := by
  ext x
  rw [h.mem, mem_idsAt]

theorem Buckets.Holds.mem_minutes {lines : List String} {b : Buckets} (h : b.Holds L args lines) {m : ℤ} :
    m ∈ b.minutes ↔ ∃ side, (idsAt L args lines side m).Nonempty := by
  rw [Buckets.mem_minutes]
  refine exists_congr fun side => ?_
  rw [h.keys, h.at_eq]

/-! ### The rows -/

theorem lossRow?_eq_some {b : Buckets} {since till m : ℤ} {row : LossRow} :
    lossRow? b since till m = some row ↔ since ≤ m ∧ m ≤ till ∧
      ((b.baseline.at m).Nonempty ∨ (b.replay.at m).Nonempty) ∧
      row = ⟨m, (b.replay.at m).card, (b.baseline.at m).card, (b.baseline.at m).card - (b.replay.at m).card⟩ := by
  unfold lossRow?
  split
  · next hout =>
    refine iff_of_false (by intro h; cases h) ?_
    rintro ⟨h1, h2, -⟩
    omega
  · next hin =>
    dsimp only
    split
    · next hzero =>
      refine iff_of_false (by intro h; cases h) ?_
      rintro ⟨-, -, h | h, -⟩
      · exact h.card_ne_zero hzero.1
      · exact h.card_ne_zero hzero.2
    · next hsome =>
      have hne : (b.baseline.at m).Nonempty ∨ (b.replay.at m).Nonempty := by
        by_contra hno
        rw [not_or, Finset.not_nonempty_iff_eq_empty, Finset.not_nonempty_iff_eq_empty] at hno
        exact hsome ⟨by rw [hno.1]; rfl, by rw [hno.2]; rfl⟩
      constructor
      · intro h
        exact ⟨by omega, by omega, hne, (Option.some.inj h).symm⟩
      · rintro ⟨-, -, -, rfl⟩
        rfl

theorem mem_buildRows {b : Buckets} {since till : ℤ} {row : LossRow} :
    row ∈ buildRows b since till ↔ ∃ m ∈ b.minutes, lossRow? b since till m = some row := by
  unfold buildRows
  rw [List.mem_filterMap]
  simp only [SortedSet.mem_sortedSet]

theorem buildRows_pairwise (b : Buckets) (since till : ℤ) :
    (buildRows b since till).Pairwise fun row row' => row.minute < row'.minute := by
  unfold buildRows
  rw [List.pairwise_filterMap]
  refine (SortedSet.pairwise_lt b.minutes).imp fun {m m'} hlt row hrow row' hrow' => ?_
  obtain ⟨-, -, -, rfl⟩ := lossRow?_eq_some.1 hrow
  obtain ⟨-, -, -, rfl⟩ := lossRow?_eq_some.1 hrow'
  exact hlt

/-! ### The totals -/

/-- The count of a row on one side. -/
def LossRow.on (row : LossRow) : Side → ℕ
  | .baseline => row.baseline
  | .replay => row.replay

theorem lossTotals_eq (rows : List LossRow) : lossTotals rows =
    ((rows.map fun row => row.on .replay).sum, (rows.map fun row => row.on .baseline).sum) := by
  suffices h : ∀ tot : ℕ × ℕ, rows.foldl (fun tot row => (tot.1 + row.replay, tot.2 + row.baseline)) tot =
      (tot.1 + (rows.map fun row => row.on .replay).sum, tot.2 + (rows.map fun row => row.on .baseline).sum) by
    refine (h (0, 0)).trans ?_
    rw [Nat.zero_add, Nat.zero_add]
  induction rows with
  | nil => intro tot; rfl
  | cons row rows ih =>
    intro tot
    rw [List.foldl_cons, ih, List.map_cons, List.map_cons, List.sum_cons, List.sum_cons, ← Nat.add_assoc,
      ← Nat.add_assoc]
    rfl

theorem sum_filterMap {α β : Type*} (f : α → Option β) (g : β → ℕ) (l : List α) :
    ((l.filterMap f).map g).sum = (l.map fun a => ((f a).map g).getD 0).sum := by
  induction l with
  | nil => rfl
  | cons a l ih =>
    rw [List.map_cons, List.sum_cons, ← ih]
    cases h : f a with
    | none => rw [List.filterMap_cons_none h]; exact (Nat.zero_add _).symm
    | some b => rw [List.filterMap_cons_some h]; rfl

/-- A minute that has no row has no ids in the window. -/
theorem on_lossRow? (b : Buckets) (since till m : ℤ) (side : Side) :
    ((lossRow? b since till m).map fun row => row.on side).getD 0 =
      if since ≤ m ∧ m ≤ till then ((b.on side).at m).card else 0 := by
  cases h : lossRow? b since till m with
  | some row =>
    obtain ⟨hsince, htill, -, rfl⟩ := lossRow?_eq_some.1 h
    rw [if_pos ⟨hsince, htill⟩]
    cases side <;> rfl
  | none =>
    split
    · next hin =>
      -- otherwise there were a row
      have hno : ¬ ((b.baseline.at m).Nonempty ∨ (b.replay.at m).Nonempty) := by
        intro hne
        rw [lossRow?_eq_some.2 ⟨hin.1, hin.2, hne, rfl⟩] at h
        cases h
      rw [not_or, Finset.not_nonempty_iff_eq_empty, Finset.not_nonempty_iff_eq_empty] at hno
      cases side with
      | baseline => exact (congrArg Finset.card hno.1).symm
      | replay => exact (congrArg Finset.card hno.2).symm
    · rfl

theorem sum_buildRows (b : Buckets) (since till : ℤ) (side : Side) :
    ((buildRows b since till).map fun row => row.on side).sum =
      ∑ m ∈ b.minutes.toFinset with since ≤ m ∧ m ≤ till, ((b.on side).at m).card := by
  unfold buildRows
  rw [sum_filterMap, SortedSet.sum_map, Finset.sum_filter]
  simp only [on_lossRow?]

theorem card_entriesIn {lines : List String} {b : Buckets} (h : b.Holds L args lines) (side : Side)
    (since till : ℤ) : (entriesIn L args lines side since (till + 60)).card =
      ∑ m ∈ b.minutes.toFinset with since ≤ m ∧ m ≤ till, ((b.on side).at m).card := by
  have hmaps : ((entriesIn L args lines side since (till + 60) : Finset (ℤ × String)) : Set (ℤ × String)).MapsTo
      Prod.fst (b.minutes.toFinset.filter fun m => since ≤ m ∧ m ≤ till : Finset ℤ) := by
    rintro ⟨m, x⟩ hmem
    obtain ⟨hstands, hsince, htill⟩ := mem_entriesIn.1 (Finset.mem_coe.1 hmem)
    exact Finset.mem_coe.2 (Finset.mem_filter.2
      ⟨List.mem_toFinset.2 (h.mem_minutes.2 ⟨side, x, mem_idsAt.2 hstands⟩), hsince, by omega⟩)
  rw [Finset.card_eq_sum_card_fiberwise hmaps]
  refine Finset.sum_congr rfl fun m hm => ?_
  obtain ⟨-, hsince, htill⟩ := Finset.mem_filter.1 hm
  -- the entries of a minute are its ids
  have hfiber : (entriesIn L args lines side since (till + 60)).filter (fun e => e.1 = m) =
      (idsAt L args lines side m).image fun x => (m, x) := by
    ext ⟨m', x⟩
    rw [Finset.mem_filter, mem_entriesIn, Finset.mem_image]
    constructor
    · rintro ⟨⟨hstands, -, -⟩, rfl⟩
      exact ⟨x, mem_idsAt.2 hstands, rfl⟩
    · rintro ⟨x', hx', heq⟩
      cases heq
      exact ⟨⟨mem_idsAt.1 hx', hsince, by omega⟩, rfl⟩
  rw [hfiber, Finset.card_image_of_injective _ fun x x' hx => congrArg Prod.snd hx, h.at_eq]

/-! ### The table -/

/-- A positive difference is no more than what was not replayed. -/
theorem card_diff (B R : Finset String) : (B.card - R.card : ℤ) ≤ (B \ R).card ∧
    ((B.card - R.card : ℤ) = (B \ R).card ↔ R ⊆ B) := by
  have hsplit : (B \ R).card + (R ∩ B).card = B.card := by
    rw [Finset.inter_comm]
    exact Finset.card_sdiff_add_card_inter B R
  have hle : (R ∩ B).card ≤ R.card := Finset.card_le_card Finset.inter_subset_left
  refine ⟨by omega, ?_⟩
  rw [← Finset.inter_eq_left]
  constructor
  · intro heq
    exact Finset.eq_of_subset_of_card_le Finset.inter_subset_left (by omega)
  · intro heq
    rw [heq] at hsplit
    omega

theorem windowBounds_eq {b : Buckets} {since till : ℤ}
    (h : windowBounds L args b = .ok (some (since, till))) :
    (given args.till = none → latestMinute b = some till) ∧
      (given args.since = none → since = till - 60 * (args.minutes - 1)) := by
  unfold windowBounds at h
  obtain ⟨till?, htill, h⟩ := bind_eq_ok.1 h
  cases till? with
  | none => cases h
  | some t =>
    obtain ⟨s, hsince, h⟩ := bind_eq_ok.1 h
    cases h
    constructor
    · intro hnone
      unfold untilBound at htill
      rw [hnone] at htill
      exact Except.ok.inj htill
    · intro hnone
      unfold sinceBound inYears at hsince
      rw [hnone] at hsince
      dsimp only at hsince
      split at hsince
      · exact (Except.ok.inj hsince).symm
      · cases hsince

theorem lossReportOf_table {b : Buckets} {since stop : ℤ} {rows : List LossRow} {totals : ℕ × ℕ × ℤ}
    {histogram : List (ℤ × ℤ)} (h : lossReportOf L args b = .ok (.table since stop rows totals histogram)) :
    ∃ till, windowBounds L args b = .ok (some (since, till)) ∧ stop = till + 60 ∧
      rows = buildRows b since till ∧
      totals = ((lossTotals rows).1, (lossTotals rows).2,
        ((lossTotals rows).2 : ℤ) - (lossTotals rows).1) := by
  unfold lossReportOf at h
  obtain ⟨bounds, hbounds, h⟩ := bind_eq_ok.1 h
  cases bounds with
  | none => cases h
  | some bounds =>
    obtain ⟨since', till⟩ := bounds
    obtain ⟨stop', hstop, h⟩ := bind_eq_ok.1 h
    have hstop' : stop' = till + 60 := by
      unfold inYears at hstop
      split at hstop
      · exact (Except.ok.inj hstop).symm
      · cases hstop
    by_cases hrows : buildRows b since' till = []
    · rw [if_pos hrows] at h
      cases h
    · rw [if_neg hrows] at h
      cases h
      exact ⟨till, hbounds, hstop', rfl, rfl⟩

theorem latestMinute_replay {b : Buckets} {till m : ℤ} (h : latestMinute b = some till)
    (hm : m ∈ b.replay.keys) : m ≤ till := by
  unfold latestMinute at h
  rw [if_neg (List.ne_nil_of_mem hm), List.max?_eq_some_iff] at h
  exact h.2 m hm

/-- The totals are those of the entries in the window, and the differences add up. -/
theorem lossTotals_entries {lines : List String} {b : Buckets} (h : b.Holds L args lines) (since till : ℤ) :
    lossTotals (buildRows b since till) = ((entriesIn L args lines .replay since (till + 60)).card,
      (entriesIn L args lines .baseline since (till + 60)).card) := by
  rw [lossTotals_eq, sum_buildRows, sum_buildRows, card_entriesIn h, card_entriesIn h]

theorem sum_diff (rows : List LossRow) (h : ∀ row ∈ rows, row.diff = row.baseline - row.replay) :
    (rows.map LossRow.diff).sum = ((lossTotals rows).2 : ℤ) - (lossTotals rows).1 := by
  rw [lossTotals_eq]
  induction rows with
  | nil => rfl
  | cons row rows ih =>
    have hrow := h row List.mem_cons_self
    have hrest := ih fun r hr => h r (List.mem_cons_of_mem _ hr)
    simp only [List.map_cons, List.sum_cons, Nat.cast_add, LossRow.on] at hrest ⊢
    rw [hrow, hrest]
    ring

/-- **What the table says**, of any lines. It has one row for each minute of the window in which
something was received or replayed, in the order of the minutes; the counts of a row are those of the
distinct ids of its minute, and the last line counts the distinct ids of each minute of the window. A
difference is at most the number of ids that were not replayed, and is that number iff nothing was
replayed that was not received. By default the window ends with the last replayed minute. -/
theorem lossReport_table {lines : List String} {since stop : ℤ} {rows : List LossRow} {totals : ℕ × ℕ × ℤ}
    {histogram : List (ℤ × ℤ)}
    (h : lossReportLines L args lines = .ok (.table since stop rows totals histogram)) :
    rows.Pairwise (fun row row' => row.minute < row'.minute) ∧
      (∀ m, (∃ row ∈ rows, row.minute = m) ↔
        since ≤ m ∧ m + 60 ≤ stop ∧ ∃ side, (idsAt L args lines side m).Nonempty) ∧
      (∀ row ∈ rows,
        row.baseline = (idsAt L args lines .baseline row.minute).card ∧
        row.replay = (idsAt L args lines .replay row.minute).card ∧
        row.diff ≤ (idsAt L args lines .baseline row.minute \ idsAt L args lines .replay row.minute).card ∧
        (row.diff = (idsAt L args lines .baseline row.minute \ idsAt L args lines .replay row.minute).card ↔
          idsAt L args lines .replay row.minute ⊆ idsAt L args lines .baseline row.minute)) ∧
      totals = ((entriesIn L args lines .replay since stop).card,
        (entriesIn L args lines .baseline since stop).card, (rows.map LossRow.diff).sum) ∧
      (given args.till = none → ∀ m, (idsAt L args lines .replay m).Nonempty → m + 60 ≤ stop) ∧
      (given args.since = none → since = stop - 60 * args.minutes) := by
  have hclean : Clean L args lines := by
    by_contra hno
    unfold lossReportLines at h
    rw [scan_unclean hno] at h
    cases h
  obtain ⟨b, hb, hholds⟩ := scan_clean hclean
  unfold lossReportLines at h
  rw [hb] at h
  obtain ⟨till, hbounds, rfl, rfl, rfl⟩ := lossReportOf_table h
  obtain ⟨htill, hsince⟩ := windowBounds_eq hbounds
  have hrow : ∀ row ∈ buildRows b since till, ∃ m, m ∈ b.minutes ∧ since ≤ m ∧ m ≤ till ∧
      row = ⟨m, (idsAt L args lines .replay m).card, (idsAt L args lines .baseline m).card,
        (idsAt L args lines .baseline m).card - (idsAt L args lines .replay m).card⟩ := by
    intro row hmem
    obtain ⟨m, hm, hrow⟩ := mem_buildRows.1 hmem
    obtain ⟨h1, h2, -, rfl⟩ := lossRow?_eq_some.1 hrow
    have hbaseline : b.baseline.at m = idsAt L args lines .baseline m := hholds.at_eq .baseline m
    have hreplay : b.replay.at m = idsAt L args lines .replay m := hholds.at_eq .replay m
    exact ⟨m, hm, h1, h2, by rw [hbaseline, hreplay]⟩
  refine ⟨buildRows_pairwise b since till, fun m => ⟨?_, ?_⟩, fun row hmem => ?_, ?_, ?_, ?_⟩
  · rintro ⟨row, hmem, rfl⟩
    obtain ⟨m, hm, h1, h2, rfl⟩ := hrow row hmem
    exact ⟨h1, add_le_add_left h2 60, hholds.mem_minutes.1 hm⟩
  · rintro ⟨h1, h2, hside⟩
    have hm : m ∈ b.minutes := hholds.mem_minutes.2 hside
    have hne : (b.baseline.at m).Nonempty ∨ (b.replay.at m).Nonempty := by
      obtain ⟨side, hside⟩ := hside
      rw [← hholds.at_eq] at hside
      cases side with
      | baseline => exact .inl hside
      | replay => exact .inr hside
    exact ⟨_, mem_buildRows.2 ⟨m, hm, lossRow?_eq_some.2 ⟨h1, by omega, hne, rfl⟩⟩, rfl⟩
  · obtain ⟨m, -, -, -, rfl⟩ := hrow row hmem
    obtain ⟨hle, hiff⟩ := card_diff (idsAt L args lines .baseline m) (idsAt L args lines .replay m)
    exact ⟨rfl, rfl, hle, hiff⟩
  · have hsum := sum_diff (buildRows b since till) fun row hmem => by
      obtain ⟨m, -, -, -, rfl⟩ := hrow row hmem
      rfl
    rw [hsum, lossTotals_entries hholds]
  · intro hnone m hm
    have hkey : m ∈ b.replay.keys := by
      rw [← hholds.at_eq] at hm
      exact (hholds.keys .replay m).2 hm
    have := latestMinute_replay (htill hnone) hkey
    omega
  · intro hnone
    have := hsince hnone
    omega

/-- The minute after the last replay is not reported. -/
theorem lossReport_table_sample : (entriesIn sampleTables.lib lossArgs
    (iterLogLines lossContent lossArgs.logFiles) .baseline (newYear - 3540) (newYear + 60)).card = 2 := by
  have h := (@lossReport_table sampleTables.lib lossArgs (iterLogLines lossContent lossArgs.logFiles)
    (newYear - 3540) (newYear + 60) [⟨newYear, 1, 2, 1⟩] (1, 2, 1) [(newYear, 1)] (by decide +kernel)).2.2.2.1
  exact (Prod.mk.inj (Prod.mk.inj h).2).1.symm

end Scgrep
