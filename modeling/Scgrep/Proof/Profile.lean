import Mathlib.Algebra.Order.BigOperators.Group.Multiset
import Mathlib.Algebra.BigOperators.Group.Finset.Basic
import Mathlib.Algebra.Order.Floor.Semiring
import Scgrep.Proof.ProfileLines

/-!
# The arrival profile and midnight

The script reduces instants to seconds of one day, and drops the lines of other days.

* `scan_arrivals`, `mem_scan_starts`: what `scan` returns of a file.
* `got_perm`: **`profile` gets the arrivals of a cycle that are of its date.**
* `profile_spec`: what it prints, from these; the buckets hold each of them once.
* `profile_attributes_iff`: **a profile is about the arrivals of its cycle iff they are
  all of its date.**
* `profileMain_spec`: which profiles `main` prints.
-/

namespace Scgrep

open Calendar Pattern

/-- The asynchronous replay lines of the topic. -/
def asyncLines (topic : String) (file : List FileLine) : List LogInstant :=
  file.filterMap (FileLine.arrival? topic)

/-- Those in the `deadline` seconds from the beginning of a cycle, by their instants. -/
def cycleArrivals (topic : String) (file : List FileLine) (t : LogInstant) (deadline : ℚ) : List LogInstant :=
  (asyncLines topic file).filter fun a =>
    decide (t.instant ≤ a.instant ∧ a.instant ≤ t.instant + deadline)

/-- The cycle that `scan` reads in a line. -/
theorem startOfLine_text (date : String) (x : FileLine) : startOfLine date x.text =
    (x.begins?.filter fun c => decide (c.1.dateText = date)).map fun c => ⟨c.1.ofDay, c.2.1, c.2.2⟩ := by
  cases x with
  | stamped t rest =>
    have hstamp : ∀ m, matchBegin (FileLine.stamped t rest).text = some m → _ := fun _ => stamp_of_begin
    unfold startOfLine
    rw [FileLine.begins?_stamped]
    generalize matchBegin (FileLine.stamped t rest).text = b at hstamp
    rcases b with _ | ⟨stamp, start, stop⟩
    · rfl
    · obtain rfl : stamp = _ := hstamp _ rfl
      by_cases hdate : t.dateText = date
      · simp [hdate]
      · simp [hdate]
  | other line hbegin hasync =>
    unfold startOfLine FileLine.begins? FileLine.text
    rw [hbegin]
    rfl

/-- What `scan` does with a line that begins no cycle of the date. -/
def readArrival (date topic line : String) : Option ℚ :=
  if (startOfLine date line).isSome then none else arrivalOfLine date topic line

/-- The arrival that `scan` reads in a line. -/
theorem readArrival_text (date topic : String) (x : FileLine) : readArrival date topic x.text =
    ((x.arrival? topic).filter fun t => decide (t.dateText = date)).map LogInstant.ofDay := by
  cases x with
  | stamped t rest =>
    have hstamp : ∀ m, matchAsync (FileLine.stamped t rest).text = some m → _ := fun _ => stamp_of_async
    have hstart := startOfLine_text date (FileLine.stamped t rest)
    unfold readArrival arrivalOfLine
    rw [hstart, FileLine.begins?_stamped, FileLine.arrival?_stamped]
    generalize matchBegin (FileLine.stamped t rest).text = b
    generalize matchAsync (FileLine.stamped t rest).text = a at hstamp
    rcases a with _ | ⟨stamp, lineTopic⟩
    · simp
    · obtain rfl : stamp = _ := hstamp _ rfl
      by_cases hdate : t.dateText = date
      · by_cases htopic : Text.within topic lineTopic = true
        · cases b <;> simp [hdate, htopic]
        · cases b <;> simp [hdate, htopic]
      · -- a line that begins a cycle of another date is not of this one either
        split <;> simp [hdate]
  | other line hbegin hasync =>
    unfold readArrival arrivalOfLine FileLine.arrival? FileLine.text startOfLine
    rw [hbegin, hasync]
    rfl

/-- The loop of `scan`. -/
theorem scan_loop (date topic : String) (lines : List String) : ∀ s : ProfileScan,
    (lines.foldl (ProfileScan.next date topic) s).starts = s.starts ++ lines.filterMap (startOfLine date) ∧
      (lines.foldl (ProfileScan.next date topic) s).arrivals =
        s.arrivals ++ lines.filterMap (readArrival date topic) := by
  induction lines with
  | nil =>
    intro s
    exact ⟨(List.append_nil _).symm, (List.append_nil _).symm⟩
  | cons line lines ih =>
    intro s
    have hnext : (s.next date topic line).starts = s.starts ++ (startOfLine date line).toList ∧
        (s.next date topic line).arrivals = s.arrivals ++ (readArrival date topic line).toList := by
      unfold ProfileScan.next readArrival
      cases startOfLine date line with
      | some start => exact ⟨rfl, (List.append_nil _).symm⟩
      | none =>
        cases arrivalOfLine date topic line with
        | some a => exact ⟨(List.append_nil _).symm, rfl⟩
        | none =>
          cases resultOfLine date topic line with
          | some r => exact ⟨(List.append_nil _).symm, (List.append_nil _).symm⟩
          | none => exact ⟨(List.append_nil _).symm, (List.append_nil _).symm⟩
    obtain ⟨h1, h2⟩ := ih (s.next date topic line)
    rw [List.foldl_cons, h1, h2, hnext.1, hnext.2, List.append_assoc, List.append_assoc]
    refine ⟨congrArg _ ?_, congrArg _ ?_⟩
    · cases h : startOfLine date line with
      | none => rw [List.filterMap_cons_none h]; rfl
      | some start => rw [List.filterMap_cons_some h]; rfl
    · cases h : readArrival date topic line with
      | none => rw [List.filterMap_cons_none h]; rfl
      | some a => rw [List.filterMap_cons_some h]; rfl

variable {topic : String} {file : List FileLine} {t : LogInstant} {deadline : ℚ}

/-- The arrivals that `scan` returns. -/
theorem scan_arrivals (date topic : String) (file : List FileLine) :
    (scanProfile date topic (file.map FileLine.text)).arrivals =
      (((asyncLines topic file).filter fun a => decide (a.dateText = date)).map
        LogInstant.ofDay).insertionSort (· ≤ ·) := by
  have hloop := (scan_loop date topic (file.map FileLine.text) ⟨[], [], []⟩).2
  unfold scanProfile
  dsimp only
  rw [hloop, List.nil_append, List.filterMap_map]
  congr 1
  unfold asyncLines
  rw [List.filter_filterMap, List.map_filterMap]
  congr 1
  funext x
  exact readArrival_text date topic x

/-- The cycles that `scan` returns. -/
theorem mem_scan_starts {date : String} {c : CycleStart} :
    c ∈ (scanProfile date topic (file.map FileLine.text)).starts ↔ ∃ x ∈ file, ∃ w, x.begins? = some w ∧
      w.1.dateText = date ∧ c = ⟨w.1.ofDay, w.2.1, w.2.2⟩ := by
  have hloop := (scan_loop date topic (file.map FileLine.text) ⟨[], [], []⟩).1
  unfold scanProfile
  dsimp only
  rw [hloop, List.nil_append, List.mem_insertionSort, List.filterMap_map, List.mem_filterMap]
  refine exists_congr fun x => and_congr_right fun _ => ?_
  change startOfLine date x.text = some c ↔ _
  rw [startOfLine_text, Option.map_eq_some_iff]
  simp only [Option.filter_eq_some_iff, decide_eq_true_eq, and_assoc, eq_comm (a := c)]

/-- **The arrivals of a cycle** that `profile` gets are those of its date. -/
theorem got_perm (topic : String) (file : List FileLine) (t : LogInstant) (deadline : ℚ) :
    (gotArrivals t.ofDay deadline (scanProfile t.dateText topic (file.map FileLine.text)).arrivals).Perm
      (((cycleArrivals topic file t deadline).filter fun a => decide (a.dateText = t.dateText)).map
        LogInstant.ofDay) := by
  have hsame : ∀ a : LogInstant, a.dateText = t.dateText →
      ((t.ofDay ≤ a.ofDay ∧ a.ofDay ≤ t.ofDay + deadline) ↔
        t.instant ≤ a.instant ∧ a.instant ≤ t.instant + deadline) := by
    intro a h
    have hsub := sub_of_date (dateText_injective h)
    constructor
    · rintro ⟨h1, h2⟩
      constructor <;> linarith
    · rintro ⟨h1, h2⟩
      constructor <;> linarith
  rw [scan_arrivals]
  unfold gotArrivals
  -- sorting does not matter here, and on one date the two filters are the same
  refine ((List.perm_insertionSort _ _).filter _).trans ?_
  rw [List.filter_map]
  refine List.Perm.map _ (List.Perm.of_eq ?_)
  unfold cycleArrivals
  rw [List.filter_filter, List.filter_filter]
  refine List.filter_congr fun a _ => ?_
  rw [Bool.eq_iff_iff, Bool.and_eq_true, Bool.and_eq_true]
  simp only [Function.comp_apply, decide_eq_true_eq]
  constructor
  · rintro ⟨hwindow, hdate⟩
    exact ⟨hdate, (hsame a hdate).1 hwindow⟩
  · rintro ⟨hdate, hwindow⟩
    exact ⟨(hsame a hdate).2 hwindow, hdate⟩

/-! ## The profile -/

/-- The buckets hold every arrival once. -/
theorem hist_sum {bins : List ℕ} {buckets : ℕ} (h : ∀ b ∈ bins, b < buckets) :
    ((List.range buckets).map fun b => bins.count b).sum = bins.length := by
  rw [← List.sum_toFinset _ List.nodup_range]
  have hcard := Multiset.sum_count_eq_card (s := (List.range buckets).toFinset) (m := (bins : Multiset ℕ))
    fun b hb => List.mem_toFinset.2 (List.mem_range.2 (h b hb))
  simpa only [Multiset.coe_count, Multiset.coe_card] using hcard

theorem bucketOf_lt (start width : ℚ) {buckets : ℕ} (hb : 0 < buckets) (a : ℚ) :
    bucketOf start width buckets a < buckets := by
  have h := Nat.min_le_right ⌊(a - start) / width⌋₊ (buckets - 1)
  unfold bucketOf
  omega

/-- The last of the arrivals is the greatest. -/
theorem got_last {c deadline : ℚ} {arrivals : List ℚ} {last : ℚ}
    (h : (gotArrivals c deadline (arrivals.insertionSort (· ≤ ·))).getLast? = some last) :
    IsGreatest {a | a ∈ gotArrivals c deadline (arrivals.insertionSort (· ≤ ·))} last := by
  have hsorted : (gotArrivals c deadline (arrivals.insertionSort (· ≤ ·))).Pairwise (· ≤ ·) :=
    (List.pairwise_insertionSort (· ≤ ·) arrivals).filter _
  obtain ⟨before, heq⟩ := List.getLast?_eq_some_iff.1 h
  rw [heq] at hsorted ⊢
  obtain ⟨-, -, hlast⟩ := List.pairwise_append.1 hsorted
  refine ⟨List.mem_append_right _ List.mem_cons_self, ?_⟩
  intro a ha
  rcases List.mem_append.1 ha with ha | ha
  · exact hlast a ha last List.mem_cons_self
  · exact (List.mem_singleton.1 ha).le

theorem profileDeadline_pos {testInterval : ℚ} (h : 0 < testInterval) : 0 < profileDeadline testInterval := by
  unfold profileDeadline
  linarith

/-- What `profile` prints, from the arrivals it gets. -/
theorem profile_spec (c : CycleStart) (arrivals : List ℚ) (results : List MqttResult) {deadline : ℚ}
    (hd : 0 < deadline) {buckets : ℕ} (hb : 0 < buckets) :
    ∃ printed, profile c arrivals results deadline buckets = some printed ∧
      (printed = none → gotArrivals c.secs deadline arrivals = []) ∧
      ∀ p, printed = some p → p.arrivals = (gotArrivals c.secs deadline arrivals).length ∧
        p.hist.sum = (gotArrivals c.secs deadline arrivals).length ∧
        ∃ last, (gotArrivals c.secs deadline arrivals).getLast? = some last ∧
          (p.truncated = true ↔ deadline - (last - c.secs) < deadline / buckets) := by
  unfold profile
  dsimp only
  generalize gotArrivals c.secs deadline arrivals = got
  cases got with
  | nil =>
    refine ⟨none, rfl, fun _ => rfl, ?_⟩
    intro p hp
    cases hp
  | cons first got =>
    have hwidth : ¬ (buckets = 0 ∨ deadline / buckets = 0) := by
      have h : 0 < deadline / (buckets : ℚ) := div_pos hd (Nat.cast_pos.2 hb)
      rw [not_or]
      exact ⟨by omega, h.ne'⟩
    obtain ⟨last, hlast⟩ : ∃ last, (first :: got).getLast? = some last :=
      ⟨_, List.getLast?_eq_getLast_of_ne_nil (List.cons_ne_nil first got)⟩
    rw [hlast, List.head?_cons]
    dsimp only
    rw [if_neg hwidth]
    -- `got` is not empty, so that a profile is printed
    refine ⟨_, rfl, fun h => absurd h (Option.some_ne_none _), ?_⟩
    intro p hp
    obtain rfl := Option.some.inj hp
    refine ⟨rfl, ?_, last, rfl, decide_eq_true_iff⟩
    dsimp only
    rw [hist_sum, List.length_map]
    intro b hmem
    obtain ⟨a, -, rfl⟩ := List.mem_map.1 hmem
    exact bucketOf_lt _ _ hb a

/-- **The profile of a cycle is about its arrivals**: what it counts, what its buckets hold and
whether it is called truncated. -/
structure Attributed (t : LogInstant) (deadline : ℚ) (buckets : ℕ) (arrived : List LogInstant)
    (got : List ℚ) (printed : Option ArrivalProfile) : Prop where
  counted : (got.map fun a => a - t.ofDay).Perm (arrived.map fun a => a.instant - t.instant)
  unprinted : printed = none → arrived = []
  arrivals : ∀ p, printed = some p → p.arrivals = arrived.length
  hist : ∀ p, printed = some p → p.hist.sum = arrived.length
  truncated : ∀ p, printed = some p → ∀ last, IsGreatest {a | ∃ b ∈ arrived, b.instant = a} last →
    (p.truncated = true ↔ t.instant + deadline - last < deadline / buckets)

/-- As many arrivals are counted as there are only when all are of the date. -/
theorem dates_of_counted {arrived : List LogInstant} {got : List ℚ}
    (hperm : got.Perm ((arrived.filter fun a => decide (a.dateText = t.dateText)).map LogInstant.ofDay))
    (hcounted : (got.map fun a => a - t.ofDay).Perm (arrived.map fun a => a.instant - t.instant)) :
    ∀ a ∈ arrived, a.stamp.date = t.stamp.date := by
  have hlength := hcounted.length_eq
  rw [List.length_map, List.length_map, hperm.length_eq, List.length_map,
    List.length_filter_eq_length_iff] at hlength
  intro a ha
  exact dateText_injective (of_decide_eq_true (hlength a ha))

section OneDate

variable {arrived : List LogInstant} (h : ∀ a ∈ arrived, a.stamp.date = t.stamp.date)

include h

theorem filter_dates : arrived.filter (fun a => decide (a.dateText = t.dateText)) = arrived := by
  refine List.filter_eq_self.2 fun a ha => decide_eq_true ?_
  unfold LogInstant.dateText
  rw [h a ha]

theorem offsets_of_dates {got : List ℚ} (hperm : got.Perm (arrived.map LogInstant.ofDay)) :
    (got.map fun a => a - t.ofDay).Perm (arrived.map fun a => a.instant - t.instant) := by
  refine (hperm.map _).trans (List.Perm.of_eq ?_)
  rw [List.map_map]
  exact List.map_congr_left fun a ha => (sub_of_date (h a ha)).symm

/-- The last arrival that is got is the last one there is. -/
theorem last_of_dates {got : List ℚ} (hperm : got.Perm (arrived.map LogInstant.ofDay)) {final last : ℚ}
    (hfinal : IsGreatest {a | a ∈ got} final) (hlast : IsGreatest {a | ∃ b ∈ arrived, b.instant = a} last) :
    last - t.instant = final - t.ofDay := by
  obtain ⟨⟨b, hb, rfl⟩, hle⟩ := hlast
  obtain ⟨hmem, hmax⟩ := hfinal
  obtain ⟨b', hb', rfl⟩ := List.mem_map.1 (hperm.mem_iff.1 hmem)
  have h1 : b.ofDay ≤ b'.ofDay := hmax (hperm.mem_iff.2 (List.mem_map_of_mem hb))
  have h2 : b'.instant ≤ b.instant := hle ⟨b', hb', rfl⟩
  have h3 := sub_of_date (h b hb)
  have h4 := sub_of_date (h b' hb')
  linarith

end OneDate

/-- **The profile is about the arrivals of a cycle iff they are all of its date.** -/
theorem profile_attributes_iff {x : FileLine} (hx : x ∈ file) {w : String × String}
    (hbegins : x.begins? = some (t, w)) (topic : String) {testInterval : ℚ} (hi : 0 < testInterval)
    {buckets : ℕ} (hb : 0 < buckets) :
    ∃ printed, (⟨t.ofDay, w.1, w.2⟩ : CycleStart) ∈
        (scanProfile t.dateText topic (file.map FileLine.text)).starts ∧
      profile ⟨t.ofDay, w.1, w.2⟩ (scanProfile t.dateText topic (file.map FileLine.text)).arrivals
        (scanProfile t.dateText topic (file.map FileLine.text)).results (profileDeadline testInterval)
        buckets = some printed ∧
      (Attributed t (profileDeadline testInterval) buckets
          (cycleArrivals topic file t (profileDeadline testInterval))
          (gotArrivals t.ofDay (profileDeadline testInterval)
            (scanProfile t.dateText topic (file.map FileLine.text)).arrivals) printed ↔
        ∀ a ∈ cycleArrivals topic file t (profileDeadline testInterval), a.stamp.date = t.stamp.date) := by
  have hperm := got_perm topic file t (profileDeadline testInterval)
  have hlast := fun last => @got_last t.ofDay (profileDeadline testInterval)
    (((asyncLines topic file).filter fun a => decide (a.dateText = t.dateText)).map LogInstant.ofDay) last
  rw [← scan_arrivals] at hlast
  obtain ⟨printed, hprofile, hnone, hsome⟩ := profile_spec ⟨t.ofDay, w.1, w.2⟩
    (scanProfile t.dateText topic (file.map FileLine.text)).arrivals
    (scanProfile t.dateText topic (file.map FileLine.text)).results (profileDeadline_pos hi) hb
  refine ⟨printed, mem_scan_starts.2 ⟨x, hx, _, hbegins, rfl, rfl⟩, hprofile, ?_⟩
  generalize gotArrivals t.ofDay (profileDeadline testInterval)
    (scanProfile t.dateText topic (file.map FileLine.text)).arrivals = got at *
  generalize cycleArrivals topic file t (profileDeadline testInterval) = arrived at *
  refine ⟨fun h => dates_of_counted hperm h.counted, ?_⟩
  intro h
  rw [filter_dates h] at hperm
  have hlength : got.length = arrived.length := by
    rw [hperm.length_eq, List.length_map]
  refine ⟨offsets_of_dates h hperm, ?_, fun p hp => (hsome p hp).1.trans hlength,
    fun p hp => (hsome p hp).2.1.trans hlength, ?_⟩
  · intro hp
    rw [hnone hp] at hlength
    exact List.length_eq_zero_iff.1 hlength.symm
  · intro p hp last hgreatest
    obtain ⟨-, -, final, hfinal, htruncated⟩ := hsome p hp
    have hsame := last_of_dates h hperm (hlast final hfinal) hgreatest
    rw [htruncated]
    dsimp only
    constructor
    · intro hlt
      linarith
    · intro hlt
      linarith

/-! ## What is printed -/

/-- A loop in which no turn raises. -/
theorem mapM_of_some {α β : Type*} {f : α → Option β} {g : α → β} {l : List α}
    (h : ∀ x ∈ l, f x = some (g x)) : l.mapM f = some (l.map g) := by
  induction l with
  | nil => rfl
  | cons x l ih =>
    have hrest := ih fun y hy => h y (List.mem_cons_of_mem _ hy)
    rw [List.mapM_cons, h x List.mem_cons_self, hrest]
    rfl

/-- **`main` prints profiles of cycles of the date** that have at least `min_messages` arrivals, and at
most as many as it is asked for. -/
theorem profileMain_spec (date topic : String) (cycles minMessages : ℕ) {testInterval : ℚ}
    (hi : 0 < testInterval) {buckets : ℕ} (hb : 0 < buckets) (lines : List String) :
    ∃ printed, profileMain date topic cycles minMessages testInterval buckets lines = some printed ∧
      printed.length ≤ cycles ∧ ∀ p ∈ printed, minMessages ≤ p.arrivals ∧
        ∃ c ∈ (scanProfile date topic lines).starts, profile c (scanProfile date topic lines).arrivals
          (scanProfile date topic lines).results (profileDeadline testInterval) buckets = some (some p) := by
  have hd := profileDeadline_pos hi
  unfold profileMain
  dsimp only
  generalize scanProfile date topic lines = s
  generalize hbusiest : ((s.starts.map fun c => ((gotArrivals c.secs (profileDeadline testInterval)
    s.arrivals).length, c)).filter fun x => decide (minMessages ≤ x.1)).insertionSort
      (fun x y => y.1 ≤ x.1) = busiest
  have hmem : ∀ x ∈ busiest, minMessages ≤ x.1 ∧ x.2 ∈ s.starts ∧
      x.1 = (gotArrivals x.2.secs (profileDeadline testInterval) s.arrivals).length := by
    intro x hx
    rw [← hbusiest, List.mem_insertionSort, List.mem_filter, decide_eq_true_eq] at hx
    obtain ⟨hmap, hmin⟩ := hx
    obtain ⟨c, hc, rfl⟩ := List.mem_map.1 hmap
    exact ⟨hmin, hc, rfl⟩
  have hprofile : ∀ x : ℕ × CycleStart, ∃ printed, profile x.2 s.arrivals s.results
      (profileDeadline testInterval) buckets = some printed ∧ ∀ p, printed = some p →
        p.arrivals = (gotArrivals x.2.secs (profileDeadline testInterval) s.arrivals).length := by
    intro x
    obtain ⟨printed, h, -, hp⟩ := profile_spec x.2 s.arrivals s.results hd hb
    exact ⟨printed, h, fun p h' => (hp p h').1⟩
  -- no turn raises, so that the loop prints what each turn prints
  choose printed hprinted harrivals using hprofile
  refine ⟨((busiest.take cycles).map printed).filterMap id, ?_, ?_, ?_⟩
  · rw [mapM_of_some fun x _ => hprinted x, Option.map_some]
  · refine (List.length_filterMap_le _ _).trans ?_
    rw [List.length_map, List.length_take]
    exact Nat.min_le_left _ _
  · intro p hp
    obtain ⟨o, ho, hsome⟩ := List.mem_filterMap.1 hp
    obtain ⟨x, hx, rfl⟩ := List.mem_map.1 ho
    obtain ⟨hmin, hstart, hcount⟩ := hmem x (List.mem_of_mem_take hx)
    have hx' : printed x = some p := hsome
    refine ⟨?_, x.2, hstart, ?_⟩
    · rw [harrivals x p hx', ← hcount]
      exact hmin
    · rw [hprinted, hx']

/-! ## Across midnight -/

/-- A cycle that begins half a minute before midnight. -/
def lateInstant : LogInstant := ⟨⟨⟨2024, 1, 1, by decide, by decide, by decide, by decide, by decide⟩, 23, 59, 30,
  by decide, by decide, by decide⟩, 0, by decide, by decide⟩

def lateLine : FileLine := .stamped lateInstant
  "INFO [scgrep.test_cycle] Test period begins: window 2024-01-01T23:49:00Z .. 2024-01-01T23:50:00Z\n"

/-- Ten seconds later. -/
def earlyInstant : LogInstant := ⟨⟨⟨2024, 1, 1, by decide, by decide, by decide, by decide, by decide⟩, 23, 59, 40,
  by decide, by decide, by decide⟩, 0, by decide, by decide⟩

/-- 55 seconds later, on the next day. -/
def nextDay : LogInstant := ⟨⟨⟨2024, 1, 2, by decide, by decide, by decide, by decide, by decide⟩, 0, 0, 25,
  by decide, by decide, by decide⟩, 0, by decide, by decide⟩

/-- The line of a replay message. -/
def replayLine (t : LogInstant) : FileLine :=
  asyncFileLine t "ca-eccc" "cache/a/wis2/ca-eccc-msc" "m" "2024-01-01T23:49:10Z"

example : (replayLine earlyInstant).text =
    "2024-01-01 23:59:40,000 INFO [scgrep.mqtt_client] Replay message (asynchronous): centre_id=ca-eccc " ++
      "topic=cache/a/wis2/ca-eccc-msc id=m time=2024-01-01T23:49:10Z\n" := by decide +kernel

theorem late_begins : lateLine.begins? =
    some (lateInstant, "2024-01-01T23:49:00Z", "2024-01-01T23:50:00Z") := by decide +kernel

theorem late_asyncLines (ts : List LogInstant) : asyncLines "cache" (lateLine :: ts.map replayLine) = ts := by
  have hreplay : FileLine.arrival? "cache" ∘ replayLine = some := by
    funext t
    have hplain : ∀ s ∈ ["ca-eccc", "cache/a/wis2/ca-eccc-msc", "m", "2024-01-01T23:49:10Z"],
        s ≠ "" ∧ s.toList.any Text.isSpace = false := by decide
    have hp : ∀ s ∈ ["ca-eccc", "cache/a/wis2/ca-eccc-msc", "m", "2024-01-01T23:49:10Z"], Plain s :=
      fun s hs => plain_of (hplain s hs).1 (hplain s hs).2
    rw [Function.comp_apply, replayLine, arrival_asyncLine (hp _ (by simp)) (hp _ (by simp))
      (hp _ (by simp)) (hp _ (by simp)), if_pos (by decide +kernel)]
  unfold asyncLines
  rw [List.filterMap_cons_none (FileLine.arrival?_of_begins late_begins "cache"), List.filterMap_map,
    hreplay, List.filterMap_some]

/-- The cycle of the line. -/
def lateCycle : CycleStart := ⟨lateInstant.ofDay, "2024-01-01T23:49:00Z", "2024-01-01T23:50:00Z"⟩

/-- What `scan` returns when messages come in at some instants. -/
def lateScan (ts : List LogInstant) : ProfileScan :=
  scanProfile lateInstant.dateText "cache" ((lateLine :: ts.map replayLine).map FileLine.text)

/-- The arrivals of the cycle. -/
def lateArrivals (ts : List LogInstant) : List LogInstant :=
  cycleArrivals "cache" (lateLine :: ts.map replayLine) lateInstant (profileDeadline 60)

theorem profile_attributes_sample : ∃ printed,
    profile lateCycle (lateScan [earlyInstant]).arrivals (lateScan [earlyInstant]).results
      (profileDeadline 60) 12 = some printed ∧
    Attributed lateInstant (profileDeadline 60) 12 (lateArrivals [earlyInstant])
      (gotArrivals lateInstant.ofDay (profileDeadline 60) (lateScan [earlyInstant]).arrivals) printed := by
  obtain ⟨printed, -, hprofile, hiff⟩ := profile_attributes_iff
    (show lateLine ∈ lateLine :: [earlyInstant].map replayLine from List.mem_cons_self) late_begins "cache"
    (show (0 : ℚ) < 60 by norm_num) (show 0 < 12 by norm_num)
  refine ⟨printed, hprofile, hiff.2 ?_⟩
  intro a ha
  have hmem := List.mem_of_mem_filter ha
  rw [late_asyncLines, List.mem_singleton] at hmem
  rw [hmem]
  rfl

/-- **The message after midnight is lost**: the cycle has two arrivals, the last 2 s before the cutoff;
its profile has one and says that it is not truncated. -/
theorem midnight_lost : ∃ p,
    profile lateCycle (lateScan [earlyInstant, nextDay]).arrivals (lateScan [earlyInstant, nextDay]).results
      (profileDeadline 60) 12 = some (some p) ∧
    (p.arrivals, p.truncated) = (1, false) ∧ (lateArrivals [earlyInstant, nextDay]).length = 2 ∧
    ¬ Attributed lateInstant (profileDeadline 60) 12 (lateArrivals [earlyInstant, nextDay])
      (gotArrivals lateInstant.ofDay (profileDeadline 60) (lateScan [earlyInstant, nextDay]).arrivals)
      (some p) := by
  have hscan : (lateScan [earlyInstant, nextDay]).arrivals = [86380] := by
    unfold lateScan
    rw [scan_arrivals, late_asyncLines]
    decide +kernel
  have htwo : (lateArrivals [earlyInstant, nextDay]).length = 2 := by
    unfold lateArrivals cycleArrivals
    rw [late_asyncLines]
    decide +kernel
  have hprofile : (profile lateCycle [86380] (lateScan [earlyInstant, nextDay]).results
      (profileDeadline 60) 12).map (fun printed => printed.map fun p => (p.arrivals, p.truncated)) =
        some (some (1, false)) := by
    decide +kernel
  rw [hscan]
  obtain ⟨printed, hprinted, hmap⟩ := Option.map_eq_some_iff.1 hprofile
  obtain ⟨p, rfl, hp⟩ := Option.map_eq_some_iff.1 hmap
  refine ⟨p, hprinted, hp, htwo, ?_⟩
  intro h
  have harrivals := h.arrivals p rfl
  have hone : p.arrivals = 1 := congrArg Prod.fst hp
  rw [htwo, hone] at harrivals
  exact absurd harrivals (by decide)

end Scgrep
