import Scgrep.Proof.ConfigSpec
import Scgrep.Proof.Summary
import Scgrep.Spec.SummaryReport

/-!
# The report in summary mode

Every record of the range is added to one row. `summaryReport_table`: **what the table
says** of the records: its rows in order, its last line, and its series.
-/

/-! ## Sums over a dictionary -/

namespace Dict

variable {κ ν : Type*} [DecidableEq κ]

/-- The sum of a number over the values. -/
def sumBy (d : Dict κ ν) (g : ν → ℤ) : ℤ := (d.items.map fun p => g p.2).sum

theorem sum_replace (g : ν → ℤ) (k : κ) (v : ν) (l : List (κ × ν)) (hl : (l.map Prod.fst).Nodup) {old : ν}
    (hk : (k, old) ∈ l) : ((l.map fun p => if p.1 = k then (k, v) else p).map fun p => g p.2).sum + g old =
      (l.map fun p => g p.2).sum + g v := by
  induction l with
  | nil => cases hk
  | cons p l ih =>
    rw [List.map_cons, List.nodup_cons] at hl
    simp only [List.map_cons, List.sum_cons]
    rcases List.mem_cons.1 hk with rfl | hmem
    · have hrest : (l.map fun p => if p.1 = k then (k, v) else p) = l := by
        refine (List.map_congr_left fun p hp => if_neg ?_).trans (List.map_id l)
        intro h
        exact hl.1 (List.mem_map.2 ⟨p, hp, h⟩)
      rw [if_pos rfl, hrest]
      ring
    · have hne : p.1 ≠ k := by
        intro h
        exact hl.1 (List.mem_map.2 ⟨_, hmem, h.symm⟩)
      have := ih hl.2 hmem
      rw [if_neg hne]
      linarith

/-- **Setting a key** changes the sum by what changes there. -/
theorem sumBy_set (d : Dict κ ν) (k : κ) (v : ν) (g : ν → ℤ) :
    (d.set k v).sumBy g = d.sumBy g + g v - ((d.get? k).map g).getD 0 := by
  unfold sumBy
  cases h : d.get? k with
  | none =>
    rw [items_set_new h, List.map_append, List.sum_append, List.map_singleton, List.sum_singleton,
      Option.map_none, Option.getD_none, sub_zero]
  | some old =>
    have hmem := get?_eq_some.1 h
    have hset : (d.set k v).items = d.items.map fun p => if p.1 = k then (k, v) else p := by
      unfold set
      rw [dif_pos (List.mem_map_of_mem hmem)]
    have := sum_replace g k v d.items d.nodup hmem
    rw [hset, Option.map_some, Option.getD_some]
    linarith

end Dict

namespace Scgrep

variable {L : Lib} {args : ReportArgs}

/-! ## The rows and the totals -/

/-- A column of the table. -/
inductive Column where
  | baseline
  | http
  | mqtt

def SummaryRecord.column (r : SummaryRecord) : Column → ℤ
  | .baseline => r.baseline
  | .http => r.http
  | .mqtt => r.mqtt

/-- The counts of a row. -/
def SummaryRow.counts (row : SummaryRow) : SummaryRecord := ⟨row.baseline, row.http, row.mqtt⟩

/-- The sum of a column over some records. -/
def columnSum (c : Column) (items : List SummaryItem) : ℤ := (items.map fun item => item.2.column c).sum

theorem column_addTo (r totals : SummaryRecord) (c : Column) :
    (r.addTo totals).column c = totals.column c + r.column c := by
  cases c <;> rfl

theorem column_zero (c : Column) : (⟨0, 0, 0⟩ : SummaryRecord).column c = 0 := by
  cases c <;> rfl

theorem totalsOf_column (c : Column) (items : List SummaryItem) {totals : SummaryRecord}
    (h : totalsOf items = some totals) : totals.column c = columnSum c items := by
  have hsum : ∀ (l : List SummaryItem) (o : Option SummaryRecord),
      ((l.foldl (fun o item => some (item.2.addTo (o.getD ⟨0, 0, 0⟩))) o).getD ⟨0, 0, 0⟩).column c =
        (o.getD ⟨0, 0, 0⟩).column c + columnSum c l := by
    intro l
    induction l with
    | nil => intro o; exact (add_zero _).symm
    | cons item l ih =>
      intro o
      rw [List.foldl_cons, ih, Option.getD_some, column_addTo, add_assoc]
      rfl
  have := hsum items none
  unfold totalsOf at h
  rw [h, Option.getD_some, Option.getD_none, column_zero, zero_add] at this
  exact this

/-- All records of the range are added up somewhere. -/
theorem sumBy_aggregate (records : Dict SummaryKey SummaryRecord) (since till : ℚ) (c : Column) :
    (aggregateRecords records since till).sumBy (fun r => r.column c) =
      columnSum c (recordsIn records since till) := by
  unfold aggregateRecords recordsIn
  suffices h : ∀ (l : List SummaryItem) (agg : Dict (ℚ × ℚ) SummaryRecord),
      (l.foldl (fun agg item => if item.1.1.1 < since ∨ till < item.1.1.1 then agg
        else agg.set item.1.1 (item.2.addTo ((agg.get? item.1.1).getD ⟨0, 0, 0⟩))) agg).sumBy
          (fun r => r.column c) = agg.sumBy (fun r => r.column c) +
            columnSum c (l.filter fun item => since ≤ item.1.1.1 ∧ item.1.1.1 ≤ till) by
    exact (h records.items Dict.empty).trans (zero_add _)
  intro l
  induction l with
  | nil => intro agg; exact (add_zero _).symm
  | cons item l ih =>
    intro agg
    rw [List.foldl_cons, ih]
    by_cases hout : item.1.1.1 < since ∨ till < item.1.1.1
    · have hno : ¬ (since ≤ item.1.1.1 ∧ item.1.1.1 ≤ till) := by
        rintro ⟨h1, h2⟩
        rcases hout with h | h
        · exact absurd h1 (not_le.2 h)
        · exact absurd h2 (not_le.2 h)
      rw [if_pos hout, List.filter_cons, if_neg (by rw [decide_eq_false hno]; exact Bool.false_ne_true)]
    · have hin : since ≤ item.1.1.1 ∧ item.1.1.1 ≤ till := by
        rw [not_or, not_lt, not_lt] at hout
        exact hout
      rw [if_neg hout, List.filter_cons, if_pos (decide_eq_true hin), Dict.sumBy_set, column_addTo]
      have hold : (((agg.get? item.1.1).getD ⟨0, 0, 0⟩ : SummaryRecord)).column c =
          ((agg.get? item.1.1).map fun r => r.column c).getD 0 := by
        cases agg.get? item.1.1 with
        | none => exact column_zero c
        | some r => rfl
      rw [hold]
      unfold columnSum
      rw [List.map_cons, List.sum_cons]
      ring

theorem summaryTotals_column (c : Column) (rows : List SummaryRow) :
    (summaryTotals rows).column c = (rows.map fun row => row.counts.column c).sum := by
  have hfold : ∀ (l : List SummaryRow) (tot : SummaryRecord),
      (l.foldl (fun tot row => (⟨tot.baseline + row.baseline, tot.http + row.http, tot.mqtt + row.mqtt⟩ :
        SummaryRecord)) tot).column c = tot.column c + (l.map fun row => row.counts.column c).sum := by
    intro l
    induction l with
    | nil => intro tot; exact (add_zero _).symm
    | cons row l ih =>
      intro tot
      rw [List.foldl_cons, ih, List.map_cons, List.sum_cons, ← add_assoc]
      cases c <;> rfl
  exact (hfold rows ⟨0, 0, 0⟩).trans (by rw [column_zero, zero_add])

/-- The last line is about all records of the range: what has no row is 0. -/
theorem summaryTotals_rows (records : Dict SummaryKey SummaryRecord) (since till : ℚ) (c : Column) :
    (summaryTotals (buildSummaryRows records since till)).column c =
      columnSum c (recordsIn records since till) := by
  rw [summaryTotals_column, ← sumBy_aggregate]
  unfold buildSummaryRows Dict.sumBy
  rw [((List.perm_insertionSort (fun a b : SummaryRow => a.le b) _).map _).sum_eq]
  induction (aggregateRecords records since till).items with
  | nil => rfl
  | cons item items ih =>
    rw [List.map_cons, List.sum_cons, ← ih]
    by_cases hzero : item.2.baseline = 0 ∧ item.2.http = 0 ∧ item.2.mqtt = 0
    · have hcol : item.2.column c = 0 := by
        cases c with
        | baseline => exact hzero.1
        | http => exact hzero.2.1
        | mqtt => exact hzero.2.2
      rw [List.filterMap_cons, if_pos hzero]
      dsimp only
      rw [hcol, zero_add]
    · rw [List.filterMap_cons, if_neg hzero]
      rfl

/-! ## The table -/

/-- A row is the sums over its window. -/
theorem row_columns {records : Dict SummaryKey SummaryRecord} {since till : ℚ} {row : SummaryRow}
    (h : row ∈ buildSummaryRows records since till) (c : Column) :
    row.counts.column c = columnSum c (itemsOf records since till (row.start, row.stop)) :=
  totalsOf_column c _ (mem_rows_iff.1 h).1

/-- A window has a row iff one of its sums is not 0. -/
theorem exists_row_iff {records : Dict SummaryKey SummaryRecord} {since till : ℚ} {w : ℚ × ℚ} :
    (∃ row ∈ buildSummaryRows records since till, (row.start, row.stop) = w) ↔
      ∃ c, columnSum c (itemsOf records since till w) ≠ 0 := by
  constructor
  · rintro ⟨row, hrow, rfl⟩
    have hzero := (mem_rows_iff.1 hrow).2
    by_contra hno
    rw [not_exists] at hno
    have hcolumn : ∀ c, row.counts.column c = 0 := by
      intro c
      rw [row_columns hrow]
      exact not_not.1 (hno c)
    exact hzero ⟨hcolumn .baseline, hcolumn .http, hcolumn .mqtt⟩
  · rintro ⟨c, hc⟩
    cases htotals : totalsOf (itemsOf records since till w) with
    | none =>
      rw [(totals_sum _).1.1 htotals] at hc
      exact absurd rfl hc
    | some totals =>
      refine ⟨⟨w.1, w.2, totals.http, totals.mqtt, totals.baseline⟩, mem_rows_iff.2 ⟨htotals, ?_⟩, rfl⟩
      rintro ⟨hbaseline, hhttp, hmqtt⟩
      rw [← totalsOf_column c _ htotals] at hc
      cases c with
      | baseline => exact hc hbaseline
      | http => exact hc hhttp
      | mqtt => exact hc hmqtt

/-- A row as a tuple. -/
def SummaryRow.key (row : SummaryRow) : Lex (ℚ × Lex (ℚ × Lex (ℤ × Lex (ℤ × ℤ)))) :=
  toLex (row.start, toLex (row.stop, toLex (row.http, toLex (row.mqtt, row.baseline))))

theorem le_iff_key {a b : SummaryRow} : a.le b = true ↔ a.key ≤ b.key := decide_eq_true_iff

instance : Std.Total fun a b : SummaryRow => a.le b = true :=
  ⟨fun a b => (le_total a.key b.key).imp le_iff_key.2 le_iff_key.2⟩

instance : IsTrans SummaryRow fun a b => a.le b = true :=
  ⟨fun _ _ _ hab hbc => le_iff_key.2 ((le_iff_key.1 hab).trans (le_iff_key.1 hbc))⟩

theorem window_le {a b : SummaryRow} (h : a.key ≤ b.key) :
    toLex (a.start, a.stop) ≤ toLex (b.start, b.stop) := by
  rcases Prod.Lex.toLex_le_toLex.1 h with hlt | ⟨heq, hle⟩
  · exact Prod.Lex.toLex_le_toLex.2 (.inl hlt)
  · refine Prod.Lex.toLex_le_toLex.2 (.inr ⟨heq, ?_⟩)
    rcases Prod.Lex.toLex_le_toLex.1 hle with hlt | ⟨heq', -⟩
    · exact hlt.le
    · exact heq'.le

/-- **The rows are in the order of their windows**, one for each. -/
theorem rows_pairwise (records : Dict SummaryKey SummaryRecord) (since till : ℚ) :
    (buildSummaryRows records since till).Pairwise
      fun row row' => toLex (row.start, row.stop) < toLex (row'.start, row'.stop) := by
  unfold buildSummaryRows
  refine (List.pairwise_insertionSort _ _).imp₂ (fun a b hle (hne : (a.start, a.stop) ≠ (b.start, b.stop)) =>
    lt_of_le_of_ne (window_le (le_iff_key.1 hle)) fun h => hne (toLex.injective h)) ?_
  -- the windows are the keys of a dictionary
  refine (List.perm_insertionSort _ _).symm.pairwise ?_ fun h => Ne.symm h
  have hnodup := List.pairwise_map.1 (aggregateRecords records since till).nodup
  rw [List.pairwise_filterMap]
  refine hnodup.imp fun {item item'} hne row hrow row' hrow' => ?_
  by_cases hzero : item.2.baseline = 0 ∧ item.2.http = 0 ∧ item.2.mqtt = 0
  · rw [if_pos hzero] at hrow
    cases hrow
  · by_cases hzero' : item'.2.baseline = 0 ∧ item'.2.http = 0 ∧ item'.2.mqtt = 0
    · rw [if_pos hzero'] at hrow'
      cases hrow'
    · rw [if_neg hzero] at hrow
      rw [if_neg hzero'] at hrow'
      rw [← Option.some.inj hrow, ← Option.some.inj hrow']
      exact hne

theorem summaryUntil_eq {records : Dict SummaryKey SummaryRecord} {till : ℚ}
    (h : summaryUntil L args records = .ok (some till)) (hnone : given args.till = none) :
    ∀ item ∈ records.items, item.1.1.1 ≤ till := by
  unfold summaryUntil at h
  cases hmax : (summaryStarts records).max? with
  | none => rw [hmax] at h; cases h
  | some latest =>
    rw [hmax, hnone] at h
    cases h
    intro item hitem
    exact (List.max?_eq_some_iff.1 hmax).2 _ (List.mem_map_of_mem hitem)

theorem summarySince_eq {since till : ℚ} (h : summarySince L args till = .ok (some since))
    (hnone : given args.since = none) : since = till - 60 * args.minutes := by
  unfold summarySince instantInYears at h
  rw [hnone] at h
  dsimp only at h
  split at h
  · exact (Option.some.inj (Except.ok.inj h)).symm
  · cases h

theorem summaryReportOf_table {records : Dict SummaryKey SummaryRecord} {since till : ℚ}
    {series : List (Lex (String × String))} {rows : List SummaryRow} {totals : SummaryRecord}
    (h : summaryReportOf L args records = .ok (.table since till series rows totals)) :
    summaryUntil L args records = .ok (some till) ∧ summarySince L args till = .ok (some since) ∧
      series = summarySeries records since till ∧ rows = buildSummaryRows records since till ∧
      totals = summaryTotals rows := by
  unfold summaryReportOf at h
  obtain ⟨till?, htill, h⟩ := bind_eq_ok.1 h
  cases till? with
  | none => cases h
  | some till' =>
    obtain ⟨since?, hsince, h⟩ := bind_eq_ok.1 h
    cases since? with
    | none => cases h
    | some since' =>
      by_cases hrows : buildSummaryRows records since' till' = []
      · dsimp only at h
        rw [if_pos hrows] at h
        cases h
      · dsimp only at h
        rw [if_neg hrows] at h
        cases h
        exact ⟨htill, hsince, rfl, rfl, rfl⟩

/-- **What the table of the summary mode says**, of the records of any lines. It has one row for each
tested window of the range with a count that is not 0, in the order of the windows; a row sums the records
of its window, and the last line those of all windows of the range, whether they have a row or not. The
series are those of the records of the range. By default no window later than the range is left out. -/
theorem summaryReport_table {lines : List String} {since till : ℚ} {series : List (Lex (String × String))}
    {rows : List SummaryRow} {totals : SummaryRecord}
    (h : summaryReportLines L args lines = .ok (.table since till series rows totals)) :
    ∃ records, scanSummary L args.topic lines = .ok records ∧
      rows.Pairwise (fun row row' => toLex (row.start, row.stop) < toLex (row'.start, row'.stop)) ∧
      (∀ w : ℚ × ℚ, (∃ row ∈ rows, (row.start, row.stop) = w) ↔
        ∃ c, columnSum c (itemsOf records since till w) ≠ 0) ∧
      (∀ row ∈ rows, ∀ c, row.counts.column c = columnSum c (itemsOf records since till (row.start, row.stop))) ∧
      (∀ c, totals.column c = columnSum c (recordsIn records since till)) ∧
      (series.Pairwise (· < ·) ∧
        ∀ s, s ∈ series ↔ ∃ item ∈ recordsIn records since till, toLex item.1.2 = s) ∧
      (given args.till = none → ∀ item ∈ records.items, item.1.1.1 ≤ till) ∧
      (given args.since = none → since = till - 60 * args.minutes) := by
  unfold summaryReportLines at h
  cases hscan : scanSummary L args.topic lines with
  | error e => rw [hscan] at h; cases h
  | ok records =>
    rw [hscan] at h
    obtain ⟨htill, hsince, rfl, rfl, rfl⟩ := summaryReportOf_table h
    refine ⟨records, rfl, rows_pairwise records since till, fun w => exists_row_iff,
      fun row hrow c => row_columns hrow c, summaryTotals_rows records since till,
      ⟨SortedSet.pairwise_lt _, fun s => ?_⟩, summaryUntil_eq htill, summarySince_eq hsince⟩
    unfold summarySeries
    rw [SortedSet.mem_sortedSet, List.mem_map]

/-- A cycle in which one service returned 2 messages of 3, and another all of them. -/
def summaryLines : List String :=
  ["Test period begins: window 2024-01-01T00:00:00Z .. 2024-01-01T00:01:00Z\n",
    "Result: centre_id=a topic=x protocol=http baseline=3 fetched=2\n",
    "Result: centre_id=b topic=x protocol=http baseline=3 fetched=3\n"]

def summaryTables : Tables := { sampleTables with ints := [("2", 2), ("3", 3)] }

theorem summaryReport_table_sample : ∃ records, scanSummary summaryTables.lib "x" summaryLines = .ok records ∧
    columnSum .baseline (recordsIn records (newYear - 3600) newYear) = 6 := by
  obtain ⟨records, hscan, -, -, -, htotals, -⟩ := @summaryReport_table summaryTables.lib
    ⟨[], "x", 60, [], none, none⟩ summaryLines (newYear - 3600) newYear [toLex ("a", "x"), toLex ("b", "x")]
    [⟨newYear, newYear + 60, 5, 0, 6⟩] ⟨6, 5, 0⟩ (by decide +kernel)
  exact ⟨records, hscan, (htotals .baseline).symm⟩

end Scgrep
