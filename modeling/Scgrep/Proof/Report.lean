import Scgrep.Proof.LogLines
import Scgrep.Proof.Purge

/-!
# What the summary report finds in a purged log

* `scanLine_message`: a line of a cycle does to the scan what its message says
  (`CycleMessage.scan`).
* `scan_purged`: of a purged file the scan sees the lines of the cycles that the cutoff
  leaves.
* `scan_run`, `scan_runs`: a cycle whose first line is left adds its records under its
  window; one whose first line is not left adds nothing.
* `scan_summary_exact`: **the report has the records of the cycles whose first line is
  left, with the values they published.**
-/

namespace Scgrep

open Pattern

variable {L : Lib} {topic cutoff : String}

/-! ## One line -/

/-- A record after another result. -/
def SummaryRecord.with (record : SummaryRecord) (baseline : ℕ) (result : FetchResult) : SummaryRecord :=
  match result.protocol with
  | .http => ⟨baseline, result.messagesFetched, record.mqtt⟩
  | .mqtt => ⟨baseline, record.http, result.messagesFetched⟩

/-- The key of the records of a window. -/
def windowKey (W : FloorWindow.Window) : ℚ × ℚ := (W.start, W.stop)

theorem windowKey_injective : Function.Injective windowKey := by
  intro W W' h
  obtain ⟨h1, h2⟩ := Prod.mk.inj h
  cases W
  cases W'
  simp only [FloorWindow.Window.mk.injEq]
  exact ⟨Int.cast_injective h1, Int.cast_injective h2⟩

/-- What a message does to the scan. -/
def CycleMessage.scan (topic : String) (cfg : Config) (E : CycleEnv) (s : ScanState) :
    CycleMessage → ScanState
  | .begins => { s with window := some (windowKey (cycleWindow cfg E.now)) }
  | .result r =>
    match s.window with
    | none => s
    | some window =>
      if Text.within topic r.cell.topic then
        let key := (window, r.cell.centreId, r.cell.topic)
        let record := (s.records.get? key).getD ⟨0, 0, 0⟩
        { s with records := s.records.set key (record.with (E.baselineOf cfg r.cell.topic) r.result) }
      else s
  | _ => s

/-- The report can read the lines of an execution: the bounds of its window and the numbers of its
results are read back, and its names are plain. -/
structure LoggedRun.Readable (L : Lib) (r : LoggedRun) : Prop where
  proper : r.env.Proper r.cfg
  iso : WindowReadsBack L r.cfg r.env
  topics : ∀ topic ∈ r.cfg.subscriptionTopics, Plain topic
  centres : ∀ target ∈ r.cfg.replayTargets, Plain target.1
  baselines : ∀ x ∈ r.env.results r.cfg, L.intOfStr (toString (r.env.baselineOf r.cfg x.cell.topic)) =
    some (r.env.baselineOf r.cfg x.cell.topic : ℤ)
  fetched : ∀ x ∈ r.env.results r.cfg,
    L.intOfStr (toString x.result.messagesFetched) = some x.result.messagesFetched

/-- A result of a cycle is the re-count of what one of the two fetches of a cell returned. -/
theorem mem_results {cfg : Config} {E : CycleEnv} (hE : E.Proper cfg) {x : CellResult}
    (hx : x ∈ E.results cfg) : ∃ i, cfg.cells[i]? = some x.cell ∧
      ((x.result.protocol = .http ∧ x ∈ collect (cycleWindow cfg E.now) (E.syncRecount i) x.cell (E.sync i)) ∨
        (x.result.protocol = .mqtt ∧
          x ∈ collect (cycleWindow cfg E.now) (E.asyncRecount i) x.cell (E.async i))) := by
  have key : ∀ {p : Protocol} {v : View} {cell : Cell} {out : Outcome}, OutcomeOf p out →
      x ∈ collect (cycleWindow cfg E.now) v cell out → x.cell = cell ∧ x.result.protocol = p := by
    intro p v cell out hout hmem
    cases out with
    | error e => cases hmem
    | ok result =>
      obtain rfl := List.mem_singleton.1 hmem
      exact ⟨rfl, (recount_protocol _ _ _ _).trans (hout result rfl).1⟩
  unfold CycleEnv.results at hx
  obtain ⟨⟨cell, i⟩, hi, hx⟩ := List.mem_flatMap.1 hx
  have hcell := mem_cells_zipIdx hi
  obtain ⟨hsync, hasync⟩ := hE i cell hcell
  rcases List.mem_append.1 hx with hx | hx
  · obtain ⟨rfl, hp⟩ := key hsync hx
    exact ⟨i, hcell, Or.inl ⟨hp, hx⟩⟩
  · obtain ⟨rfl, hp⟩ := key hasync hx
    exact ⟨i, hcell, Or.inr ⟨hp, hx⟩⟩

/-- The baselines are those of the configured topics. -/
theorem mem_baselines {cfg : Config} {E : CycleEnv} {c : String × ℕ}
    (hc : c ∈ (baselineDict (E.counts cfg)).items) : c.1 ∈ cfg.subscriptionTopics := by
  have key : ∀ (l : List (String × ℕ)) (d : Dict String ℕ), ∀ k ∈ (l.foldl (fun d c => d.set c.1 c.2) d).items.map
      Prod.fst, k ∈ d.items.map Prod.fst ∨ k ∈ l.map Prod.fst := by
    intro l
    induction l with
    | nil => intro d k hk; exact Or.inl hk
    | cons p l ih =>
      intro d k hk
      rcases ih _ k hk with h | h
      · rcases Dict.mem_keys_set h with h | h
        · exact Or.inr (List.mem_cons.2 (Or.inl h))
        · exact Or.inl h
      · exact Or.inr (List.mem_cons_of_mem _ h)
  rcases key (E.counts cfg) Dict.empty c.1 (List.mem_map_of_mem hc) with h | h
  · cases h
  · obtain ⟨q, hq, hqc⟩ := List.mem_map.1 h
    unfold CycleEnv.counts at hq
    obtain ⟨⟨P, k⟩, hP, rfl⟩ := List.mem_map.1 hq
    have hmem : P ∈ cfg.subscriptionTopics := List.fst_mem_of_mem_zipIdx hP
    rw [← hqc]
    exact hmem

theorem LoggedRun.Readable.named {r : LoggedRun} (h : r.Readable L) {m : CycleMessage}
    (hm : m ∈ cycleMessages r.cfg r.env) : m.Named := by
  cases m with
  | begins => trivial
  | complete => trivial
  | baseline P count =>
    simp only [cycleMessages, List.mem_append, List.mem_cons, List.mem_map] at hm
    rcases hm with ((hm | ⟨q, hq, hm⟩) | ⟨x, -, hm⟩) | hm | hm
    · cases hm
    · cases hm
      exact h.topics _ (mem_baselines hq)
    · cases hm
    · cases hm
    · cases hm
  | result x =>
    simp only [cycleMessages, List.mem_append, List.mem_cons, List.mem_map] at hm
    rcases hm with ((hm | ⟨q, -, hm⟩) | ⟨y, hy, hm⟩) | hm | hm
    · cases hm
    · cases hm
    · cases hm
      obtain ⟨i, hi, -⟩ := mem_results h.proper hy
      obtain ⟨ht, hc⟩ := cell_mem hi
      exact ⟨h.centres _ hc, h.topics _ ht⟩
    · cases hm
    · cases hm

theorem result_mem_messages {cfg : Config} {E : CycleEnv} {x : CellResult}
    (hx : CycleMessage.result x ∈ cycleMessages cfg E) : x ∈ E.results cfg := by
  simp only [cycleMessages, List.mem_append, List.mem_cons, List.mem_map] at hx
  rcases hx with ((hx | ⟨q, -, hx⟩) | ⟨y, hy, hx⟩) | hx | hx
  · cases hx
  · cases hx
  · cases hx
    exact hy
  · cases hx
  · cases hx

/-- The record that the two numbers of a result make. -/
theorem update_result {r : LoggedRun} (h : r.Readable L) {x : CellResult} (hx : x ∈ r.env.results r.cfg)
    (record : SummaryRecord) :
    record.update L x.result.protocol.name (toString (r.env.baselineOf r.cfg x.cell.topic))
      (toString x.result.messagesFetched) =
        .ok (record.with (r.env.baselineOf r.cfg x.cell.topic) x.result) := by
  unfold SummaryRecord.update SummaryRecord.with
  simp only [pyInt, h.baselines x hx, h.fetched x hx]
  cases x.result.protocol with
  | http => rfl
  | mqtt => rfl

/-- **A line of a cycle** does to the scan what its message says. -/
theorem scanLine_message {r : LoggedRun} (h : r.Readable L) (st : LogStamp) {m : CycleMessage}
    (hm : m ∈ cycleMessages r.cfg r.env) (s : ScanState) :
    scanLine L topic s (cycleLine st (m.text L r.cfg r.env)) = .ok (m.scan topic r.cfg r.env s) := by
  have hnamed := h.named hm
  cases m with
  | begins =>
    unfold scanLine
    rw [testPeriod_begins h.iso]
    simp only [String.ofList_toList, h.iso.1.parse, h.iso.2.parse]
    rfl
  | baseline P count =>
    unfold scanLine
    rw [testPeriod_none h.iso st hnamed (by simp), result_none h.iso st hnamed (by simp)]
    rfl
  | complete =>
    unfold scanLine
    rw [testPeriod_none h.iso st hnamed (by simp), result_none h.iso st hnamed (by simp)]
    rfl
  | result x =>
    have hx := result_mem_messages hm
    unfold scanLine CycleMessage.scan
    rw [testPeriod_none h.iso st hnamed (by simp), result_result st hnamed (results_counted h.proper x hx)]
    cases s.window with
    | none => rfl
    | some window =>
      simp only [String.ofList_toList, update_result h hx]
      split
      · rfl
      · rfl

/-! ## The file -/

/-- A log file: the lines of the cycles in their order, and others that neither expression matches. -/
inductive LogFile : List String → List String → Prop where
  | nil : LogFile [] []
  | own (line : String) {own file : List String} : LogFile own file → LogFile (line :: own) (line :: file)
  | other (line : String) {own file : List String} (hperiod : search testPeriodRe line.toList = none)
      (hresult : search resultRe line.toList = none) : LogFile own file → LogFile own (line :: file)

/-- Kept whatever came before. -/
def Survives (cutoff line : String) : Prop := ∀ keep, keepLine cutoff keep line = true

/-- The logged messages whose lines the cutoff leaves. -/
def LoggedRun.kept (cutoff : String) (r : LoggedRun) : List (LogStamp × CycleMessage) :=
  r.logged.filter fun q => Text.le cutoff q.1.seconds

/-- What the lines of a cycle that the cutoff leaves do to the scan. -/
def LoggedRun.scan (cutoff topic : String) (s : ScanState) (r : LoggedRun) : ScanState :=
  (r.kept cutoff).foldl (fun s q => q.2.scan topic r.cfg r.env s) s

@[simp] theorem scanFrom_nil (s : ScanState) : scanFrom L topic [] s = .ok s := rfl

theorem scanFrom_cons (line : String) (lines : List String) (s : ScanState) :
    scanFrom L topic (line :: lines) s = scanLine L topic s line >>= scanFrom L topic lines := rfl

theorem scanFrom_cons_ok {line : String} {s s' : ScanState} (h : scanLine L topic s line = .ok s')
    (lines : List String) : scanFrom L topic (line :: lines) s = scanFrom L topic lines s' := by
  rw [scanFrom_cons, h]
  rfl

theorem scanFrom_append (lines lines' : List String) (s : ScanState) :
    scanFrom L topic (lines ++ lines') s = scanFrom L topic lines s >>= scanFrom L topic lines' :=
  List.foldlM_append

/-- A line that neither expression matches. -/
theorem scanLine_other {line : String} (hperiod : search testPeriodRe line.toList = none)
    (hresult : search resultRe line.toList = none) (s : ScanState) : scanLine L topic s line = .ok s := by
  unfold scanLine
  rw [hperiod, hresult]

/-- **Of a purged file** the scan sees the lines of the cycles that the cutoff leaves. -/
theorem scan_purged {own file : List String} (hfile : LogFile own file)
    (hstamp : ∀ line ∈ own, ∀ keep, keepLine cutoff keep line = keepLine cutoff false line) :
    ∀ (keep : Bool) (s : ScanState), scanFrom L topic (purgeLines cutoff keep file) s =
      scanFrom L topic (own.filter (keepLine cutoff false)) s := by
  induction hfile with
  | nil => intro keep s; rfl
  | @own line own file hfile ih =>
    intro keep s
    have ih' := ih fun x hx => hstamp x (List.mem_cons_of_mem _ hx)
    have hline := hstamp line List.mem_cons_self keep
    rw [purgeLines_cons, hline, List.filter_cons]
    split
    · rw [scanFrom_cons, scanFrom_cons]
      exact congrArg _ (funext (ih' _))
    · exact ih' _ s
  | @other line own file hperiod hresult hfile ih =>
    intro keep s
    have ih' := ih hstamp
    rw [purgeLines_cons]
    split
    · rw [scanFrom_cons_ok (scanLine_other hperiod hresult s), ih']
    · exact ih' _ s

/-- The lines that the cutoff leaves. -/
theorem filter_lines (r : LoggedRun) : (r.lines L).filter (keepLine cutoff false) =
    (r.kept cutoff).map fun q => cycleLine q.1 (q.2.text L r.cfg r.env) := by
  unfold LoggedRun.lines LoggedRun.kept
  rw [List.filter_map]
  congr 1
  refine List.filter_congr fun q _ => ?_
  exact keepLine_cycleLine cutoff false q.1 _

theorem logged_subset (r : LoggedRun) {q : LogStamp × CycleMessage} (hq : q ∈ r.logged) :
    q.2 ∈ cycleMessages r.cfg r.env := (List.of_mem_zip hq).2

/-- The lines of one cycle. -/
theorem scanFrom_kept {r : LoggedRun} (h : r.Readable L) (s : ScanState) :
    scanFrom L topic ((r.lines L).filter (keepLine cutoff false)) s = .ok (r.scan cutoff topic s) := by
  have key : ∀ (qs : List (LogStamp × CycleMessage)), (∀ q ∈ qs, q.2 ∈ cycleMessages r.cfg r.env) →
      ∀ s : ScanState, scanFrom L topic (qs.map fun q => cycleLine q.1 (q.2.text L r.cfg r.env)) s =
        .ok (qs.foldl (fun s q => q.2.scan topic r.cfg r.env s) s) := by
    intro qs
    induction qs with
    | nil => intro _ s; rfl
    | cons q qs ih =>
      intro hqs s
      have hq : scanLine L topic s (cycleLine q.1 (q.2.text L r.cfg r.env)) =
          .ok (q.2.scan topic r.cfg r.env s) := scanLine_message h q.1 (hqs q List.mem_cons_self) s
      rw [List.map_cons, List.foldl_cons, scanFrom_cons_ok hq]
      exact ih (fun x hx => hqs x (List.mem_cons_of_mem _ hx)) _
  rw [filter_lines]
  refine key _ (fun q hq => ?_) s
  exact logged_subset r (List.mem_of_mem_filter hq)

/-- **The lines of a sequence of cycles.** -/
theorem scanFrom_runs {runs : List LoggedRun} (h : ∀ r ∈ runs, r.Readable L) : ∀ s : ScanState,
    scanFrom L topic ((runs.flatMap (LoggedRun.lines L)).filter (keepLine cutoff false)) s =
      .ok (runs.foldl (LoggedRun.scan cutoff topic) s) := by
  induction runs with
  | nil => intro s; rfl
  | cons r runs ih =>
    intro s
    rw [List.flatMap_cons, List.filter_append, scanFrom_append, scanFrom_kept (h r List.mem_cons_self),
      List.foldl_cons]
    exact ih (fun x hx => h x (List.mem_cons_of_mem _ hx)) _

/-! ## One cycle -/

/-- What a message does to the record of a centre and a topic under the window of its cycle. -/
def CycleMessage.tally (topic : String) (cfg : Config) (E : CycleEnv) (centre resultTopic : String)
    (o : Option SummaryRecord) : CycleMessage → Option SummaryRecord
  | .result r =>
    if r.cell.centreId = centre ∧ r.cell.topic = resultTopic ∧ Text.within topic resultTopic = true then
      some ((o.getD ⟨0, 0, 0⟩).with (E.baselineOf cfg resultTopic) r.result)
    else o
  | _ => o

/-- The record that the logged results of a cycle make. -/
def LoggedRun.record (topic centre resultTopic : String) (r : LoggedRun) : Option SummaryRecord :=
  r.logged.foldl (fun o q => q.2.tally topic r.cfg r.env centre resultTopic o) none

/-- **One message within a window**: it stays in the window, and works on the record of its own
centre and topic. -/
theorem scan_message (topic : String) (cfg : Config) (E : CycleEnv) {s : ScanState} {w : ℚ × ℚ} (hw : s.window = some w)
    {m : CycleMessage} (hm : m ≠ .begins) :
    (m.scan topic cfg E s).window = some w ∧
      (∀ centre t, (m.scan topic cfg E s).records.get? (w, centre, t) =
        m.tally topic cfg E centre t (s.records.get? (w, centre, t))) ∧
      ∀ k : SummaryKey, k.1 ≠ w → (m.scan topic cfg E s).records.get? k = s.records.get? k := by
  cases m with
  | begins => exact absurd rfl hm
  | baseline P n => exact ⟨hw, fun _ _ => rfl, fun _ _ => rfl⟩
  | complete => exact ⟨hw, fun _ _ => rfl, fun _ _ => rfl⟩
  | result r =>
    unfold CycleMessage.scan CycleMessage.tally
    rw [hw]
    dsimp only
    by_cases htopic : Text.within topic r.cell.topic = true
    · rw [if_pos htopic]
      refine ⟨rfl, ?_, ?_⟩
      · intro centre t
        by_cases hkey : r.cell.centreId = centre ∧ r.cell.topic = t
        · obtain ⟨rfl, rfl⟩ := hkey
          rw [if_pos ⟨rfl, rfl, htopic⟩, Dict.get?_set_self]
        · have hne : ((w, centre, t) : SummaryKey) ≠ (w, r.cell.centreId, r.cell.topic) := by
            intro h
            have h' := (Prod.mk.inj (Prod.mk.inj h).2)
            exact hkey ⟨h'.1.symm, h'.2.symm⟩
          rw [if_neg fun h => hkey ⟨h.1, h.2.1⟩, Dict.get?_set_ne _ hne]
      · intro k hk
        have hne : k ≠ (w, r.cell.centreId, r.cell.topic) := fun h => hk (congrArg Prod.fst h)
        exact Dict.get?_set_ne _ hne _
    · rw [if_neg htopic]
      refine ⟨hw, ?_, fun _ _ => rfl⟩
      intro centre t
      rw [if_neg]
      rintro ⟨-, rfl, h⟩
      exact htopic h

/-- **The messages after the first** within the window of the cycle. -/
theorem scan_messages (topic : String) (cfg : Config) (E : CycleEnv) {w : ℚ × ℚ} (qs : List (LogStamp × CycleMessage)) :
    ∀ {s : ScanState}, s.window = some w → (∀ q ∈ qs, q.2 ≠ .begins) →
      (∀ centre t, (qs.foldl (fun s q => q.2.scan topic cfg E s) s).records.get? (w, centre, t) =
        qs.foldl (fun o q => q.2.tally topic cfg E centre t o) (s.records.get? (w, centre, t))) ∧
      (qs.foldl (fun s q => q.2.scan topic cfg E s) s).window = some w ∧
      ∀ k : SummaryKey, k.1 ≠ w →
        (qs.foldl (fun s q => q.2.scan topic cfg E s) s).records.get? k = s.records.get? k := by
  induction qs with
  | nil => intro s hw _; exact ⟨fun _ _ => rfl, hw, fun _ _ => rfl⟩
  | cons q qs ih =>
    intro s hw hqs
    obtain ⟨hw₁, hrec₁, hother₁⟩ := scan_message topic cfg E hw (hqs q List.mem_cons_self)
    obtain ⟨hrec, hw', hother⟩ := ih hw₁ fun x hx => hqs x (List.mem_cons_of_mem _ hx)
    refine ⟨?_, hw', ?_⟩
    · intro centre t
      rw [List.foldl_cons, List.foldl_cons, hrec, hrec₁]
    · intro k hk
      rw [List.foldl_cons, hother k hk, hother₁ k hk]

/-- Without a window they do nothing. -/
theorem scan_no_window {cfg : Config} {E : CycleEnv} {s : ScanState} (hw : s.window = none)
    (qs : List (LogStamp × CycleMessage)) (hqs : ∀ q ∈ qs, q.2 ≠ .begins) :
    qs.foldl (fun s q => q.2.scan topic cfg E s) s = s := by
  induction qs with
  | nil => rfl
  | cons q qs ih =>
    have hq : q.2.scan topic cfg E s = s := by
      have hne := hqs q List.mem_cons_self
      cases hm : q.2 with
      | begins => exact absurd hm hne
      | baseline P n => rfl
      | complete => rfl
      | result r =>
        unfold CycleMessage.scan
        rw [hw]
    rw [List.foldl_cons, hq]
    exact ih fun x hx => hqs x (List.mem_cons_of_mem _ hx)

/-- A cycle has logged nothing, or its first line and others that are not such. -/
theorem logged_cases (r : LoggedRun) : r.logged = [] ∨
    ∃ st qs, r.logged = (st, .begins) :: qs ∧ ∀ q ∈ qs, q.2 ≠ .begins := by
  unfold LoggedRun.logged
  cases hst : r.stamps with
  | nil => exact Or.inl rfl
  | cons st stamps =>
    refine Or.inr ⟨st, _, rfl, ?_⟩
    intro q hq hbegins
    have hmem := (List.of_mem_zip hq).2
    rw [hbegins] at hmem
    simp at hmem

/-- The first line of the cycle is left by the cutoff. -/
def LoggedRun.Begun (cutoff : String) (r : LoggedRun) : Prop :=
  ∃ q ∈ r.logged.head?, Text.le cutoff q.1.seconds = true

/-- The stamps of the lines of a cycle. -/
def LoggedRun.seconds (r : LoggedRun) : List String := r.logged.map fun q => q.1.seconds

/-- **A cycle of which no line is dropped** adds its records under its window. -/
theorem scan_whole (topic : String) {r : LoggedRun} (hkept : r.kept cutoff = r.logged) (hne : r.logged ≠ [])
    (s : ScanState) (hfresh : ∀ centre t, s.records.get? (windowKey r.window, centre, t) = none) :
    (∀ centre t, (r.scan cutoff topic s).records.get? (windowKey r.window, centre, t) =
        r.record topic centre t) ∧
      ∀ k : SummaryKey, k.1 ≠ windowKey r.window →
        (r.scan cutoff topic s).records.get? k = s.records.get? k := by
  rcases logged_cases r with hnil | ⟨st, qs, hlog, hqs⟩
  · exact absurd hnil hne
  have hwin : (CycleMessage.begins.scan topic r.cfg r.env s).window = some (windowKey r.window) := rfl
  obtain ⟨hrec, -, hother⟩ := scan_messages topic r.cfg r.env qs hwin hqs
  unfold LoggedRun.scan
  rw [hkept, hlog, List.foldl_cons]
  refine ⟨?_, ?_⟩
  · intro centre t
    rw [hrec]
    change qs.foldl _ (s.records.get? (windowKey r.window, centre, t)) = _
    rw [hfresh]
    unfold LoggedRun.record
    rw [hlog, List.foldl_cons]
    rfl
  · intro k hk
    exact hother k hk

/-- **A cycle whose first line is left** adds its records under its window, and stays in it. -/
theorem scan_begun (topic : String) {r : LoggedRun} (hsorted : r.seconds.Pairwise fun a b => Text.le a b = true)
    (hbegun : r.Begun cutoff) (s : ScanState)
    (hfresh : ∀ centre t, s.records.get? (windowKey r.window, centre, t) = none) :
    (∀ centre t, (r.scan cutoff topic s).records.get? (windowKey r.window, centre, t) =
        r.record topic centre t) ∧
      ∀ k : SummaryKey, k.1 ≠ windowKey r.window →
        (r.scan cutoff topic s).records.get? k = s.records.get? k := by
  obtain ⟨q, hq, hle⟩ := hbegun
  rcases logged_cases r with hnil | ⟨st, qs, hlog, -⟩
  · rw [hnil] at hq
    cases hq
  have hhead := hq
  rw [hlog] at hhead
  obtain rfl : (st, CycleMessage.begins) = q := Option.some.inj hhead
  -- the lines after it are no older, so that none is dropped
  have hkept : r.kept cutoff = r.logged := by
    unfold LoggedRun.kept
    rw [hlog]
    refine List.filter_eq_self.2 ?_
    unfold LoggedRun.seconds at hsorted
    rw [hlog, List.map_cons, List.pairwise_cons] at hsorted
    intro x hx
    rcases List.mem_cons.1 hx with rfl | hx
    · exact hle
    · exact Text.le_trans hle (hsorted.1 _ (List.mem_map_of_mem hx))
  have hne : r.logged ≠ [] := by
    rw [hlog]
    exact List.cons_ne_nil _ _
  exact scan_whole topic hkept hne s hfresh

/-- **A cycle whose first line is not left** adds nothing, when there is no window before it. When no
line of it is dropped, it has logged nothing. -/
theorem scan_not_begun {r : LoggedRun} (hbegun : ¬ r.Begun cutoff) {s : ScanState}
    (hs : s.window = none ∨ ∀ x ∈ r.seconds, Text.le cutoff x = true) : r.scan cutoff topic s = s := by
  unfold LoggedRun.scan LoggedRun.kept
  rcases logged_cases r with hnil | ⟨st, qs, hlog, hqs⟩
  · rw [hnil]
    rfl
  · have hhead : r.logged.head? = some (st, .begins) := by
      rw [hlog]
      rfl
    have hst : ¬ Text.le cutoff st.seconds = true := fun h => hbegun ⟨(st, .begins), hhead, h⟩
    rcases hs with hs | hs
    · have hfilter : ((st, CycleMessage.begins) :: qs).filter (fun q => Text.le cutoff q.1.seconds) =
          qs.filter fun q => Text.le cutoff q.1.seconds := List.filter_cons_of_neg hst
      rw [hlog, hfilter]
      exact scan_no_window hs _ fun q hq => hqs q (List.mem_of_mem_filter hq)
    · exact absurd (hs _ (List.mem_map_of_mem (List.mem_of_mem_head? hhead))) hst

/-! ## All cycles -/

/-- **The records after a sequence of cycles** with windows of their own: each one whose first line is
left has its records under its window. -/
theorem scan_runs (cutoff topic : String) (runs : List LoggedRun) : ∀ s : ScanState,
    (runs.flatMap LoggedRun.seconds).Pairwise (fun a b => Text.le a b = true) →
    runs.Pairwise (fun r r' => r.window ≠ r'.window) →
    (∀ r ∈ runs, ∀ centre t, s.records.get? (windowKey r.window, centre, t) = none) →
    (s.window = none ∨ ∀ x ∈ runs.flatMap LoggedRun.seconds, Text.le cutoff x = true) →
    (∀ r ∈ runs, r.Begun cutoff → ∀ centre t,
      (runs.foldl (LoggedRun.scan cutoff topic) s).records.get? (windowKey r.window, centre, t) =
        r.record topic centre t) ∧
    ∀ k : SummaryKey, (∀ r ∈ runs, r.Begun cutoff → k.1 ≠ windowKey r.window) →
      (runs.foldl (LoggedRun.scan cutoff topic) s).records.get? k = s.records.get? k := by
  induction runs with
  | nil =>
    intro s _ _ _ _
    refine ⟨?_, fun k _ => rfl⟩
    intro r hr
    cases hr
  | cons r runs ih =>
    intro s hsorted hwindows hfresh hwin
    rw [List.flatMap_cons] at hsorted hwin
    obtain ⟨hsorted₁, hsorted₂, hcross⟩ := List.pairwise_append.1 hsorted
    obtain ⟨hne, hwindows⟩ := List.pairwise_cons.1 hwindows
    have hkeys : ∀ r' ∈ runs, windowKey r'.window ≠ windowKey r.window := by
      intro r' hr' h
      exact hne r' hr' (windowKey_injective h).symm
    rw [List.foldl_cons]
    by_cases hbegun : r.Begun cutoff
    · obtain ⟨hrec, hother⟩ := scan_begun topic hsorted₁ hbegun s (hfresh r List.mem_cons_self)
      have hfresh' : ∀ r' ∈ runs, ∀ centre t,
          (r.scan cutoff topic s).records.get? (windowKey r'.window, centre, t) = none := by
        intro r' hr' centre t
        rw [hother _ (hkeys r' hr')]
        exact hfresh r' (List.mem_cons_of_mem _ hr') centre t
      have hlater : ∀ x ∈ runs.flatMap LoggedRun.seconds, Text.le cutoff x = true := by
        intro x hx
        obtain ⟨q, hq, hle⟩ := hbegun
        have hmem : q.1.seconds ∈ r.seconds := List.mem_map_of_mem (List.mem_of_mem_head? hq)
        exact Text.le_trans hle (hcross _ hmem x hx)
      obtain ⟨ih₁, ih₂⟩ := ih _ hsorted₂ hwindows hfresh' (Or.inr hlater)
      refine ⟨?_, ?_⟩
      · intro r' hr' hb centre t
        rcases List.mem_cons.1 hr' with rfl | hr'
        · rw [ih₂ _ fun x hx _ => (hkeys x hx).symm]
          exact hrec centre t
        · exact ih₁ r' hr' hb centre t
      · intro k hk
        rw [ih₂ k fun x hx => hk x (List.mem_cons_of_mem _ hx)]
        exact hother k (hk r List.mem_cons_self hbegun)
    · -- an older line is dropped, so there was no window yet; or the cycle has logged nothing
      have hsame : r.scan cutoff topic s = s :=
        scan_not_begun hbegun (hwin.imp_right fun hw x hx => hw x (List.mem_append_left _ hx))
      have hwin' : s.window = none ∨ ∀ x ∈ runs.flatMap LoggedRun.seconds, Text.le cutoff x = true :=
        hwin.imp_right fun hw x hx => hw x (List.mem_append_right _ hx)
      obtain ⟨ih₁, ih₂⟩ := ih s hsorted₂ hwindows (fun x hx => hfresh x (List.mem_cons_of_mem _ hx)) hwin'
      rw [hsame]
      refine ⟨?_, ?_⟩
      · intro r' hr' hb
        rcases List.mem_cons.1 hr' with rfl | hr'
        · exact absurd hb hbegun
        · exact ih₁ r' hr' hb
      · intro k hk
        exact ih₂ k fun x hx => hk x (List.mem_cons_of_mem _ hx)

/-! ## Records -/

/-- The count of a protocol. -/
def SummaryRecord.fetched (record : SummaryRecord) : Protocol → ℤ
  | .http => record.http
  | .mqtt => record.mqtt

theorem fetched_with (record : SummaryRecord) (baseline : ℕ) (result : FetchResult) (p : Protocol) :
    (record.with baseline result).fetched p =
      if result.protocol = p then result.messagesFetched else record.fetched p := by
  unfold SummaryRecord.with
  cases result.protocol with
  | http => cases p <;> rfl
  | mqtt => cases p <;> rfl

theorem baseline_with (record : SummaryRecord) (baseline : ℕ) (result : FetchResult) :
    (record.with baseline result).baseline = baseline := by
  unfold SummaryRecord.with
  cases result.protocol <;> rfl

/-- The cycle has logged a result. -/
def LoggedRun.Logs (r : LoggedRun) (x : CellResult) : Prop := CycleMessage.result x ∈ r.logged.map Prod.snd

/-- The result in a message, if it is for the centre and the topic. -/
def CycleMessage.resultFor (centre resultTopic : String) : CycleMessage → Option CellResult
  | .result x => if x.cell.centreId = centre ∧ x.cell.topic = resultTopic then some x else none
  | _ => none

/-- The logged results for a centre and a topic. -/
def LoggedRun.resultsFor (centre resultTopic : String) (r : LoggedRun) : List CellResult :=
  (r.logged.map Prod.snd).filterMap (CycleMessage.resultFor centre resultTopic)

theorem mem_resultsFor {centre t : String} {r : LoggedRun} {x : CellResult} :
    x ∈ r.resultsFor centre t ↔ r.Logs x ∧ x.cell.centreId = centre ∧ x.cell.topic = t := by
  unfold LoggedRun.resultsFor LoggedRun.Logs
  rw [List.mem_filterMap]
  constructor
  · rintro ⟨m, hm, hx⟩
    cases m with
    | result y =>
      change (if y.cell.centreId = centre ∧ y.cell.topic = t then some y else none) = some x at hx
      by_cases hy : y.cell.centreId = centre ∧ y.cell.topic = t
      · rw [if_pos hy] at hx
        obtain rfl := Option.some.inj hx
        exact ⟨hm, hy⟩
      · rw [if_neg hy] at hx
        cases hx
    | _ => cases hx
  · rintro ⟨hm, hx⟩
    exact ⟨_, hm, if_pos hx⟩

/-- A record, or none yet, after another result. -/
def addResult (b : ℕ) (o : Option SummaryRecord) (x : CellResult) : Option SummaryRecord :=
  some ((o.getD ⟨0, 0, 0⟩).with b x.result)

/-- **The record of a cycle** is made by its results for the centre and the topic. -/
theorem record_eq (centre t : String) (r : LoggedRun) : r.record topic centre t =
    if Text.within topic t = true then (r.resultsFor centre t).foldl
      (addResult (r.env.baselineOf r.cfg t)) none
    else none := by
  have key : ∀ (qs : List (LogStamp × CycleMessage)) (o : Option SummaryRecord),
      qs.foldl (fun o q => q.2.tally topic r.cfg r.env centre t o) o =
        if Text.within topic t = true then
          ((qs.map Prod.snd).filterMap (CycleMessage.resultFor centre t)).foldl
            (addResult (r.env.baselineOf r.cfg t)) o
        else o := by
    intro qs
    induction qs with
    | nil => intro o; split <;> rfl
    | cons q qs ih =>
      intro o
      rw [List.foldl_cons, ih, List.map_cons, List.filterMap_cons]
      cases hm : q.2 with
      | result x =>
        unfold CycleMessage.tally CycleMessage.resultFor
        by_cases htopic : Text.within topic t = true
        · by_cases hx : x.cell.centreId = centre ∧ x.cell.topic = t
          · simp only [htopic, hx, and_self, if_true, List.foldl_cons]
            rfl
          · have hx' : ¬ (x.cell.centreId = centre ∧ x.cell.topic = t ∧ Text.within topic t = true) :=
              fun h => hx ⟨h.1, h.2.1⟩
            simp only [if_neg hx, if_neg hx']
        · have hx' : ¬ (x.cell.centreId = centre ∧ x.cell.topic = t ∧ Text.within topic t = true) :=
            fun h => htopic h.2.2
          simp only [if_neg htopic, if_neg hx']
      | begins => rfl
      | baseline P n => rfl
      | complete => rfl
  exact key r.logged none

/-- **What the results make**: the baseline, and of each protocol the count of one of them, or 0. -/
theorem tallied (b : ℕ) (xs : List CellResult) :
    ((xs.foldl (addResult b) none).isSome = true ↔ xs ≠ []) ∧
      ∀ record : SummaryRecord, xs.foldl (addResult b) none = some record →
        record.baseline = b ∧ ∀ p : Protocol,
          (∃ x ∈ xs, x.result.protocol = p ∧ record.fetched p = x.result.messagesFetched) ∨
            ((∀ x ∈ xs, x.result.protocol ≠ p) ∧ record.fetched p = 0) := by
  induction xs using List.reverseRecOn with
  | nil =>
    refine ⟨iff_of_false (by simp) (by simp), ?_⟩
    intro record h
    cases h
  | append_singleton xs x ih =>
    rw [List.foldl_append]
    refine ⟨iff_of_true rfl (by simp), ?_⟩
    intro record h
    obtain rfl := Option.some.inj h
    refine ⟨baseline_with _ _ _, ?_⟩
    intro p
    rw [fetched_with]
    by_cases hp : x.result.protocol = p
    · exact Or.inl ⟨x, by simp, hp, if_pos hp⟩
    rw [if_neg hp]
    cases hrec : xs.foldl (addResult b) none with
    | none =>
      have hnil : xs = [] := by
        by_contra hne
        have hsome := ih.1.2 hne
        rw [hrec] at hsome
        cases hsome
      refine Or.inr ⟨?_, by cases p <;> rfl⟩
      intro y hy
      rw [hnil, List.nil_append, List.mem_singleton] at hy
      rw [hy]
      exact hp
    | some record =>
      rcases (ih.2 record hrec).2 p with ⟨y, hy, hyp, hval⟩ | ⟨hno, hval⟩
      · exact Or.inl ⟨y, List.mem_append_left _ hy, hyp, hval⟩
      · refine Or.inr ⟨?_, hval⟩
        intro y hy
        rcases List.mem_append.1 hy with hy | hy
        · exact hno y hy
        · rw [List.mem_singleton.1 hy]
          exact hp

theorem LoggedRun.Logs.mem_results {r : LoggedRun} {x : CellResult} (h : r.Logs x) :
    x ∈ r.env.results r.cfg := by
  obtain ⟨q, hq, hx⟩ := List.mem_map.1 h
  have hmem := logged_subset r hq
  rw [hx] at hmem
  exact result_mem_messages hmem

/-- **One result of each protocol** for a centre and a topic, when the pairs are distinct. -/
theorem results_unique {cfg : Config} {E : CycleEnv} (hE : E.Proper cfg)
    (hpairs : (cfg.cells.map fun cell => (cell.centreId, cell.topic)).Nodup) {x y : CellResult}
    (hx : x ∈ E.results cfg) (hy : y ∈ E.results cfg) (hcentre : x.cell.centreId = y.cell.centreId)
    (htopic : x.cell.topic = y.cell.topic) (hp : x.result.protocol = y.result.protocol) : x = y := by
  obtain ⟨i, hi, hx⟩ := mem_results hE hx
  obtain ⟨j, hj, hy⟩ := mem_results hE hy
  have hget : ∀ {k : ℕ} {cell : Cell}, cfg.cells[k]? = some cell →
      (cfg.cells.map fun cell => (cell.centreId, cell.topic))[k]? = some (cell.centreId, cell.topic) := by
    intro k cell hk
    rw [List.getElem?_map, hk]
    rfl
  have hij : i = j := by
    have hi' := hget hi
    have hj' := hget hj
    rw [← hcentre, ← htopic] at hj'
    obtain ⟨hlt, -⟩ := List.getElem?_eq_some_iff.1 hi'
    exact (List.getElem?_inj hlt hpairs).1 (hi'.trans hj'.symm)
  subst hij
  have hcell : x.cell = y.cell := Option.some.inj (hi.symm.trans hj)
  have hsame : ∀ {v : View} {out : Outcome}, x ∈ collect (cycleWindow cfg E.now) v x.cell out →
      y ∈ collect (cycleWindow cfg E.now) v y.cell out → x = y := by
    intro v out hx hy
    rw [← hcell] at hy
    cases out with
    | error e => cases hx
    | ok result => exact (List.mem_singleton.1 hx).trans (List.mem_singleton.1 hy).symm
  rcases hx with ⟨hxp, hx⟩ | ⟨hxp, hx⟩
  · rcases hy with ⟨-, hy⟩ | ⟨hyp, -⟩
    · exact hsame hx hy
    · rw [hxp, hyp] at hp
      cases hp
  · rcases hy with ⟨hyp, -⟩ | ⟨-, hy⟩
    · rw [hxp, hyp] at hp
      cases hp
    · exact hsame hx hy

/-! ## The report -/

/-- The `Test period begins` line of the cycle is left by the cutoff. -/
def LoggedRun.BeginsSurvives (L : Lib) (cutoff : String) (r : LoggedRun) : Prop :=
  ∃ line ∈ (r.lines L).head?, Survives cutoff line

theorem beginsSurvives_iff (r : LoggedRun) : r.BeginsSurvives L cutoff ↔ r.Begun cutoff := by
  unfold LoggedRun.BeginsSurvives LoggedRun.Begun LoggedRun.lines
  rw [List.head?_map]
  constructor
  · rintro ⟨line, hline, hs⟩
    obtain ⟨q, hq, rfl⟩ := Option.mem_map.1 hline
    refine ⟨q, hq, ?_⟩
    rw [← keepLine_cycleLine cutoff false q.1]
    exact hs false
  · rintro ⟨q, hq, hle⟩
    refine ⟨_, Option.mem_map.2 ⟨q, hq, rfl⟩, ?_⟩
    intro keep
    rw [keepLine_cycleLine]
    exact hle

/-- **The record of a cycle is there** iff it has logged a result for the centre and the topic. -/
theorem record_isSome {r : LoggedRun} {centre t : String} : (r.record topic centre t).isSome = true ↔
    Text.within topic t = true ∧ ∃ x, r.Logs x ∧ x.cell.centreId = centre ∧ x.cell.topic = t := by
  rw [record_eq]
  by_cases htopic : Text.within topic t = true
  · rw [if_pos htopic, (tallied _ _).1, ← List.length_pos_iff, List.length_pos_iff_exists_mem]
    simp only [mem_resultsFor, htopic, true_and]
  · rw [if_neg htopic]
    exact iff_of_false (by simp) fun h => htopic h.1

/-- **Its counts** are those of the cycle's results. -/
theorem record_counts {r : LoggedRun} (h : r.Readable L)
    (hpairs : (r.cfg.cells.map fun cell => (cell.centreId, cell.topic)).Nodup) {centre t : String}
    {record : SummaryRecord} (hrec : r.record topic centre t = some record) :
    record.baseline = r.env.baselineOf r.cfg t ∧ ∀ p : Protocol,
      (∀ x, r.Logs x → x.cell.centreId = centre → x.cell.topic = t → x.result.protocol = p →
        record.fetched p = x.result.messagesFetched) ∧
      ((∀ x, r.Logs x → x.cell.centreId = centre → x.cell.topic = t → x.result.protocol ≠ p) →
        record.fetched p = 0) := by
  rw [record_eq] at hrec
  split at hrec
  · obtain ⟨hbase, hcounts⟩ := (tallied _ _).2 record hrec
    refine ⟨hbase, ?_⟩
    intro p
    rcases hcounts p with ⟨y, hy, hyp, hval⟩ | ⟨hno, hval⟩
    · obtain ⟨hlogs, hcentre, htopic⟩ := mem_resultsFor.1 hy
      refine ⟨?_, ?_⟩
      · intro x hx hxc hxt hxp
        have hxy : x = y := results_unique h.proper hpairs hx.mem_results hlogs.mem_results
          (hxc.trans hcentre.symm) (hxt.trans htopic.symm) (hxp.trans hyp.symm)
        rw [hxy]
        exact hval
      · intro hnone
        exact absurd hyp (hnone y hlogs hcentre htopic)
    · refine ⟨?_, fun _ => hval⟩
      intro x hx hxc hxt hxp
      exact absurd hxp (hno x (mem_resultsFor.2 ⟨hx, hxc, hxt⟩))
  · cases hrec

/-- **The report decodes what the cycles logged**, also after a purge. For a sequence of cycles with
windows of their own, distinct pairs of centre and topic, and stamps in order, the purged file has a
record for a window, a centre and a topic exactly when the first line of the cycle with that window is
left and the cycle has logged a result for them; and its counts are those of that cycle. -/
theorem scan_summary_exact {runs : List LoggedRun} {file : List String}
    (hread : ∀ r ∈ runs, r.Readable L)
    (hpairs : ∀ r ∈ runs, (r.cfg.cells.map fun cell => (cell.centreId, cell.topic)).Nodup)
    (hwindows : runs.Pairwise fun r r' => r.window ≠ r'.window)
    (hsorted : (runs.flatMap LoggedRun.seconds).Pairwise fun a b => Text.le a b = true)
    (hfile : LogFile (runs.flatMap (LoggedRun.lines L)) file) (cutoff topic : String) :
    ∃ records, scanSummary L topic (purgeLines cutoff true file) = .ok records ∧
      (∀ (w : ℚ × ℚ) (centre t : String), (records.get? (w, centre, t)).isSome = true ↔
        ∃ r ∈ runs, windowKey r.window = w ∧ r.BeginsSurvives L cutoff ∧ Text.within topic t = true ∧
          ∃ x, r.Logs x ∧ x.cell.centreId = centre ∧ x.cell.topic = t) ∧
      ∀ r ∈ runs, ∀ (centre t : String) (record : SummaryRecord),
        records.get? (windowKey r.window, centre, t) = some record →
        record.baseline = r.env.baselineOf r.cfg t ∧ ∀ p : Protocol,
          (∀ x, r.Logs x → x.cell.centreId = centre → x.cell.topic = t → x.result.protocol = p →
            record.fetched p = x.result.messagesFetched) ∧
          ((∀ x, r.Logs x → x.cell.centreId = centre → x.cell.topic = t → x.result.protocol ≠ p) →
            record.fetched p = 0) := by
  have hstamp : ∀ line ∈ runs.flatMap (LoggedRun.lines L), ∀ keep,
      keepLine cutoff keep line = keepLine cutoff false line := by
    intro line hline keep
    obtain ⟨r, -, hline⟩ := List.mem_flatMap.1 hline
    obtain ⟨q, -, rfl⟩ := List.mem_map.1 hline
    rw [keepLine_cycleLine, keepLine_cycleLine]
  set s := runs.foldl (LoggedRun.scan cutoff topic) ⟨Dict.empty, none⟩ with hs
  have hscan : scanSummary L topic (purgeLines cutoff true file) = .ok s.records := by
    unfold scanSummary
    rw [scan_purged hfile hstamp, scanFrom_runs hread]
    rfl
  obtain ⟨hbegun, hother⟩ := scan_runs cutoff topic runs ⟨Dict.empty, none⟩ hsorted hwindows
    (fun _ _ _ _ => rfl) (Or.inl rfl)
  rw [← hs] at hbegun hother
  -- a window without a cycle whose first line is left has no record
  have hnone : ∀ (w : ℚ × ℚ) (centre t : String),
      (∀ r ∈ runs, r.Begun cutoff → w ≠ windowKey r.window) → s.records.get? (w, centre, t) = none :=
    fun w centre t h => hother (w, centre, t) h
  refine ⟨s.records, hscan, ?_, ?_⟩
  · intro w centre t
    constructor
    · intro hsome
      by_cases hex : ∃ r ∈ runs, r.Begun cutoff ∧ w = windowKey r.window
      · obtain ⟨r, hr, hb, rfl⟩ := hex
        rw [hbegun r hr hb] at hsome
        exact ⟨r, hr, rfl, (beginsSurvives_iff r).2 hb, record_isSome.1 hsome⟩
      · rw [hnone w centre t fun r hr hb hw => hex ⟨r, hr, hb, hw⟩] at hsome
        cases hsome
    · rintro ⟨r, hr, rfl, hsurvives, hlogged⟩
      rw [hbegun r hr ((beginsSurvives_iff r).1 hsurvives)]
      exact record_isSome.2 hlogged
  · intro r hr centre t record hrec
    by_cases hb : r.Begun cutoff
    · rw [hbegun r hr hb] at hrec
      exact record_counts (hread r hr) (hpairs r hr) hrec
    · have hkey : ∀ r' ∈ runs, r'.Begun cutoff → windowKey r.window ≠ windowKey r'.window := by
        intro r' hr' hb' hw
        refine hb ?_
        have hnodup : (runs.map LoggedRun.window).Nodup := List.pairwise_map.2 hwindows
        have hsame : r' = r := List.inj_on_of_nodup_map hnodup hr' hr (windowKey_injective hw).symm
        rw [← hsame]
        exact hb'
      rw [hnone _ centre t hkey] at hrec
      cases hrec

/-! ## A cycle cut in two -/

/-- The times and numbers of two cycles. -/
def reportTables : Tables :=
  { sampleTables with
    times := [("2024-01-01T00:00:00+00:00", ⟨newYear, some 0⟩),
      ("2024-01-01T00:05:00+00:00", ⟨newYear + 300, some 0⟩),
      ("2024-01-01T00:10:00+00:00", ⟨newYear + 600, some 0⟩)]
    isos := [(newYear, "2024-01-01T00:00:00Z"), (newYear + 300, "2024-01-01T00:05:00Z"),
      (newYear + 600, "2024-01-01T00:10:00Z")]
    ints := [("0", 0), ("1", 1)] }

/-- A keyspace with one message, in the baseline and in what the replay service returned. -/
def reportDb : Db := fun key =>
  if key = topicKey "cache/a/wis2/#" ∨ key = syncKey "ca-eccc-msc-global-replay" "cache/a/wis2/#" then
    some ⟨.zset (Dict.empty.set "m" ((newYear : ℚ) + 301)), none⟩
  else none

/-- A cycle at some time, in which the asynchronous fetch raises. -/
def reportCycle (now : ℚ) : CycleEnv where
  now := now
  baseline := fun _ => ⟨reportDb, now⟩
  sync := fun _ => .ok ⟨.http, false, false, 20, 1, false, 200, 1⟩
  async := fun _ => .error .valueError
  syncRecount := fun _ => ⟨reportDb, now⟩
  asyncRecount := fun _ => ⟨reportDb, now⟩

/-- The cycle over the first five minutes of the year. -/
def firstRun : LoggedRun where
  cfg := shippedConfig
  env := reportCycle (newYear + 600)
  stamps := [⟨"2024-01-01 00:10:00,000", by decide, by decide +kernel⟩,
    ⟨"2024-01-01 00:10:00,001", by decide, by decide +kernel⟩,
    ⟨"2024-01-01 00:14:45,000", by decide, by decide +kernel⟩,
    ⟨"2024-01-01 00:14:45,001", by decide, by decide +kernel⟩]

/-- The next one. -/
def secondRun : LoggedRun where
  cfg := shippedConfig
  env := reportCycle (newYear + 900)
  stamps := [⟨"2024-01-01 00:15:00,000", by decide, by decide +kernel⟩,
    ⟨"2024-01-01 00:15:00,001", by decide, by decide +kernel⟩,
    ⟨"2024-01-01 00:19:45,000", by decide, by decide +kernel⟩,
    ⟨"2024-01-01 00:19:45,001", by decide, by decide +kernel⟩]

example : firstRun.lines reportTables.lib =
    ["2024-01-01 00:10:00,000 INFO [scgrep.test_cycle] Test period begins: window " ++
      "2024-01-01T00:00:00Z .. 2024-01-01T00:05:00Z\n",
    "2024-01-01 00:10:00,001 INFO [scgrep.test_cycle] Baseline: topic=cache/a/wis2/# messages=0 " ++
      "interval=2024-01-01T00:00:00Z/2024-01-01T00:05:00Z\n",
    "2024-01-01 00:14:45,000 INFO [scgrep.test_cycle] Result: centre_id=ca-eccc-msc-global-replay " ++
      "topic=cache/a/wis2/# protocol=http baseline=0 fetched=0 numberMatched=1 delay_ms=20 aborted=0 " ++
      "invalid_format=0 invalid_numberMatched=0\n",
    "2024-01-01 00:14:45,001 INFO [scgrep.test_cycle] Test period complete: window " ++
      "2024-01-01T00:00:00Z .. 2024-01-01T00:05:00Z\n"] := by decide +kernel

theorem reportCycle_proper (now : ℚ) (cfg : Config) : (reportCycle now).Proper cfg := by
  intro i cell _
  refine ⟨?_, outcomeOf_error _ _⟩
  intro r h
  obtain rfl := Except.ok.inj h
  exact ⟨rfl, fun h => by cases h⟩

theorem report_names : (∀ topic ∈ shippedConfig.subscriptionTopics, Plain topic) ∧
    ∀ target ∈ shippedConfig.replayTargets, Plain target.1 := by
  refine ⟨?_, ?_⟩
  · intro topic h
    obtain rfl := List.mem_singleton.1 h
    exact plain_of (by decide) (by decide)
  · intro target h
    obtain rfl := List.mem_singleton.1 h
    exact plain_of (by decide) (by decide)

theorem firstRun_readable : firstRun.Readable reportTables.lib where
  proper := reportCycle_proper _ _
  iso := ⟨⟨by decide +kernel, by decide +kernel, by decide +kernel⟩,
    ⟨by decide +kernel, by decide +kernel, by decide +kernel⟩⟩
  topics := report_names.1
  centres := report_names.2
  baselines := by decide +kernel
  fetched := by decide +kernel

theorem secondRun_readable : secondRun.Readable reportTables.lib where
  proper := reportCycle_proper _ _
  iso := ⟨⟨by decide +kernel, by decide +kernel, by decide +kernel⟩,
    ⟨by decide +kernel, by decide +kernel, by decide +kernel⟩⟩
  topics := report_names.1
  centres := report_names.2
  baselines := by decide +kernel
  fetched := by decide +kernel

/-- A file without other lines. -/
theorem logFile_own (own : List String) : LogFile own own := by
  induction own with
  | nil => exact .nil
  | cons line own ih => exact .own line ih

/-- The log of the two cycles. -/
def reportFile : List String :=
  "2024-01-01 00:09:00,000 INFO [scgrep] Writing logs to scgrep.log (flushed every 60s)\n" ::
    [firstRun, secondRun].flatMap (LoggedRun.lines reportTables.lib)

/-- The result that the second cycle logs. -/
def secondResult : CellResult :=
  let cell : Cell := ⟨"cache/a/wis2/#", "ca-eccc-msc-global-replay", "https://wis2-grep.weather.gc.ca"⟩
  ⟨cell, recount secondRun.window ⟨reportDb, newYear + 900⟩ cell ⟨.http, false, false, 20, 1, false, 200, 1⟩⟩

theorem secondRun_results : secondRun.env.results secondRun.cfg = [secondResult] := rfl

theorem secondRun_logs : secondRun.Logs secondResult := by
  have hget : (secondRun.logged.map Prod.snd)[2]? = some (.result secondResult) := rfl
  exact List.mem_of_getElem? hget

theorem scan_summary_sample : ∃ records,
    scanSummary reportTables.lib "cache" (purgeLines "2024-01-01 00:12:00" true reportFile) = .ok records ∧
      records.get? ((newYear, newYear + 300), "ca-eccc-msc-global-replay", "cache/a/wis2/#") = none ∧
      records.get? ((newYear + 300, newYear + 600), "ca-eccc-msc-global-replay", "cache/a/wis2/#") =
        some ⟨1, 1, 0⟩ := by
  have hread : ∀ r ∈ [firstRun, secondRun], r.Readable reportTables.lib := by
    intro r hr
    rcases List.mem_cons.1 hr with rfl | hr
    · exact firstRun_readable
    · obtain rfl := List.mem_singleton.1 hr
      exact secondRun_readable
  have hpairs : ∀ r ∈ [firstRun, secondRun],
      (r.cfg.cells.map fun cell => (cell.centreId, cell.topic)).Nodup := by decide
  have hwindows : [firstRun, secondRun].Pairwise fun r r' => r.window ≠ r'.window := by decide +kernel
  have hsorted : ([firstRun, secondRun].flatMap LoggedRun.seconds).Pairwise
      fun a b => Text.le a b = true := by decide +kernel
  have hfile : LogFile ([firstRun, secondRun].flatMap (LoggedRun.lines reportTables.lib)) reportFile :=
    .other _ (by decide +kernel) (by decide +kernel) (logFile_own _)
  obtain ⟨records, hscan, hkeys, hcounts⟩ := scan_summary_exact hread hpairs hwindows hsorted hfile
    "2024-01-01 00:12:00" "cache"
  have hsecond : windowKey secondRun.window = ((newYear : ℚ) + 300, (newYear : ℚ) + 600) := by decide +kernel
  refine ⟨records, hscan, ?_, ?_⟩
  · cases hrec : records.get? ((newYear, newYear + 300), "ca-eccc-msc-global-replay", "cache/a/wis2/#") with
    | none => rfl
    | some record =>
      obtain ⟨r, hr, hw, hs, -⟩ := (hkeys _ _ _).1 (Option.isSome_iff_exists.2 ⟨record, hrec⟩)
      rcases List.mem_cons.1 hr with rfl | hr
      · obtain ⟨q, hq, hle⟩ := (beginsSurvives_iff _).1 hs
        obtain rfl := Option.some.inj hq
        exact absurd hle (by decide +kernel)
      · obtain rfl := List.mem_singleton.1 hr
        rw [hsecond] at hw
        exact absurd hw (by decide +kernel)
  · have hlogs : secondRun.Logs secondResult := secondRun_logs
    have hbegins : secondRun.BeginsSurvives reportTables.lib "2024-01-01 00:12:00" :=
      (beginsSurvives_iff _).2 ⟨_, rfl, by decide +kernel⟩
    obtain ⟨record, hrec⟩ := Option.isSome_iff_exists.1 ((hkeys _ _ _).2
      ⟨secondRun, by simp, hsecond, hbegins, by decide +kernel, secondResult, hlogs, rfl, rfl⟩)
    have hrec' := hrec
    rw [← hsecond] at hrec'
    obtain ⟨hbase, hvalues⟩ := hcounts secondRun (by simp) _ _ record hrec'
    have hhttp := (hvalues .http).1 secondResult hlogs rfl rfl rfl
    have hmqtt : record.mqtt = 0 := by
      refine (hvalues .mqtt).2 fun x hx _ _ hp => ?_
      have hmem := hx.mem_results
      rw [secondRun_results, List.mem_singleton] at hmem
      rw [hmem] at hp
      cases hp
    have hone : (secondRun.env.baselineOf secondRun.cfg "cache/a/wis2/#" : ℤ) = 1 ∧
        secondResult.result.messagesFetched = 1 := by decide +kernel
    have hhttp' : record.http = 1 := hhttp.trans hone.2
    refine hrec.trans ?_
    obtain ⟨b, h, m⟩ := record
    obtain rfl : b = 1 := hbase.trans hone.1
    obtain rfl : h = 1 := hhttp'
    obtain rfl : m = 0 := hmqtt
    rfl

end Scgrep
