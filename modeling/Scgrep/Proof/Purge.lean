import Mathlib.Data.List.Count
import Mathlib.Logic.Function.Basic
import Scgrep.Spec.Purge

/-!
# Purging a live log

* `count_purgeLines`: the loop keeps every line with a recent timestamp.
* `PurgeInv`: what the file at the log path and the temporary file hold, phase by
  phase (`purgeInv_step`, `purgeInv_run`).
* `purge_keeps_iff`: **no recent line is lost exactly when none is emitted between the
  last read of `purge` and its `os.replace`.**
-/

namespace Scgrep

variable {cutoff : String}

/-! ## The loop -/

/-- A line with a timestamp at or after the cutoff. -/
def Recent (cutoff line : String) : Prop := ∃ ts, timestamp line = some ts ∧ Text.le cutoff ts = true

theorem keepLine_recent {line : String} (h : Recent cutoff line) (keep : Bool) :
    keepLine cutoff keep line = true := by
  obtain ⟨ts, hts, hle⟩ := h
  unfold keepLine
  rw [hts]
  exact hle

/-- The decision after some lines. -/
def lastKeep (cutoff : String) (keep : Bool) (lines : List String) : Bool :=
  lines.foldl (keepLine cutoff) keep

theorem purgeLines_cons (keep : Bool) (line : String) (lines : List String) :
    purgeLines cutoff keep (line :: lines) =
      if keepLine cutoff keep line then line :: purgeLines cutoff (keepLine cutoff keep line) lines
      else purgeLines cutoff (keepLine cutoff keep line) lines := by
  conv_lhs => unfold purgeLines

theorem purgeLines_append (lines lines' : List String) : ∀ keep : Bool,
    purgeLines cutoff keep (lines ++ lines') =
      purgeLines cutoff keep lines ++ purgeLines cutoff (lastKeep cutoff keep lines) lines' := by
  induction lines with
  | nil => intro keep; rfl
  | cons line lines ih =>
    intro keep
    rw [List.cons_append, purgeLines_cons, purgeLines_cons, ih]
    split
    · rw [List.cons_append]; rfl
    · rfl

/-- **The loop keeps every recent line.** -/
theorem count_purgeLines {line : String} (h : Recent cutoff line) (lines : List String) :
    ∀ keep : Bool, (purgeLines cutoff keep lines).count line = lines.count line := by
  induction lines with
  | nil => intro keep; rfl
  | cons x lines ih =>
    intro keep
    rw [purgeLines_cons]
    by_cases hx : x = line
    · subst hx
      rw [if_pos (keepLine_recent h keep), List.count_cons_self, List.count_cons_self, ih]
    · rw [List.count_cons_of_ne hx]
      split
      · rw [List.count_cons_of_ne hx, ih]
      · exact ih _

/-! ## Runs -/

/-- The lines that the service emits. -/
def emitted (es : List LogEvent) : List String :=
  es.filterMap fun e =>
    match e with
    | .emit line => some line
    | _ => none

theorem emitted_append (es es' : List LogEvent) : emitted (es ++ es') = emitted es ++ emitted es' :=
  List.filterMap_append

theorem emitted_cons_step {e : LogEvent} (h : ∀ line, e ≠ .emit line) (es : List LogEvent) :
    emitted (e :: es) = emitted es := by
  cases e with
  | emit line => exact absurd rfl (h line)
  | _ => rfl

/-- The lines emitted between the last read and the replacement. -/
def emittedInGap (es : List LogEvent) : List String :=
  emitted ((es.dropWhile (· ≠ .endOfFile)).takeWhile (· ≠ .replace))

theorem LogState.run_append (tmp : ℕ) (es es' : List LogEvent) : ∀ s : LogState,
    LogState.run cutoff tmp (es ++ es') s =
      (LogState.run cutoff tmp es s).bind (LogState.run cutoff tmp es') := by
  induction es with
  | nil => intro s; rfl
  | cons e es ih =>
    intro s
    change (s.step cutoff tmp e).bind (LogState.run cutoff tmp (es ++ es')) =
      ((s.step cutoff tmp e).bind (LogState.run cutoff tmp es)).bind (LogState.run cutoff tmp es')
    rw [Option.bind_assoc]
    congr 1
    exact funext ih

/-- Before a `purge`: the temporary file will be a new inode. -/
structure Unpurged (tmp : ℕ) (s : LogState) : Prop where
  waiting : s.phase = .waiting
  fresh : s.path ≠ tmp

/-- **What the two files hold**, after the given events, from a file with the lines `init`. -/
inductive PurgeInv (cutoff : String) (tmp : ℕ) (init : List String) : List LogEvent → LogState → Prop where
  | waiting {es s} (hs : s.phase = .waiting) (hpath : s.path ≠ tmp) (hes : .endOfFile ∉ es)
      (hfile : s.file s.path = init ++ emitted es) : PurgeInv cutoff tmp init es s
  | reading {es s} (pos : ℕ) (hpath : s.path ≠ tmp) (hes : .endOfFile ∉ es)
      (hfile : s.file s.path = init ++ emitted es)
      (hs : s.phase = .reading s.path pos (lastKeep cutoff true ((init ++ emitted es).take pos)))
      (htmp : s.file tmp = purgeLines cutoff true ((init ++ emitted es).take pos))
      (hpos : pos ≤ (init ++ emitted es).length) :
      PurgeInv cutoff tmp init es s
  | written {pre gap s} (hpath : s.path ≠ tmp) (hpre : .endOfFile ∉ pre) (hgap : .replace ∉ gap)
      (hs : s.phase = .written) (htmp : s.file tmp = purgeLines cutoff true (init ++ emitted pre)) :
      PurgeInv cutoff tmp init (pre ++ .endOfFile :: gap) s
  | replaced {pre gap post s} (hpath : s.path = tmp) (hpre : .endOfFile ∉ pre) (hgap : .replace ∉ gap)
      (hs : s.phase = .replaced)
      (htmp : s.file tmp = purgeLines cutoff true (init ++ emitted pre) ++ emitted post) :
      PurgeInv cutoff tmp init (pre ++ .endOfFile :: gap ++ .replace :: post) s

/-- An emission appends to the file at the log path, and to no other. -/
theorem emit_file (line : String) (s : LogState) :
    (s.emit line).file = Function.update s.file s.path (s.file s.path ++ [line]) ∧
      (s.emit line).path = s.path ∧ (s.emit line).phase = s.phase := by
  have hh : (if s.handler ≠ s.path then s.path else s.handler) = s.path := by
    split
    · rfl
    · rename_i h; exact not_not.1 h
  unfold LogState.emit
  simp only [hh, and_self]

theorem purgeInv_emit {tmp : ℕ} {init : List String} {es : List LogEvent} {s : LogState}
    (h : PurgeInv cutoff tmp init es s) (line : String) :
    PurgeInv cutoff tmp init (es ++ [.emit line]) (s.emit line) := by
  obtain ⟨hfile', hpath', hphase'⟩ := emit_file line s
  have hnot : LogEvent.endOfFile ∉ es → LogEvent.endOfFile ∉ es ++ [.emit line] := by simp
  have hem : emitted (es ++ [.emit line]) = emitted es ++ [line] := emitted_append _ _
  cases h with
  | waiting hs hpath hes hfile =>
    refine .waiting (by rw [hphase', hs]) (by rw [hpath']; exact hpath) (hnot hes) ?_
    rw [hpath', hfile', Function.update_self, hfile, hem, List.append_assoc]
  | reading pos hpath hes hfile hs htmp hpos =>
    have htake : ∀ {n}, n ≤ (init ++ emitted es).length →
        (init ++ emitted (es ++ [.emit line])).take n = (init ++ emitted es).take n := by
      intro n hn
      rw [hem, ← List.append_assoc, List.take_append_of_le_length hn]
    refine .reading pos (by rw [hpath']; exact hpath) (hnot hes) ?_ ?_ ?_ ?_
    · rw [hpath', hfile', Function.update_self, hfile, hem, List.append_assoc]
    · rw [hphase', hpath', htake hpos]; exact hs
    · rw [hfile', Function.update_of_ne (Ne.symm hpath), htake hpos]; exact htmp
    · rw [hem, ← List.append_assoc, List.length_append]
      exact Nat.le_add_right_of_le hpos
  | written hpath hpre hgap hs htmp =>
    rw [List.append_assoc, List.cons_append]
    refine .written (by rw [hpath']; exact hpath) hpre (by simpa using hgap) (by rw [hphase', hs]) ?_
    rw [hfile', Function.update_of_ne (Ne.symm hpath), htmp]
  | replaced hpath hpre hgap hs htmp =>
    rw [List.append_assoc, List.cons_append]
    refine .replaced (by rw [hpath', hpath]) hpre hgap (by rw [hphase', hs]) ?_
    rw [hfile', hpath, Function.update_self, htmp, emitted_append, List.append_assoc]
    rfl

theorem emitted_snoc_step {e : LogEvent} (h : ∀ line, e ≠ .emit line) (es : List LogEvent) :
    emitted (es ++ [e]) = emitted es := by
  rw [emitted_append, emitted_cons_step h]
  exact List.append_nil _

section Steps

variable {tmp : ℕ} {init : List String} {es : List LogEvent} {s s' : LogState}

/-- Opening the log: nothing is read yet, and the temporary file is empty. -/
theorem purgeInv_openLog (h : PurgeInv cutoff tmp init es s) (hstep : s.step cutoff tmp .openLog = some s') :
    PurgeInv cutoff tmp init (es ++ [.openLog]) s' := by
  have hem := emitted_snoc_step (e := .openLog) (by simp) es
  unfold LogState.step at hstep
  cases h with
  | waiting hs hpath hes hfile =>
    simp only [hs, Option.some.injEq] at hstep
    subst hstep
    refine .reading 0 hpath (by simpa using hes) ?_ rfl ?_ (Nat.zero_le _)
    · dsimp only
      rw [Function.update_of_ne hpath, hfile, hem]
    · exact Function.update_self ..
  | reading pos hpath hes hfile hs htmp hpos => simp [hs] at hstep
  | written hpath hpre hgap hs htmp => simp [hs] at hstep
  | replaced hpath hpre hgap hs htmp => simp [hs] at hstep

/-- Reading a line: it goes to the temporary file with the decision that the loop makes for it. -/
theorem purgeInv_readLine (h : PurgeInv cutoff tmp init es s)
    (hstep : s.step cutoff tmp .readLine = some s') :
    PurgeInv cutoff tmp init (es ++ [.readLine]) s' := by
  have hem := emitted_snoc_step (e := .readLine) (by simp) es
  unfold LogState.step at hstep
  cases h with
  | waiting hs hpath hes hfile => simp [hs] at hstep
  | written hpath hpre hgap hs htmp => simp [hs] at hstep
  | replaced hpath hpre hgap hs htmp => simp [hs] at hstep
  | reading pos hpath hes hfile hs htmp hpos =>
    simp only [hs, hfile] at hstep
    cases hline : (init ++ emitted es)[pos]? with
    | none => simp [hline] at hstep
    | some line =>
      simp only [hline, Option.some.injEq] at hstep
      subst hstep
      obtain ⟨hlt, hget⟩ := List.getElem?_eq_some_iff.1 hline
      have htake : (init ++ emitted es).take (pos + 1) = (init ++ emitted es).take pos ++ [line] := by
        rw [List.take_succ_eq_append_getElem hlt, hget]
      have hkeep : lastKeep cutoff true ((init ++ emitted es).take (pos + 1)) =
          keepLine cutoff (lastKeep cutoff true ((init ++ emitted es).take pos)) line := by
        unfold lastKeep
        rw [htake, List.foldl_append]
        rfl
      refine .reading (pos + 1) hpath (by simpa using hes) ?_ ?_ ?_ ?_
      · rw [hem]
        dsimp only
        split
        · rw [Function.update_of_ne hpath, hfile]
        · exact hfile
      · rw [hem, hkeep]
      · rw [hem, htake, purgeLines_append, purgeLines_cons]
        dsimp only
        split
        · rw [Function.update_self, htmp]; rfl
        · rw [htmp]; exact (List.append_nil _).symm
      · rw [hem]; exact hlt

/-- The last read: the temporary file has the kept lines of all that there is. -/
theorem purgeInv_endOfFile (h : PurgeInv cutoff tmp init es s)
    (hstep : s.step cutoff tmp .endOfFile = some s') :
    PurgeInv cutoff tmp init (es ++ [.endOfFile]) s' := by
  unfold LogState.step at hstep
  cases h with
  | waiting hs hpath hes hfile => simp [hs] at hstep
  | written hpath hpre hgap hs htmp => simp [hs] at hstep
  | replaced hpath hpre hgap hs htmp => simp [hs] at hstep
  | reading pos hpath hes hfile hs htmp hpos =>
    simp only [hs, hfile] at hstep
    split at hstep
    · rename_i hend
      obtain rfl := Option.some.inj hstep
      rw [List.take_of_length_le hend] at htmp
      have hgap : LogEvent.replace ∉ [] := by simp
      exact .written hpath hes hgap rfl htmp
    · cases hstep

/-- The replacement: the log path names the temporary file. -/
theorem purgeInv_replace (h : PurgeInv cutoff tmp init es s) (hstep : s.step cutoff tmp .replace = some s') :
    PurgeInv cutoff tmp init (es ++ [.replace]) s' := by
  unfold LogState.step at hstep
  cases h with
  | waiting hs hpath hes hfile => simp [hs] at hstep
  | reading pos hpath hes hfile hs htmp hpos => simp [hs] at hstep
  | replaced hpath hpre hgap hs htmp => simp [hs] at hstep
  | @written pre gap _ hpath hpre hgap hs htmp =>
    simp only [hs, Option.some.injEq] at hstep
    subst hstep
    have htmp' : s.file tmp = purgeLines cutoff true (init ++ emitted pre) ++ emitted [] := by
      rw [htmp]
      exact (List.append_nil _).symm
    exact .replaced rfl hpre hgap rfl htmp'

/-- **One step keeps it.** -/
theorem purgeInv_step (h : PurgeInv cutoff tmp init es s) {e : LogEvent}
    (hstep : s.step cutoff tmp e = some s') : PurgeInv cutoff tmp init (es ++ [e]) s' := by
  cases e with
  | emit line =>
    obtain rfl := Option.some.inj hstep
    exact purgeInv_emit h line
  | openLog => exact purgeInv_openLog h hstep
  | readLine => exact purgeInv_readLine h hstep
  | endOfFile => exact purgeInv_endOfFile h hstep
  | replace => exact purgeInv_replace h hstep

end Steps

/-- **A run keeps it.** -/
theorem purgeInv_run {tmp : ℕ} {s₀ : LogState} (h0 : Unpurged tmp s₀) (es : List LogEvent) :
    ∀ {s : LogState}, LogState.run cutoff tmp es s₀ = some s →
      PurgeInv cutoff tmp (s₀.file s₀.path) es s := by
  induction es using List.reverseRecOn with
  | nil =>
    intro s hrun
    obtain rfl := Option.some.inj hrun
    exact .waiting h0.waiting h0.fresh (by simp) (List.append_nil _).symm
  | append_singleton es e ih =>
    intro s hrun
    rw [LogState.run_append] at hrun
    obtain ⟨s', hs', hlast⟩ := Option.bind_eq_some_iff.1 hrun
    change (s'.step cutoff tmp e).bind (LogState.run cutoff tmp []) = some s at hlast
    obtain ⟨s'', hs'', hend⟩ := Option.bind_eq_some_iff.1 hlast
    obtain rfl := Option.some.inj hend
    exact purgeInv_step (ih hs') hs''

/-- The events of a finished `purge`: its last read comes once, and the replacement after it. -/
theorem emittedInGap_eq {pre gap post : List LogEvent} (hpre : .endOfFile ∉ pre) (hgap : .replace ∉ gap) :
    emittedInGap (pre ++ .endOfFile :: gap ++ .replace :: post) = emitted gap := by
  have hdrop : (pre ++ .endOfFile :: gap ++ .replace :: post).dropWhile (· ≠ .endOfFile) =
      .endOfFile :: gap ++ .replace :: post := by
    rw [List.append_assoc, List.dropWhile_append_of_pos]
    · rfl
    · intro e he
      simp only [decide_eq_true_eq]
      rintro rfl
      exact hpre he
  have htake : (.endOfFile :: gap ++ .replace :: post).takeWhile (· ≠ LogEvent.replace) =
      .endOfFile :: gap := by
    rw [List.takeWhile_append_of_pos]
    · simp
    · intro e he
      simp only [decide_eq_true_eq]
      rintro rfl
      rcases List.mem_cons.1 he with he | he
      · cases he
      · exact hgap he
  unfold emittedInGap
  rw [hdrop, htake]
  rfl

/-- **No recent line is lost exactly when none is emitted between the last read and the
replacement**: after every run of the service and of one finished `purge`, each recent line is in
the file at the log path as often as it was there before or has been emitted. -/
theorem purge_keeps_iff {tmp : ℕ} {s₀ s : LogState} (h0 : Unpurged tmp s₀) {es : List LogEvent}
    (hrun : LogState.run cutoff tmp es s₀ = some s) (hdone : s.phase = .replaced) :
    (∀ line, Recent cutoff line →
        (s₀.file s₀.path ++ emitted es).count line ≤ (s.file s.path).count line) ↔
      ∀ line ∈ emittedInGap es, ¬ Recent cutoff line := by
  cases purgeInv_run h0 es hrun with
  | waiting hs hpath hes hfile => rw [hs] at hdone; cases hdone
  | reading pos hpath hes hfile hs htmp hpos => rw [hs] at hdone; cases hdone
  | written hpath hpre hgap hs htmp => rw [hs] at hdone; cases hdone
  | @replaced pre gap post _ hpath hpre hgap hs htmp =>
    have hem : emitted (pre ++ .endOfFile :: gap ++ .replace :: post) =
        emitted pre ++ emitted gap ++ emitted post := by
      rw [emitted_append, emitted_append, emitted_cons_step (by simp), emitted_cons_step (by simp)]
    rw [emittedInGap_eq hpre hgap, hem, hpath, htmp]
    have hcount : ∀ line, Recent cutoff line →
        ((s₀.file s₀.path ++ (emitted pre ++ emitted gap ++ emitted post)).count line ≤
          (purgeLines cutoff true (s₀.file s₀.path ++ emitted pre) ++ emitted post).count line ↔
        (emitted gap).count line = 0) := by
      intro line hline
      simp only [List.count_append, count_purgeLines hline]
      omega
    constructor
    · intro h line hmem hline
      have := (hcount line hline).1 (h line hline)
      rw [List.count_eq_zero] at this
      exact this hmem
    · intro h line hline
      refine (hcount line hline).2 (List.count_eq_zero.2 fun hmem => ?_)
      exact h line hmem hline

/-! ## A line in between -/

/-- A log file with one old line, before a `purge` with the temporary file `1`. -/
def oldLog : LogState where
  file := fun i => if i = 0 then ["2023-12-31 10:00:00,000 INFO [scgrep] old"] else []
  path := 0
  handler := 0
  phase := .waiting

def newYearCutoff : String := "2024-01-01 00:00:00"

def recentLine : String := "2024-01-02 00:00:00,000 INFO [scgrep] recent"

/-- The service emits before the last read. -/
def emitsBefore : List LogEvent :=
  [.openLog, .readLine, .emit recentLine, .readLine, .endOfFile, .replace]

/-- It emits after the last read, into the file that `purge` replaces. -/
def emitsBetween : List LogEvent := [.openLog, .readLine, .endOfFile, .emit recentLine, .replace]

theorem oldLog_unpurged : Unpurged 1 oldLog := ⟨rfl, by decide⟩

/-- What the log path names after a finished run, `none` if the run is none or not finished. -/
def linesAfter (es : List LogEvent) : Option (List String) :=
  (LogState.run newYearCutoff 1 es oldLog).bind fun s =>
    match s.phase with
    | .replaced => some (s.file s.path)
    | _ => none

theorem linesAfter_eq_some {es : List LogEvent} {lines : List String} (h : linesAfter es = some lines) :
    ∃ s, LogState.run newYearCutoff 1 es oldLog = some s ∧ s.phase = .replaced ∧ s.file s.path = lines := by
  obtain ⟨s, hs, hlines⟩ := Option.bind_eq_some_iff.1 h
  refine ⟨s, hs, ?_⟩
  cases hp : s.phase with
  | replaced => simpa [hp] using hlines
  | _ => simp [hp] at hlines

theorem recentLine_recent : Recent newYearCutoff recentLine :=
  ⟨"2024-01-02 00:00:00", by decide +kernel, by decide +kernel⟩

theorem purge_keeps_sample :
    ∃ s, LogState.run newYearCutoff 1 emitsBefore oldLog = some s ∧ recentLine ∈ s.file s.path := by
  obtain ⟨s, hrun, hdone, -⟩ := linesAfter_eq_some
    (show linesAfter emitsBefore = some [recentLine] by decide +kernel)
  refine ⟨s, hrun, ?_⟩
  have hgap : ∀ line ∈ emittedInGap emitsBefore, ¬ Recent newYearCutoff line := by
    rw [show emittedInGap emitsBefore = [] by decide +kernel]
    simp
  have hle := (purge_keeps_iff oldLog_unpurged hrun hdone).2 hgap recentLine recentLine_recent
  have hpos : 0 < (oldLog.file oldLog.path ++ emitted emitsBefore).count recentLine := by decide +kernel
  exact List.count_pos_iff.1 (by omega)

/-- **A recent line is lost**: it is emitted, the purge finishes, and the log does not hold it. -/
theorem purge_loses :
    ¬ ∀ (cutoff : String) (tmp : ℕ) (s₀ s : LogState) (es : List LogEvent), Unpurged tmp s₀ →
      LogState.run cutoff tmp es s₀ = some s → s.phase = .replaced →
      ∀ line ∈ emitted es, Recent cutoff line → line ∈ s.file s.path := by
  intro h
  obtain ⟨s, hrun, hdone, hlines⟩ := linesAfter_eq_some
    (show linesAfter emitsBetween = some [] by decide +kernel)
  have hmem := h newYearCutoff 1 oldLog s emitsBetween oldLog_unpurged hrun hdone recentLine
    (by decide) recentLine_recent
  rw [hlines] at hmem
  cases hmem

end Scgrep
