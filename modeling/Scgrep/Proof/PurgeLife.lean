import Mathlib.Data.List.Chain
import Scgrep.Proof.Cutoffs
import Scgrep.Spec.PurgeLife

/-!
# The log over the life of the service

* `Refines`: the log, its temporary files and the run under way are as the `LogBook` says
  (`refines_step`).
* `Kept`: what a `LogBook` has of what was written (`kept_step`).
* `purge_life`: **every line is in the log, or a run has removed it as old, or it was written
  between the last read of a run and its `os.replace`.**
-/

namespace Scgrep

variable {s : LogLife} {b : LogBook}

/-! ## The loop -/

/-- A line is kept or dropped. -/
theorem purge_perm (cutoff : String) (lines : List String) : ∀ keep : Bool,
    (purgeLines cutoff keep lines ++ droppedLines cutoff keep lines).Perm lines := by
  induction lines with
  | nil => intro keep; unfold purgeLines droppedLines; exact .refl _
  | cons line lines ih =>
    intro keep
    rw [purgeLines_cons]
    unfold droppedLines
    dsimp only
    split
    · exact (ih _).cons line
    · exact List.perm_middle.trans ((ih _).cons line)

/-- A recent line is not dropped. -/
theorem not_mem_dropped {cutoff line : String} (h : Recent cutoff line) (lines : List String) :
    ∀ keep : Bool, line ∉ droppedLines cutoff keep lines := by
  induction lines with
  | nil => intro keep hmem; cases hmem
  | cons x lines ih =>
    intro keep
    unfold droppedLines
    dsimp only
    split
    · exact ih _
    · next hdrop =>
      intro hmem
      rcases List.mem_cons.1 hmem with rfl | hmem
      · exact hdrop (keepLine_recent h keep)
      · exact ih _ hmem

/-! ## Inodes -/

/-- The run under way, its temporary file and how far it is. -/
inductive StageRefines (log : LogState) (content : List String) :
    Option (String × ℕ) → Option PurgeStage → Prop where
  | idle : StageRefines log content none none
  | reading {cutoff : String} {tmp pos : ℕ} (hpos : pos ≤ content.length)
      (hphase : log.phase = .reading log.path pos (lastKeep cutoff true (content.take pos)))
      (htmp : log.file tmp = purgeLines cutoff true (content.take pos)) :
      StageRefines log content (some (cutoff, tmp)) (some (.reading cutoff pos))
  | copied {cutoff : String} {tmp : ℕ} {source gap : List String} (hphase : log.phase = .written)
      (htmp : log.file tmp = purgeLines cutoff true source) :
      StageRefines log content (some (cutoff, tmp)) (some (.copied cutoff source gap))

/-- **The log is as the book says.** The temporary files are others than the log. -/
structure Refines (s : LogLife) (b : LogBook) : Prop where
  content : s.log.file s.log.path = b.content
  stage : StageRefines s.log b.content s.purging b.stage
  temps : ∀ tmp ∈ s.temps, tmp ≠ s.log.path ∧ tmp < s.fresh
  nodup : s.temps.Nodup
  own : ∀ run ∈ s.purging, run.2 ∈ s.temps
  path : s.log.path < s.fresh

theorem refines_emit (h : Refines s b) (line : String) : Refines (s.step (.emit line)) (b.step (.emit line)) := by
  obtain ⟨hfile, hpath, hphase⟩ := emit_file line s.log
  have hstage : StageRefines (s.log.emit line) (b.content ++ [line]) s.purging (b.step (.emit line)).stage := by
    have hown := h.own
    have hst := h.stage
    unfold LogBook.step
    generalize s.purging = purging at hst hown
    generalize b.stage = stage at hst
    have htmp : ∀ {cutoff tmp}, purging = some (cutoff, tmp) → (s.log.emit line).file tmp = s.log.file tmp := by
      intro cutoff tmp hp
      have hne := (h.temps tmp (hown (cutoff, tmp) hp)).1
      rw [hfile, Function.update_of_ne hne]
    cases hst with
    | idle => exact .idle
    | reading hpos hph ht =>
      refine .reading (by rw [List.length_append]; exact Nat.le_add_right_of_le hpos) ?_ ?_
      · rw [hphase, hpath, hph, List.take_append_of_le_length hpos]
      · rw [htmp rfl, ht, List.take_append_of_le_length hpos]
    | copied hph ht => exact .copied (hphase.trans hph) ((htmp rfl).trans ht)
  have hcontent : (s.log.emit line).file (s.log.emit line).path = b.content ++ [line] := by
    rw [hpath, hfile, Function.update_self, h.content]
  exact ⟨hcontent, hstage, fun tmp ht => by rw [LogLife.step, hpath]; exact h.temps tmp ht, h.nodup, h.own,
    by rw [LogLife.step, hpath]; exact h.path⟩

theorem refines_begin (h : Refines s b) (cutoff : String) :
    Refines (s.step (.begin cutoff)) (b.step (.begin cutoff)) := by
  have hst := h.stage
  have hown := h.own
  unfold LogLife.step LogBook.step
  dsimp only
  generalize s.purging = purging at hst hown
  generalize hb : b.stage = stage at hst
  cases hst with
  -- only one run at a time
  | reading hpos hph ht => exact h
  | copied hph ht => exact h
  | idle =>
    have hne : s.fresh ≠ s.log.path := (ne_of_lt h.path).symm
    have hnotin : s.fresh ∉ s.temps := fun hmem => absurd (h.temps _ hmem).2 (lt_irrefl _)
    refine ⟨?_, ?_, ?_, List.nodup_cons.2 ⟨hnotin, h.nodup⟩, ?_, Nat.lt_succ_of_lt h.path⟩
    · change Function.update s.log.file s.fresh [] s.log.path = b.content
      rw [Function.update_of_ne hne.symm, h.content]
    · refine .reading (Nat.zero_le _) rfl ?_
      exact Function.update_self ..
    · intro tmp hmem
      rcases List.mem_cons.1 hmem with rfl | hmem
      · exact ⟨hne, Nat.lt_succ_self _⟩
      · exact ⟨(h.temps tmp hmem).1, Nat.lt_succ_of_lt (h.temps tmp hmem).2⟩
    · rintro _ ⟨⟩
      exact List.mem_cons_self

theorem refines_readLine (h : Refines s b) : Refines (s.step .readLine) (b.step .readLine) := by
  have hst := h.stage
  have hown := h.own
  unfold LogLife.step LogLife.purge LogBook.step
  dsimp only
  generalize hpurging : s.purging = purging at hst hown
  generalize hb : b.stage = stage at hst
  cases hst with
  | idle => exact h
  | @copied cutoff tmp source gap hphase htmp =>
    have hstep : s.log.step cutoff tmp .readLine = none := by
      unfold LogState.step
      rw [hphase]
    dsimp only
    rw [hstep, ← hpurging]
    exact h
  | @reading cutoff tmp pos hpos hphase htmp =>
    have hne := (h.temps tmp (hown (cutoff, tmp) rfl)).1
    dsimp only
    by_cases hlt : pos < b.content.length
    · have hline : b.content[pos]? = some b.content[pos] := List.getElem?_eq_getElem hlt
      have htake : b.content.take (pos + 1) = b.content.take pos ++ [b.content[pos]] :=
        List.take_succ_eq_append_getElem hlt
      have hkeep : lastKeep cutoff true (b.content.take (pos + 1)) =
          keepLine cutoff (lastKeep cutoff true (b.content.take pos)) b.content[pos] := by
        rw [htake, lastKeep_snoc]
      have hlines := @purgeLines_snoc cutoff true (b.content.take pos) b.content[pos]
      rw [← htake, hkeep] at hlines
      have hstep : s.log.step cutoff tmp .readLine = some { s.log with
          file := if keepLine cutoff (lastKeep cutoff true (b.content.take pos)) b.content[pos] then
            Function.update s.log.file tmp (s.log.file tmp ++ [b.content[pos]]) else s.log.file
          phase := .reading s.log.path (pos + 1)
            (keepLine cutoff (lastKeep cutoff true (b.content.take pos)) b.content[pos]) } := by
        unfold LogState.step
        rw [hphase]
        dsimp only
        rw [h.content, hline]
      rw [hstep, if_pos hlt]
      refine ⟨?_, ?_, h.temps, h.nodup, ?_, h.path⟩
      · change (if _ then _ else s.log.file) s.log.path = b.content
        split
        · rw [Function.update_of_ne hne.symm, h.content]
        · exact h.content
      · refine .reading hlt (by rw [hkeep]; rfl) ?_
        change (if _ then _ else s.log.file) tmp = _
        rw [hlines]
        split
        · rw [Function.update_self, htmp]
        · rw [List.append_nil, htmp]
      · exact hown
    · have hnone : b.content[pos]? = none := List.getElem?_eq_none (not_lt.1 hlt)
      have hstep : s.log.step cutoff tmp .readLine = none := by
        unfold LogState.step
        rw [hphase]
        dsimp only
        rw [h.content, hnone]
      rw [hstep, if_neg hlt, ← hpurging]
      exact h

theorem refines_endOfFile (h : Refines s b) : Refines (s.step .endOfFile) (b.step .endOfFile) := by
  have hst := h.stage
  have hown := h.own
  unfold LogLife.step LogLife.purge LogBook.step
  dsimp only
  generalize hpurging : s.purging = purging at hst hown
  generalize hb : b.stage = stage at hst
  cases hst with
  | idle => exact h
  | @copied cutoff tmp source gap hphase htmp =>
    have hstep : s.log.step cutoff tmp .endOfFile = none := by
      unfold LogState.step
      rw [hphase]
    dsimp only
    rw [hstep, ← hpurging]
    exact h
  | @reading cutoff tmp pos hpos hphase htmp =>
    have hstep : s.log.step cutoff tmp .endOfFile =
        if b.content.length ≤ pos then some { s.log with phase := .written } else none := by
      unfold LogState.step
      rw [hphase]
      dsimp only
      rw [h.content]
    dsimp only
    rw [hstep]
    by_cases hend : b.content.length ≤ pos
    · rw [if_pos hend, if_pos hend]
      rw [List.take_of_length_le hend] at htmp
      refine ⟨h.content, ?_, h.temps, h.nodup, ?_, h.path⟩
      · exact .copied rfl htmp
      · exact hown
    · rw [if_neg hend, if_neg hend, ← hpurging]
      exact h

theorem refines_replace (h : Refines s b) : Refines (s.step .replace) (b.step .replace) := by
  have hst := h.stage
  have hown := h.own
  unfold LogLife.step LogBook.step
  dsimp only
  generalize hpurging : s.purging = purging at hst hown
  generalize hb : b.stage = stage at hst
  cases hst with
  | idle => exact h
  | @reading cutoff tmp pos hpos hphase htmp =>
    have hstep : s.log.step cutoff tmp .replace = none := by
      unfold LogState.step
      rw [hphase]
    dsimp only
    rw [hstep]
    exact h
  | @copied cutoff tmp source gap hphase htmp =>
    have hmem := hown (cutoff, tmp) rfl
    have hstep : s.log.step cutoff tmp .replace = some { s.log with path := tmp, phase := .replaced } := by
      unfold LogState.step
      rw [hphase]
    dsimp only
    rw [hstep]
    refine ⟨htmp, .idle, fun tmp' h' => ?_, h.nodup.erase tmp, fun _ hrun => (by cases hrun), (h.temps tmp hmem).2⟩
    obtain ⟨hne, hmem'⟩ := h.nodup.mem_erase_iff.1 h'
    exact ⟨hne, (h.temps tmp' hmem').2⟩

theorem refines_raise (h : Refines s b) : Refines (s.step .raise) (b.step .raise) := by
  have hst := h.stage
  unfold LogLife.step LogBook.step
  dsimp only
  cases hpurging : s.purging with
  | none =>
    rw [hpurging] at hst
    cases hb : b.stage with
    | none =>
      have hbook : ({ b with stage := none } : LogBook) = b := by rw [← hb]
      rw [hbook]
      exact h
    | some stage => rw [hb] at hst; cases hst
  | some run =>
    refine ⟨h.content, .idle, fun tmp' h' => h.temps tmp' (List.mem_of_mem_erase h'), h.nodup.erase _,
      fun _ hrun => (by cases hrun), h.path⟩

theorem refines_kill (h : Refines s b) : Refines (s.step .kill) (b.step .kill) :=
  ⟨h.content, .idle, h.temps, h.nodup, fun _ hrun => (by cases hrun), h.path⟩

/-- **One step.** -/
theorem refines_step (h : Refines s b) (e : LifeEvent) : Refines (s.step e) (b.step e) := by
  cases e with
  | emit line => exact refines_emit h line
  | begin cutoff => exact refines_begin h cutoff
  | readLine => exact refines_readLine h
  | endOfFile => exact refines_endOfFile h
  | replace => exact refines_replace h
  | raise => exact refines_raise h
  | kill => exact refines_kill h

/-- **A run.** -/
theorem refines_run (es : List LifeEvent) : ∀ {s : LogLife} {b : LogBook}, Refines s b →
    Refines (s.run es) (b.run es) := by
  induction es with
  | nil => intro s b h; exact h
  | cons e es ih => intro s b h; exact ih (refines_step h e)

theorem refines_init (lines : List String) : Refines (LogLife.init lines) (LogBook.init lines) := by
  refine ⟨?_, .idle, fun _ h => (by cases h), List.nodup_nil, fun _ h => (by cases h), Nat.zero_lt_one⟩
  change Function.update (fun _ => []) 0 lines 0 = lines
  exact Function.update_self ..

/-! ## What is kept -/

/-- What the service has written. -/
def linesOf (es : List LifeEvent) : List String :=
  es.filterMap fun
    | .emit line => some line
    | _ => none

theorem linesOf_snoc (es : List LifeEvent) (e : LifeEvent) : linesOf (es ++ [e]) = linesOf es ++ linesOf [e] :=
  List.filterMap_append

/-- **What a book has of the lines written.** A line that is recent for every run is not removed. -/
structure Kept (lines : List String) (es : List LifeEvent) (b : LogBook) : Prop where
  sublist : b.content.Sublist (lines ++ linesOf es)
  perm : (b.content ++ b.removed ++ b.lost).Perm (lines ++ linesOf es)
  old : ∀ line, (∀ cutoff, .begin cutoff ∈ es → Recent cutoff line) → line ∉ b.removed
  reading : ∀ cutoff pos, b.stage = some (.reading cutoff pos) → .begin cutoff ∈ es
  copied : ∀ cutoff source gap, b.stage = some (.copied cutoff source gap) →
    .begin cutoff ∈ es ∧ b.content = source ++ gap

variable {lines : List String} {es : List LifeEvent}

theorem kept_init (lines : List String) : Kept lines [] (LogBook.init lines) where
  sublist := by
    rw [show linesOf [] = [] from rfl, List.append_nil]
    exact List.Sublist.refl _
  perm := by
    rw [show linesOf [] = [] from rfl]
    unfold LogBook.init
    simp
  old line h hmem := by cases hmem
  reading cutoff pos h := by cases h
  copied cutoff source gap h := by cases h

/-- What a step says that writes nothing and removes nothing. -/
theorem Kept.move (h : Kept lines es b) {e : LifeEvent} (he : linesOf [e] = []) {stage : Option PurgeStage}
    (hreading : ∀ cutoff pos, stage = some (.reading cutoff pos) → .begin cutoff ∈ es ++ [e])
    (hcopied : ∀ cutoff source gap, stage = some (.copied cutoff source gap) →
      .begin cutoff ∈ es ++ [e] ∧ b.content = source ++ gap) : Kept lines (es ++ [e]) { b with stage } where
  sublist := by
    rw [linesOf_snoc, he, List.append_nil]
    exact h.sublist
  perm := by
    rw [linesOf_snoc, he, List.append_nil]
    exact h.perm
  old line hrecent := h.old line fun cutoff hmem => hrecent cutoff (List.mem_append_left _ hmem)
  reading := hreading
  copied := hcopied

/-- A step without an effect. -/
theorem Kept.stay (h : Kept lines es b) {e : LifeEvent} (he : linesOf [e] = []) : Kept lines (es ++ [e]) b :=
  h.move he (fun cutoff pos hs => List.mem_append_left _ (h.reading cutoff pos hs))
    fun cutoff source gap hs =>
      ⟨List.mem_append_left _ (h.copied cutoff source gap hs).1, (h.copied cutoff source gap hs).2⟩

theorem kept_emit (h : Kept lines es b) (line : String) :
    Kept lines (es ++ [.emit line]) (b.step (.emit line)) := by
  have hlines : lines ++ linesOf (es ++ [.emit line]) = (lines ++ linesOf es) ++ [line] := by
    rw [linesOf_snoc, ← List.append_assoc]
    rfl
  refine ⟨?_, ?_, fun x hrecent => h.old x fun cutoff hmem => hrecent cutoff (List.mem_append_left _ hmem), ?_, ?_⟩
  · rw [hlines]
    exact h.sublist.append_right _
  · rw [hlines]
    change (b.content ++ [line] ++ b.removed ++ b.lost).Perm _
    have hmove : (b.content ++ [line] ++ b.removed ++ b.lost).Perm
        (b.content ++ b.removed ++ b.lost ++ [line]) := by
      simp only [List.append_assoc]
      refine List.Perm.append_left _ ?_
      rw [← List.append_assoc b.removed]
      exact List.perm_append_comm
    exact hmove.trans (h.perm.append_right _)
  · intro cutoff pos hs
    unfold LogBook.step at hs
    dsimp only at hs
    split at hs
    · cases hs
    · exact List.mem_append_left _ (h.reading cutoff pos hs)
  · intro cutoff source gap hs
    unfold LogBook.step at hs ⊢
    dsimp only at hs ⊢
    split at hs
    · next source' gap' hb =>
      cases hs
      obtain ⟨hbegin, hcontent⟩ := h.copied _ _ _ hb
      exact ⟨List.mem_append_left _ hbegin, by rw [hcontent, List.append_assoc]⟩
    · next hno => exact (hno _ _ _ hs).elim

theorem kept_replace (h : Kept lines es b) : Kept lines (es ++ [.replace]) (b.step .replace) := by
  unfold LogBook.step
  dsimp only
  split
  · next cutoff source gap hb =>
    obtain ⟨hbegin, hcontent⟩ := h.copied _ _ _ hb
    have hlines : linesOf (es ++ [LifeEvent.replace]) = linesOf es := by
      rw [linesOf_snoc]
      exact List.append_nil _
    refine ⟨?_, ?_, fun line hrecent hmem => ?_, fun _ _ hs => (by cases hs), fun _ _ _ hs => (by cases hs)⟩
    · rw [hlines]
      have hsource : source.Sublist b.content := by
        rw [hcontent]
        exact List.sublist_append_left _ _
      exact (purgeLines_sublist source true).trans (hsource.trans h.sublist)
    · rw [hlines]
      refine List.Perm.trans ?_ h.perm
      -- the lines of the gap are lost, the others kept or removed
      rw [hcontent, List.perm_iff_count]
      intro line
      have hsplit := (purge_perm cutoff source true).count_eq line
      simp only [List.count_append] at hsplit ⊢
      omega
    · rcases List.mem_append.1 hmem with hmem | hmem
      · exact h.old line (fun cutoff hc => hrecent cutoff (List.mem_append_left _ hc)) hmem
      · exact not_mem_dropped (hrecent cutoff (List.mem_append_left _ hbegin)) source true hmem
  · exact h.stay rfl

/-- **One step.** -/
theorem kept_step (h : Kept lines es b) (e : LifeEvent) : Kept lines (es ++ [e]) (b.step e) := by
  cases e with
  | emit line => exact kept_emit h line
  | replace => exact kept_replace h
  | raise => exact h.move rfl (fun _ _ hs => by cases hs) fun _ _ _ hs => by cases hs
  | kill => exact h.move rfl (fun _ _ hs => by cases hs) fun _ _ _ hs => by cases hs
  | begin cutoff =>
    unfold LogBook.step
    dsimp only
    split
    · exact h.stay rfl
    · refine h.move rfl (fun cutoff' pos hs => ?_) fun _ _ _ hs => (by cases hs)
      cases hs
      exact List.mem_append_right _ List.mem_cons_self
  | readLine =>
    unfold LogBook.step
    dsimp only
    split
    · next cutoff pos hb =>
      split
      · refine h.move rfl (fun cutoff' pos' hs => ?_) fun _ _ _ hs => (by cases hs)
        cases hs
        exact List.mem_append_left _ (h.reading cutoff pos hb)
      · exact h.stay rfl
    · exact h.stay rfl
  | endOfFile =>
    unfold LogBook.step
    dsimp only
    split
    · next cutoff pos hb =>
      split
      · refine h.move rfl (fun _ _ hs => (by cases hs)) fun cutoff' source gap hs => ?_
        cases hs
        exact ⟨List.mem_append_left _ (h.reading cutoff pos hb), (List.append_nil _).symm⟩
      · exact h.stay rfl
    · exact h.stay rfl

theorem kept_run (es' : List LifeEvent) : ∀ {es : List LifeEvent} {b : LogBook}, Kept lines es b →
    Kept lines (es ++ es') (b.run es') := by
  induction es' with
  | nil => intro es b h; rw [List.append_nil]; exact h
  | cons e es' ih =>
    intro es b h
    have := ih (kept_step h e)
    rwa [List.append_assoc] at this

/-- Nothing is written between the last read of a run and its end. -/
def Undisturbed (es : List LifeEvent) : Prop :=
  es.IsChain fun e e' => e = .endOfFile → e' = .replace ∨ e' = .raise ∨ e' = .kill

instance (es : List LifeEvent) : Decidable (Undisturbed es) :=
  inferInstanceAs (Decidable (es.IsChain fun e e' => e = .endOfFile → e' = .replace ∨ e' = .raise ∨ e' = .kill))

/-- A run comes to its end by the end of the file, and nothing has been written since. Before it is
there, nothing is lost. -/
theorem step_beforeEnd {b : LogBook} (hb : ∀ cutoff source gap, b.stage ≠ some (.copied cutoff source gap))
    (e : LifeEvent) : (b.step e).lost = b.lost ∧ ∀ cutoff source gap,
      (b.step e).stage = some (.copied cutoff source gap) → gap = [] ∧ e = .endOfFile := by
  cases e with
  | emit line =>
    refine ⟨rfl, fun cutoff source gap h => ?_⟩
    unfold LogBook.step at h
    dsimp only at h
    split at h
    · next h' => exact absurd h' (hb _ _ _)
    · exact absurd h (hb _ _ _)
  | begin cutoff =>
    unfold LogBook.step
    dsimp only
    split
    · exact ⟨rfl, fun _ _ _ h => absurd h (hb _ _ _)⟩
    · exact ⟨rfl, fun _ _ _ h => (by cases h)⟩
  | readLine =>
    unfold LogBook.step
    dsimp only
    split
    · split
      · exact ⟨rfl, fun _ _ _ h => (by cases h)⟩
      · exact ⟨rfl, fun _ _ _ h => absurd h (hb _ _ _)⟩
    · exact ⟨rfl, fun _ _ _ h => absurd h (hb _ _ _)⟩
  | endOfFile =>
    unfold LogBook.step
    dsimp only
    split
    · split
      · refine ⟨rfl, fun _ _ _ h => ?_⟩
        cases h
        exact ⟨rfl, rfl⟩
      · exact ⟨rfl, fun _ _ _ h => absurd h (hb _ _ _)⟩
    · exact ⟨rfl, fun _ _ _ h => absurd h (hb _ _ _)⟩
  | replace =>
    unfold LogBook.step
    dsimp only
    split
    · next h' => exact absurd h' (hb _ _ _)
    · exact ⟨rfl, fun _ _ _ h => absurd h (hb _ _ _)⟩
  | raise => exact ⟨rfl, fun _ _ _ h => (by cases h)⟩
  | kill => exact ⟨rfl, fun _ _ _ h => (by cases h)⟩

/-- **Then nothing is lost.** -/
theorem lost_nil (lines : List String) (es : List LifeEvent) (hes : Undisturbed es) :
    ((LogBook.init lines).run es).lost = [] ∧ ∀ cutoff source gap,
      ((LogBook.init lines).run es).stage = some (.copied cutoff source gap) →
        gap = [] ∧ es.getLast? = some .endOfFile := by
  induction es using List.reverseRecOn with
  | nil => exact ⟨rfl, fun _ _ _ h => (by cases h)⟩
  | append_singleton es e ih =>
    obtain ⟨hchain, -, hlast⟩ := List.isChain_append.1 hes
    obtain ⟨hlost, hcopied⟩ := ih hchain
    have hrun : (LogBook.init lines).run (es ++ [e]) = ((LogBook.init lines).run es).step e := by
      unfold LogBook.run
      rw [List.foldl_append]
      rfl
    rw [hrun]
    generalize (LogBook.init lines).run es = b at hlost hcopied
    by_cases hb : ∃ cutoff source gap, b.stage = some (.copied cutoff source gap)
    · obtain ⟨cutoff, source, gap, hb⟩ := hb
      obtain ⟨rfl, hend⟩ := hcopied cutoff source gap hb
      -- the run that is at its end is ended
      rcases hlast _ hend e rfl rfl with rfl | rfl | rfl
      · unfold LogBook.step
        dsimp only
        rw [hb]
        exact ⟨List.append_eq_nil_iff.2 ⟨hlost, rfl⟩, fun _ _ _ h => (by cases h)⟩
      · exact ⟨hlost, fun _ _ _ h => (by cases h)⟩
      · exact ⟨hlost, fun _ _ _ h => (by cases h)⟩
    · obtain ⟨hstep, hstage⟩ := step_beforeEnd (fun cutoff source gap h => hb ⟨cutoff, source, gap, h⟩) e
      refine ⟨hstep.trans hlost, fun cutoff source gap h => ?_⟩
      obtain ⟨hgap, rfl⟩ := hstage cutoff source gap h
      exact ⟨hgap, List.getLast?_concat⟩

/-- The temporary file of the run under way. -/
def LogLife.own (s : LogLife) : ℕ := if s.purging.isSome then 1 else 0

/-- A step of `purge` before its end. -/
theorem temps_purge (s : LogLife) (e : LogEvent) : (s.purge e).temps = s.temps ∧ (s.purge e).own = s.own := by
  unfold LogLife.purge LogLife.own
  split
  · next hp => exact ⟨rfl, by rw [hp]⟩
  · exact ⟨rfl, rfl⟩

/-- The temporary file is renamed or unlinked. -/
theorem temps_erase (hown : ∀ run ∈ s.purging, run.2 ∈ s.temps) {cutoff : String} {tmp : ℕ}
    (hp : s.purging = some (cutoff, tmp)) : (s.temps.erase tmp).length + s.own ≤ s.temps.length := by
  have hmem := hown (cutoff, tmp) hp
  have hpos := List.length_pos_of_mem hmem
  unfold LogLife.own
  rw [List.length_erase_of_mem hmem, hp]
  change s.temps.length - 1 + 1 ≤ s.temps.length
  omega

/-- A run leaves a temporary file when it is killed. -/
theorem temps_step (hown : ∀ run ∈ s.purging, run.2 ∈ s.temps) (e : LifeEvent) :
    (s.step e).temps.length + s.own ≤ s.temps.length + (s.step e).own + [e].count .kill := by
  cases e with
  | emit line => exact Nat.le_add_right _ _
  | readLine =>
    change (s.purge .readLine).temps.length + s.own ≤ s.temps.length + (s.purge .readLine).own + 0
    rw [(temps_purge s _).1, (temps_purge s _).2]
    exact le_rfl
  | endOfFile =>
    change (s.purge .endOfFile).temps.length + s.own ≤ s.temps.length + (s.purge .endOfFile).own + 0
    rw [(temps_purge s _).1, (temps_purge s _).2]
    exact le_rfl
  | begin cutoff =>
    unfold LogLife.step
    dsimp only
    split
    · exact Nat.le_add_right _ _
    · next hp =>
      have hnone : s.own = 0 := by
        unfold LogLife.own
        rw [hp]
        rfl
      rw [hnone]
      exact Nat.le_refl _
  | replace =>
    unfold LogLife.step
    dsimp only
    split
    · next hp =>
      split
      · exact (temps_erase hown hp).trans (Nat.le_add_right _ _)
      · exact Nat.le_add_right _ _
    · exact Nat.le_add_right _ _
  | raise =>
    unfold LogLife.step
    dsimp only
    split
    · next hp => exact (temps_erase hown hp).trans (Nat.le_add_right _ _)
    · exact Nat.le_add_right _ _
  | kill =>
    have hle : s.own ≤ 1 := by
      unfold LogLife.own
      split
      · exact Nat.le_refl _
      · exact Nat.zero_le _
    exact Nat.add_le_add_left hle _

theorem temps_run (es : List LifeEvent) : ∀ {s : LogLife} {b : LogBook}, Refines s b →
    (s.run es).temps.length + s.own ≤ s.temps.length + (s.run es).own + es.count .kill := by
  induction es with
  | nil => intro s b h; exact Nat.le_refl _
  | cons e es ih =>
    intro s b h
    have hstep := temps_step h.own e
    have hrest := ih (refines_step h e)
    have hcount : (e :: es).count .kill = [e].count .kill + es.count .kill := by
      rw [← List.count_append]
      rfl
    change ((s.step e).run es).temps.length + s.own ≤ s.temps.length + ((s.step e).run es).own + _
    omega

/-- **The log of a service, whatever happens to the runs of `purge`.** Its lines are lines that were
written, in their order. Every line that was written is in the log, or a completed run has read and removed
it, or it was written between the last read of a completed run and its replacement; a line that is recent
for every run is never removed. A run that fails changes nothing. No temporary file is the log, and there are
no more of them than runs that were killed, but for one under way. -/
theorem purge_life (lines : List String) (es : List LifeEvent) :
    let s := (LogLife.init lines).run es
    let b := (LogBook.init lines).run es
    s.log.file s.log.path = b.content ∧ b.content.Sublist (lines ++ linesOf es) ∧
      (b.content ++ b.removed ++ b.lost).Perm (lines ++ linesOf es) ∧
      (∀ line, (∀ cutoff, .begin cutoff ∈ es → Recent cutoff line) → line ∉ b.removed) ∧
      (Undisturbed es → b.lost = []) ∧ (∀ tmp ∈ s.temps, tmp ≠ s.log.path) ∧
      s.temps.length ≤ es.count .kill + s.own := by
  intro s b
  have hrefines : Refines s b := refines_run es (refines_init lines)
  have hkept : Kept lines es b := kept_run es (kept_init lines)
  have htemps : s.temps.length + 0 ≤ 0 + s.own + es.count .kill := temps_run es (refines_init lines)
  exact ⟨hrefines.content, hkept.sublist, hkept.perm, hkept.old, fun h => (lost_nil lines es h).1,
    fun tmp h => (hrefines.temps tmp h).1, by omega⟩

end Scgrep
