import Scgrep.Proof.Instants
import Scgrep.Proof.Purge

/-!
# Purging twice

* `purgeFile_spec`: the loop of `purge` writes `purgeLines` and counts every line once.
* `purgeLines_twice`: a second purge leaves what one at the later cutoff leaves.
* `cutoffText_le_iff`: the text of a cutoff is compared as its instant.
* `purge_composes`: **purging composes and keeps entries whole.**
-/

namespace Scgrep

open Calendar

variable {cutoff : String}

/-! ## The loop -/

/-- What the loop does over some lines. -/
theorem purgeLoop_run (lines : List String) : ∀ p : PurgeLoop,
    (lines.foldl (PurgeLoop.next cutoff) p).written = p.written ++ purgeLines cutoff p.keep lines ∧
    (lines.foldl (PurgeLoop.next cutoff) p).keep = lastKeep cutoff p.keep lines ∧
    (lines.foldl (PurgeLoop.next cutoff) p).kept + (lines.foldl (PurgeLoop.next cutoff) p).removed =
      p.kept + p.removed + lines.length := by
  induction lines with
  | nil =>
    intro p
    have hnil : purgeLines cutoff p.keep [] = [] := by unfold purgeLines; rfl
    exact ⟨by rw [hnil, List.append_nil]; rfl, rfl, rfl⟩
  | cons line lines ih =>
    intro p
    obtain ⟨h1, h2, h3⟩ := ih (p.next cutoff line)
    rw [List.foldl_cons, h1, h2, h3, purgeLines_cons, List.length_cons]
    unfold PurgeLoop.next lastKeep
    rw [List.foldl_cons]
    by_cases hk : keepLine cutoff p.keep line = true
    · simp only [hk, if_true, List.append_assoc, List.singleton_append, true_and]
      omega
    · simp only [hk, if_false, true_and, Bool.false_eq_true]
      omega

/-- `kept` counts the lines written. -/
theorem purgeLoop_kept (lines : List String) : ∀ p : PurgeLoop, p.kept = p.written.length →
    (lines.foldl (PurgeLoop.next cutoff) p).kept =
      (lines.foldl (PurgeLoop.next cutoff) p).written.length := by
  induction lines with
  | nil => intro p h; exact h
  | cons line lines ih =>
    intro p h
    refine ih _ ?_
    unfold PurgeLoop.next
    dsimp only
    split
    · rw [List.length_append, ← h]
      rfl
    · exact h

/-- **What `purge` does**: it writes the lines that it keeps, and every line is counted. -/
theorem purgeFile_spec (c : ℚ) (lines : List String) :
    (purgeFile c lines).written = purgeLines (cutoffText c) true lines ∧
    (purgeFile c lines).keep = lastKeep (cutoffText c) true lines ∧
    (purgeFile c lines).kept + (purgeFile c lines).removed = lines.length := by
  obtain ⟨h1, h2, h3⟩ := @purgeLoop_run (cutoffText c) lines ⟨[], 0, 0, true⟩
  refine ⟨h1, h2, ?_⟩
  have h3' : (purgeFile c lines).kept + (purgeFile c lines).removed = 0 + 0 + lines.length := h3
  omega

theorem lastKeep_snoc (keep : Bool) (lines : List String) (line : String) :
    lastKeep cutoff keep (lines ++ [line]) = keepLine cutoff (lastKeep cutoff keep lines) line := by
  unfold lastKeep
  rw [List.foldl_append]
  rfl

theorem purgeLines_snoc (keep : Bool) (lines : List String) (line : String) :
    purgeLines cutoff keep (lines ++ [line]) = purgeLines cutoff keep lines ++
      if lastKeep cutoff keep (lines ++ [line]) then [line] else [] := by
  have hnil : ∀ k, purgeLines cutoff k [] = [] := by intro k; unfold purgeLines; rfl
  rw [purgeLines_append, purgeLines_cons, lastKeep_snoc, hnil]

/-- The lines kept, by their places. -/
theorem purgeLines_eq (keep : Bool) (lines : List String) : purgeLines cutoff keep lines =
    (List.range lines.length).filterMap fun i =>
      if lastKeep cutoff keep (lines.take (i + 1)) then lines[i]? else none := by
  induction lines using List.reverseRecOn with
  | nil => unfold purgeLines; rfl
  | append_singleton lines line ih =>
    have hlast : (if lastKeep cutoff keep ((lines ++ [line]).take (lines.length + 1)) then
        (lines ++ [line])[lines.length]? else none).toList =
        if lastKeep cutoff keep (lines ++ [line]) then [line] else [] := by
      rw [List.take_of_length_le (by simp), List.getElem?_concat_length]
      split <;> rfl
    rw [purgeLines_snoc, ih, List.length_append, List.length_singleton, List.range_succ,
      List.filterMap_append, ← hlast]
    congr 1
    -- the decision about an earlier place does not see the last line
    refine List.filterMap_congr fun i hi => ?_
    have hlt := List.mem_range.1 hi
    rw [List.take_append_of_le_length (by omega), List.getElem?_append_left hlt]

theorem purgeLines_sublist (lines : List String) : ∀ keep : Bool,
    (purgeLines cutoff keep lines).Sublist lines := by
  induction lines with
  | nil => intro keep; unfold purgeLines; exact List.Sublist.refl _
  | cons line lines ih =>
    intro keep
    rw [purgeLines_cons]
    split
    · exact (ih _).cons_cons line
    · exact (ih _).cons line

/-- **A second purge**, after one whose decision so far is `k₁`, leaves what a purge at the later
cutoff leaves. -/
theorem purgeLines_twice {c₁ c₂ c : String}
    (hc : ∀ ts, Text.le c ts = (Text.le c₁ ts && Text.le c₂ ts)) (lines : List String) : ∀ k₁ k₂ : Bool,
    purgeLines c₂ k₂ (purgeLines c₁ k₁ lines) = purgeLines c (k₁ && k₂) lines := by
  induction lines with
  | nil => intro k₁ k₂; unfold purgeLines; rfl
  | cons line lines ih =>
    intro k₁ k₂
    have hkeep : keepLine c (k₁ && k₂) line =
        (keepLine c₁ k₁ line && keepLine c₂ k₂ line) := by
      unfold keepLine
      cases timestamp line with
      | none => rfl
      | some ts => exact hc ts
    rw [purgeLines_cons, purgeLines_cons, hkeep]
    by_cases h₁ : keepLine c₁ k₁ line = true
    · rw [if_pos h₁, purgeLines_cons, h₁, Bool.true_and]
      by_cases h₂ : keepLine c₂ k₂ line = true
      · rw [if_pos h₂, if_pos h₂, ih, h₂, Bool.true_and]
      · have h₂' : keepLine c₂ k₂ line = false := Bool.eq_false_iff.2 h₂
        rw [if_neg h₂, if_neg h₂, ih, h₂', Bool.and_false]
    · -- dropped: the second purge does not see the line, and its decision does not matter
      have h₁' : keepLine c₁ k₁ line = false := Bool.eq_false_iff.2 h₁
      rw [if_neg h₁, h₁', Bool.false_and, if_neg Bool.false_ne_true, ih, Bool.false_and]

/-! ## Cutoffs and timestamps -/

/-- The instant has a year of four digits. -/
def FourDigitYear (c : ℚ) : Prop :=
  1000 ≤ (utcStamp ⌊c⌋).date.year ∧ (utcStamp ⌊c⌋).date.year < 10000

instance (c : ℚ) : Decidable (FourDigitYear c) := inferInstanceAs (Decidable (_ ∧ _))

theorem FourDigitYear.seconds {c : ℚ} (h : FourDigitYear c) :
    ((utcStamp ⌊c⌋).seconds : ℤ) = ⌊c⌋ + unixEpoch := by
  refine seconds_utcStamp ?_
  by_contra hneg
  have hzero : (⌊c⌋ + unixEpoch).toNat = 0 := by omega
  have hyear := h.1
  unfold utcStamp at hyear
  rw [hzero] at hyear
  exact absurd hyear (by decide)

/-- **A cutoff is compared as its instant**, to the second. -/
theorem cutoffText_le_iff {c : ℚ} (hc : FourDigitYear c) {t : Stamp} (ht : t.date.year < 10000) :
    Text.le (cutoffText c) (String.ofList (t.text ' ')) = true ↔ ⌊c⌋ ≤ timestampOf t := by
  have hs := hc.seconds
  unfold Text.le cutoffText
  rw [decide_eq_true_iff, String.toList_ofList, String.toList_ofList, Stamp.text_lt_iff ht hc.2]
  unfold timestampOf
  omega

/-- The later of two cutoffs has the later text. -/
theorem cutoffText_max {c₁ c₂ : ℚ} (h₁ : FourDigitYear c₁) (h₂ : FourDigitYear c₂) (ts : String) :
    Text.le (cutoffText (max c₁ c₂)) ts = (Text.le (cutoffText c₁) ts && Text.le (cutoffText c₂) ts) := by
  have key : ∀ {a b : ℚ}, FourDigitYear a → FourDigitYear b → a ≤ b →
      Text.le (cutoffText b) ts = (Text.le (cutoffText a) ts && Text.le (cutoffText b) ts) := by
    intro a b ha hb hab
    -- the texts are in order, as the whole seconds are
    have hle : Text.le (cutoffText a) (cutoffText b) = true := by
      refine (cutoffText_le_iff ha hb.2).2 ?_
      have hs := hb.seconds
      have hfloor := Int.floor_le_floor hab
      unfold timestampOf
      omega
    by_cases h : Text.le (cutoffText b) ts = true
    · rw [h, Text.le_trans hle h]
      rfl
    · rw [Bool.eq_false_iff.2 h, Bool.and_false]
  rcases le_total c₁ c₂ with h | h
  · rw [max_eq_right h]
    exact key h₁ h₂ h
  · rw [max_eq_left h, Bool.and_comm]
    exact key h₂ h₁ h

/-- The timestamp of a line that begins with one. -/
theorem timestamp_of_text {t : Stamp} {line : String} (h : t.text ' ' <+: line.toList) :
    timestamp line = some (String.ofList (t.text ' ')) := by
  obtain ⟨rest, hrest⟩ := h
  have hlen : (t.text ' ').length = timestampShape.length := by
    rw [Stamp.text, List.length_append, List.length_cons, Date.length_text, Stamp.length_timeText]
    rfl
  have hshape : beginsWith timestampShape line.toList = true := by
    have h := beginsWith_text t ' ' []
    rw [List.append_nil] at h
    rw [← hrest]
    exact beginsWith_append rest h
  unfold timestamp
  rw [if_pos hshape, ← hrest, ← hlen, List.take_left]

/-! ## Places -/

/-- Whether the line at a place is kept: the decision of the loop when it has read that far. -/
def KeptAt (c : ℚ) (file : List String) (i : ℕ) : Prop := (purgeFile c (file.take (i + 1))).keep = true

instance (c : ℚ) (file : List String) (i : ℕ) : Decidable (KeptAt c file i) :=
  inferInstanceAs (Decidable (_ = true))

/-- The nearest line with a timestamp before a place. -/
def Heads (file : List String) (j i : ℕ) : Prop :=
  j < i ∧ (∃ line, file[j]? = some line ∧ timestamp line ≠ none) ∧
    ∀ k line, j < k → k < i → file[k]? = some line → timestamp line = none

theorem keptAt_iff {c : ℚ} {file : List String} {i : ℕ} :
    KeptAt c file i ↔ lastKeep (cutoffText c) true (file.take (i + 1)) = true := by
  unfold KeptAt
  rw [(purgeFile_spec c _).2.1]

theorem keptAt_eq {c : ℚ} {file : List String} {i : ℕ} {line : String} (h : file[i]? = some line) :
    KeptAt c file i ↔
      keepLine (cutoffText c) (lastKeep (cutoffText c) true (file.take i)) line = true := by
  have htake : file.take (i + 1) = file.take i ++ [line] := by
    rw [List.take_add_one, h]
    rfl
  rw [keptAt_iff, htake, lastKeep_snoc]

/-- **A line without a timestamp goes with the nearest one before it that has one.** -/
theorem keptAt_untimed {c : ℚ} {file : List String} (i : ℕ) : ∀ {line : String}, file[i]? = some line →
    timestamp line = none → (KeptAt c file i ↔ ∀ j, Heads file j i → KeptAt c file j) := by
  induction i with
  | zero =>
    intro line h hts
    have hkept : KeptAt c file 0 := by
      rw [keptAt_eq h]
      unfold keepLine
      rw [hts]
      rfl
    exact iff_of_true hkept fun j hj => absurd hj.1 (Nat.not_lt_zero j)
  | succ i ih =>
    intro line h hts
    obtain ⟨before, hbefore⟩ : ∃ before, file[i]? = some before := by
      have hlt := (List.getElem?_eq_some_iff.1 h).1
      exact ⟨_, List.getElem?_eq_getElem (Nat.lt_of_succ_lt hlt)⟩
    have hstep : KeptAt c file (i + 1) ↔ KeptAt c file i := by
      rw [keptAt_eq h, keptAt_iff]
      unfold keepLine
      rw [hts]
    rw [hstep]
    by_cases hb : timestamp before = none
    · -- neither has the line before it
      rw [ih hbefore hb]
      have hheads : ∀ j, Heads file j (i + 1) ↔ Heads file j i := by
        intro j
        unfold Heads
        constructor
        · rintro ⟨hj, ⟨l, hl, hlt⟩, hgap⟩
          have hne : j ≠ i := by
            rintro rfl
            rw [hbefore] at hl
            exact hlt (Option.some.inj hl ▸ hb)
          exact ⟨by omega, ⟨l, hl, hlt⟩, fun k l' h1 h2 h3 => hgap k l' h1 (by omega) h3⟩
        · rintro ⟨hj, hl, hgap⟩
          refine ⟨by omega, hl, fun k l' h1 h2 h3 => ?_⟩
          by_cases hk : k = i
          · subst hk
            rw [hbefore] at h3
            exact Option.some.inj h3 ▸ hb
          · exact hgap k l' h1 (by omega) h3
      simp only [hheads]
    · -- the line before it is the nearest
      constructor
      · intro hk j hj
        have hji : j = i := by
          by_contra hne
          have hlt : j < i := by have := hj.1; omega
          exact hb (hj.2.2 i before hlt (Nat.lt_succ_self i) hbefore)
        rw [hji]
        exact hk
      · intro hall
        exact hall i ⟨Nat.lt_succ_self i, ⟨before, hbefore, hb⟩, fun k l h1 h2 _ => by omega⟩

/-- **A line with a timestamp is kept exactly when its instant is not before the cutoff.** -/
theorem keptAt_timed {c : ℚ} (hc : FourDigitYear c) {file : List String} {i : ℕ} {line : String}
    (h : file[i]? = some line) {t : Stamp} (ht : t.date.year < 10000) (hts : t.text ' ' <+: line.toList) :
    KeptAt c file i ↔ ⌊c⌋ ≤ timestampOf t := by
  rw [keptAt_eq h]
  unfold keepLine
  rw [timestamp_of_text hts]
  exact cutoffText_le_iff hc ht

/-- **Purging composes and keeps entries whole.** Purging twice leaves what one purge at the later
cutoff leaves. What a purge writes are the lines at the kept places, in their order: a line without a
timestamp goes with the nearest one before it that has one, and is kept when there is none; a line with
a timestamp is kept exactly when its instant is not before the cutoff, which has whole seconds. And
every line is counted as kept or as removed. -/
theorem purge_composes {c₁ c₂ : ℚ} (h₁ : FourDigitYear c₁) (h₂ : FourDigitYear c₂) (file : List String) :
    (purgeFile c₂ (purgeFile c₁ file).written).written = (purgeFile (max c₁ c₂) file).written ∧
    (purgeFile c₁ file).written.Sublist file ∧
    ((purgeFile c₁ file).written =
      (List.range file.length).filterMap fun i => if KeptAt c₁ file i then file[i]? else none) ∧
    (∀ i line, file[i]? = some line → timestamp line = none →
      (KeptAt c₁ file i ↔ ∀ j, Heads file j i → KeptAt c₁ file j)) ∧
    (∀ i line (t : Stamp), file[i]? = some line → t.date.year < 10000 → t.text ' ' <+: line.toList →
      (KeptAt c₁ file i ↔ ⌊c₁⌋ ≤ timestampOf t)) ∧
    (purgeFile c₁ file).kept = (purgeFile c₁ file).written.length ∧
    (purgeFile c₁ file).kept + (purgeFile c₁ file).removed = file.length := by
  obtain ⟨hwritten, -, hcount⟩ := purgeFile_spec c₁ file
  refine ⟨?_, ?_, ?_, ?_, ?_, ?_, hcount⟩
  · rw [hwritten, (purgeFile_spec c₂ _).1, (purgeFile_spec _ file).1,
      purgeLines_twice (cutoffText_max h₁ h₂), Bool.true_and]
  · rw [hwritten]
    exact purgeLines_sublist file true
  · rw [hwritten, purgeLines_eq]
    refine List.filterMap_congr fun i _ => ?_
    simp only [keptAt_iff]
  · intro i line h hts
    exact keptAt_untimed i h hts
  · intro i line t h ht hts
    exact keptAt_timed h₁ h ht hts
  · exact (purgeLoop_kept file ⟨[], 0, 0, true⟩ rfl)

/-- Two entries of a log, a second apart, the first with a traceback. -/
def twoEntries : List String :=
  ["2024-01-01 00:00:00,000 ERROR [x] a\n", "Traceback (most recent call last):\n",
    "2024-01-01 00:00:01,000 INFO [x] b\n"]

theorem purge_composes_sample :
    (purgeFile newYear (purgeFile (newYear + 1) twoEntries).written).written =
      (purgeFile (max (newYear + 1) newYear) twoEntries).written ∧
    (purgeFile (newYear + 1) twoEntries).written.Sublist twoEntries ∧
    ((purgeFile (newYear + 1) twoEntries).written = (List.range twoEntries.length).filterMap fun i =>
      if KeptAt (newYear + 1) twoEntries i then twoEntries[i]? else none) ∧
    (∀ i line, twoEntries[i]? = some line → timestamp line = none →
      (KeptAt (newYear + 1) twoEntries i ↔
        ∀ j, Heads twoEntries j i → KeptAt (newYear + 1) twoEntries j)) ∧
    (∀ i line (t : Stamp), twoEntries[i]? = some line → t.date.year < 10000 →
      t.text ' ' <+: line.toList →
      (KeptAt (newYear + 1) twoEntries i ↔ ⌊(newYear + 1 : ℚ)⌋ ≤ timestampOf t)) ∧
    (purgeFile (newYear + 1) twoEntries).kept = (purgeFile (newYear + 1) twoEntries).written.length ∧
    (purgeFile (newYear + 1) twoEntries).kept + (purgeFile (newYear + 1) twoEntries).removed =
      twoEntries.length :=
  purge_composes (by decide +kernel) (by decide +kernel) twoEntries

end Scgrep
