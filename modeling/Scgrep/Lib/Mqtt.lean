import Scgrep.Lib.Text

/-!
# MQTT topic filters

Topic names and filters are texts of levels separated by `/`. In a filter `+`
stands for one level and `#`, as the last level, for any number of them, the
parent level included. A leading wildcard does not match a topic that begins
with `$`.

* `matchLevels_prefix`: levels in front of both sides do not change a match.
* `matchLevels_hash`, `matchLevels_exact`: **without `+`, a filter selects the
  topics that start with its levels (when it ends in `#`) or its own name.**
-/

namespace Mqtt

/-- The levels of a topic or of a filter. -/
def levels (s : String) : List String := Text.split '/' s

/-- Level-by-level matching, wildcards allowed at every level. -/
def matchLevels : List String → List String → Bool
  | [], ts => ts.isEmpty
  | f :: fs, ts => (f == "#" && fs.isEmpty) || match ts with
    | [] => false
    | t :: ts => (f == "+" || f == t) && matchLevels fs ts

/-- Whether the filter `sub` selects `topic`. -/
def filterMatches (sub topic : String) : Bool :=
  if Text.startsWith topic "$" then
    match levels sub, levels topic with
    | f :: fs, t :: ts => f == t && matchLevels fs ts
    | _, _ => false
  else matchLevels (levels sub) (levels topic)

theorem levels_ne_nil (s : String) : levels s ≠ [] := Text.split_ne_nil '/' s

/-- `a/b` has the levels of `a`, then those of `b`. -/
theorem levels_join (a b : String) : levels (a ++ "/" ++ b) = levels a ++ levels b :=
  Text.split_append (by simp)

theorem levels_hash (a : String) : levels (a ++ "/#") = levels a ++ ["#"] := by
  have h := levels_join a "#"
  rw [String.append_assoc] at h
  exact h

theorem plus_not_mem {s : String} (h : '+' ∉ s.toList) : "+" ∉ levels s := by
  intro hm
  exact h (Text.mem_of_mem_split hm (by decide))

/-- Levels in front of both sides do not change a match. -/
theorem matchLevels_prefix (l : List String) {fs : List String} (hf : fs ≠ []) (ts : List String) :
    matchLevels (l ++ fs) (l ++ ts) = matchLevels fs ts := by
  induction l with
  | nil => rfl
  | cons x l ih =>
    have : (l ++ fs).isEmpty = false := by simp [hf]
    simp [matchLevels, this, ih]

/-- **A filter `l/#` selects the topics that start with `l`.** -/
theorem matchLevels_hash {l : List String} (hl : "+" ∉ l) (ts : List String) :
    matchLevels (l ++ ["#"]) ts = true ↔ l <+: ts := by
  induction l generalizing ts with
  | nil => simp [matchLevels]
  | cons x l ih =>
    simp only [List.mem_cons, not_or] at hl
    have hx : (x == "+") = false := by simpa using Ne.symm hl.1
    rcases ts with _ | ⟨t, ts⟩
    · simp [matchLevels]
    · simp [matchLevels, hx, ih hl.2, List.cons_prefix_cons]

/-- **A filter without wildcards selects its own name.** -/
theorem matchLevels_exact {l : List String} (hl : "+" ∉ l) (hh : l.getLast? ≠ some "#")
    (ts : List String) : matchLevels l ts = true ↔ ts = l := by
  induction l generalizing ts with
  | nil => simp [matchLevels]
  | cons x l ih =>
    simp only [List.mem_cons, not_or] at hl
    have hx : (x == "+") = false := by simpa using Ne.symm hl.1
    have h1 : (x == "#" && l.isEmpty) = false := by
      rcases l with _ | ⟨y, l⟩
      · simpa using hh
      · simp
    have h2 : l.getLast? ≠ some "#" := by
      rcases l with _ | ⟨y, l⟩
      · simp
      · simpa using hh
    rcases ts with _ | ⟨t, ts⟩
    · simp [matchLevels, h1]
    · simp only [matchLevels, h1, hx, Bool.false_or, Bool.and_eq_true, beq_iff_eq, ih hl.2 h2,
        List.cons.injEq]
      tauto

/-- Only the filter `#` treats topics that begin with `$` differently. -/
theorem filterMatches_eq {sub : String} (hp : '+' ∉ sub.toList) (hs : sub ≠ "#") (topic : String) :
    filterMatches sub topic = matchLevels (levels sub) (levels topic) := by
  unfold filterMatches
  split
  · cases hf : levels sub with
    | nil => exact absurd hf (levels_ne_nil sub)
    | cons f fs =>
      cases ht : levels topic with
      | nil => exact absurd ht (levels_ne_nil topic)
      | cons t ts =>
        have h1 : (f == "+") = false := by
          have := plus_not_mem hp
          rw [hf] at this
          simp only [List.mem_cons, not_or] at this
          simpa using Ne.symm this.1
        have h2 : (f == "#" && fs.isEmpty) = false := by
          by_contra h
          simp only [Bool.not_eq_false, Bool.and_eq_true, beq_iff_eq, List.isEmpty_iff] at h
          obtain ⟨rfl, rfl⟩ := h
          exact hs (Text.split_injective (hf.trans (by decide)))
        simp only [matchLevels, h1, h2, Bool.false_or]
  · rfl

/-- **What a filter without `+` selects**: its own name and, when it ends in `/#`, the
topics that start with the levels before. -/
theorem matchLevels_iff {sub : String} (hp : '+' ∉ sub.toList) (hs : sub ≠ "#") (topic : String) :
    matchLevels (levels sub) (levels topic) = true ↔
      topic = sub ∨ ∃ a, sub = a ++ "/#" ∧ levels a <+: levels topic := by
  have hplus := plus_not_mem hp
  by_cases hl : (levels sub).getLast? = some "#"
  · obtain ⟨l, hl⟩ : ∃ l, levels sub = l ++ ["#"] := by
      obtain ⟨l, hl⟩ := List.getLast?_eq_some_iff.1 hl
      exact ⟨l, hl⟩
    have hne : l ≠ [] := by
      rintro rfl
      exact hs (Text.split_injective (hl.trans (by decide)))
    have hmem : ∀ x ∈ l, '/' ∉ x.toList := fun x hx =>
      Text.not_mem_of_mem_split (s := sub) (by
        have : x ∈ levels sub := by rw [hl]; exact List.mem_append_left _ hx
        exact this)
    have hla : levels (Text.join '/' l) = l := Text.split_join hne hmem
    have hsub : sub = Text.join '/' l ++ "/#" := by
      apply Text.split_injective (c := '/')
      have h2 := levels_hash (Text.join '/' l)
      rw [hla] at h2
      exact hl.trans h2.symm
    rw [hl] at hplus ⊢
    rw [matchLevels_hash (fun h => hplus (List.mem_append_left _ h))]
    constructor
    · intro h; exact Or.inr ⟨_, hsub, by rw [hla]; exact h⟩
    · rintro (rfl | ⟨a, ha, h⟩)
      · rw [hl]; exact List.prefix_append _ _
      · have := String.append_left_inj "/#" |>.1 (hsub.symm.trans ha)
        rw [← this, hla] at h
        exact h
  · rw [matchLevels_exact hplus hl]
    constructor
    · intro h; exact Or.inl (Text.split_injective h)
    · rintro (rfl | ⟨a, rfl, -⟩)
      · rfl
      · exact absurd (by rw [levels_hash]; simp) hl

end Mqtt
