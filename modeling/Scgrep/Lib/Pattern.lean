import Scgrep.Lib.Text

/-!
# Searching for a pattern

A pattern is a row of texts and of captured runs, over any alphabet. `search` finds
its leftmost match, with runs as long as the rest of the pattern allows, and gives the
runs.

* `matchHere_text`, `matchHere_run`: a match along the pattern, run by run.
* `search_skip`: nothing matches before the first letter of the pattern.
* `searchLastBy_text`, `searchLastBy_bind`: a text behind any letters is found at its last place.
* `infix_of_search`: what a pattern begins with is in the text that it matches.
* `NoWord`: no word of a text begins in a given way; then no text with such a word is
  in it (`not_infix_of_noWord`).
-/

namespace Pattern

variable {α β : Type*}

/-- A text, or a captured run of one letter or more. -/
inductive Item (α : Type*) where
  | text (w : List α)
  | run (p : α → Bool)

/-- A run and a match of the rest, with the longest run there is one for. -/
def matchRun (p : α → Bool) (rest : List α → Option β) : List α → Option (List α × β)
  | [] => none
  | c :: cs =>
    if p c then
      match matchRun p rest cs with
      | some (run, m) => some (c :: run, m)
      | none => (rest cs).map ([c], ·)
    else none

section Matching

variable [DecidableEq α]

/-- A match at the beginning of a text: the runs. -/
def matchHere : List (Item α) → List α → Option (List (List α))
  | [], _ => some []
  | .text w :: items, l => (w.isPrefixOf? l).bind (matchHere items)
  | .run p :: items, l => (matchRun p (matchHere items) l).map fun m => m.1 :: m.2

/-- The leftmost match in a text. -/
def search (items : List (Item α)) : List α → Option (List (List α))
  | [] => matchHere items []
  | c :: cs => (matchHere items (c :: cs)).or (search items cs)

/-- The leftmost place at which `m` gives something. -/
def searchBy (m : List α → Option β) : List α → Option β
  | [] => m []
  | c :: cs => (m (c :: cs)).or (searchBy m cs)

/-- The rightmost place at which `m` gives something, behind letters for which `p`. -/
def searchLastBy (p : α → Bool) (m : List α → Option β) : List α → Option β
  | [] => m []
  | c :: cs => if p c then (searchLastBy p m cs).or (m (c :: cs)) else m (c :: cs)

end Matching

/-! ## Along the pattern -/

/-- A run that nothing prolongs is captured whole. -/
theorem matchRun_whole {p : α → Bool} {rest : List α → Option β} {m : β} {w l : List α} (hw : w ≠ [])
    (hp : ∀ c ∈ w, p c = true) (hl : l.head?.any p = false) (hm : rest l = some m) :
    matchRun p rest (w ++ l) = some (w, m) := by
  have hend : matchRun p rest l = none := by
    cases l with
    | nil => rfl
    | cons c cs =>
      have hc : p c = false := hl
      unfold matchRun
      rw [hc]
      rfl
  induction w with
  | nil => exact absurd rfl hw
  | cons c w ih =>
    have hc := hp c List.mem_cons_self
    rw [List.cons_append]
    unfold matchRun
    rw [if_pos hc]
    rcases w with _ | ⟨d, w⟩
    · rw [List.nil_append, hend, hm]
      rfl
    · rw [ih (List.cons_ne_nil d w) fun x hx => hp x (List.mem_cons_of_mem _ hx)]

variable [DecidableEq α]

theorem matchHere_text (w : List α) (items : List (Item α)) (l : List α) :
    matchHere (.text w :: items) (w ++ l) = matchHere items l := by
  have hpre : w.isPrefixOf? (w ++ l) = some l := List.isPrefixOf?_eq_some_iff_append_eq.2 rfl
  change (w.isPrefixOf? (w ++ l)).bind (matchHere items) = matchHere items l
  rw [hpre, Option.bind_some]

theorem matchHere_run {p : α → Bool} {items : List (Item α)} {w l : List α} {ms : List (List α)}
    (hw : w ≠ []) (hp : ∀ c ∈ w, p c = true) (hl : l.head?.any p = false)
    (hm : matchHere items l = some ms) : matchHere (.run p :: items) (w ++ l) = some (w :: ms) := by
  unfold matchHere
  rw [matchRun_whole hw hp hl hm]
  rfl

omit [DecidableEq α] in
/-- What begins with some text stops a run that the text stops. -/
theorem head_append {p : α → Bool} {w : List α} (hw : w ≠ []) (hp : w.head?.any p = false)
    (l : List α) : (w ++ l).head?.any p = false := by
  obtain ⟨d, w, rfl⟩ := List.exists_cons_of_ne_nil hw
  exact hp

/-- A run up to the next text of the pattern. -/
theorem matchHere_run_text {p : α → Bool} {items : List (Item α)} {w w' l : List α} {ms : List (List α)}
    (hw : w ≠ []) (hp : ∀ c ∈ w, p c = true) (hw' : w' ≠ []) (hp' : w'.head?.any p = false)
    (hm : matchHere items l = some ms) :
    matchHere (.run p :: .text w' :: items) (w ++ (w' ++ l)) = some (w :: ms) :=
  matchHere_run hw hp (head_append hw' hp' l) ((matchHere_text w' items l).trans hm)

/-! ## Over the text -/

theorem search_of_matchHere {items : List (Item α)} {l : List α} {ms : List (List α)}
    (h : matchHere items l = some ms) : search items l = some ms := by
  cases l with
  | nil => exact h
  | cons c cs =>
    unfold search
    rw [h]
    rfl

/-- A match begins with what the pattern begins with. -/
theorem prefix_of_matchHere {w : List α} {items : List (Item α)} {l : List α} {ms : List (List α)}
    (h : matchHere (.text w :: items) l = some ms) : w <+: l := by
  unfold matchHere at h
  obtain ⟨r, hr, -⟩ := Option.bind_eq_some_iff.1 h
  exact ⟨r, List.isPrefixOf?_eq_some_iff_append_eq.1 hr⟩

/-- **What a pattern begins with** is in the text. -/
theorem infix_of_search {w : List α} {items : List (Item α)} {l : List α} {ms : List (List α)}
    (h : search (.text w :: items) l = some ms) : w <:+: l := by
  induction l with
  | nil => exact (prefix_of_matchHere h).isInfix
  | cons c cs ih =>
    unfold search at h
    rcases Option.or_eq_some_iff.1 h with h | ⟨-, h⟩
    · exact (prefix_of_matchHere h).isInfix
    · exact (ih h).trans (List.suffix_cons c cs).isInfix

/-- **Nothing matches before the first letter of the pattern.** -/
theorem search_skip {c : α} {w : List α} {items : List (Item α)} {pre : List α} (hc : c ∉ pre)
    (l : List α) : search (.text (c :: w) :: items) (pre ++ l) = search (.text (c :: w) :: items) l := by
  induction pre with
  | nil => rfl
  | cons d pre ih =>
    rw [List.mem_cons, not_or] at hc
    have hnone : matchHere (.text (c :: w) :: items) (d :: (pre ++ l)) = none := by
      cases hm : matchHere (.text (c :: w) :: items) (d :: (pre ++ l)) with
      | none => rfl
      | some ms => exact absurd (List.cons_prefix_cons.1 (prefix_of_matchHere hm)).1 hc.1
    rw [List.cons_append]
    conv_lhs => unfold search
    rw [hnone, Option.none_or, ih hc.2]

omit [DecidableEq α] in
theorem searchBy_of {m : List α → Option β} {l : List α} {b : β} (h : m l = some b) :
    searchBy m l = some b := by
  cases l with
  | nil => exact h
  | cons c cs =>
    unfold searchBy
    rw [h]
    rfl

omit [DecidableEq α] in
/-- Nothing is found before the first letter that there can be a match at. -/
theorem searchBy_skip {m : List α → Option β} {c : α} {pre : List α}
    (hm : ∀ d l, d ≠ c → m (d :: l) = none) (hc : c ∉ pre) (l : List α) :
    searchBy m (pre ++ l) = searchBy m l := by
  induction pre with
  | nil => rfl
  | cons d pre ih =>
    rw [List.mem_cons, not_or] at hc
    rw [List.cons_append]
    conv_lhs => unfold searchBy
    rw [hm d _ (Ne.symm hc.1), Option.none_or, ih hc.2]

omit [DecidableEq α] in
theorem searchLastBy_eq_none {p : α → Bool} {m : List α → Option β} {l : List α}
    (h : ∀ r, r <:+ l → m r = none) : searchLastBy p m l = none := by
  induction l with
  | nil => exact h [] (List.suffix_refl [])
  | cons c cs ih =>
    have hcs := ih fun r hr => h r (hr.trans (List.suffix_cons c cs))
    unfold searchLastBy
    rw [hcs, Option.none_or, h _ (List.suffix_refl _), ite_self]

omit [DecidableEq α] in
/-- **The last place** is found, whatever stands before it. -/
theorem searchLastBy_last {p : α → Bool} {m : List α → Option β} {pre l : List α} {c : α} {b : β}
    (hpre : ∀ c ∈ pre, p c = true) (hm : m (c :: l) = some b) (hlast : ∀ r, r <:+ l → m r = none) :
    searchLastBy p m (pre ++ c :: l) = some b := by
  induction pre with
  | nil =>
    rw [List.nil_append]
    unfold searchLastBy
    rw [searchLastBy_eq_none hlast, Option.none_or, hm, ite_self]
  | cons d pre ih =>
    rw [List.cons_append]
    unfold searchLastBy
    rw [if_pos (hpre d List.mem_cons_self), ih fun x hx => hpre x (List.mem_cons_of_mem _ hx)]
    rfl

/-- A pattern does not match where its first text is not. -/
theorem matchHere_eq_none {w : List α} {items : List (Item α)} {l r : List α} (h : ¬ w <:+: l) (hr : r <:+ l) :
    matchHere (.text w :: items) r = none := by
  cases hm : matchHere (.text w :: items) r with
  | none => rfl
  | some ms => exact absurd ((prefix_of_matchHere hm).isInfix.trans hr.isInfix) h

omit [DecidableEq α] in
/-- A text cannot begin among letters that are not its first one. -/
theorem infix_of_head_not_mem {c : α} {v w l : List α} (hc : c ∉ w) (h : c :: v <:+: w ++ l) :
    c :: v <:+: l := by
  induction w with
  | nil => exact h
  | cons d w ih =>
    rw [List.mem_cons, not_or] at hc
    rw [List.cons_append] at h
    rcases List.infix_cons_iff.1 h with hpre | hinf
    · exact absurd (List.cons_prefix_cons.1 hpre).1 hc.1
    · exact ih hc.2 hinf

/-- **The last place of a text** whose first letter it has only once. -/
theorem searchLastBy_text {p : α → Bool} {c : α} {w pre l : List α} {items : List (Item α)}
    {ms : List (List α)} (hhead : w.head? = some c) (htail : c ∉ w.tail) (hpre : ∀ x ∈ pre, p x = true)
    (hm : matchHere items l = some ms) (hlast : ¬ w <:+: l) :
    searchLastBy p (matchHere (.text w :: items)) (pre ++ (w ++ l)) = some ms := by
  obtain ⟨v, rfl⟩ : ∃ v, w = c :: v := ⟨w.tail, List.eq_cons_of_mem_head? hhead⟩
  exact searchLastBy_last hpre ((matchHere_text _ _ _).trans hm) fun _ =>
    matchHere_eq_none fun hinf => hlast (infix_of_head_not_mem htail hinf)

omit [DecidableEq α] in
/-- Nor can one end among letters that are not its last one. -/
theorem infix_of_last_not_mem {c : α} {v w l : List α} (hc : c ∉ w) (h : v ++ [c] <:+: l ++ w) :
    v ++ [c] <:+: l := by
  have hrev : c :: v.reverse <:+: w.reverse ++ l.reverse := by
    have h' := List.reverse_infix.2 h
    rwa [List.reverse_append, List.reverse_append, List.reverse_singleton, List.singleton_append] at h'
  have hl := infix_of_head_not_mem (by rwa [List.mem_reverse]) hrev
  rw [← List.reverse_infix, List.reverse_append, List.reverse_singleton, List.singleton_append]
  exact hl

/-- **The last place of a text** that something stands behind. -/
theorem searchLastBy_bind {p : α → Bool} {k : List α → Option β} {w pre l : List α} {b : β} (hne : w ≠ [])
    (hpre : ∀ x ∈ pre, p x = true) (hk : k l = some b) (hlast : ¬ w <:+: w.tail ++ l) :
    searchLastBy p (fun r => (w.isPrefixOf? r).bind k) (pre ++ (w ++ l)) = some b := by
  cases w with
  | nil => exact absurd rfl hne
  | cons c v =>
    have htext : (c :: v).isPrefixOf? (c :: v ++ l) = some l := List.isPrefixOf?_eq_some_iff_append_eq.2 rfl
    refine searchLastBy_last hpre ?_ fun r hr => ?_
    · change ((c :: v).isPrefixOf? (c :: v ++ l)).bind k = some b
      rw [htext]
      exact hk
    · cases hr' : (c :: v).isPrefixOf? r with
      | none => rfl
      | some rest =>
        have hpre : c :: v <+: r := ⟨rest, List.isPrefixOf?_eq_some_iff_append_eq.1 hr'⟩
        exact absurd (hpre.isInfix.trans hr.isInfix) hlast

theorem searchLastBy_bind_none {p : α → Bool} {k : List α → Option β} {w l : List α} (h : ¬ w <:+: l) :
    searchLastBy p (fun r => (w.isPrefixOf? r).bind k) l = none := by
  refine searchLastBy_eq_none fun r hr => ?_
  cases hr' : w.isPrefixOf? r with
  | none => rfl
  | some rest =>
    have hpre : w <+: r := ⟨rest, List.isPrefixOf?_eq_some_iff_append_eq.1 hr'⟩
    exact absurd (hpre.isInfix.trans hr.isInfix) h

/-! ## Words -/

/-- No word of the text, between separators `s`, begins with `w`. -/
def NoWord (s : α) (w l : List α) : Prop := ∀ word ∈ l.splitOn s, ¬ w <+: word

theorem noWord_append {s : α} {w a b : List α} :
    NoWord s w (a ++ s :: b) ↔ NoWord s w a ∧ NoWord s w b := by
  unfold NoWord
  rw [List.splitOn_append_cons_self, List.forall_mem_append]

theorem noWord_intercalate {s : α} {w : List α} {words : List (List α)} (hne : words ≠ [])
    (hs : ∀ word ∈ words, s ∉ word) :
    NoWord s w ([s].intercalate words) ↔ ∀ word ∈ words, ¬ w <+: word := by
  unfold NoWord
  rw [List.splitOn_intercalate s hs hne]

/-- Nor does one begin with a letter that is not there. -/
theorem noWord_of_head_not_mem {s c : α} {w l : List α} (hc : c ∉ l) : NoWord s (c :: w) l := by
  intro word hword hpre
  exact hc ((Text.mem_splitOn hword).2 (hpre.subset List.mem_cons_self))

/-- A text without a separator is the beginning of a word. -/
theorem exists_word {s : α} {w : List α} (hs : s ∉ w) (b : List α) :
    ∃ word ∈ (w ++ b).splitOn s, w <+: word := by
  have key : ∃ word words, (w ++ b).splitOn s = word :: words ∧ w <+: word := by
    induction w with
    | nil =>
      cases hb : b.splitOn s with
      | nil => exact absurd hb (List.splitOn_ne_nil s b)
      | cons word words => exact ⟨word, words, hb, List.nil_prefix⟩
    | cons c w ih =>
      rw [List.mem_cons, not_or] at hs
      obtain ⟨word, words, hsplit, hpre⟩ := ih hs.2
      have hc : ¬ (c == s) = true := fun h => hs.1 (beq_iff_eq.1 h).symm
      refine ⟨c :: word, words, ?_, List.cons_prefix_cons.2 ⟨rfl, hpre⟩⟩
      rw [List.cons_append, List.splitOn_cons_eq_if_modifyHead, if_neg hc, hsplit, List.modifyHead_cons]
  obtain ⟨word, words, hsplit, hpre⟩ := key
  exact ⟨word, by rw [hsplit]; exact List.mem_cons_self, hpre⟩

/-- **A text without such a word** does not hold one behind a separator. -/
theorem not_infix_of_noWord {s : α} {w l : List α} (hs : s ∉ w) (h : NoWord s w l) :
    ¬ s :: w <:+: l := by
  rintro ⟨a, b, rfl⟩
  rw [List.append_assoc, List.cons_append, noWord_append] at h
  obtain ⟨word, hword, hpre⟩ := exists_word hs b
  exact h.2 word hword hpre

/-- What stands between two separators is a word. -/
theorem mem_splitOn_of_infix {s : α} {w l : List α} (hs : s ∉ w) (h : s :: (w ++ [s]) <:+: l) : w ∈ l.splitOn s := by
  obtain ⟨a, b, rfl⟩ := h
  have htext : a ++ s :: (w ++ [s]) ++ b = a ++ s :: (w ++ s :: b) := by
    simp only [List.append_assoc, List.cons_append, List.nil_append]
  rw [htext, List.splitOn_append_cons_self, List.splitOn_append_cons_self, List.splitOn_eq_singleton hs]
  exact List.mem_append_right _ (List.mem_append_left _ (List.mem_singleton.2 rfl))

end Pattern
