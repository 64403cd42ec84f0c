import Mathlib.Data.List.DropRight
import Mathlib.Data.List.Infix

/-!
# Text functions

The string methods a Python program splits, joins and trims text with, on
`String` through its list of characters: `split` and `join` on one separator
character, `startsWith`, `endsWith`, `rstrip` of one character, `strip` of white
space and `dropEnd`.

* `split_append`: splitting a text at one of its separators.
* `split_injective`: a text is determined by its pieces.
* `split_prefix_iff`: **the pieces of `a` are the first pieces of `b` iff `b` is
  `a` or goes on with a separator after `a`.**
* `strip_strip`: trimmed text is not trimmed again.
-/

namespace Text

/-- `s.split(c)`. -/
def split (c : Char) (s : String) : List String := (s.toList.splitOn c).map String.ofList

/-- `c.join(l)`. -/
def join (c : Char) (l : List String) : String :=
  String.ofList ([c].intercalate (l.map String.toList))

/-- `s.startswith(p)`. -/
def startsWith (s p : String) : Bool := p.toList.isPrefixOf s.toList

/-- `s.endswith(p)`. -/
def endsWith (s p : String) : Bool := p.toList.isSuffixOf s.toList

/-- `s.rstrip(c)` for one character `c`. -/
def rstrip (c : Char) (s : String) : String := String.ofList (s.toList.rdropWhile (· == c))

/-- `s[:-n]`. -/
def dropEnd (n : ℕ) (s : String) : String := String.ofList (s.toList.take (s.toList.length - n))

/-- The characters `str.strip` removes. -/
def isSpace (c : Char) : Bool :=
  let n := c.toNat
  (9 ≤ n && n ≤ 13) || (28 ≤ n && n ≤ 32) || n == 0x85 || n == 0xa0 || n == 0x1680 ||
    (0x2000 ≤ n && n ≤ 0x200a) || n == 0x2028 || n == 0x2029 || n == 0x202f || n == 0x205f ||
    n == 0x3000

/-- `s.strip()`. -/
def strip (s : String) : String :=
  String.ofList ((s.toList.dropWhile isSpace).rdropWhile isSpace)

/-- The zeros of the scripts that have decimal digits. -/
def decimalZeros : List ℕ :=
  [0x30, 0x660, 0x6f0, 0x7c0, 0x966, 0x9e6, 0xa66, 0xae6, 0xb66, 0xbe6, 0xc66, 0xce6, 0xd66,
    0xde6, 0xe50, 0xed0, 0xf20, 0x1040, 0x1090, 0x17e0, 0x1810, 0x1946, 0x19d0, 0x1a80, 0x1a90,
    0x1b50, 0x1bb0, 0x1c40, 0x1c50, 0xa620, 0xa8d0, 0xa900, 0xa9d0, 0xa9f0, 0xaa50, 0xabf0,
    0xff10, 0x104a0, 0x10d30, 0x11066, 0x110f0, 0x11136, 0x111d0, 0x112f0, 0x11450, 0x114d0,
    0x11650, 0x116c0, 0x11730, 0x118e0, 0x11950, 0x11c50, 0x11d50, 0x11da0, 0x11f50, 0x16a60,
    0x16ac0, 0x16b50, 0x1d7ce, 0x1d7d8, 0x1d7e2, 0x1d7ec, 0x1d7f6, 0x1e140, 0x1e2f0, 0x1e4f0,
    0x1e950, 0x1fbf0]

/-- What `\d` matches: ten digits from each zero on. -/
def isDecimal (c : Char) : Bool := decimalZeros.any fun z => z ≤ c.toNat && c.toNat < z + 10

/-- The value of a digit. -/
def decimalValue (c : Char) : ℕ :=
  c.toNat - (decimalZeros.find? fun z => z ≤ c.toNat && c.toNat < z + 10).getD c.toNat

/-- `int` of a row of digits. -/
def decimalInt (l : List Char) : ℕ := l.foldl (fun n c => 10 * n + decimalValue c) 0

/-- `a <= b` of two texts, by their code points. -/
def le (a b : String) : Bool := decide (¬ b.toList < a.toList)

/-- `a < b` of two texts. -/
def lt (a b : String) : Bool := decide (a.toList < b.toList)

/-- `a in b` of two texts. -/
def within (a b : String) : Bool := decide (a.toList <:+: b.toList)

/-! ## Reading the tests -/

theorem startsWith_iff {s p : String} : startsWith s p = true ↔ p.toList <+: s.toList :=
  List.isPrefixOf_iff_prefix

theorem endsWith_iff {s p : String} : endsWith s p = true ↔ p.toList <:+ s.toList :=
  List.isSuffixOf_iff_suffix

theorem startsWith_append (p s : String) : startsWith (p ++ s) p = true := by
  rw [startsWith_iff, String.toList_append]; exact List.prefix_append _ _

theorem le_trans {a b c : String} (hab : le a b = true) (hbc : le b c = true) : le a c = true := by
  unfold le at hab hbc ⊢
  -- the order of lists of the core library, whose `≤` is this negation
  have hab' : @LE.le _ List.instLE a.toList b.toList := of_decide_eq_true hab
  have hbc' : @LE.le _ List.instLE b.toList c.toList := of_decide_eq_true hbc
  exact decide_eq_true (List.le_trans hab' hbc')

/-- No digit is white space. -/
theorem not_isSpace_of_isDecimal {c : Char} (h : isDecimal c = true) : isSpace c = false := by
  unfold isDecimal decimalZeros at h
  unfold isSpace
  generalize c.toNat = n at h ⊢
  simp only [List.any_cons, List.any_nil, Bool.or_false, Bool.or_eq_true, Bool.and_eq_true,
    decide_eq_true_eq] at h
  by_contra hs
  have hs : n ≤ 0x20 ∨ n = 0x85 ∨ n = 0xa0 ∨ n = 0x1680 ∨ (0x2000 ≤ n ∧ n ≤ 0x3000) := by
    simp at hs
    omega
  omega

/-! ## Splitting -/

theorem split_ne_nil (c : Char) (s : String) : split c s ≠ [] := by
  unfold split
  rw [Ne, List.map_eq_nil_iff]
  exact List.splitOn_ne_nil c s.toList

theorem split_append {c : Char} {s a b : String} (h : s.toList = a.toList ++ c :: b.toList) :
    split c s = split c a ++ split c b := by
  unfold split
  rw [h, List.splitOn_append_cons_self, List.map_append]

theorem ofList_injective : Function.Injective String.ofList := by
  intro a b h
  have := congrArg String.toList h
  simpa using this

theorem split_of_not_mem {c : Char} {s : String} (h : c ∉ s.toList) : split c s = [s] := by
  unfold split
  rw [List.splitOn_eq_singleton h]
  simp

/-- **A text is determined by its pieces.** -/
theorem split_injective {c : Char} {a b : String} (h : split c a = split c b) : a = b := by
  have h' := List.map_injective_iff.2 ofList_injective h
  have := congrArg ([c].intercalate ·) h'
  simpa [List.intercalate_splitOn, String.toList_inj] using this

theorem split_join {c : Char} {l : List String} (hl : l ≠ []) (hc : ∀ s ∈ l, c ∉ s.toList) :
    split c (join c l) = l := by
  unfold split join
  rw [String.toList_ofList, List.splitOn_intercalate]
  · simp [List.map_map, Function.comp_def]
  · simpa using hc
  · simpa using hl

theorem join_split (c : Char) (s : String) : join c (split c s) = s := by
  unfold split join
  rw [List.map_map]
  have : (String.toList ∘ String.ofList) = id := by funext l; simp
  rw [this, List.map_id, List.intercalate_splitOn, String.ofList_toList]

/-- The pieces hold no separator, and what they hold is in the text. -/
theorem mem_splitOn {α : Type*} [DecidableEq α] {c : α} {l q : List α} (h : q ∈ l.splitOn c) :
    c ∉ q ∧ q ⊆ l := by
  induction l generalizing q with
  | nil => simp at h; subst h; simp
  | cons x l ih =>
    rw [List.splitOn_cons_eq_if_modifyHead] at h
    by_cases hx : (x == c) = true
    · rw [if_pos hx] at h
      rcases List.mem_cons.1 h with h | h
      · subst h; simp
      · exact ⟨(ih h).1, List.subset_cons_of_subset x (ih h).2⟩
    · rw [if_neg hx] at h
      cases hs : l.splitOn c with
      | nil => rw [hs] at h; simp at h
      | cons y ys =>
        rw [hs, List.modifyHead_cons] at h
        rcases List.mem_cons.1 h with h | h
        · subst h
          obtain ⟨h1, h2⟩ := ih (by rw [hs]; exact List.mem_cons_self)
          simp only [List.mem_cons, not_or]
          exact ⟨⟨fun e => hx (by simp [e]), h1⟩, List.cons_subset_cons x h2⟩
        · obtain ⟨h1, h2⟩ := ih (by rw [hs]; exact List.mem_cons_of_mem _ h)
          exact ⟨h1, List.subset_cons_of_subset x h2⟩

theorem not_mem_of_mem_split {c : Char} {s p : String} (h : p ∈ split c s) : c ∉ p.toList := by
  obtain ⟨q, hq, rfl⟩ := List.mem_map.1 h
  rw [String.toList_ofList]
  exact (mem_splitOn hq).1

theorem mem_of_mem_split {c x : Char} {s p : String} (h : p ∈ split c s) (hx : x ∈ p.toList) :
    x ∈ s.toList := by
  obtain ⟨q, hq, rfl⟩ := List.mem_map.1 h
  rw [String.toList_ofList] at hx
  exact (mem_splitOn hq).2 hx

/-- Every other character is in a piece. -/
theorem mem_split_of_mem {c x : Char} {s : String} (hx : x ∈ s.toList) (hc : x ≠ c) :
    ∃ p ∈ split c s, x ∈ p.toList := by
  have key : ∀ l : List Char, x ∈ l → ∃ q ∈ l.splitOn c, x ∈ q := by
    intro l
    induction l with
    | nil => intro h; cases h
    | cons y l ih =>
      intro h
      rw [List.splitOn_cons_eq_if_modifyHead]
      by_cases hy : (y == c) = true
      · rw [if_pos hy]
        have hl : x ∈ l := by
          rcases List.mem_cons.1 h with h | h
          · exact absurd (h.trans (beq_iff_eq.1 hy)) hc
          · exact h
        obtain ⟨q, hq, hxq⟩ := ih hl
        exact ⟨q, List.mem_cons_of_mem _ hq, hxq⟩
      · rw [if_neg hy]
        cases hs : l.splitOn c with
        | nil => exact absurd hs (List.splitOn_ne_nil c l)
        | cons q qs =>
          rw [List.modifyHead_cons]
          rcases List.mem_cons.1 h with h | h
          · exact ⟨y :: q, List.mem_cons_self, by rw [h]; exact List.mem_cons_self⟩
          · obtain ⟨q', hq', hxq⟩ := ih h
            rw [hs] at hq'
            rcases List.mem_cons.1 hq' with hq' | hq'
            · exact ⟨y :: q, List.mem_cons_self, by rw [← hq']; exact List.mem_cons_of_mem _ hxq⟩
            · exact ⟨q', List.mem_cons_of_mem _ hq', hxq⟩
  obtain ⟨q, hq, hxq⟩ := key s.toList hx
  exact ⟨String.ofList q, List.mem_map_of_mem hq, by rwa [String.toList_ofList]⟩

theorem intercalate_append {α : Type*} (c : α) {l r : List (List α)} (hl : l ≠ []) (hr : r ≠ []) :
    [c].intercalate (l ++ r) = [c].intercalate l ++ c :: [c].intercalate r := by
  induction l with
  | nil => exact absurd rfl hl
  | cons x l ih =>
    rcases l with _ | ⟨y, l⟩
    · rw [List.singleton_append, List.intercalate_cons_of_ne_nil hr, List.intercalate_singleton]
      simp
    · have h1 : y :: l ≠ [] := List.cons_ne_nil y l
      have h2 : y :: l ++ r ≠ [] := by simp
      rw [List.cons_append, List.intercalate_cons_of_ne_nil h2, ih h1,
        List.intercalate_cons_of_ne_nil h1]
      simp only [List.append_assoc]

/-- **The pieces of `a` are the first pieces of `b`** iff `b` is `a` or goes on with a
separator after `a`. -/
theorem split_prefix_iff {c : Char} {a b : String} :
    split c a <+: split c b ↔ b = a ∨ a.toList ++ [c] <+: b.toList := by
  constructor
  · rintro ⟨r, hr⟩
    rcases r.eq_nil_or_concat' with rfl | ⟨r', x, rfl⟩
    · left; rw [List.append_nil] at hr; exact (split_injective hr).symm
    · right
      have hne : (r' ++ [x]).map String.toList ≠ [] := by simp
      have hb := join_split c b
      rw [← hr] at hb
      unfold join at hb
      rw [List.map_append, intercalate_append c (by simpa using split_ne_nil c a) hne] at hb
      have ha := congrArg String.toList (join_split c a)
      unfold join at ha
      rw [String.toList_ofList] at ha
      rw [ha] at hb
      rw [← hb, String.toList_ofList]
      exact ⟨_, by rw [List.append_assoc]; rfl⟩
  · rintro (rfl | ⟨r, hr⟩)
    · exact List.prefix_rfl
    · have : b.toList = a.toList ++ c :: (String.ofList r).toList := by simp [← hr]
      rw [split_append this]
      exact List.prefix_append _ _

/-! ## Trimming -/

/-- What `rstrip` removes. -/
theorem rstrip_append_replicate (c : Char) (s : String) :
    ∃ n, s.toList = (rstrip c s).toList ++ List.replicate n c := by
  refine ⟨(s.toList.rtakeWhile (· == c)).length, ?_⟩
  have h := List.eq_replicate_of_mem (a := c) (l := s.toList.rtakeWhile (· == c))
    fun x hx => by simpa using List.mem_rtakeWhile_imp hx
  rw [← h]
  simp [rstrip, List.rdropWhile_append_rtakeWhile]

theorem mem_of_mem_rstrip {c x : Char} {s : String} (h : x ∈ (rstrip c s).toList) : x ∈ s.toList := by
  obtain ⟨n, hn⟩ := rstrip_append_replicate c s
  rw [hn]; exact List.mem_append_left _ h

theorem mem_rstrip {c x : Char} {s : String} (hx : x ≠ c) (h : x ∈ s.toList) :
    x ∈ (rstrip c s).toList := by
  obtain ⟨n, hn⟩ := rstrip_append_replicate c s
  rw [hn, List.mem_append, List.mem_replicate] at h
  rcases h with h | ⟨-, h⟩
  · exact h
  · exact absurd h hx

theorem rstrip_rstrip (c : Char) (s : String) : rstrip c (rstrip c s) = rstrip c s := by
  unfold rstrip
  rw [String.toList_ofList, List.rdropWhile_idempotent]

/-- Only the end of a text is stripped. -/
theorem rstrip_append (c : Char) (a b : String) :
    rstrip c (a ++ b) = if rstrip c b = "" then rstrip c a else a ++ rstrip c b := by
  have key : ∀ l r : List Char, (l ++ r).rdropWhile (· == c) =
      if r.rdropWhile (· == c) = [] then l.rdropWhile (· == c) else l ++ r.rdropWhile (· == c) := by
    intro l r
    unfold List.rdropWhile
    rw [List.reverse_append, List.dropWhile_append]
    by_cases h : r.reverse.dropWhile (· == c) = []
    · simp [h]
    · simp [h]
  have he : ∀ l : List Char, String.ofList l = "" ↔ l = [] := fun l =>
    ⟨fun h => by simpa using congrArg String.toList h, fun h => by rw [h]⟩
  unfold rstrip
  simp only [String.toList_append, key, he]
  split
  · rfl
  · rw [← String.toList_inj]; simp

theorem mem_of_mem_strip {x : Char} {s : String} (h : x ∈ (strip s).toList) : x ∈ s.toList := by
  unfold strip at h
  rw [String.toList_ofList] at h
  exact (List.dropWhile_suffix isSpace).subset ((List.rdropWhile_prefix isSpace _).subset h)

/-- A text without white space is not trimmed. -/
theorem strip_of_solid {s : String} (h : ∀ c ∈ s.toList, isSpace c = false) : strip s = s := by
  unfold strip
  have hfront : s.toList.dropWhile isSpace = s.toList := by
    rw [List.dropWhile_eq_self_iff]
    intro hl
    rw [h _ (List.getElem_mem hl)]
    exact Bool.false_ne_true
  have hback : s.toList.rdropWhile isSpace = s.toList := by
    rw [List.rdropWhile_eq_self_iff]
    intro hl
    rw [h _ (List.getLast_mem hl)]
    exact Bool.false_ne_true
  rw [hfront, hback, String.ofList_toList]

theorem dropEnd_append {n : ℕ} {a b : String} (h : b.toList.length = n) : dropEnd n (a ++ b) = a := by
  unfold dropEnd
  rw [String.toList_append, List.length_append, h, Nat.add_sub_cancel, List.take_left', String.ofList_toList]
  rfl

theorem endsWith_append (a b : String) : endsWith (a ++ b) b = true := by
  rw [endsWith_iff, String.toList_append]
  exact List.suffix_append _ _

theorem strip_strip (s : String) : strip (strip s) = strip s := by
  have key : ∀ l : List Char, ((l.dropWhile isSpace).rdropWhile isSpace).dropWhile isSpace =
      (l.dropWhile isSpace).rdropWhile isSpace := by
    intro l
    obtain ⟨r, hr⟩ := List.rdropWhile_prefix isSpace (l.dropWhile isSpace)
    cases hB : (l.dropWhile isSpace).rdropWhile isSpace with
    | nil => rfl
    | cons x xs =>
      rw [hB] at hr
      have hx := List.head?_dropWhile_not isSpace l
      rw [← hr] at hx
      exact List.dropWhile_cons_of_neg (by simpa using hx)
  unfold strip
  rw [String.toList_ofList, key, List.rdropWhile_idempotent]

end Text
