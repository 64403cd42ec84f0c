import Mathlib.Algebra.Order.Floor.Ring
import Mathlib.Algebra.Order.BigOperators.Group.List
import Mathlib.Data.List.Pairwise
import Mathlib.Tactic.Linarith
import Mathlib.Tactic.Ring

/-!
# Windows cut off a clock by flooring

At instant `w` a clock is cut to the window `[⌊w - lag⌋ - len, ⌊w - lag⌋)` of
`len` whole units. The instants are given by a first one and, for each next one,
how much more than `len` later it comes (`instants`).

* `before_of_spaced`: windows of instants at least `len` apart do not overlap.
* `contiguous_iff`: **consecutive windows are contiguous iff the fraction of the
  first instant and all delays together stay below one unit.**
* `covers_of_contiguous`: contiguous windows leave no value out.
-/

namespace FloorWindow

/-- A half-open interval with whole bounds. -/
structure Window where
  start : ℤ
  stop : ℤ
deriving DecidableEq

variable {K : Type*} [Field K]

/-- The first instant, then each next one `len` and a delay after the one before. -/
def instants (len : ℤ) : K → List K → List K
  | w, [] => [w]
  | w, d :: ds => w :: instants len (w + len + d) ds

theorem instants_ne_nil (len : ℤ) (w : K) (ds : List K) : instants len w ds ≠ [] := by
  cases ds <;> simp [instants]

theorem head_instants (len : ℤ) (w : K) (ds : List K) :
    (instants len w ds).head? = some w := by
  cases ds <;> rfl

variable [LinearOrder K] [FloorRing K]

/-- The window of an instant. -/
def window (lag len : ℤ) (w : K) : Window := ⟨⌊w - lag⌋ - len, ⌊w - lag⌋⟩

omit [FloorRing K] in
/-- Whether a value lies in the window. -/
def Window.Mem (W : Window) (x : K) : Prop := (W.start : K) ≤ x ∧ x < (W.stop : K)

/-- The window `W` ends before `V` begins. -/
def Window.Before (W V : Window) : Prop := W.stop ≤ V.start

/-- The window `V` begins where `W` ends. -/
def Window.Meets (W V : Window) : Prop := W.stop = V.start

section
variable [IsStrictOrderedRing K]

theorem window_length (lag len : ℤ) (w : K) :
    (window lag len w).start + len = (window lag len w).stop := by
  simp [window]

omit [FloorRing K] in
/-- A value in a window is in no window that comes before. -/
theorem Window.Before.disjoint {W V : Window} (h : W.Before V) {x : K} (hx : W.Mem x) :
    ¬ V.Mem x := by
  intro hv
  have : (W.stop : K) ≤ V.start := by exact_mod_cast h
  linarith [hx.2, hv.1]

/-- **Windows of instants at least `len` apart do not overlap.** -/
theorem before_of_spaced (lag : ℤ) {len : ℤ} {w v : K} (h : w + len ≤ v) :
    (window lag len w).Before (window lag len v) := by
  unfold Window.Before window
  have h1 : w - lag + (len : ℤ) ≤ v - lag := by linarith
  have h2 := Int.floor_le_floor h1
  rw [Int.floor_add_intCast] at h2
  dsimp only
  omega

/-- When the window of the next instant begins where the last one ended. -/
theorem meets_iff (lag len : ℤ) (w d : K) :
    (window lag len w).Meets (window lag len (w + len + d)) ↔ ⌊w + d⌋ = ⌊w⌋ := by
  unfold Window.Meets window
  have h1 : w + len + d - lag = w + d + ((len - lag : ℤ) : K) := by push_cast; ring
  have h2 : w - lag = w + ((-lag : ℤ) : K) := by push_cast; ring
  dsimp only
  rw [h1, h2, Int.floor_add_intCast, Int.floor_add_intCast]
  omega

/-- With no early instant, none comes before the first. -/
theorem le_of_mem_instants {len : ℤ} (hlen : 0 ≤ len) {ds : List K} :
    ∀ w : K, (∀ d ∈ ds, 0 ≤ d) → ∀ v ∈ instants len w ds, w ≤ v := by
  have hl : (0 : K) ≤ len := by exact_mod_cast hlen
  induction ds with
  | nil => intro w _ v hv; simp [instants] at hv; exact hv.ge
  | cons d ds ih =>
    intro w hd v hv
    have hd0 : 0 ≤ d := hd d List.mem_cons_self
    rcases List.mem_cons.1 hv with h | h
    · exact h.ge
    · have := ih _ (fun x hx => hd x (List.mem_cons_of_mem _ hx)) v h
      linarith

/-- With no early instant, the windows come one after the other. -/
theorem pairwise_before (lag : ℤ) {len : ℤ} (hlen : 0 ≤ len) {ds : List K} :
    ∀ w : K, (∀ d ∈ ds, 0 ≤ d) →
      ((instants len w ds).map (window lag len)).Pairwise Window.Before := by
  induction ds with
  | nil => intro w _; simp [instants]
  | cons d ds ih =>
    intro w hd
    have hd' : ∀ x ∈ ds, 0 ≤ x := fun x hx => hd x (List.mem_cons_of_mem _ hx)
    simp only [instants, List.map_cons, List.pairwise_cons, List.forall_mem_map]
    refine ⟨?_, ih _ hd'⟩
    intro v hv
    have h1 := le_of_mem_instants hlen _ hd' v hv
    have h2 := hd d List.mem_cons_self
    exact before_of_spaced lag (by linarith)

/-- **Contiguity.** Consecutive windows are contiguous iff the fraction of the first
instant and all delays together stay below one unit. -/
theorem contiguous_iff (lag len : ℤ) {ds : List K} : ∀ w : K, (∀ d ∈ ds, 0 ≤ d) →
    (((instants len w ds).map (window lag len)).IsChain Window.Meets ↔
      Int.fract w + ds.sum < 1) := by
  induction ds with
  | nil => intro w _; simp [instants, Int.fract_lt_one]
  | cons d ds ih =>
    intro w hd
    have hd0 : 0 ≤ d := hd d List.mem_cons_self
    have hd' : ∀ x ∈ ds, 0 ≤ x := fun x hx => hd x (List.mem_cons_of_mem _ hx)
    have hs : 0 ≤ ds.sum := List.sum_nonneg hd'
    have hchain : ((instants len w (d :: ds)).map (window lag len)).IsChain Window.Meets ↔
        (window lag len w).Meets (window lag len (w + len + d)) ∧
          ((instants len (w + len + d) ds).map (window lag len)).IsChain Window.Meets := by
      have hh := head_instants len (w + len + d) ds
      cases hi : instants len (w + len + d) ds with
      | nil => exact absurd hi (instants_ne_nil len _ ds)
      | cons v vs =>
        rw [hi, List.head?_cons, Option.some.injEq] at hh
        simp only [instants, hi, List.map_cons, List.isChain_cons_cons, hh]
    rw [hchain, ih _ hd', meets_iff, List.sum_cons]
    have hfr : Int.fract (w + len + d) = Int.fract (w + d) := by
      rw [show w + len + d = w + d + (len : K) by ring, Int.fract_add_intCast]
    rw [hfr]
    have hw : (⌊w⌋ : K) + Int.fract w = w := Int.floor_add_fract w
    have hwd : (⌊w + d⌋ : K) + Int.fract (w + d) = w + d := Int.floor_add_fract (w + d)
    -- the fraction moves by `d` as long as the floor stays
    constructor
    · rintro ⟨h1, h2⟩
      rw [h1] at hwd; linarith
    · intro h
      have h1 : ⌊w + d⌋ = ⌊w⌋ := by
        rw [Int.floor_eq_iff]
        have := Int.floor_le w
        constructor <;> linarith
      refine ⟨h1, ?_⟩
      rw [h1] at hwd; linarith

omit [FloorRing K] [IsStrictOrderedRing K] in
/-- Contiguous windows leave no value out between the first and the last. -/
theorem covers_of_contiguous {W : Window} {l : List Window}
    (hc : (W :: l).IsChain Window.Meets) {x : K} (h1 : (W.start : K) ≤ x)
    (h2 : x < (((W :: l).getLast (List.cons_ne_nil W l)).stop : K)) : ∃ V ∈ W :: l, V.Mem x := by
  induction l generalizing W with
  | nil => exact ⟨W, List.mem_cons_self, h1, by simpa using h2⟩
  | cons V l ih =>
    rw [List.isChain_cons_cons] at hc
    rcases lt_or_ge x (W.stop : K) with hx | hx
    · exact ⟨W, List.mem_cons_self, h1, hx⟩
    · have hm : W.stop = V.start := hc.1
      rw [hm] at hx
      obtain ⟨U, hU, hin⟩ := ih hc.2 hx (by simpa using h2)
      exact ⟨U, List.mem_cons_of_mem _ hU, hin⟩

end

end FloorWindow
