import Mathlib.Order.WellFounded
import Mathlib.Order.Basic

/-!
# A variant and helpful actions

An infinite run of a system whose scheduler is fair: `work` bounds what is left
to do and never grows. As long as the goal is not reached, some action is
helpful: taking it does some of the work. A helpful action stays helpful until
work is done, so a scheduler that comes back to every action takes one, and the
goal is reached (`exists_goal`).
-/

namespace Variant

variable {S A : Type*}

/-- The run `s`, in which `acts a m` says that the `m`-th step takes action `a`, keeps to the
variant from its `start`-th state on. -/
structure Rule (s : ℕ → S) (acts : A → ℕ → Prop) (work : S → ℕ) (goal : S → Prop)
    (helpful : A → S → Prop) (start : ℕ) : Prop where
  le : ∀ m, start ≤ m → work (s (m + 1)) ≤ work (s m)
  help : ∀ m, start ≤ m → ¬ goal (s m) → ∃ a, helpful a (s m)
  keeps : ∀ m a, start ≤ m → helpful a (s m) → work (s (m + 1)) = work (s m) →
    helpful a (s (m + 1))
  drops : ∀ m a, start ≤ m → helpful a (s m) → acts a m → work (s (m + 1)) < work (s m)

/-- Every action that is helpful once is taken again later. -/
def Fair (s : ℕ → S) (acts : A → ℕ → Prop) (helpful : A → S → Prop) : Prop :=
  ∀ m a, helpful a (s m) → ∃ n, m ≤ n ∧ acts a n

variable {s : ℕ → S} {acts : A → ℕ → Prop} {work : S → ℕ} {goal : S → Prop}
  {helpful : A → S → Prop} {start : ℕ}

namespace Rule

theorem anti (h : Rule s acts work goal helpful start) {m n : ℕ} (hm : start ≤ m) (hn : m ≤ n) :
    work (s n) ≤ work (s m) := by
  induction n, hn using Nat.le_induction with
  | base => exact le_rfl
  | succ n hn ih => exact (h.le n (hm.trans hn)).trans ih

/-- As long as no work is done, a helpful action stays helpful. -/
theorem stays (h : Rule s acts work goal helpful start) {m n : ℕ} (hm : start ≤ m) (hn : m ≤ n)
    {a : A} (ha : helpful a (s m)) (hw : work (s n) = work (s m)) : helpful a (s n) := by
  induction n, hn using Nat.le_induction with
  | base => exact ha
  | succ n hn ih =>
    have h1 := h.le n (hm.trans hn)
    have h2 := h.anti hm hn
    exact h.keeps n a (hm.trans hn) (ih (by omega)) (by omega)

/-- Work is done, as long as the goal is not reached. -/
theorem progress (h : Rule s acts work goal helpful start) (hf : Fair s acts helpful) {m : ℕ}
    (hm : start ≤ m) (hg : ¬ goal (s m)) : ∃ n, m ≤ n ∧ work (s n) < work (s m) := by
  obtain ⟨a, ha⟩ := h.help m hm hg
  obtain ⟨n, hn, hacts⟩ := hf m a ha
  rcases (h.anti hm hn).lt_or_eq with hlt | heq
  · exact ⟨n, hn, hlt⟩
  · have hd := h.drops n a (hm.trans hn) (h.stays hm hn ha heq) hacts
    exact ⟨n + 1, by omega, by omega⟩

/-- **The goal is reached.** -/
theorem exists_goal (h : Rule s acts work goal helpful start) (hf : Fair s acts helpful) :
    ∃ m, start ≤ m ∧ goal (s m) := by
  -- by induction on the work that is left
  have key : ∀ k m, start ≤ m → work (s m) = k → ∃ n, start ≤ n ∧ goal (s n) := by
    intro k
    induction k using Nat.strong_induction_on with
    | _ k ih =>
      intro m hm hk
      by_cases hg : goal (s m)
      · exact ⟨m, hm, hg⟩
      · obtain ⟨n, hn, hlt⟩ := h.progress hf hm hg
        exact ih _ (hk ▸ hlt) n (hm.trans hn) rfl
  exact key _ start le_rfl rfl

end Rule

end Variant
