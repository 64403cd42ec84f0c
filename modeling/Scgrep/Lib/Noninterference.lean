import Mathlib.Data.List.Basic

/-!
# Runs that an observer cannot tell apart

A machine runs through a list of actions, some of which concern an observer.
`Unwinds` are the step conditions under which the others may be left out: the
observer's view after a step of its own depends on its view before, and a step of
another does not change it.

* `Unwinds.run`: **the observer's view after a run is the one after its own actions.**
-/

namespace Noninterference

variable {σ α ω : Type*}

/-- The step conditions, for the actions that satisfy `ok`. -/
structure Unwinds (step : σ → α → σ) (view : σ → ω) (mine : α → Bool) (ok : α → Prop) : Prop where
  own : ∀ {a}, ok a → mine a = true → ∀ {s t}, view s = view t → view (step s a) = view (step t a)
  other : ∀ {a}, ok a → mine a = false → ∀ s, view (step s a) = view s

variable {step : σ → α → σ} {view : σ → ω} {mine : α → Bool} {ok : α → Prop}

/-- **The observer's view after a run is the one after its own actions**, from any two
states it cannot tell apart. -/
theorem Unwinds.run (h : Unwinds step view mine ok) (as : List α) (hok : ∀ a ∈ as, ok a) :
    ∀ {s t : σ}, view s = view t → view (as.foldl step s) = view ((as.filter mine).foldl step t) := by
  induction as with
  | nil => intro s t hv; exact hv
  | cons a as ih =>
    intro s t hv
    have ha := hok a List.mem_cons_self
    have hrest : ∀ b ∈ as, ok b := fun b hb => hok b (List.mem_cons_of_mem _ hb)
    rw [List.foldl_cons]
    by_cases hm : mine a = true
    · rw [List.filter_cons_of_pos hm, List.foldl_cons]
      exact ih hrest (h.own ha hm hv)
    · rw [List.filter_cons_of_neg hm]
      exact ih hrest ((h.other ha (by simpa using hm) s).trans hv)

end Noninterference
