import Mathlib.Data.List.Basic
import Mathlib.Data.Nat.Find
import Mathlib.Logic.Function.Basic

/-!
# Snapshots between the writes of a list

A list of writes changes a state one cell at a time. A reader takes a snapshot of
all cells after any number of them; it is torn when it is neither the state
before the writes nor the state after.

* `run_cell`: what a cell holds depends on the writes to it.
* `untorn_iff`: **no snapshot is torn exactly when the writes to all cells but one
  leave them as they are, and the one cell only takes its first and its last value.**
-/

namespace Snapshot

variable {κ α : Type*}

/-- A write to one cell. -/
structure Write (κ α : Type*) where
  cell : κ
  change : α → α

variable [DecidableEq κ]

def Write.apply (s : κ → α) (w : Write κ α) : κ → α :=
  Function.update s w.cell (w.change (s w.cell))

/-- The state after all writes. -/
def run (ws : List (Write κ α)) (s : κ → α) : κ → α := ws.foldl Write.apply s

/-- Every snapshot shows the state before the writes or the one after. -/
def Untorn (ws : List (Write κ α)) (s : κ → α) : Prop :=
  ∀ k, run (ws.take k) s = s ∨ run (ws.take k) s = run ws s

/-- The changes that the writes make to one cell. -/
def changesTo (x : κ) (ws : List (Write κ α)) : List (α → α) :=
  (ws.filter fun w => decide (w.cell = x)).map Write.change

omit [DecidableEq κ] in
/-- A value after some changes. -/
def after (fs : List (α → α)) (v : α) : α := fs.foldl (fun v f => f v) v

omit [DecidableEq κ] in
/-- No change moves the value. -/
def Still (fs : List (α → α)) (v : α) : Prop := ∀ f ∈ fs, f v = v

omit [DecidableEq κ] in
/-- The changes only give the value before them and the value after. -/
def Steady (fs : List (α → α)) (v : α) : Prop :=
  ∀ k, after (fs.take k) v = v ∨ after (fs.take k) v = after fs v

/-! ## One cell -/

/-- **A cell depends on the writes to it.** -/
theorem run_cell (x : κ) (ws : List (Write κ α)) : ∀ s : κ → α,
    run ws s x = after (changesTo x ws) (s x) := by
  induction ws with
  | nil => intro s; rfl
  | cons w ws ih =>
    intro s
    have hrun : run (w :: ws) s x = after (changesTo x ws) (w.apply s x) := ih _
    rw [hrun]
    unfold changesTo Write.apply
    by_cases h : w.cell = x
    · subst h
      rw [Function.update_self, List.filter_cons_of_pos (by simp)]
      rfl
    · rw [Function.update_of_ne (Ne.symm h), List.filter_cons_of_neg (by simpa using h)]

omit [DecidableEq κ] in
/-- The first elements that pass a test are those among the first elements. -/
theorem forall_take_filter {β : Type*} (p : β → Bool) (l : List β) : ∀ P : List β → Prop,
    (∀ k, P ((l.take k).filter p)) ↔ ∀ j, P ((l.filter p).take j) := by
  induction l with
  | nil => intro P; simp
  | cons b l ih =>
    intro P
    by_cases hb : p b = true
    · rw [List.filter_cons_of_pos hb]
      have ih := ih fun m => P (b :: m)
      constructor
      · intro h j
        rcases j with _ | j
        · exact h 0
        · refine ih.1 (fun k => ?_) j
          have hk := h (k + 1)
          rwa [List.take_succ_cons, List.filter_cons_of_pos hb] at hk
      · intro h k
        rcases k with _ | k
        · exact h 0
        · rw [List.take_succ_cons, List.filter_cons_of_pos hb]
          exact ih.2 (fun j => h (j + 1)) k
    · rw [List.filter_cons_of_neg hb]
      constructor
      · intro h
        refine (ih P).1 fun k => ?_
        have hk := h (k + 1)
        rwa [List.take_succ_cons, List.filter_cons_of_neg hb] at hk
      · intro h k
        rcases k with _ | k
        · exact h 0
        · rw [List.take_succ_cons, List.filter_cons_of_neg hb]
          exact (ih P).2 h k

/-- What the snapshots show of a cell is what the writes to it give. -/
theorem forall_snapshot (x : κ) (ws : List (Write κ α)) (s : κ → α) (P : α → Prop) :
    (∀ k, P (run (ws.take k) s x)) ↔ ∀ j, P (after ((changesTo x ws).take j) (s x)) := by
  have h := forall_take_filter (fun w : Write κ α => decide (w.cell = x)) ws
    fun l => P (after (l.map Write.change) (s x))
  simp only [List.map_take] at h
  refine Iff.trans (forall_congr' fun k => ?_) h
  rw [run_cell]
  rfl

omit [DecidableEq κ] in
theorem still_iff (fs : List (α → α)) (v : α) : Still fs v ↔ ∀ k, after (fs.take k) v = v := by
  induction fs with
  | nil => simp [Still, after]
  | cons f fs ih =>
    constructor
    · intro h k
      have hf := h f List.mem_cons_self
      rcases k with _ | k
      · rfl
      · have hk : after ((f :: fs).take (k + 1)) v = after (fs.take k) (f v) := rfl
        rw [hk, hf]
        exact ih.1 (fun g hg => h g (List.mem_cons_of_mem _ hg)) k
    · intro h
      have hf : f v = v := h 1
      have hfs : Still fs v := by
        refine ih.2 fun k => ?_
        have hk : after (fs.take k) (f v) = v := h (k + 1)
        rwa [hf] at hk
      intro g hg
      rcases List.mem_cons.1 hg with rfl | hg
      · exact hf
      · exact hfs g hg

/-! ## All cells -/

omit [DecidableEq κ] in
theorem take_of_ne {β : Type*} {l : List β} {j : ℕ} (h : l.take (j + 1) ≠ l.take j) :
    ∃ b ∈ l, l.take (j + 1) = l.take j ++ [b] := by
  have hj : j < l.length := by
    by_contra hj
    exact h (by rw [List.take_of_length_le (by omega), List.take_of_length_le (by omega)])
  exact ⟨l[j], List.getElem_mem hj, List.take_succ_eq_append_getElem hj⟩

/-- The first snapshot that differs differs in one cell. -/
theorem exists_only_cell {ws : List (Write κ α)} {s : κ → α} (hu : Untorn ws s)
    (hne : ∃ k, run (ws.take k) s ≠ s) : ∃ x, ∀ y, y ≠ x → run ws s y = s y := by
  classical
  have hk := Nat.find_spec hne
  have hmin : ∀ j, j < Nat.find hne → run (ws.take j) s = s := fun j hj => not_not.1 (Nat.find_min hne hj)
  cases hfind : Nat.find hne with
  | zero => rw [hfind] at hk; exact absurd rfl hk
  | succ j =>
    rw [hfind] at hk
    have hj := hmin j (by omega)
    obtain ⟨w, -, hw⟩ := take_of_ne (l := ws) (j := j) (by
      intro h
      rw [h] at hk
      exact hk hj)
    have hstep : run (ws.take (j + 1)) s = w.apply s := by
      rw [hw]
      unfold run at hj ⊢
      rw [List.foldl_append, hj]
      rfl
    -- the differing snapshot is the last state
    have hlast : run ws s = w.apply s := by
      rcases hu (j + 1) with h | h
      · exact absurd h hk
      · rw [← h, hstep]
    refine ⟨w.cell, fun y hy => ?_⟩
    rw [hlast]
    exact Function.update_of_ne hy _ _

/-- **No snapshot is torn** exactly when only one cell moves, and that one only between its first and
its last value. -/
theorem untorn_iff [Nonempty κ] (ws : List (Write κ α)) (s : κ → α) :
    Untorn ws s ↔ ∃ x, (∀ y, y ≠ x → Still (changesTo y ws) (s y)) ∧ Steady (changesTo x ws) (s x) := by
  have hlast : ∀ y, run ws s y = after (changesTo y ws) (s y) := fun y => run_cell y ws s
  constructor
  · intro hu
    obtain ⟨x, hx⟩ : ∃ x, ∀ y, y ≠ x → run ws s y = s y := by
      by_cases hne : ∃ k, run (ws.take k) s ≠ s
      · exact exists_only_cell hu hne
      · push Not at hne
        have hall := hne ws.length
        rw [List.take_length] at hall
        exact ⟨Classical.arbitrary κ, fun y _ => congrFun hall y⟩
    refine ⟨x, fun y hy => ?_, ?_⟩
    · refine (still_iff _ _).2 ((forall_snapshot y ws s fun v => v = s y).1 fun k => ?_)
      rcases hu k with h | h
      · exact congrFun h y
      · rw [h]; exact hx y hy
    · have hsteady := (forall_snapshot x ws s fun v => v = s x ∨ v = run ws s x).1 fun k => by
        rcases hu k with h | h
        · exact Or.inl (congrFun h x)
        · exact Or.inr (congrFun h x)
      rw [hlast x] at hsteady
      exact hsteady
  · rintro ⟨x, hothers, hsteady⟩ k
    have hstill : ∀ y, y ≠ x → ∀ k, run (ws.take k) s y = s y := fun y hy =>
      (forall_snapshot y ws s fun v => v = s y).2 ((still_iff _ _).1 (hothers y hy))
    have hfinal : ∀ y, y ≠ x → run ws s y = s y := by
      intro y hy
      have h := hstill y hy ws.length
      rwa [List.take_length] at h
    have hx := (forall_snapshot x ws s fun v => v = s x ∨ v = after (changesTo x ws) (s x)).2 hsteady k
    rw [← hlast x] at hx
    rcases hx with h | h
    · left
      funext y
      by_cases hy : y = x
      · rw [hy, h]
      · exact hstill y hy k
    · right
      funext y
      by_cases hy : y = x
      · rw [hy, h]
      · rw [hstill y hy k, hfinal y hy]

end Snapshot
