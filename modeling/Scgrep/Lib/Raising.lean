import Mathlib.Data.List.Basic

/-!
# Programs that may raise

A `Prog` runs over a state and returns or raises; what it has written before it
raises stays. `issue raises c` is a command of which `raises` says whether it raises.

`Issues raises x cs a`: the program `x` issues the commands `cs`, writes nothing, and
returns `a` if none of them raises. `Commits raises x cs g`: it issues them, and applies
`g` to the state if none raises. The rules follow the program text (`bind`, `mapM`).

* `Issues.commit`: **a program that writes only after its last command writes all or
  nothing.**
-/

namespace Raising

universe u

variable {ε σ α β γ κ : Type u}

/-- A program over the state `σ`. -/
abbrev Prog (ε σ α : Type u) := ExceptT ε (StateM σ) α

/-- How it ends, and the state it leaves. -/
def Prog.exec (x : Prog ε σ α) (s : σ) : Except ε α × σ := x.run.run s

@[simp] theorem exec_pure (a : α) (s : σ) : (pure a : Prog ε σ α).exec s = (.ok a, s) := rfl

@[simp] theorem exec_throw (e : ε) (s : σ) : (throw e : Prog ε σ α).exec s = (.error e, s) := rfl

@[simp] theorem exec_modify (g : σ → σ) (s : σ) :
    (modify g : Prog ε σ PUnit).exec s = (.ok ⟨⟩, g s) := rfl

theorem exec_bind_ok {x : Prog ε σ α} {s s' : σ} {a : α} (h : x.exec s = (.ok a, s'))
    (f : α → Prog ε σ β) : (x >>= f).exec s = (f a).exec s' := by
  have hx : x.run.run s = (.ok a, s') := h
  unfold Prog.exec
  rw [ExceptT.run_bind, StateT.run_bind, hx]
  rfl

theorem exec_bind_error {x : Prog ε σ α} {s s' : σ} {e : ε} (h : x.exec s = (.error e, s'))
    (f : α → Prog ε σ β) : (x >>= f).exec s = (.error e, s') := by
  have hx : x.run.run s = (.error e, s') := h
  unfold Prog.exec
  rw [ExceptT.run_bind, StateT.run_bind, hx]
  rfl

/-- What `try x except: pass` leaves. -/
theorem exec_tryCatch (x : Prog ε σ PUnit) (s : σ) :
    (tryCatch x fun _ => pure ⟨⟩ : Prog ε σ PUnit).exec s = (.ok ⟨⟩, (x.exec s).2) := by
  unfold Prog.exec
  simp only [tryCatch, tryCatchThe, MonadExceptOf.tryCatch, ExceptT.tryCatch, ExceptT.run_mk,
    StateT.run_bind]
  rcases hx : StateT.run x s with ⟨_ | _, s'⟩
  · have h : (x.run.run s).2 = s' := congrArg Prod.snd hx
    rw [h]
    rfl
  · have h : (x.run.run s).2 = s' := congrArg Prod.snd hx
    rw [h]
    rfl

/-- Writes that do not raise, one for each element of a list. -/
theorem exec_forM_modify (g : α → σ → σ) (l : List α) : ∀ s : σ,
    (forM l fun a => (modify (g a) : Prog ε σ PUnit)).exec s = (.ok ⟨⟩, l.foldl (fun s a => g a s) s) := by
  induction l with
  | nil => intro s; rfl
  | cons a l ih =>
    intro s
    rw [List.forM_cons, exec_bind_ok (exec_modify (g a) s), ih, List.foldl_cons]

/-! ## Commands -/

/-- A command, which raises what `raises` says. -/
def issue (raises : κ → Option ε) (c : κ) : Prog ε σ PUnit :=
  match raises c with
  | some e => throw e
  | none => pure ⟨⟩

/-- How a program ends that issues these commands and then returns `a`. -/
def outcome (raises : κ → Option ε) (cs : List κ) (a : α) : Except ε α :=
  match cs.findSome? raises with
  | some e => .error e
  | none => .ok a

/-- The program issues the commands `cs` until one raises, writes nothing, and returns `a` when
none does. -/
def Issues (raises : κ → Option ε) (x : Prog ε σ α) (cs : List κ) (a : α) : Prop :=
  ∀ s, x.exec s = (outcome raises cs a, s)

variable {raises : κ → Option ε}

theorem issues_pure (a : α) : Issues raises (pure a : Prog ε σ α) [] a := fun _ => rfl

theorem issues_command (c : κ) : Issues raises (issue raises c : Prog ε σ PUnit) [c] ⟨⟩ := by
  intro s
  unfold issue outcome
  rw [List.findSome?_cons]
  cases raises c <;> rfl

/-- **Programs one after the other.** -/
theorem Issues.bind {x : Prog ε σ α} {f : α → Prog ε σ β} {cs ds : List κ} {a : α} {b : β}
    (hx : Issues raises x cs a) (hf : Issues raises (f a) ds b) :
    Issues raises (x >>= f) (cs ++ ds) b := by
  intro s
  have hxs := hx s
  unfold outcome at hxs ⊢
  rw [List.findSome?_append]
  cases hc : cs.findSome? raises with
  | some e =>
    rw [hc] at hxs
    exact exec_bind_error hxs f
  | none =>
    rw [hc] at hxs
    exact (exec_bind_ok hxs f).trans (hf s)

theorem Issues.map {x : Prog ε σ α} {cs : List κ} {a : α} (hx : Issues raises x cs a) (f : α → β) :
    Issues raises (x >>= fun a => pure (f a)) cs (f a) := by
  have hf : Issues raises (pure (f a) : Prog ε σ β) [] (f a) := issues_pure (f a)
  have h := hx.bind (f := fun a => pure (f a)) hf
  rwa [List.append_nil] at h

/-- **The same program for each element of a list.** -/
theorem issues_mapM {f : α → Prog ε σ β} {cs : α → List κ} {g : α → β}
    (h : ∀ a, Issues raises (f a) (cs a) (g a)) (l : List α) :
    Issues raises (l.mapM f) (l.flatMap cs) (l.map g) := by
  induction l with
  | nil => exact issues_pure []
  | cons a l ih =>
    rw [List.mapM_cons, List.flatMap_cons, List.map_cons]
    exact (h a).bind (ih.map _)

/-- The program issues the commands `cs` until one raises, and writes `g` when none does. -/
def Commits (raises : κ → Option ε) (x : Prog ε σ PUnit) (cs : List κ) (g : σ → σ) : Prop :=
  ∀ s, x.exec s = match cs.findSome? raises with
    | some e => (.error e, s)
    | none => (.ok ⟨⟩, g s)

/-- A program that only writes. -/
theorem commits_write {x : Prog ε σ PUnit} {g : σ → σ} (h : ∀ s, x.exec s = (.ok ⟨⟩, g s)) :
    Commits raises x [] g := h

/-- **All or nothing**: what is written after the last command is not written when one raises. -/
theorem Issues.commit {x : Prog ε σ α} {f : α → Prog ε σ PUnit} {cs ds : List κ} {a : α} {g : σ → σ}
    (hx : Issues raises x cs a) (hf : Commits raises (f a) ds g) :
    Commits raises (x >>= f) (cs ++ ds) g := by
  intro s
  have hxs := hx s
  unfold outcome at hxs
  rw [List.findSome?_append]
  cases hc : cs.findSome? raises with
  | some e =>
    rw [hc] at hxs
    exact exec_bind_error hxs f
  | none =>
    rw [hc] at hxs
    exact (exec_bind_ok hxs f).trans (hf s)

variable {x : Prog ε σ PUnit} {cs : List κ} {g : σ → σ}

/-- When a command raises, the program raises and nothing is written. -/
theorem Commits.fails (h : Commits raises x cs g) {c : κ} (hc : c ∈ cs) (hr : raises c ≠ none)
    (s : σ) : ∃ e, x.exec s = (.error e, s) := by
  have hs := h s
  cases hf : cs.findSome? raises with
  | some e => rw [hf] at hs; exact ⟨e, hs⟩
  | none => exact absurd (List.findSome?_eq_none_iff.1 hf c hc) hr

/-- When no command raises, the program returns and all is written. -/
theorem Commits.returns (h : Commits raises x cs g) (hn : ∀ c ∈ cs, raises c = none) (s : σ) :
    x.exec s = (.ok ⟨⟩, g s) := by
  have hs := h s
  rw [List.findSome?_eq_none_iff.2 hn] at hs
  exact hs

end Raising
