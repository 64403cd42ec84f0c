import Scgrep.Proof.ConfigSpec
import Scgrep.Proof.Schedule
import Scgrep.Spec.Process

/-!
# From the first ping to the last cycle

`Moves` are the steps that change something. The cycles that a process starts are a run
of `schedulerRun` (`Scheduled`), whatever the pings, the waits and the signals do.

* `run_scheduled`: **the cycles of a process, its stop and its exit code.**
* `prompt_service`: **how long its start and its stop take, and when its cycles start.**
-/

namespace Scgrep

open FloorWindow

variable {cfg : Config} {R : Prop}

/-! ## Steps -/

/-- A signal is handled. -/
def Phase.Handles : Phase → Prop
  | entering => True
  | waiting _ => True
  | ready => True
  | cycling _ => True
  | stopping _ => True
  | _ => False

/-- The steps that change something. `R` says that a `mqtt.start` raises. -/
inductive Process.Moves (cfg : Config) (R : Prop) (s : Process) : Process → Prop where
  | tick {d : ℚ} (hd : 0 ≤ d) : Moves cfg R s { s with now := s.now + d }
  | answered {since : ℚ} (h : s.phase = .pinging since) :
    Moves cfg R s { s with attempt := s.attempt + 1, phase := .connecting }
  | failed {since : ℚ} (h : s.phase = .pinging since) (hlt : s.now < s.deadline) :
    Moves cfg R s { s with attempt := s.attempt + 1, phase := .sleeping (s.now + pingInterval) }
  | gaveUp {since : ℚ} (h : s.phase = .pinging since) (hle : s.deadline ≤ s.now) :
    Moves cfg R s { s with attempt := s.attempt + 1, phase := .exited 3 }
  | awake {till : ℚ} (h : s.phase = .sleeping till) (htill : till ≤ s.now) :
    Moves cfg R s { s with phase := .pinging s.now }
  | clientsFailed (h : s.phase = .connecting) (hR : R) : Moves cfg R s { s with phase := .exited 1 }
  | connected (h : s.phase = .connecting) : Moves cfg R s { s with clients := true, phase := .entering }
  | enteredStopped (h : s.phase = .entering) (hstop : s.stopAt ≠ none) :
    Moves cfg R s { s with phase := .stopping 0 }
  | waitFailed (h : s.phase = .entering) (hstop : s.stopAt = none) (hlong : timeoutMax < cfg.testInterval) :
    Moves cfg R s { s with phase := .stopping 1 }
  | entered (h : s.phase = .entering) (hstop : s.stopAt = none) :
    Moves cfg R s { s with phase := .waiting (s.now + cfg.testInterval) }
  | timedOut {till : ℚ} (h : s.phase = .waiting till) (htill : till ≤ s.now)
    (hstop : ∀ t ∈ s.stopAt, till ≤ t) : Moves cfg R s { s with phase := .ready }
  | stopped {till : ℚ} (h : s.phase = .waiting till) (hstop : s.stopAt ≠ none) :
    Moves cfg R s { s with phase := .stopping 0 }
  | begun (h : s.phase = .ready) :
    Moves cfg R s { s with starts := s.starts ++ [s.now], phase := .cycling s.now }
  | ended {started : ℚ} (h : s.phase = .cycling started) (hle : s.now - started ≤ cfg.testInterval) :
    Moves cfg R s { s with phase := .waiting (started + cfg.testInterval) }
  | overran {started : ℚ} (h : s.phase = .cycling started) (hlt : cfg.testInterval < s.now - started)
    (hstop : s.stopAt = none) : Moves cfg R s { s with phase := .ready }
  | overranStopped {started : ℚ} (h : s.phase = .cycling started) (hstop : s.stopAt ≠ none) :
    Moves cfg R s { s with phase := .stopping 0 }
  | killed (h : (∃ since, s.phase = .pinging since) ∨ (∃ till, s.phase = .sleeping till) ∨
      s.phase = .connecting) : Moves cfg R s { s with phase := .killed }
  | signalled (h : s.phase.Handles) (hstop : s.stopAt = none) : Moves cfg R s { s with stopAt := some s.now }
  | disconnected {code : ℤ} (h : s.phase = .stopping code) :
    Moves cfg R s { s with clients := false, phase := .exited code }

namespace Process

/-- **A step does nothing, or is one of these.** -/
theorem step_moves {R : Prop} (s : Process) (e : ProcessEvent) (hR : e = .connect true → R) :
    s.step cfg e = s ∨ s.Moves cfg R (s.step cfg e) := by
  cases e with
  | tick d =>
    unfold step
    dsimp only
    split
    · next hd => exact .inr (.tick hd)
    · exact .inl rfl
  | ping answers =>
    unfold step ping
    dsimp only
    split
    · next since h =>
      split
      · exact .inr (.answered h)
      · split
        · next hle => exact .inr (.gaveUp h hle)
        · next hlt => exact .inr (.failed h (not_le.1 hlt))
    · exact .inl rfl
  | wake timedOut =>
    unfold step wake
    dsimp only
    split
    · next till h =>
      split
      · next htill => exact .inr (.awake h htill)
      · exact .inl rfl
    · next till h =>
      split
      · split
        · next hout => exact .inr (.timedOut h hout.1 hout.2)
        · exact .inl rfl
      · split
        · next hstop => exact .inr (.stopped h (Option.isSome_iff_ne_none.1 hstop))
        · exact .inl rfl
    · exact .inl rfl
  | connect raises =>
    unfold step connect
    dsimp only
    split
    · next h =>
      split
      · next hraises => exact .inr (.clientsFailed h (hR (by rw [hraises])))
      · exact .inr (.connected h)
    · exact .inl rfl
  | enter =>
    unfold step enter
    dsimp only
    split
    · next h =>
      split
      · next hstop => exact .inr (.enteredStopped h (Option.isSome_iff_ne_none.1 hstop))
      · next hstop =>
        have hnone : s.stopAt = none := Option.not_isSome_iff_eq_none.1 hstop
        split
        · next hlong => exact .inr (.waitFailed h hnone hlong)
        · exact .inr (.entered h hnone)
    · exact .inl rfl
  | begin =>
    unfold step begin
    dsimp only
    split
    · next h => exact .inr (.begun h)
    · exact .inl rfl
  | cycleEnds =>
    unfold step cycleEnds
    dsimp only
    split
    · next started h =>
      split
      · next hlt =>
        split
        · next hstop => exact .inr (.overranStopped h (Option.isSome_iff_ne_none.1 hstop))
        · next hstop => exact .inr (.overran h hlt (Option.not_isSome_iff_eq_none.1 hstop))
      · next hle =>
        -- the rest of the interval is over one interval after the start
        have htill : s.now + (cfg.testInterval - (s.now - started)) = started + cfg.testInterval := by ring
        rw [htill]
        exact .inr (.ended h (not_lt.1 hle))
    · exact .inl rfl
  | signal =>
    have hset : s.phase.Handles → ({ s with stopAt := some (s.stopAt.getD s.now) } : Process) = s ∨
        s.Moves cfg R { s with stopAt := some (s.stopAt.getD s.now) } := by
      intro h
      cases hstop : s.stopAt with
      | none => exact .inr (.signalled h hstop)
      | some t =>
        refine .inl ?_
        cases s
        cases hstop
        rfl
    unfold step signal
    dsimp only
    split
    · next since h => exact .inr (.killed (.inl ⟨since, h⟩))
    · next till h => exact .inr (.killed (.inr (.inl ⟨till, h⟩)))
    · next h => exact .inr (.killed (.inr (.inr h)))
    · exact .inl rfl
    · exact .inl rfl
    · next h1 h2 h3 h4 h5 =>
      refine hset ?_
      cases hp : s.phase with
      | pinging since => exact absurd hp (h1 since)
      | sleeping till => exact absurd hp (h2 till)
      | connecting => exact absurd hp h3
      | exited code => exact absurd hp (h4 code)
      | killed => exact absurd hp h5
      | _ => trivial
  | disconnect =>
    unfold step disconnect
    dsimp only
    split
    · next h => exact .inr (.disconnected h)
    · exact .inl rfl

end Process

/-! ## The schedule -/

/-- How late the last cycle started. -/
def lastLate (firstLate : ℚ) (its : List Iteration) : ℚ := (its.getLast?.map Iteration.late).getD firstLate

/-- When the cycle after one that started at `last` is due. -/
def dueAfter (cfg : Config) (last took : ℚ) : ℚ :=
  if (cfg.testInterval : ℚ) < took then last + took else last + cfg.testInterval

theorem nextStart_due (last took late : ℚ) : nextStart cfg last ⟨took, late⟩ = dueAfter cfg last took + late := by
  unfold nextStart dueAfter
  dsimp only
  split
  · rfl
  · ring

/-- **One cycle more.** -/
theorem schedulerLoop_concat (it : Iteration) (its : List Iteration) : ∀ {started last : ℚ},
    (schedulerLoop cfg started its).getLast? = some last →
      schedulerLoop cfg started (its ++ [it]) = schedulerLoop cfg started its ++ [nextStart cfg last it] := by
  induction its with
  | nil =>
    intro started last h
    obtain rfl := Option.some.inj h
    rfl
  | cons it' its ih =>
    intro started last h
    have hne : schedulerLoop cfg (nextStart cfg started it') its ≠ [] := by
      cases its <;> exact List.cons_ne_nil _ _
    have hlast : (schedulerLoop cfg (nextStart cfg started it') its).getLast? = some last := by
      rw [schedulerLoop, List.getLast?_cons_of_ne_nil hne] at h
      exact h
    rw [List.cons_append, schedulerLoop, ih hlast]
    rfl

namespace Process

/-- The starts of the cycles are those of `Scheduler.run`, begun not before `t₀`. Once `_stop` is
set, one cycle more may start: one that was due by then. -/
def Scheduled (cfg : Config) (t₀ : ℚ) (s : Process) : Prop :=
  ∃ boot firstLate its, s.starts = schedulerRun cfg boot firstLate its ∧ t₀ ≤ boot ∧ 0 ≤ firstLate ∧
    (∀ it ∈ its, 0 ≤ it.took ∧ 0 ≤ it.late) ∧
    ∀ t ∈ s.stopAt, (∀ u ∈ s.starts.dropLast, u ≤ t) ∧
      ∀ u ∈ s.starts.getLast?, u - lastLate firstLate its ≤ t

/-- The next cycle is due then. -/
def Due (cfg : Config) (t₀ : ℚ) (s : Process) (due : ℚ) : Prop :=
  (s.starts = [] ∧ ∃ boot, t₀ ≤ boot ∧ due = boot + cfg.testInterval) ∨
    ∃ last took, s.starts.getLast? = some last ∧ 0 ≤ took ∧ due = dueAfter cfg last took

/-- Why a process ends with a code: a stop, something that raises before the first cycle, or Redis. -/
def EndsBy (cfg : Config) (R : Prop) (s : Process) (code : ℤ) : Prop :=
  code = 0 ∧ s.stopAt ≠ none ∨
    code = 1 ∧ s.starts = [] ∧ (R ∧ s.stopAt = none ∨ timeoutMax < cfg.testInterval) ∨
    code = 3 ∧ s.starts = [] ∧ s.stopAt = none ∧ s.deadline ≤ s.now

/-- What holds in each phase. -/
def PhaseOK (cfg : Config) (R : Prop) (t₀ : ℚ) (s : Process) : Prop :=
  match s.phase with
  | .pinging _ => s.starts = [] ∧ s.stopAt = none ∧ s.clients = false
  | .sleeping _ => s.starts = [] ∧ s.stopAt = none ∧ s.clients = false
  | .connecting => s.starts = [] ∧ s.stopAt = none ∧ s.clients = false
  | .entering => s.starts = [] ∧ s.clients = true
  | .waiting till => s.Due cfg t₀ till ∧ s.clients = true
  | .ready => (∃ due, s.Due cfg t₀ due ∧ due ≤ s.now ∧ ∀ t ∈ s.stopAt, due ≤ t) ∧ s.clients = true
  | .cycling started => s.starts.getLast? = some started ∧ s.clients = true
  | .stopping code => s.clients = true ∧
    (code = 0 ∧ s.stopAt ≠ none ∨ code = 1 ∧ s.starts = [] ∧ timeoutMax < cfg.testInterval)
  | .exited code => s.clients = false ∧ s.EndsBy cfg R code
  | .killed => s.starts = [] ∧ s.stopAt = none ∧ s.clients = false

/-- What holds throughout a process that begins at `t₀`. -/
structure Kept (cfg : Config) (R : Prop) (t₀ : ℚ) (s : Process) : Prop where
  begun : t₀ ≤ s.now
  past : ∀ u ∈ s.starts, u ≤ s.now
  sorted : s.starts.Pairwise (· ≤ ·)
  scheduled : s.starts ≠ [] → s.Scheduled cfg t₀
  phase : s.PhaseOK cfg R t₀

theorem kept_init (cfg : Config) (R : Prop) (t₀ : ℚ) : (init cfg t₀).Kept cfg R t₀ :=
  ⟨le_rfl, fun _ hu => (by cases hu), .nil, fun h => absurd rfl h, rfl, rfl, rfl⟩

/-- A cycle is due one interval after the last start, at least. -/
theorem Due.le {t₀ due : ℚ} {s : Process} (hint : 0 ≤ cfg.testInterval) (h : s.Due cfg t₀ due)
    (hsorted : s.starts.Pairwise (· ≤ ·)) : ∀ u ∈ s.starts, u ≤ due := by
  intro u hu
  rcases h with ⟨hnil, -⟩ | ⟨last, took, hlast, htook, rfl⟩
  · rw [hnil] at hu
    cases hu
  · have hle : u ≤ last := by
      obtain ⟨l, hl⟩ := List.getLast?_eq_some_iff.1 hlast
      rw [hl] at hu hsorted
      rcases List.mem_append.1 hu with hu | hu
      · exact (List.pairwise_append.1 hsorted).2.2 u hu last (List.mem_singleton_self _)
      · exact (List.mem_singleton.1 hu).le
    have hI : (0 : ℚ) ≤ cfg.testInterval := by exact_mod_cast hint
    unfold dueAfter
    split <;> linarith

/-- A cycle that starts when it is due, or later. -/
theorem Kept.start {t₀ due : ℚ} {s : Process} (hint : 0 ≤ cfg.testInterval) (h : s.Kept cfg R t₀)
    (hdue : s.Due cfg t₀ due) (hnow : due ≤ s.now) (hstop : ∀ t ∈ s.stopAt, due ≤ t) :
    ({ s with starts := s.starts ++ [s.now], phase := .cycling s.now } : Process).Scheduled cfg t₀ := by
  have hdrop : ∀ t ∈ s.stopAt, ∀ u ∈ (s.starts ++ [s.now]).dropLast, u ≤ t := by
    intro t ht u hu
    rw [List.dropLast_concat] at hu
    exact (hdue.le hint h.sorted u hu).trans (hstop t ht)
  have hlast : ∀ t ∈ s.stopAt, ∀ u ∈ (s.starts ++ [s.now]).getLast?, u - (s.now - due) ≤ t := by
    intro t ht u hu
    rw [List.getLast?_concat] at hu
    obtain rfl := Option.some.inj hu
    have := hstop t ht
    linarith
  rcases hdue with ⟨hnil, boot, hboot, rfl⟩ | ⟨last, took, hgetLast, htook, hdue⟩
  · refine ⟨boot, s.now - (boot + cfg.testInterval), [], ?_, hboot, sub_nonneg.2 hnow,
      fun _ hit => (by cases hit), fun t ht => ⟨hdrop t ht, hlast t ht⟩⟩
    dsimp only
    rw [hnil]
    unfold schedulerRun schedulerLoop
    rw [add_sub_cancel, List.nil_append]
  · have hne : s.starts ≠ [] := by
      intro hnil
      rw [hnil] at hgetLast
      cases hgetLast
    obtain ⟨boot, firstLate, its, hstarts, hboot, hfirst, hits, -⟩ := h.scheduled hne
    refine ⟨boot, firstLate, its ++ [⟨took, s.now - due⟩], ?_, hboot, hfirst, ?_,
      fun t ht => ⟨hdrop t ht, ?_⟩⟩
    · rw [hstarts] at hgetLast
      unfold schedulerRun at hgetLast ⊢
      rw [schedulerLoop_concat _ _ hgetLast, nextStart_due, ← hdue, add_sub_cancel]
      dsimp only
      rw [hstarts]
      rfl
    · intro it hit
      rcases List.mem_append.1 hit with hit | hit
      · exact hits it hit
      · rw [List.mem_singleton.1 hit]
        exact ⟨htook, sub_nonneg.2 hnow⟩
    · have hlate : lastLate firstLate (its ++ [⟨took, s.now - due⟩]) = s.now - due := by
        unfold lastLate
        rw [List.getLast?_concat]
        rfl
      rw [hlate]
      exact hlast t ht

theorem lastLate_nonneg {firstLate : ℚ} {its : List Iteration} (hfirst : 0 ≤ firstLate)
    (hits : ∀ it ∈ its, 0 ≤ it.took ∧ 0 ≤ it.late) : 0 ≤ lastLate firstLate its := by
  unfold lastLate
  cases h : its.getLast? with
  | none => exact hfirst
  | some it => exact (hits it (List.mem_of_getLast? h)).2

/-- `_stop` is set after all starts so far. -/
theorem Kept.set {t₀ : ℚ} {s : Process} (h : s.Kept cfg R t₀) (hne : s.starts ≠ []) :
    ({ s with stopAt := some s.now } : Process).Scheduled cfg t₀ := by
  obtain ⟨boot, firstLate, its, hstarts, hboot, hfirst, hits, -⟩ := h.scheduled hne
  refine ⟨boot, firstLate, its, hstarts, hboot, hfirst, hits, fun t ht => ⟨fun u hu => ?_, fun u hu => ?_⟩⟩
  · rw [← Option.some.inj ht]
    exact h.past u (List.mem_of_mem_dropLast hu)
  · rw [← Option.some.inj ht]
    have := h.past u (List.mem_of_getLast? hu)
    have := lastLate_nonneg hfirst hits
    linarith

/-- The clock goes on. -/
theorem phaseOK_tick {t₀ d : ℚ} {s : Process} (hphase : s.PhaseOK cfg R t₀) (hd : 0 ≤ d) :
    ({ s with now := s.now + d } : Process).PhaseOK cfg R t₀ := by
  unfold PhaseOK at hphase ⊢
  dsimp only
  cases hp : s.phase with
  | ready =>
    rw [hp] at hphase
    obtain ⟨⟨due, hdue, hnow, hstop⟩, hclients⟩ := hphase
    exact ⟨⟨due, hdue, by linarith, hstop⟩, hclients⟩
  | exited code =>
    rw [hp] at hphase
    obtain ⟨hclients, hcode | hcode | ⟨hcode, hstarts, hstop, hdeadline⟩⟩ := hphase
    · exact ⟨hclients, .inl hcode⟩
    · exact ⟨hclients, .inr (.inl hcode)⟩
    · exact ⟨hclients, .inr (.inr ⟨hcode, hstarts, hstop, by dsimp only; linarith⟩)⟩
  | _ => rw [hp] at hphase; exact hphase

/-- The first signal. -/
theorem phaseOK_signalled {t₀ : ℚ} {s : Process} (hphase : s.PhaseOK cfg R t₀)
    (hhandles : s.phase.Handles) : ({ s with stopAt := some s.now } : Process).PhaseOK cfg R t₀ := by
  unfold PhaseOK at hphase ⊢
  dsimp only
  cases hp : s.phase with
  | entering =>
    rw [hp] at hphase
    exact hphase
  | waiting till =>
    rw [hp] at hphase
    exact hphase
  | ready =>
    rw [hp] at hphase
    obtain ⟨⟨due, hdue, hnow, -⟩, hclients⟩ := hphase
    exact ⟨⟨due, hdue, hnow, fun t ht => hnow.trans (Option.some.inj ht).le⟩, hclients⟩
  | cycling started =>
    rw [hp] at hphase
    exact hphase
  | stopping code =>
    rw [hp] at hphase
    exact ⟨hphase.1, hphase.2.imp_left fun h => ⟨h.1, Option.some_ne_none _⟩⟩
  | _ =>
    rw [hp] at hhandles
    exact hhandles.elim

/-- **A step keeps it.** -/
theorem kept_moves {t₀ : ℚ} {s s' : Process} (hint : 0 ≤ cfg.testInterval) (h : s.Kept cfg R t₀)
    (hm : s.Moves cfg R s') : s'.Kept cfg R t₀ := by
  have hphase := h.phase
  unfold PhaseOK at hphase
  cases hm with
  | tick hd =>
    exact ⟨by dsimp only; linarith [h.begun], fun u hu => (h.past u hu).trans (le_add_of_nonneg_right hd),
      h.sorted, h.scheduled, phaseOK_tick h.phase hd⟩
  | answered hp =>
    rw [hp] at hphase
    exact ⟨h.begun, h.past, h.sorted, h.scheduled, hphase⟩
  | failed hp hlt =>
    rw [hp] at hphase
    exact ⟨h.begun, h.past, h.sorted, h.scheduled, hphase⟩
  | gaveUp hp hle =>
    rw [hp] at hphase
    exact ⟨h.begun, h.past, h.sorted, h.scheduled, hphase.2.2,
      .inr (.inr ⟨rfl, hphase.1, hphase.2.1, hle⟩)⟩
  | awake hp htill =>
    rw [hp] at hphase
    exact ⟨h.begun, h.past, h.sorted, h.scheduled, hphase⟩
  | clientsFailed hp hR =>
    rw [hp] at hphase
    exact ⟨h.begun, h.past, h.sorted, h.scheduled, hphase.2.2,
      .inr (.inl ⟨rfl, hphase.1, .inl ⟨hR, hphase.2.1⟩⟩)⟩
  | connected hp =>
    rw [hp] at hphase
    exact ⟨h.begun, h.past, h.sorted, h.scheduled, hphase.1, rfl⟩
  | enteredStopped hp hstop =>
    rw [hp] at hphase
    exact ⟨h.begun, h.past, h.sorted, h.scheduled, hphase.2, .inl ⟨rfl, hstop⟩⟩
  | waitFailed hp hstop hlong =>
    rw [hp] at hphase
    exact ⟨h.begun, h.past, h.sorted, h.scheduled, hphase.2, .inr ⟨rfl, hphase.1, hlong⟩⟩
  | entered hp hstop =>
    rw [hp] at hphase
    exact ⟨h.begun, h.past, h.sorted, h.scheduled, .inl ⟨hphase.1, s.now, h.begun, rfl⟩, hphase.2⟩
  | timedOut hp htill hstop =>
    rw [hp] at hphase
    exact ⟨h.begun, h.past, h.sorted, h.scheduled, ⟨_, hphase.1, htill, hstop⟩, hphase.2⟩
  | stopped hp hstop =>
    rw [hp] at hphase
    exact ⟨h.begun, h.past, h.sorted, h.scheduled, hphase.2, .inl ⟨rfl, hstop⟩⟩
  | begun hp =>
    rw [hp] at hphase
    obtain ⟨⟨due, hdue, hnow, hstop⟩, hclients⟩ := hphase
    refine ⟨h.begun, fun u hu => ?_, ?_, fun _ => h.start hint hdue hnow hstop, List.getLast?_concat, hclients⟩
    · rcases List.mem_append.1 hu with hu | hu
      · exact h.past u hu
      · exact (List.mem_singleton.1 hu).le
    · rw [List.pairwise_append]
      refine ⟨h.sorted, List.pairwise_singleton _ _, fun u hu v hv => ?_⟩
      rw [List.mem_singleton.1 hv]
      exact h.past u hu
  | @ended started hp hle =>
    rw [hp] at hphase
    refine ⟨h.begun, h.past, h.sorted, h.scheduled,
      .inr ⟨started, s.now - started, hphase.1, ?_, ?_⟩, hphase.2⟩
    · exact sub_nonneg.2 (h.past _ (List.mem_of_getLast? hphase.1))
    · unfold dueAfter
      rw [if_neg (not_lt.2 hle)]
  | @overran started hp hlt hstop =>
    rw [hp] at hphase
    refine ⟨h.begun, h.past, h.sorted, h.scheduled,
      ⟨_, .inr ⟨started, s.now - started, hphase.1, ?_, rfl⟩, ?_, ?_⟩, hphase.2⟩
    · exact sub_nonneg.2 (h.past _ (List.mem_of_getLast? hphase.1))
    · unfold dueAfter
      rw [if_pos hlt, add_sub_cancel]
    · intro t ht
      dsimp only at ht
      rw [hstop] at ht
      cases ht
  | overranStopped hp hstop =>
    rw [hp] at hphase
    exact ⟨h.begun, h.past, h.sorted, h.scheduled, hphase.2, .inl ⟨rfl, hstop⟩⟩
  | killed hp =>
    refine ⟨h.begun, h.past, h.sorted, h.scheduled, ?_⟩
    rcases hp with ⟨_, hp⟩ | ⟨_, hp⟩ | hp <;> (rw [hp] at hphase; exact hphase)
  | signalled hp hstop =>
    exact ⟨h.begun, h.past, h.sorted, h.set, phaseOK_signalled h.phase hp⟩
  | disconnected hp =>
    rw [hp] at hphase
    refine ⟨h.begun, h.past, h.sorted, h.scheduled, rfl, hphase.2.imp_right fun hraised => .inl ?_⟩
    exact ⟨hraised.1, hraised.2.1, .inr hraised.2.2⟩

theorem kept_run {t₀ : ℚ} (hint : 0 ≤ cfg.testInterval) (es : List ProcessEvent) : ∀ s : Process,
    (.connect true ∈ es → R) → s.Kept cfg R t₀ → (s.run cfg es).Kept cfg R t₀ := by
  induction es with
  | nil => intro s _ h; exact h
  | cons e es ih =>
    intro s hR h
    refine ih _ (fun hmem => hR (List.mem_cons_of_mem _ hmem)) ?_
    rcases step_moves s e fun he => hR (he ▸ List.mem_cons_self) with he | he
    · rw [he]
      exact h
    · exact kept_moves hint h he

/-! ## The pings -/

/-- After a failed ping the next one is two seconds later, and pings go on before the deadline only. -/
def Tried (cfg : Config) (t₀ : ℚ) (s : Process) : Prop :=
  match s.phase with
  | .pinging _ => t₀ + pingInterval * s.attempt ≤ s.now ∧
    (s.attempt = 0 ∨ pingInterval * (s.attempt - 1) < cfg.redisStartupTimeout)
  | .sleeping till => t₀ + pingInterval * s.attempt ≤ till ∧
    pingInterval * (s.attempt - 1) < cfg.redisStartupTimeout
  | _ => s.attempt ≤ 1 ∨ pingInterval * (s.attempt - 2) < cfg.redisStartupTimeout

theorem tried_less {a : ℕ} {timeout : ℚ} (h : pingInterval * (a - 1) < timeout) :
    pingInterval * (a - 2) < timeout := by
  unfold pingInterval at h ⊢
  linarith

theorem tried_last {a : ℕ} {timeout : ℚ} (h : a = 0 ∨ pingInterval * (a - 1) < timeout) :
    a + 1 ≤ 1 ∨ pingInterval * ((a + 1 : ℕ) - 2) < timeout := by
  rcases h with rfl | h
  · exact .inl le_rfl
  · right
    push_cast
    linarith

theorem tried_moves {t₀ : ℚ} {s s' : Process} (hdeadline : s.deadline = t₀ + cfg.redisStartupTimeout)
    (h : s.Tried cfg t₀) (hm : s.Moves cfg R s') : s'.Tried cfg t₀ := by
  unfold Tried at h
  cases hm with
  | tick hd =>
    unfold Tried
    dsimp only
    cases hp : s.phase with
    | pinging since =>
      rw [hp] at h
      exact ⟨by linarith [h.1], h.2⟩
    | _ => rw [hp] at h; exact h
  | answered hp => rw [hp] at h; exact tried_last h.2
  | failed hp hlt =>
    rw [hp] at h
    unfold Tried
    push_cast
    constructor
    · linarith [h.1]
    · linarith [h.1]
  | gaveUp hp hle => rw [hp] at h; exact tried_last h.2
  | awake hp htill =>
    rw [hp] at h
    exact ⟨h.1.trans htill, .inr h.2⟩
  | clientsFailed hp => rw [hp] at h; exact h
  | connected hp => rw [hp] at h; exact h
  | enteredStopped hp => rw [hp] at h; exact h
  | waitFailed hp => rw [hp] at h; exact h
  | entered hp => rw [hp] at h; exact h
  | timedOut hp => rw [hp] at h; exact h
  | stopped hp => rw [hp] at h; exact h
  | begun hp => rw [hp] at h; exact h
  | ended hp => rw [hp] at h; exact h
  | overran hp => rw [hp] at h; exact h
  | overranStopped hp => rw [hp] at h; exact h
  | killed hp =>
    unfold Tried
    dsimp only
    rcases hp with ⟨_, hp⟩ | ⟨_, hp⟩ | hp
    · rw [hp] at h
      exact h.2.imp (fun h0 => by omega) tried_less
    · rw [hp] at h
      exact .inr (tried_less h.2)
    · rw [hp] at h
      exact h
  | signalled => exact h
  | disconnected hp => rw [hp] at h; exact h

theorem deadline_moves {s s' : Process} (hm : s.Moves cfg R s') : s'.deadline = s.deadline := by
  cases hm <;> rfl

theorem tried_run {t₀ : ℚ} (es : List ProcessEvent) : ∀ s : Process,
    s.deadline = t₀ + cfg.redisStartupTimeout → s.Tried cfg t₀ →
      (s.run cfg es).deadline = t₀ + cfg.redisStartupTimeout ∧ (s.run cfg es).Tried cfg t₀ := by
  induction es with
  | nil => intro s hdeadline h; exact ⟨hdeadline, h⟩
  | cons e es ih =>
    intro s hdeadline h
    rcases step_moves (R := True) s e fun _ => trivial with he | he
    · exact ih _ (by rw [he]; exact hdeadline) (by rw [he]; exact h)
    · exact ih _ ((deadline_moves he).trans hdeadline) (tried_moves hdeadline h he)

theorem tried_init (cfg : Config) (t₀ : ℚ) : (init cfg t₀).Tried cfg t₀ :=
  ⟨by simp [init], .inl rfl⟩

/-- What holds after any run from the first ping on. -/
theorem run_init (hint : 0 ≤ cfg.testInterval) (t₀ : ℚ) (es : List ProcessEvent) :
    ((init cfg t₀).run cfg es).Kept cfg (.connect true ∈ es) t₀ ∧
      ((init cfg t₀).run cfg es).deadline = t₀ + cfg.redisStartupTimeout ∧
      (((init cfg t₀).run cfg es).attempt ≤ 1 ∨
        pingInterval * (((init cfg t₀).run cfg es).attempt - 2) < cfg.redisStartupTimeout) := by
  obtain ⟨hdeadline, htried⟩ := tried_run es (init cfg t₀) rfl (tried_init cfg t₀)
  refine ⟨kept_run hint es _ id (kept_init cfg _ t₀), hdeadline, ?_⟩
  unfold Tried at htried
  split at htried
  · exact htried.2.imp (fun h0 => by omega) tried_less
  · exact .inr (tried_less htried.2)
  · exact htried

/-- **A process, whatever happens to it.** The cycles it starts are a run of `Scheduler.run`; a signal
lets at most one cycle start after it, which was due before. While a cycle runs the clients are
connected. It ends with code 0 only after a signal; with code 3, without a cycle, only when Redis has
failed for the whole timeout, after a bounded number of pings; with code 2 for a `ConfigError`; and
with code 1, without a cycle, only when something that nothing catches has raised: another exception
of the configuration, what comes before the first ping, the start of the clients, or the first wait. -/
theorem run_scheduled (L : Lib) (uuid : String) (env : String → Option String) (binds : Bool) (t₀ : ℚ)
    (es : List ProcessEvent) :
    let s := serve L binds (Config.fromEnv L uuid env) t₀ es
    (∀ cfg, Config.fromEnv L uuid env = .ok cfg →
      (s.starts ≠ [] → s.Scheduled cfg t₀) ∧
      (∀ started, s.phase = .cycling started → s.clients = true) ∧
      (∀ code, s.phase = .exited code → s.clients = false ∧
        (code = 0 ∧ s.stopAt ≠ none ∨
          code = 1 ∧ s.starts = [] ∧ (startsUp L cfg binds = false ∨
            .connect true ∈ es ∧ s.stopAt = none ∨ timeoutMax < cfg.testInterval) ∨
          code = 3 ∧ s.starts = [] ∧ s.stopAt = none ∧ t₀ + cfg.redisStartupTimeout ≤ s.now)) ∧
      (s.attempt ≤ 1 ∨ pingInterval * (s.attempt - 2) < cfg.redisStartupTimeout)) ∧
    (∀ msg, Config.fromEnv L uuid env = .error (.configError msg) → s = .ended t₀ 2) ∧
    ∀ e, Config.fromEnv L uuid env = .error e → (∀ msg, e ≠ .configError msg) → s = .ended t₀ 1 := by
  intro s
  refine ⟨fun cfg hcfg => ?_, fun msg herror => ?_, fun e herror hother => ?_⟩
  · have hint : 0 ≤ cfg.testInterval := (fromEnv_spec hcfg).testInterval_pos.le
    have hs : s = if startsUp L cfg binds then (init cfg t₀).run cfg es else .ended t₀ 1 := by
      change serve L binds (Config.fromEnv L uuid env) t₀ es = _
      rw [hcfg]
      rfl
    cases hup : startsUp L cfg binds with
    | false =>
      have hended : s = .ended t₀ 1 := by rw [hs, hup]; rfl
      rw [hended]
      refine ⟨fun hne => absurd rfl hne, fun _ hp => (by cases hp), fun code hp => ?_, .inl (Nat.zero_le 1)⟩
      obtain rfl : (1 : ℤ) = code := Phase.exited.inj hp
      exact ⟨rfl, .inr (.inl ⟨rfl, rfl, .inl rfl⟩)⟩
    | true =>
      have hrun : s = (init cfg t₀).run cfg es := by rw [hs, hup]; rfl
      obtain ⟨hkept, hdeadline, htried⟩ := run_init hint t₀ es
      rw [← hrun] at hkept hdeadline htried
      have hphase := hkept.phase
      unfold PhaseOK at hphase
      refine ⟨hkept.scheduled, fun started hp => ?_, fun code hp => ?_, htried⟩
      · rw [hp] at hphase
        exact hphase.2
      · rw [hp] at hphase
        obtain ⟨hclients, hstop | ⟨hcode, hstarts, hraised⟩ | ⟨hcode, hstarts, hstop, hnow⟩⟩ := hphase
        · exact ⟨hclients, .inl hstop⟩
        · exact ⟨hclients, .inr (.inl ⟨hcode, hstarts, .inr hraised⟩)⟩
        · exact ⟨hclients, .inr (.inr ⟨hcode, hstarts, hstop, hdeadline ▸ hnow⟩)⟩
  · change serve L binds (Config.fromEnv L uuid env) t₀ es = _
    rw [herror]
    rfl
  · change serve L binds (Config.fromEnv L uuid env) t₀ es = _
    rw [herror]
    cases e with
    | configError msg => exact absurd rfl (hother msg)
    | _ => rfl

/-- Redis answers the second ping; `SIGTERM` arrives in the first cycle, which overruns nothing. -/
def stoppedLife : List ProcessEvent :=
  [.ping false, .tick 2, .wake true, .ping true, .connect false, .enter, .tick 300, .wake true, .begin,
    .tick 200, .signal, .tick 80, .cycleEnds, .wake false, .disconnect]

theorem run_scheduled_sample :
    (serve sampleTables.lib true (Config.fromEnv sampleTables.lib "sub"
      (sampleEnv "cache/a/wis2/#, origin/a/wis2/#" "ca-eccc" "https://x/")) 0 stoppedLife).Scheduled
        (sampleConfig ["cache/a/wis2/#", "origin/a/wis2/#"] ["ca-eccc"] ["https://x"]) 0 :=
  ((run_scheduled sampleTables.lib "sub" (sampleEnv "cache/a/wis2/#, origin/a/wis2/#" "ca-eccc" "https://x/")
    true 0 stoppedLife).1 _ fromEnv_sampleConfig).1 (by decide +kernel)

/-- A port that another process has ends it with code 1. -/
example : (serve sampleTables.lib false (.ok shippedConfig) 0 stoppedLife).phase = .exited 1 := rfl

/-! ## Prompt runs -/

/-- The starts are one interval apart. -/
def Evenly (cfg : Config) (starts : List ℚ) : Prop := starts.IsChain fun u v : ℚ => v = u + cfg.testInterval

/-- What the clock may be in each phase, when pings are waited for until `bound`. -/
def Timely (cfg : Config) (P C bound : ℚ) (s : Process) : Prop :=
  match s.phase with
  | .pinging since => s.now ≤ since + P ∧ since ≤ bound
  | .sleeping till => s.now ≤ till ∧ till ≤ bound
  | .connecting => s.now ≤ bound + P
  | .entering => ∀ t ∈ s.stopAt, s.now ≤ t + C
  | .waiting till => s.now ≤ till ∧ (∀ t ∈ s.stopAt, s.now ≤ t + C) ∧
    ∀ u ∈ s.starts.getLast?, till = u + cfg.testInterval
  | .ready => (∀ t ∈ s.stopAt, s.now ≤ t) ∧
    (C ≤ cfg.testInterval → ∀ u ∈ s.starts.getLast?, s.now = u + cfg.testInterval)
  | .cycling started => s.now ≤ started + C ∧ s.starts.getLast? = some started ∧ ∀ t ∈ s.stopAt, started ≤ t
  | .stopping _ => ∀ t ∈ s.stopAt, s.now ≤ t + C
  | .exited _ => True
  | .killed => True

theorem timely_tick {P C bound d : ℚ} {s : Process} (h : s.Timely cfg P C bound) (hd : 0 ≤ d)
    (hpass : 0 < d → s.MayPass P C (s.now + d)) :
    ({ s with now := s.now + d } : Process).Timely cfg P C bound := by
  rcases hd.eq_or_lt with rfl | hlt
  · rw [add_zero]
    exact h
  · have hmay := hpass hlt
    unfold MayPass at hmay
    unfold Timely at h ⊢
    dsimp only
    cases hp : s.phase with
    | pinging since => rw [hp] at h hmay; exact ⟨hmay, h.2⟩
    | sleeping till => rw [hp] at h hmay; exact ⟨hmay, h.2⟩
    | connecting => rw [hp] at hmay; exact hmay.elim
    | entering => rw [hp] at hmay; exact hmay.elim
    | waiting till =>
      rw [hp] at h hmay
      obtain ⟨hnone, hle⟩ := hmay
      refine ⟨hle, fun t ht => ?_, h.2.2⟩
      rw [hnone] at ht
      cases ht
    | ready => rw [hp] at hmay; exact hmay.elim
    | cycling started => rw [hp] at h hmay; exact ⟨hmay, h.2⟩
    | stopping code => rw [hp] at hmay; exact hmay.elim
    | exited code => trivial
    | killed => trivial

/-- The first signal. -/
theorem timely_signalled {P C bound : ℚ} {s : Process} (hC : 0 ≤ C) (hpast : ∀ u ∈ s.starts, u ≤ s.now)
    (htime : s.Timely cfg P C bound)
    (hhandles : s.phase.Handles) : ({ s with stopAt := some s.now } : Process).Timely cfg P C bound := by
  have hin : ∀ t ∈ some s.now, s.now ≤ t + C := by
    intro t ht
    rw [← Option.some.inj ht]
    exact le_add_of_nonneg_right hC
  unfold Timely at htime ⊢
  dsimp only
  cases hp : s.phase with
  | entering => exact hin
  | waiting till =>
    rw [hp] at htime
    exact ⟨htime.1, hin, htime.2.2⟩
  | ready =>
    rw [hp] at htime
    exact ⟨fun t ht => (Option.some.inj ht).le, htime.2⟩
  | cycling started =>
    rw [hp] at htime
    refine ⟨htime.1, htime.2.1, fun t ht => ?_⟩
    rw [← Option.some.inj ht]
    exact hpast _ (List.mem_of_getLast? htime.2.1)
  | stopping code => exact hin
  | _ =>
    rw [hp] at hhandles
    exact hhandles.elim

/-- **A step keeps the times.** -/
theorem timely_moves {P C bound t₀ : ℚ} {s s' : Process} (hP : 0 ≤ P) (hC : 0 ≤ C)
    (hint : 0 ≤ cfg.testInterval) (hbound : s.deadline + pingInterval ≤ bound) (hk : s.Kept cfg R t₀)
    (htime : s.Timely cfg P C bound) (heven : C ≤ cfg.testInterval → Evenly cfg s.starts)
    (hm : s.Moves cfg R s') (hpass : s.now < s'.now → s.MayPass P C s'.now) :
    s'.Timely cfg P C bound ∧ (C ≤ cfg.testInterval → Evenly cfg s'.starts) := by
  have hI : (0 : ℚ) ≤ cfg.testInterval := by exact_mod_cast hint
  have hphase := hk.phase
  have hphaseTime := htime
  unfold PhaseOK at hphase
  unfold Timely at hphaseTime
  cases hm with
  | tick hd => exact ⟨timely_tick htime hd fun hlt => hpass (lt_add_of_pos_right _ hlt), heven⟩
  | answered hp =>
    rw [hp] at hphaseTime
    refine ⟨?_, heven⟩
    unfold Timely
    dsimp only
    linarith [hphaseTime.1, hphaseTime.2]
  | failed hp hlt =>
    refine ⟨⟨?_, ?_⟩, heven⟩
    · unfold pingInterval
      linarith
    · linarith
  | gaveUp hp hle => exact ⟨trivial, heven⟩
  | awake hp htill =>
    rw [hp] at hphaseTime
    exact ⟨⟨le_add_of_nonneg_right hP, hphaseTime.1.trans hphaseTime.2⟩, heven⟩
  | clientsFailed hp => exact ⟨trivial, heven⟩
  | connected hp =>
    rw [hp] at hphase
    refine ⟨fun t ht => ?_, heven⟩
    dsimp only at ht
    rw [hphase.2.1] at ht
    cases ht
  | enteredStopped hp =>
    rw [hp] at hphaseTime
    exact ⟨hphaseTime, heven⟩
  | waitFailed hp =>
    rw [hp] at hphaseTime
    exact ⟨hphaseTime, heven⟩
  | entered hp hstop =>
    rw [hp] at hphase
    refine ⟨⟨le_add_of_nonneg_right hI, fun t ht => ?_, fun u hu => ?_⟩, heven⟩
    · dsimp only at ht
      rw [hstop] at ht
      cases ht
    · dsimp only at hu
      rw [hphase.1] at hu
      cases hu
  | timedOut hp htill hstop =>
    rw [hp] at hphaseTime
    obtain ⟨hle, -, hlast⟩ := hphaseTime
    exact ⟨⟨fun t ht => hle.trans (hstop t ht), fun _ u hu => (le_antisymm hle htill).trans (hlast u hu)⟩, heven⟩
  | stopped hp =>
    rw [hp] at hphaseTime
    exact ⟨hphaseTime.2.1, heven⟩
  | begun hp =>
    rw [hp] at hphaseTime
    refine ⟨⟨le_add_of_nonneg_right hC, List.getLast?_concat, hphaseTime.1⟩, fun hCI => ?_⟩
    refine List.isChain_append.2 ⟨heven hCI, List.isChain_singleton _, fun u hu v hv => ?_⟩
    obtain rfl : s.now = v := Option.some.inj hv
    exact hphaseTime.2 hCI u hu
  | ended hp hle =>
    rw [hp] at hphaseTime
    obtain ⟨hnow, hlast, hstop⟩ := hphaseTime
    refine ⟨⟨by linarith, fun t ht => ?_, fun u hu => ?_⟩, heven⟩
    · have := hstop t ht
      dsimp only
      linarith
    · rw [Option.some.inj (hlast.symm.trans hu)]
  | overran hp hlt hstop =>
    rw [hp] at hphaseTime
    refine ⟨⟨fun t ht => ?_, fun hCI => ?_⟩, heven⟩
    · dsimp only at ht
      rw [hstop] at ht
      cases ht
    · -- a cycle that takes at most an interval does not overrun
      have := hphaseTime.1
      exact absurd hlt (not_lt.2 (by linarith))
  | overranStopped hp =>
    rw [hp] at hphaseTime
    obtain ⟨hnow, -, hstop⟩ := hphaseTime
    refine ⟨fun t ht => ?_, heven⟩
    have := hstop t ht
    dsimp only
    linarith
  | killed hp => exact ⟨trivial, heven⟩
  | signalled hp => exact ⟨timely_signalled hC hk.past htime hp, heven⟩
  | disconnected hp => exact ⟨trivial, heven⟩

theorem ping_now (answers : Bool) (s : Process) : (s.ping answers).now = s.now := by
  unfold ping
  split
  · split
    · rfl
    · split <;> rfl
  · rfl

theorem wake_now (timedOut : Bool) (s : Process) : (s.wake timedOut).now = s.now := by
  unfold wake
  split
  · split <;> rfl
  · split
    · split <;> rfl
    · split <;> rfl
  · rfl

theorem connect_now (raises : Bool) (s : Process) : (s.connect raises).now = s.now := by
  unfold connect
  split
  · split <;> rfl
  · rfl

theorem enter_now (s : Process) : (s.enter cfg).now = s.now := by
  unfold enter
  split
  · split
    · rfl
    · split <;> rfl
  · rfl

theorem begin_now (s : Process) : s.begin.now = s.now := by
  unfold begin
  split <;> rfl

theorem cycleEnds_now (s : Process) : (s.cycleEnds cfg).now = s.now := by
  unfold cycleEnds
  split
  · dsimp only
    split
    · split <;> rfl
    · rfl
  · rfl

theorem signal_now (s : Process) : s.signal.now = s.now := by
  unfold signal
  split <;> rfl

theorem disconnect_now (s : Process) : s.disconnect.now = s.now := by
  unfold disconnect
  split <;> rfl

/-- The clock moves by what an event takes. -/
theorem step_later {s : Process} {e : ProcessEvent} (h : s.now < (s.step cfg e).now) :
    0 < e.takes ∧ (s.step cfg e).now = s.now + e.takes := by
  cases e with
  | tick d =>
    unfold step at h ⊢
    dsimp only at h ⊢
    split at h
    · next hd =>
      rw [if_pos hd]
      exact ⟨(lt_add_iff_pos_right _).1 h, rfl⟩
    · exact absurd h (lt_irrefl _)
  | ping answers => exact absurd h (ping_now answers s).not_gt
  | wake timedOut => exact absurd h (wake_now timedOut s).not_gt
  | connect raises => exact absurd h (connect_now raises s).not_gt
  | enter => exact absurd h (enter_now s).not_gt
  | begin => exact absurd h (begin_now s).not_gt
  | cycleEnds => exact absurd h (cycleEnds_now s).not_gt
  | signal => exact absurd h (signal_now s).not_gt
  | disconnect => exact absurd h (disconnect_now s).not_gt

theorem timely_run {P C bound t₀ : ℚ} (hP : 0 ≤ P) (hC : 0 ≤ C) (hint : 0 ≤ cfg.testInterval)
    (es : List ProcessEvent) : ∀ s : Process, s.deadline + pingInterval ≤ bound → s.Kept cfg True t₀ →
      s.Timely cfg P C bound → (C ≤ cfg.testInterval → Evenly cfg s.starts) → s.Prompt cfg P C es →
        (s.run cfg es).Timely cfg P C bound ∧ (C ≤ cfg.testInterval → Evenly cfg (s.run cfg es).starts) := by
  induction es with
  | nil => intro s _ _ htime heven _; exact ⟨htime, heven⟩
  | cons e es ih =>
    intro s hbound hk htime heven hes
    obtain ⟨hpass, hrest⟩ := hes
    rcases step_moves (R := True) s e fun _ => trivial with he | he
    · rw [he] at hrest
      have := ih s hbound hk htime heven hrest
      unfold run at this ⊢
      rw [List.foldl_cons, he]
      exact this
    · obtain ⟨htime', heven'⟩ := timely_moves hP hC hint hbound hk htime heven he fun hlt => by
        obtain ⟨hpos, hnow⟩ := step_later hlt
        rw [hnow]
        exact hpass hpos
      exact ih _ (by rw [deadline_moves he]; exact hbound) (kept_moves hint hk he) htime' heven' hrest

/-- The windows of cycles one interval apart are contiguous. -/
theorem Evenly.windows {starts : List ℚ} (h : Evenly cfg starts) (offset : ℚ) :
    NoInstantSkipped (starts.map fun started => cycleWindow cfg (started + offset)) := by
  apply noInstantSkipped_of_chain
  rw [List.isChain_map]
  refine h.imp fun u v huv => ?_
  have hv : v + offset = u + offset + cfg.testInterval + 0 := by
    rw [huv]
    ring
  unfold cycleWindow
  rw [hv, meets_iff, add_zero]

/-- **A process that is not kept waiting.** When pings take at most `P` seconds and cycles at most `C`,
and the main thread goes on as soon as it can, then the start-up is over two seconds and a ping after
its timeout, a signal that is handled ends the process within one cycle, with code 0 if its interval
can be waited for, and if no cycle takes longer than `TEST_INTERVAL` the cycles start exactly one
interval apart, so that no instant is skipped. -/
theorem prompt_service {P C : ℚ} (hP : 0 ≤ P) (hC : 0 ≤ C) (hint : 0 ≤ cfg.testInterval) (t₀ : ℚ)
    (es : List ProcessEvent) (hes : (init cfg t₀).Prompt cfg P C es) :
    let s := (init cfg t₀).run cfg es
    (max t₀ (t₀ + cfg.redisStartupTimeout + pingInterval) + P < s.now →
      s.clients = true ∨ s.phase = .killed ∨ ∃ code, s.phase = .exited code) ∧
      (∀ t ∈ s.stopAt, t + C < s.now →
        ∃ code, s.phase = .exited code ∧ (cfg.testInterval ≤ timeoutMax → code = 0)) ∧
      (C ≤ cfg.testInterval → s.starts.IsChain (fun u v : ℚ => v = u + cfg.testInterval) ∧
        ∀ offset, NoInstantSkipped (s.starts.map fun started => cycleWindow cfg (started + offset))) := by
  intro s
  have hkept : s.Kept cfg True t₀ := kept_run hint es _ (fun _ => trivial) (kept_init cfg _ t₀)
  have hinit : (init cfg t₀).Timely cfg P C (max t₀ (t₀ + cfg.redisStartupTimeout + pingInterval)) :=
    ⟨le_add_of_nonneg_right hP, le_max_left _ _⟩
  obtain ⟨htime, heven⟩ : s.Timely cfg P C (max t₀ (t₀ + cfg.redisStartupTimeout + pingInterval)) ∧
      (C ≤ cfg.testInterval → Evenly cfg s.starts) :=
    timely_run hP hC hint es _ (le_max_right _ _) (kept_init cfg _ t₀) hinit (fun _ => List.isChain_nil) hes
  have hphase := hkept.phase
  unfold PhaseOK at hphase
  unfold Timely at htime
  refine ⟨fun hlate => ?_, fun t ht hlate => ?_, fun hCI => ⟨heven hCI, (heven hCI).windows⟩⟩
  · cases hp : s.phase with
    | pinging since => rw [hp] at htime; linarith [htime.1, htime.2]
    | sleeping till => rw [hp] at htime; linarith [htime.1, htime.2]
    | connecting => rw [hp] at htime; linarith [htime]
    | entering => rw [hp] at hphase; exact .inl hphase.2
    | waiting till => rw [hp] at hphase; exact .inl hphase.2
    | ready => rw [hp] at hphase; exact .inl hphase.2
    | cycling started => rw [hp] at hphase; exact .inl hphase.2
    | stopping code => rw [hp] at hphase; exact .inl hphase.1
    | exited code => exact .inr (.inr ⟨code, rfl⟩)
    | killed => exact .inr (.inl rfl)
  · have hnone : ∀ {P : Prop}, s.stopAt = none → P := by
      intro P hstop
      rw [hstop] at ht
      cases ht
    cases hp : s.phase with
    | pinging since => rw [hp] at hphase; exact hnone hphase.2.1
    | sleeping till => rw [hp] at hphase; exact hnone hphase.2.1
    | connecting => rw [hp] at hphase; exact hnone hphase.2.1
    | entering => rw [hp] at htime; linarith [htime t ht]
    | waiting till => rw [hp] at htime; linarith [htime.2.1 t ht]
    | ready => rw [hp] at htime; linarith [htime.1 t ht]
    | cycling started => rw [hp] at htime; linarith [htime.1, htime.2.2 t ht]
    | stopping code => rw [hp] at htime; linarith [htime t ht]
    | exited code =>
      rw [hp] at hphase
      refine ⟨code, rfl, fun hshort => ?_⟩
      rcases hphase.2 with ⟨rfl, -⟩ | ⟨-, -, ⟨-, hstop⟩ | hlong⟩ | ⟨-, -, hstop, -⟩
      · rfl
      · exact hnone hstop
      · exact absurd hlong (not_lt.2 hshort)
      · exact hnone hstop
    | killed => rw [hp] at hphase; exact hnone hphase.2.1

theorem prompt_service_sample : ∃ code,
    ((init shippedConfig 0).run shippedConfig (stoppedLife ++ [.tick 600])).phase = .exited code ∧
      (shippedConfig.testInterval ≤ timeoutMax → code = 0) :=
  (@prompt_service shippedConfig 1 300 (by decide) (by decide) (by decide) 0 (stoppedLife ++ [.tick 600])
    (by decide +kernel)).2.1 502 (by decide +kernel) (by decide +kernel)

end Process

end Scgrep
