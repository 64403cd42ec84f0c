import Scgrep.Proof.WorldStep
import Scgrep.Spec.Tables
import Scgrep.Spec.Timing

/-!
# A cycle keeps its deadline

No request is sent after the deadline, so a cycle is over once the longest
request that was under way then has ended, or the last look at the counters
(`published_by`). The invariant is `OnTime`: what has not begun begins at the
start of the cycle, and a page loop that waits for a page sent its request in
time.
-/

namespace Scgrep

open World

variable {E : Ctx} {R : ℚ}

/-- When a cycle is over at the latest. -/
def Ctx.overAt (E : Ctx) (R : ℚ) : ℚ := E.deadlineAt + max R pollInterval

theorem Ctx.started_le_deadlineAt (h : 0 < E.cfg.testInterval) : E.started ≤ E.deadlineAt := by
  have h' : (0 : ℚ) < E.cfg.testInterval := by exact_mod_cast h
  unfold Ctx.deadlineAt deadlineS
  linarith

theorem Ctx.deadlineAt_le_overAt : E.deadlineAt ≤ E.overAt R := by
  have h : pollInterval ≤ max R pollInterval := le_max_right _ _
  have hp : (0 : ℚ) ≤ pollInterval := by unfold pollInterval; norm_num
  unfold Ctx.overAt
  linarith

theorem Ctx.request_le_overAt {s : ℚ} (h : s ≤ E.deadlineAt) : s + R ≤ E.overAt R := by
  have h' : R ≤ max R pollInterval := le_max_left _ _
  unfold Ctx.overAt
  linarith

theorem Ctx.poll_le_overAt : E.deadlineAt + pollInterval ≤ E.overAt R := by
  have h' : pollInterval ≤ max R pollInterval := le_max_right _ _
  unfold Ctx.overAt
  linarith

/-! ## Requests -/

/-- A page loop that goes on does so before the deadline. -/
theorem syncTurn_inTime {L : Lib} {c : FetchCall} {now : ℚ} {p p' : PageLoop} {page : Json}
    {url : String} (h : syncTurn L c now p page = .inr (p', url)) : now < c.deadlineAt := by
  unfold syncTurn at h
  split at h
  · cases h
  split at h
  · cases h
  dsimp only at h
  split at h
  · cases h
  split at h
  · cases h
  · rename_i hd; exact not_le.1 hd

theorem SyncState.reached_cases (o : Outcome ⊕ PageLoop × Json) :
    (∃ out, SyncState.reached o = .finished out) ∨ ∃ p q, SyncState.reached o = .page p q := by
  rcases o with out | ⟨p, q⟩
  · exact Or.inl ⟨out, rfl⟩
  · exact Or.inr ⟨p, q, rfl⟩

theorem AsyncState.replied_cases (k : ℕ) (o : Except PyErr PostState) :
    (∃ out, AsyncState.replied k o = .finished out) ∨ ∃ a, AsyncState.replied k o = .posted k a := by
  rcases o with e | a
  · exact Or.inl ⟨.error e, rfl⟩
  · exact Or.inr ⟨a, rfl⟩

/-- A turn of a page loop ends it, or sends a request before the deadline. -/
theorem SyncState.turned_cases {L : Lib} {c : FetchCall} {now : ℚ} {p : PageLoop} {page : Json} :
    (∃ out, SyncState.turned (Scgrep.syncTurn L c now p page) = .finished out) ∨
      now < c.deadlineAt ∧
        ∃ p' url, SyncState.turned (Scgrep.syncTurn L c now p page) = .waiting p' url := by
  cases h : Scgrep.syncTurn L c now p page with
  | inl out => exact Or.inl ⟨out, rfl⟩
  | inr q => exact Or.inr ⟨syncTurn_inTime h, q.1, q.2, rfl⟩

/-- No step leads back to the start of a synchronous fetch; its first request is sent from there. -/
theorem sync_start_step {w : World} {e : Event} {i : ℕ} :
    ((w.step E e).sync i = .ready → w.sync i = .ready) ∧
      ∀ s, (w.step E e).sync i = .requested s →
        w.sync i = .requested s ∨ w.sync i = .ready ∧ s = w.now := by
  rcases sync_moved (E := E) w e i with h | ⟨cell, -, h⟩
  · rw [h]; exact ⟨id, fun s hs => Or.inl hs⟩
  generalize hs : w.sync i = s at h
  generalize (w.step E e).sync i = t at h
  cases h with
  | start => exact ⟨fun h => (by cases h), fun s h => (by cases h; exact Or.inr ⟨rfl, rfl⟩)⟩
  | first start x =>
    rcases SyncState.reached_cases (Scgrep.syncFirst E.L (E.call cell) start w.now x) with
      ⟨out, h⟩ | ⟨p, q, h⟩ <;> rw [h] <;> exact ⟨fun h => (by cases h), fun s h => (by cases h)⟩
  | next p url x =>
    rcases SyncState.reached_cases (Scgrep.syncNext E.L p url x) with
      ⟨out, h⟩ | ⟨p, q, h⟩ <;> rw [h] <;> exact ⟨fun h => (by cases h), fun s h => (by cases h)⟩
  | turn p q =>
    rcases @SyncState.turned_cases E.L (E.call cell) w.now p q with
      ⟨out, h⟩ | ⟨-, p', url, h⟩ <;> rw [h] <;> exact ⟨fun h => (by cases h), fun s h => (by cases h)⟩

/-- So with an asynchronous fetch and its POST. -/
theorem async_start_step {w : World} {e : Event} {i : ℕ} :
    (((w.step E e).async i = .ready ∨ ∃ k, (w.step E e).async i = .registered k) →
        w.async i = .ready ∨ ∃ k, w.async i = .registered k) ∧
      ∀ k s, (w.step E e).async i = .started k s →
        w.async i = .started k s ∨ w.async i = .registered k ∧ s = w.now := by
  rcases async_moved (E := E) w e i with h | ⟨cell, -, h⟩
  · rw [h]; exact ⟨id, fun k s hs => Or.inl hs⟩
  generalize hs : w.async i = s at h
  generalize (w.step E e).async i = t at h
  cases h with
  | register => exact ⟨fun _ => Or.inl rfl, fun k s h => (by cases h)⟩
  | post k => exact ⟨fun _ => Or.inr ⟨k, rfl⟩, fun k s h => (by cases h; exact Or.inr ⟨rfl, rfl⟩)⟩
  | reply k start x =>
    rcases AsyncState.replied_cases k (asyncPost E.L (E.call cell) E.cfg.subscriberId
      E.brokerAuthorities start w.now x) with ⟨out, h⟩ | ⟨a, h⟩ <;> rw [h] <;>
      exact ⟨fun h => (by rcases h with h | ⟨_, h⟩ <;> cases h), fun k s h => (by cases h)⟩
  | _ => exact ⟨fun h => (by rcases h with h | ⟨_, h⟩ <;> cases h), fun k s h => (by cases h)⟩

/-- What the step to a pending request is. -/
theorem waiting_step {w : World} {e : Event} {i : ℕ} {p : PageLoop} {url : String}
    (h : (w.step E e).sync i = .waiting p url) :
    w.sync i = .waiting p url ∨
      e = .syncTurn i ∧ w.now < E.deadlineAt ∧ ∃ p' page, w.sync i = .page p' page := by
  have hs := step_spec (E := E) w e
  generalize w.step E e = w' at hs h
  cases hs with
  | syncBegin hi hr =>
    rw [setSync_sync] at h
    split at h
    · cases h
    · exact Or.inl h
  | @syncFirst j cell start x hi hr =>
    rw [setSync_sync] at h
    split at h
    · rcases SyncState.reached_cases (Scgrep.syncFirst E.L (E.call cell) start w.now x) with
        ⟨out, h'⟩ | ⟨p', q, h'⟩ <;> rw [h'] at h <;> cases h
    · exact Or.inl h
  | @syncNext j cell p' url' x hi hr =>
    rw [setSync_sync] at h
    split at h
    · rcases SyncState.reached_cases (Scgrep.syncNext E.L p' url' x) with
        ⟨out, h'⟩ | ⟨p', q, h'⟩ <;> rw [h'] at h <;> cases h
    · exact Or.inl h
  | @syncTurn j cell p' page hi hr =>
    rw [setSync_sync] at h
    split at h
    · rename_i hij
      subst hij
      rcases @SyncState.turned_cases E.L (E.call cell) w.now p' page with ⟨out, h'⟩ | ⟨hd, -⟩
      · rw [h'] at h; cases h
      · exact Or.inr ⟨rfl, hd, p', page, hr⟩
    · exact Or.inl h
  | _ => exact Or.inl h

theorem sends_other {T : Timed} {e : Event} {i : ℕ} (h : ∀ p page, T.world.sync i ≠ .page p page) :
    T.sends e i = T.sent i := by
  cases e with
  | syncTurn j =>
    cases hp : T.world.sync j with
    | page p page =>
      have hij : i ≠ j := by rintro rfl; exact h p page hp
      simp only [Timed.sends, hp, Function.update_of_ne hij]
    | _ => simp only [Timed.sends, hp]
  | _ => rfl

theorem sends_self {T : Timed} {i : ℕ} {p : PageLoop} {page : Json}
    (h : T.world.sync i = .page p page) : T.sends (.syncTurn i) i = T.world.now := by
  simp only [Timed.sends, h]
  exact Function.update_self ..

/-! ## The invariant -/

/-- What holds of the states of a prompt run. -/
structure OnTime (E : Ctx) (R : ℚ) (T : Timed) : Prop where
  fresh : T.world.main = .begin ∨ T.world.main = .counted → T.world.now = E.started
  syncFresh : ∀ i < E.cfg.cells.length, T.world.sync i = .ready → T.world.now = E.started
  asyncFresh : ∀ i < E.cfg.cells.length,
    (T.world.async i = .ready ∨ ∃ k, T.world.async i = .registered k) → T.world.now = E.started
  requested : ∀ i < E.cfg.cells.length, ∀ s, T.world.sync i = .requested s → s = E.started
  posted : ∀ i < E.cfg.cells.length, ∀ k s, T.world.async i = .started k s → s = E.started
  sent : ∀ i p url, T.world.sync i = .waiting p url → T.sent i < E.deadlineAt
  count : ∀ k, T.world.main = .collecting k → k ≤ 2 * E.cfg.cells.length
  due : T.world.main ≠ .published → T.world.now ≤ E.overAt R

theorem onTime_init (h : 0 < E.cfg.testInterval) (db : Db) (reg : ReplayRegistry) (m : Metrics) :
    OnTime E R (Timed.init E db reg m) where
  fresh _ := rfl
  syncFresh _ _ _ := rfl
  asyncFresh _ _ _ := rfl
  requested _ _ _ h := by cases h
  posted _ _ _ _ h := by cases h
  sent _ _ _ h := by cases h
  count _ h := by cases h
  due _ := (Ctx.started_le_deadlineAt h).trans Ctx.deadlineAt_le_overAt

/-- A synchronous fetch that waits lets the clock go to the end of the cycle at most. -/
theorem OnTime.sync_waits {T : Timed} (hT : OnTime E R T) (h : 0 < E.cfg.testInterval) {i : ℕ}
    (hi : i < E.cfg.cells.length) {t : ℚ} (hw : (T.world.sync i).waits R (T.sent i) t)
    (hout : (T.world.sync i).outcome? = none) : t ≤ E.overAt R := by
  cases hs : T.world.sync i with
  | ready => rw [hs] at hw; exact hw.elim
  | requested s =>
    rw [hs] at hw
    have := hT.requested i hi s hs
    exact le_trans hw (Ctx.request_le_overAt (this ▸ Ctx.started_le_deadlineAt h))
  | page p page => rw [hs] at hw; exact hw.elim
  | waiting p url =>
    rw [hs] at hw
    exact le_trans hw (Ctx.request_le_overAt (hT.sent i p url hs).le)
  | finished out => rw [hs] at hout; cases hout

/-- So does an asynchronous one. -/
theorem OnTime.async_waits {T : Timed} (hT : OnTime E R T) (h : 0 < E.cfg.testInterval) {i : ℕ}
    (hi : i < E.cfg.cells.length) {t : ℚ} (hs : (T.world.sync i).waits R (T.sent i) t)
    (hw : (T.world.async i).waits R E.deadlineAt t (T.world.sync i))
    (hout : (T.world.async i).outcome? = none) : t ≤ E.overAt R := by
  cases ha : T.world.async i with
  | ready => rw [ha] at hw; exact hw.elim
  | registered k => rw [ha] at hw; exact hw.elim
  | started k s =>
    rw [ha] at hw
    have := hT.posted i hi k s ha
    exact le_trans hw (Ctx.request_le_overAt (this ▸ Ctx.started_le_deadlineAt h))
  | posted k a =>
    -- it waits for the synchronous fetch, which waits for a response
    rw [ha] at hw
    exact hT.sync_waits h hi hs hw
  | waiting k a => rw [ha] at hw; exact le_trans hw Ctx.poll_le_overAt
  | finished out => rw [ha] at hout; cases hout

/-- The clock moves up to the end of the cycle at most. -/
theorem OnTime.le_overAt {T : Timed} (hT : OnTime E R T) (h : 0 < E.cfg.testInterval) {t : ℚ}
    (ht : T.MayPass E R t) (hm : T.world.main ≠ .published) : t ≤ E.overAt R := by
  have hw := ht.main
  unfold World.mainWaits at hw
  cases hmain : T.world.main with
  | begin => rw [hmain] at hw; exact hw.elim
  | counted => rw [hmain] at hw; exact hw.elim
  | published => exact absurd hmain hm
  | collecting k =>
    rw [hmain] at hw
    dsimp only at hw
    split at hw
    · exact le_trans hw Ctx.deadlineAt_le_overAt
    · rename_i hk
      -- the future it waits for is that of a cell
      have hlt : k / 2 < E.cfg.cells.length := by have := hT.count k hmain; omega
      unfold World.future at hw
      split at hw
      · exact hT.sync_waits h hlt (ht.sync _ hlt) hw
      · exact hT.async_waits h hlt (ht.sync _ hlt) (ht.async _ hlt) hw

/-- Time passes. -/
theorem onTime_tick {T : Timed} (hT : OnTime E R T) (h : 0 < E.cfg.testInterval) {d : ℚ} (hd : 0 < d)
    (ht : T.MayPass E R (T.world.now + d)) : OnTime E R (T.step E (.tick d)) := by
  have hstep : T.world.step E (.tick d) = { T.world with now := T.world.now + d } := by
    simp only [World.step, if_pos hd.le]
  unfold Timed.step
  rw [hstep]
  refine ⟨?_, ?_, ?_, hT.requested, hT.posted, hT.sent, hT.count, hT.le_overAt h ht⟩
  · intro hm
    have hw := ht.main
    unfold World.mainWaits at hw
    rcases hm with hm | hm
    · rw [show T.world.main = .begin from hm] at hw; exact hw.elim
    · rw [show T.world.main = .counted from hm] at hw; exact hw.elim
  · intro i hi hs
    have hw := ht.sync i hi
    rw [show T.world.sync i = .ready from hs] at hw
    exact hw.elim
  · intro i hi ha
    have hw := ht.async i hi
    rcases ha with ha | ⟨k, ha⟩
    · rw [show T.world.async i = .ready from ha] at hw; exact hw.elim
    · rw [show T.world.async i = .registered k from ha] at hw; exact hw.elim

/-- What a step does to the main thread. -/
theorem main_moved (w : World) (e : Event) :
    (w.step E e).main = w.main ∨ (w.main = .begin ∧ (w.step E e).main = .counted) ∨
      (w.main = .counted ∧ (w.step E e).main = .collecting 0) ∨
      (∃ k, w.main = .collecting k ∧ k < 2 * E.cfg.cells.length ∧ w.future k ≠ none ∧
        (w.step E e).main = .collecting (k + 1)) ∨
      w.main = .collecting (2 * E.cfg.cells.length) ∧ E.deadlineAt ≤ w.now ∧
        (w.step E e).main = .published := by
  have hs := step_spec (E := E) w e
  generalize w.step E e = w' at hs
  cases hs with
  | readBaselines hm => exact Or.inr (Or.inl ⟨hm, rfl⟩)
  | clear hm => exact Or.inr (Or.inr (Or.inl ⟨hm, rfl⟩))
  | collect hm hc hf =>
    refine Or.inr (Or.inr (Or.inr (Or.inl ⟨_, hm, ?_, by rw [hf]; exact Option.some_ne_none _, rfl⟩)))
    have := (List.getElem?_eq_some_iff.1 hc).1
    omega
  | publish hm hk hd => exact Or.inr (Or.inr (Or.inr (Or.inr ⟨hk ▸ hm, hd, rfl⟩)))
  | _ => exact Or.inl rfl

/-- The threads take their steps in no time. -/
theorem onTime_act {T : Timed} (hT : OnTime E R T) {e : Event}
    (hnow : (T.world.step E e).now = T.world.now) : OnTime E R (T.step E e) := by
  have hmain := main_moved (E := E) T.world e
  refine ⟨?_, ?_, ?_, ?_, ?_, ?_, ?_, ?_⟩
  · intro h
    change (T.world.step E e).now = _
    rw [hnow]
    rcases hmain with hm | ⟨hm, -⟩ | ⟨hm, -⟩ | ⟨k, -, -, -, hm⟩ | ⟨-, -, hm⟩
    · exact hT.fresh (hm ▸ h)
    · exact hT.fresh (Or.inl hm)
    · exact hT.fresh (Or.inr hm)
    · rw [show (T.step E e).world.main = _ from hm] at h
      rcases h with h | h <;> cases h
    · rw [show (T.step E e).world.main = _ from hm] at h
      rcases h with h | h <;> cases h
  · intro i hi hs
    change (T.world.step E e).now = _
    rw [hnow]
    exact hT.syncFresh i hi (sync_start_step.1 hs)
  · intro i hi ha
    change (T.world.step E e).now = _
    rw [hnow]
    exact hT.asyncFresh i hi (async_start_step.1 ha)
  · intro i hi s hs
    rcases sync_start_step.2 s hs with h | ⟨h, rfl⟩
    · exact hT.requested i hi s h
    · exact hT.syncFresh i hi h
  · intro i hi k s hs
    rcases async_start_step.2 k s hs with h | ⟨h, rfl⟩
    · exact hT.posted i hi k s h
    · exact hT.asyncFresh i hi (Or.inr ⟨k, h⟩)
  · intro i p url hs
    rcases waiting_step hs with h | ⟨rfl, hlt, p', page, h⟩
    · have hother := sends_other (T := T) (e := e) (i := i) fun p page h' => by rw [h] at h'; cases h'
      exact lt_of_eq_of_lt hother (hT.sent i p url h)
    · exact lt_of_eq_of_lt (sends_self h) hlt
  · intro k hk
    rcases hmain with hm | ⟨-, hm⟩ | ⟨-, hm⟩ | ⟨k', -, hlt, -, hm⟩ | ⟨-, -, hm⟩
    · exact hT.count k (hm ▸ hk)
    · rw [show (T.step E e).world.main = _ from hm] at hk; cases hk
    · rw [show (T.step E e).world.main = _ from hm] at hk; cases hk; exact Nat.zero_le _
    · rw [show (T.step E e).world.main = _ from hm] at hk; cases hk; exact hlt
    · rw [show (T.step E e).world.main = _ from hm] at hk; cases hk
  · intro hm
    change (T.world.step E e).now ≤ _
    rw [hnow]
    refine hT.due fun hp => hm ?_
    rcases hmain with h | ⟨h, -⟩ | ⟨h, -⟩ | ⟨k', h, -, -, -⟩ | ⟨-, -, h⟩
    · exact h.trans hp
    · rw [hp] at h; cases h
    · rw [hp] at h; cases h
    · rw [hp] at h; cases h
    · exact h

theorem onTime_step {T : Timed} (hT : OnTime E R T) (h : 0 < E.cfg.testInterval) {e : Event}
    (he : 0 < e.takes → T.MayPass E R (T.world.now + e.takes)) : OnTime E R (T.step E e) := by
  cases e with
  | tick d =>
    by_cases hd : 0 < d
    · exact onTime_tick hT h hd (he hd)
    · refine onTime_act hT ?_
      rw [now_step]
      simp only [Event.clock]
      split
      · linarith
      · rfl
  | _ => exact onTime_act hT (now_step _ _)

theorem onTime_run (h : 0 < E.cfg.testInterval) (es : List Event) : ∀ T : Timed,
    OnTime E R T → T.Prompt E R es → OnTime E R (T.run E es) := by
  induction es with
  | nil => intro T hT _; exact hT
  | cons e es ih =>
    intro T hT hes
    exact ih _ (onTime_step hT h hes.1) hes.2

theorem prompt_append (es es' : List Event) : ∀ T : Timed,
    T.Prompt E R (es ++ es') → T.Prompt E R es := by
  induction es with
  | nil => intro T _; trivial
  | cons e es ih => intro T h; exact ⟨h.1, ih _ h.2⟩

theorem timed_world (es : List Event) : ∀ T : Timed, (T.run E es).world = T.world.run E es := by
  induction es with
  | nil => intro T; rfl
  | cons e es ih => intro T; exact ih _

/-- **A cycle keeps its deadline**, when its Redis commands succeed and its window is in the years
that `datetime` has. Once the clock is past the end of the cycle, all is published; and whenever it
is, it is not before the deadline and not after that end, which is within `TEST_INTERVAL` if no
request takes more than a twentieth of it. -/
theorem published_by (hint : 0 < E.cfg.testInterval) (db : Db) (reg : ReplayRegistry) (m : Metrics)
    (es : List Event) (hes : (Timed.init E db reg m).Prompt E R es) :
    (E.overAt R < ((World.init E db reg m).run E es).now →
      ((World.init E db reg m).run E es).main = .published) ∧
    ∀ es₁ e es₂, es = es₁ ++ e :: es₂ →
      ((World.init E db reg m).run E es₁).main ≠ .published →
      (((World.init E db reg m).run E es₁).step E e).main = .published →
        E.deadlineAt ≤ ((World.init E db reg m).run E es₁).now ∧
        ((World.init E db reg m).run E es₁).now ≤ E.overAt R ∧
        (R ≤ E.cfg.testInterval / 20 →
          ((World.init E db reg m).run E es₁).now ≤ E.started + E.cfg.testInterval) := by
  have hinit := onTime_init (R := R) hint db reg m
  have hworld : ∀ l, ((Timed.init E db reg m).run E l).world = (World.init E db reg m).run E l :=
    fun l => timed_world l _
  constructor
  · intro hlate
    have hT := onTime_run hint es _ hinit hes
    by_contra hm
    exact absurd (hworld es ▸ hT.due (by rw [hworld]; exact hm)) (not_le.2 hlate)
  · rintro es₁ e es₂ rfl hm hpub
    have hT := onTime_run hint es₁ _ hinit (prompt_append _ _ _ hes)
    have hdue := hT.due (by rw [hworld]; exact hm)
    rw [hworld] at hdue
    have hd : E.deadlineAt ≤ ((World.init E db reg m).run E es₁).now := by
      rcases main_moved (E := E) ((World.init E db reg m).run E es₁) e with
        h | ⟨-, h⟩ | ⟨-, h⟩ | ⟨k, -, -, -, h⟩ | ⟨-, hd, -⟩
      · exact absurd (h ▸ hpub) hm
      · rw [hpub] at h; cases h
      · rw [hpub] at h; cases h
      · rw [hpub] at h; cases h
      · exact hd
    refine ⟨hd, hdue, fun hR => hdue.trans ?_⟩
    have h1 : (1 : ℚ) ≤ E.cfg.testInterval := by exact_mod_cast hint
    have h2 : max R pollInterval ≤ E.cfg.testInterval / 20 :=
      max_le hR (by unfold pollInterval; linarith)
    unfold Ctx.overAt Ctx.deadlineAt deadlineS
    linarith

/-- A cycle of the shipped configuration whose two requests time out at once. -/
def timedOutCycle : List Event :=
  [.readBaselines, .clear, .syncBegin 0, .register 0, .post 0, .tick 10, .syncReply 0 .fails,
    .postReply 0 .fails, .decide 0, .collect, .collect, .tick 275, .publish, .tick 15]

theorem published_by_sample :
    ((World.init ⟨sampleTables.lib, shippedConfig, 0, newYear⟩ Redis.Db.empty ReplayRegistry.new
      Metrics.new).run ⟨sampleTables.lib, shippedConfig, 0, newYear⟩ timedOutCycle).main =
        .published := by
  refine (published_by (E := ⟨sampleTables.lib, shippedConfig, 0, newYear⟩) (R := 10) (by decide) _ _ _
    timedOutCycle ?_).1 ?_
  · decide +kernel
  · decide +kernel

end Scgrep
