import Scgrep.Proof.Routing

/-!
# What the replay sets hold during a cycle

`timeline t es` are the messages a run delivers, each with its clock reading.

* `replay_run`: once the sets are cleared, a replay set follows the replays of the
  timeline and nothing else.
* `cleared`: the event that clears them, which every run has that publishes.
* `replay_set`: so at every later instant it is what these replays left (`touched`).
-/

namespace Scgrep

open Redis

variable {E : Ctx} {w₀ : World} {es : List Event}

/-! ## The timeline -/

/-- The messages of a run that begins at `t`, with their clock readings. -/
def timeline : ℚ → List Event → List (ℚ × MqttMessage)
  | _, [] => []
  | t, .deliver msg :: es => (t, msg) :: timeline t es
  | t, e :: es => timeline (e.clock t) es

theorem timeline_cons (t : ℚ) (e : Event) (es : List Event) :
    timeline t (e :: es) = timeline t [e] ++ timeline (e.clock t) es := by
  cases e <;> rfl

theorem timeline_append (t : ℚ) (es es' : List Event) :
    timeline t (es ++ es') = timeline t es ++ timeline (es.foldl (fun t e => e.clock t) t) es' := by
  induction es generalizing t with
  | nil => rfl
  | cons e es ih =>
    rw [List.cons_append, timeline_cons, ih, ← List.append_assoc, ← timeline_cons]
    rfl

/-- An initial part of a run has an initial part of its timeline. -/
theorem timeline_take (t : ℚ) (es : List Event) (n : ℕ) :
    timeline t (es.take n) <+: timeline t es := by
  conv_rhs => rw [← List.take_append_drop n es, timeline_append]
  exact List.prefix_append _ _

/-- The replays of a timeline, as the set under a key sees them. -/
def replaysTo (E : Ctx) (k : String) (tl : List (ℚ × MqttMessage)) :
    List (Retention.Delivery String String ℚ) :=
  tl.filterMap fun x => (replayRecord E.L x.2).map (ReplayRecord.delivery E x.1 k)

theorem replaysTo_append (k : String) (tl tl' : List (ℚ × MqttMessage)) :
    replaysTo E k (tl ++ tl') = replaysTo E k tl ++ replaysTo E k tl' :=
  List.filterMap_append

theorem mem_replaysTo {k : String} {tl : List (ℚ × MqttMessage)}
    {d : Retention.Delivery String String ℚ} :
    d ∈ replaysTo E k tl ↔ ∃ t msg r, (t, msg) ∈ tl ∧ replayRecord E.L msg = some r ∧
      r.delivery E t k = d := by
  unfold replaysTo
  rw [List.mem_filterMap]
  constructor
  · rintro ⟨⟨t, msg⟩, hx, hd⟩
    obtain ⟨r, hr, hd⟩ := Option.map_eq_some_iff.1 hd
    exact ⟨t, msg, r, hx, hr, hd⟩
  · rintro ⟨t, msg, r, hx, hr, rfl⟩
    exact ⟨(t, msg), hx, by rw [hr]; rfl⟩

/-! ## The sets along a run -/

/-- The features of a page only go to the sync set of its cell. -/
theorem processFeatures_frame {S : RedisStore} {L : Lib} {c P k : String} (hk : k ≠ syncKey c P)
    (now : ℚ) (page : Json) (db : Db) : (processFeatures L S now c P page db).2 k = db k := by
  have key : ∀ (ms : List (String × String)) (db : Db),
      (ms.foldl (fun db m => (storeSyncMessage L S now c P m.1 m.2 db).2) db) k = db k := by
    intro ms
    induction ms with
    | nil => intro db; rfl
    | cons m ms ih =>
      intro db
      rw [List.foldl_cons, ih]
      exact storeSyncMessage_frame hk now m.1 m.2 db
  exact key _ db

theorem turnDb_frame {cell : Cell} {k : String} (hk : k ≠ syncKey cell.centreId cell.topic)
    (w : World) (p : PageLoop) (page : Json) : turnDb E cell w p page k = w.db k := by
  unfold turnDb
  split
  · rfl
  · exact processFeatures_frame hk _ _ _

/-- Once the sets are cleared, only messages and pages change the store. -/
theorem StepTo.frame {w w' : World} {e : Event} (h : StepTo E w e w') {k : String}
    (hw : 2 ≤ w.main.phase) (hk : keyFamily k ≠ some 's') (he : ∀ msg, e ≠ .deliver msg) :
    w'.db k = w.db k := by
  cases h with
  | deliver msg => exact absurd rfl (he msg)
  | readBaselines hm => rfl
  | clear hm => rw [hm] at hw; exact absurd hw (by decide)
  | syncTurn hi hs =>
    refine turnDb_frame ?_ w _ _
    rintro rfl
    exact hk (keyFamily_syncKey _ _)
  | _ => rfl

/-- **A step, as a replay set sees it**, once the sets are cleared. -/
theorem replay_step (he : 0 ≤ E.cfg.redisExpiry) {w : World} {k : String}
    (hk : keyFamily k = some 'r') (hw : 2 ≤ w.main.phase) (hns : NotStr (w.db k)) (e : Event) :
    (w.step E e).db k = (replaysTo E k (timeline w.now [e])).foldl
      (Retention.touchStep (E.cfg.redisExpiry : ℚ)) (w.db k) := by
  cases e with
  | deliver msg =>
    show (w.deliver E msg).db k = _
    rw [replay_deliver he hk hns]
    unfold timeline timeline replaysTo
    rw [List.filterMap_cons, List.filterMap_nil]
    cases replayRecord E.L msg <;> rfl
  | _ => exact (step_spec w _).frame hw (by rw [hk]; decide) (by intro msg h; cases h)

/-- A set that is scored and renewed stays a set. -/
theorem notStr_foldl_touch {ttl : ℚ} (ds : List (Retention.Delivery String String ℚ)) {o : Slot}
    (h : NotStr o) : NotStr (ds.foldl (Retention.touchStep ttl) o) := by
  induction ds generalizing o with
  | nil => exact h
  | cons d ds ih =>
    refine ih ?_
    unfold Retention.touchStep
    split
    · exact h.touch _ _ _ _
    · exact h

/-- **A replay set follows the replays of the timeline**, once the sets are cleared. -/
theorem replay_run (he : 0 ≤ E.cfg.redisExpiry) {k : String} (hk : keyFamily k = some 'r')
    (es : List Event) {w : World} (hw : 2 ≤ w.main.phase) (hns : NotStr (w.db k)) :
    (w.run E es).db k = (replaysTo E k (timeline w.now es)).foldl
      (Retention.touchStep (E.cfg.redisExpiry : ℚ)) (w.db k) := by
  induction es generalizing w with
  | nil => rfl
  | cons e es ih =>
    have hstep := replay_step he hk hw hns e
    have hw' : 2 ≤ (w.step E e).main.phase := hw.trans (phase_step w e)
    have hns' : NotStr ((w.step E e).db k) := by rw [hstep]; exact notStr_foldl_touch _ hns
    rw [run_cons, ih hw' hns', hstep, timeline_cons w.now e es, replaysTo_append,
      List.foldl_append, now_step]

/-! ## The clearing -/

/-- The `n`-th event clears the replay and the sync sets. -/
def ClearsAt (E : Ctx) (w₀ : World) (es : List Event) (n : ℕ) : Prop :=
  es[n]? = some .clear ∧ (worldAt E w₀ es n).main = .counted

/-- A run that has come past the clearing has an event that clears. -/
theorem cleared (hm : w₀.main = .begin) {n : ℕ} (hn : n ≤ es.length)
    (h : 2 ≤ (worldAt E w₀ es n).main.phase) : ∃ q < n, ClearsAt E w₀ es q := by
  induction n with
  | zero => rw [worldAt_zero, hm] at h; exact absurd h (by decide)
  | succ n ih =>
    obtain ⟨e, he⟩ : ∃ e, es[n]? = some e := ⟨es[n], List.getElem?_eq_getElem (by omega)⟩
    by_cases hold : 2 ≤ (worldAt E w₀ es n).main.phase
    · obtain ⟨q, hq, hc⟩ := ih (by omega) hold
      exact ⟨q, by omega, hc⟩
    · -- only the clearing comes from the first two phases to the third
      have hst := step_spec (E := E) (worldAt E w₀ es n) e
      rw [← worldAt_succ he] at hst
      generalize worldAt E w₀ es (n + 1) = w' at hst h
      cases hst with
      | clear hmain => exact ⟨n, by omega, he, hmain⟩
      | readBaselines hmain => exact absurd h (show ¬ 2 ≤ 1 by decide)
      | collect hmain hc hf => rw [hmain] at hold; exact absurd le_rfl hold
      | publish hmain hk hd => rw [hmain] at hold; exact absurd le_rfl hold
      | _ => exact absurd h hold

theorem centre_mem {i : ℕ} {cell : Cell} (hi : E.cfg.cells[i]? = some cell) :
    cell.centreId ∈ E.cfg.replayCentreIds := by
  have h := (cell_mem hi).2
  unfold Config.replayTargets at h
  exact (List.of_mem_zip h).1

/-- The world right after the clearing. -/
theorem clear_at {q : ℕ} (hq : ClearsAt E w₀ es q) :
    (worldAt E w₀ es (q + 1)).main = .collecting 0 ∧ (worldAt E w₀ es (q + 1)).db =
      clearSync E.cfg.store E.cfg.replayCentreIds
        (clearReplay E.cfg.store E.cfg.replayCentreIds (worldAt E w₀ es q).db) := by
  obtain ⟨he, hm⟩ := hq
  rw [worldAt_succ he]
  simp only [World.step, World.clear, hm, and_self]

/-- The messages delivered after event `q` and before event `n`. -/
def deliveredIn (E : Ctx) (w₀ : World) (es : List Event) (q n : ℕ) : List (ℚ × MqttMessage) :=
  timeline (worldAt E w₀ es (q + 1)).now ((es.take n).drop (q + 1))

/-- **After the clearing a replay set is what the replays since then left.** -/
theorem replay_set (he : 0 ≤ E.cfg.redisExpiry) {q n : ℕ} (hq : ClearsAt E w₀ es q) (hn : q < n)
    {i : ℕ} {cell : Cell} (hi : E.cfg.cells[i]? = some cell) :
    (worldAt E w₀ es n).db (replayKey cell.centreId cell.topic) =
      Retention.touched (E.cfg.redisExpiry : ℚ)
        (replaysTo E (replayKey cell.centreId cell.topic) (deliveredIn E w₀ es q n)) := by
  obtain ⟨hmain, hdb⟩ := clear_at hq
  have hnone : (worldAt E w₀ es (q + 1)).db (replayKey cell.centreId cell.topic) = none := by
    rw [hdb, clearSync_frame _ _ (by rw [keyFamily_replayKey]; decide)]
    exact clearReplay_at _ (centre_mem hi) (cell_mem hi).1 _
  rw [worldAt_add (show q + 1 ≤ n by omega), replay_run he (keyFamily_replayKey _ _) _
    (by rw [hmain]; exact le_rfl) (by rw [hnone]; intro x t h; cases h), hnone]
  rfl

end Scgrep
