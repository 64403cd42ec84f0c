import Scgrep.Proof.ThreadSteps
import Scgrep.Spec.Tables

/-!
# Everything stored lapses

`store_lapses`: at every instant of every run, whatever calls overlap and wherever
a thread stops for good (a command that raises stops its call there), each key
has an expiry, at most the configured one away. So when no more commands come,
the keyspace is empty once that time has passed.
-/

namespace Redis

variable {σ μ K : Type*} [LinearOrder K] [Add K]

/-- What the slot holds lapses at `t` or before. -/
def LapsesBy (t : K) (o : Slot σ μ K) : Prop := ∀ e, o = some e → ∃ u, e.expireAt = some u ∧ u ≤ t

omit [Add K] in
theorem LapsesBy.mono {t t' : K} {o : Slot σ μ K} (h : LapsesBy t o) (hle : t ≤ t') : LapsesBy t' o := by
  intro e he
  obtain ⟨u, hu, hut⟩ := h e he
  exact ⟨u, hu, hut.trans hle⟩

/-- What was set to expire does. -/
theorem lapsesBy_expire (now ttl : K) (o : Slot σ μ K) : LapsesBy (now + ttl) (expire now ttl o) := by
  intro e he
  unfold expire at he
  split at he
  · cases he
  · cases he; exact ⟨now + ttl, rfl, le_rfl⟩

omit [Add K] in
/-- After its time a slot is empty. -/
theorem LapsesBy.purge_eq_none {t now : K} {o : Slot σ μ K} (h : LapsesBy t o) (hlt : t < now) :
    purge now o = none := by
  by_contra hne
  obtain ⟨e, he⟩ := Option.ne_none_iff_exists'.1 hne
  obtain ⟨ho, halive⟩ := purge_eq_some.1 he
  obtain ⟨u, hu, hut⟩ := h e ho
  unfold Entry.alive at halive
  rw [hu] at halive
  exact absurd (of_decide_eq_true halive) (not_le.2 (hut.trans_lt hlt))

end Redis

namespace Scgrep

open Redis StoreWorld

namespace StoreWorld

variable {L : Lib} {S : RedisStore}

/-- Every key of the keyspace lapses at `t` or before. -/
def AllLapse (t : ℚ) (db : Db) : Prop := ∀ k, LapsesBy t (db k)

theorem AllLapse.mono {t t' : ℚ} {db : Db} (h : AllLapse t db) (hle : t ≤ t') : AllLapse t' db :=
  fun k => (h k).mono hle

/-- A command on one key that leaves it to lapse. -/
theorem AllLapse.at {t : ℚ} {db : Db} (h : AllLapse t db) (k : String) {f : Slot → Slot}
    (hf : LapsesBy t (f (db k))) : AllLapse t (db.at k f) := by
  intro k'
  by_cases hk : k' = k
  · subst hk; rw [Db.at_self]; exact hf
  · rw [Db.at_ne _ hk]; exact h k'

theorem AllLapse.delete {t : ℚ} {db : Db} (h : AllLapse t db) (keys : List String) :
    AllLapse t (db.delete keys) := by
  intro k e he
  unfold Db.delete at he
  split at he
  · cases he
  · exact h k e he

/-- One command of a call. -/
theorem lapse_advance {w : StoreWorld} (h : AllLapse (w.now + S.expiry) w.db) (j : ℕ) :
    AllLapse (w.now + S.expiry) (w.advance L S j).db := by
  unfold StoreWorld.advance
  cases hs : w.thread j with
  | idle => exact h
  | marking m v t epoch =>
    dsimp only
    cases hm : purge w.now (w.db (msgKey m)) with
    | none =>
      rw [setNxEx_none hm]
      change AllLapse _ (w.db.at (msgKey m) fun _ => some ⟨.str t, some (w.now + S.expiry)⟩)
      refine h.at (msgKey m) fun e he => ?_
      cases he
      exact ⟨_, rfl, le_rfl⟩
    | some x => rw [setNxEx_some hm]; exact h
  | marked m v t epoch => exact h
  | indexing m v t epoch cutoff patterns =>
    cases patterns with
    | nil => exact h
    | cons P Ps =>
      dsimp only
      split
      · exact h.at (topicKey P) (lapsesBy_expire _ _ _)
      · exact h
  | replaying c m v t epoch newlyAdded patterns =>
    cases patterns with
    | nil => exact h
    | cons P Ps =>
      dsimp only
      split
      · exact h.at (replayKey c P) (lapsesBy_expire _ _ _)
      · exact h
  | syncing c P m v epoch => exact h.at (syncKey c P) (lapsesBy_expire _ _ _)

/-- Without a command the keyspace lapses as before. -/
theorem lapse_quiet {t : ℚ} {w : StoreWorld} (h : AllLapse t w.db) {e : StoreEvent}
    (he : ∀ j, e ≠ .advance j) : AllLapse t (w.step L S e).db := by
  cases e with
  | tick d => simp only [StoreWorld.step]; split <;> exact h
  | call j c =>
    simp only [StoreWorld.step, StoreWorld.call]
    split
    · split <;> exact h
    · exact h
  | advance j => exact absurd rfl (he j)
  | clearReplay centreIds => exact h.delete _
  | clearSync centreIds => exact h.delete _

theorem lapse_step {w : StoreWorld} (h : AllLapse (w.now + S.expiry) w.db) (e : StoreEvent) :
    AllLapse ((w.step L S e).now + S.expiry) (w.step L S e).db := by
  have hle : w.now + S.expiry ≤ (w.step L S e).now + S.expiry :=
    add_le_add_left (now_step w e) _
  refine AllLapse.mono ?_ hle
  cases e with
  | advance j => exact lapse_advance h j
  | _ => exact lapse_quiet h fun j hj => by cases hj

theorem lapse_run (es : List StoreEvent) : ∀ w : StoreWorld, AllLapse (w.now + S.expiry) w.db →
    AllLapse ((w.run L S es).now + S.expiry) (w.run L S es).db := by
  induction es with
  | nil => intro w h; exact h
  | cons e es ih => intro w h; exact ih _ (lapse_step h e)

theorem quiet_run {t : ℚ} (es : List StoreEvent) (hes : ∀ e ∈ es, ∀ j, e ≠ .advance j) :
    ∀ w : StoreWorld, AllLapse t w.db → AllLapse t (w.run L S es).db := by
  induction es with
  | nil => intro w h; exact h
  | cons e es ih =>
    intro w h
    exact ih (fun e' he' => hes e' (List.mem_cons_of_mem _ he')) _
      (lapse_quiet h (hes e List.mem_cons_self))

/-- **Everything stored lapses.** -/
theorem store_lapses (now : ℚ) (es : List StoreEvent) :
    (∀ k x, ((init now).run L S es).db k = some x →
      ∃ t, x.expireAt = some t ∧ t ≤ ((init now).run L S es).now + S.expiry) ∧
    ∀ quiet : List StoreEvent, (∀ e ∈ quiet, ∀ j, e ≠ .advance j) →
      ((init now).run L S es).now + S.expiry < (((init now).run L S es).run L S quiet).now →
        ∀ k, purge (((init now).run L S es).run L S quiet).now
          ((((init now).run L S es).run L S quiet).db k) = none := by
  have hrun := lapse_run (L := L) (S := S) es (init now) fun k e he => by cases he
  refine ⟨fun k x hx => hrun k x hx, fun quiet hquiet hlate k => ?_⟩
  exact (quiet_run quiet hquiet _ hrun k).purge_eq_none hlate

/-- A replay is stored, in the middle of its call. -/
def storedReplay : StoreWorld :=
  (init 0).run sampleTables.lib ⟨420, ["#"]⟩
    [.call 0 (.replay "c" "a" "2024-01-01T00:00:00+00:00" "x"), .advance 0]

theorem store_lapses_sample :
    purge (storedReplay.run sampleTables.lib ⟨420, ["#"]⟩ [.tick 500]).now
      ((storedReplay.run sampleTables.lib ⟨420, ["#"]⟩ [.tick 500]).db (replayKey "c" "#")) = none :=
  (store_lapses (L := sampleTables.lib) (S := ⟨420, ["#"]⟩) 0 _).2 [.tick 500]
    (by intro e he j; cases List.mem_singleton.1 he; exact fun h => by cases h)
    (by decide +kernel) (replayKey "c" "#")

end StoreWorld

end Scgrep
