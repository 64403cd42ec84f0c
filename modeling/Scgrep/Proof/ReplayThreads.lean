import Scgrep.Proof.ThreadSteps
import Scgrep.Spec.Tables

/-!
# Overlapping calls of `store_replay_message`

After `clear_replay` the replay sets fill from any number of MQTT threads. Within one
expiry, no set is lost.

* `replay_moves`: what a step does to the replay sets and to the calls on them.
* `Fills`: the set of a centre and a topic holds what the calls that are past its pattern
  have stored (`fills_moves`, `fills_run`).
* `replay_count_overlapping`: **when all calls are over, the count is the number of ids whose
  calls match**, however the pipelines were interleaved.
-/

namespace Scgrep

open Redis

/-- A call of `store_replay_message`; `idle` when there is none. -/
def StoreStage.inReplay : StoreStage → StoreStage
  | replaying centreId msgId timeValue originalTopic epoch newlyAdded patterns =>
    replaying centreId msgId timeValue originalTopic epoch newlyAdded patterns
  | _ => idle

/-- A call of `store_replay_message`. -/
def StoreCall.isReplay : StoreCall → Bool
  | replay _ _ _ _ => true
  | _ => false

namespace StoreWorld

variable {L : Lib} {S : RedisStore}

/-- The steps, as the calls of `store_replay_message` see them. -/
inductive ReplayMoves (L : Lib) (S : RedisStore) (w : StoreWorld) (e : StoreEvent) : StoreWorld → Prop where
  /-- none of them moves -/
  | other {w' : StoreWorld} (hnow : w.now ≤ w'.now) (hdb : ∀ k, keyFamily k = some 'r' → w'.db k = w.db k)
      (hstage : ∀ j, (w'.thread j).inReplay = (w.thread j).inReplay)
      (hret : ∀ r, r.call.isReplay = true → (r ∈ w'.returned ↔ r ∈ w.returned)) : ReplayMoves L S w e w'
  | refuses (j : ℕ) (c m v t : String) (hs : (w.thread j).inReplay = .idle)
      (hp : parseTimeToEpoch L v = none) : ReplayMoves L S w e (w.ret j (.replay c m v t) false)
  | enters (j : ℕ) (c m v t : String) (epoch : ℚ) (he : e = .call j (.replay c m v t))
      (hs : (w.thread j).inReplay = .idle) (hp : parseTimeToEpoch L v = some epoch) :
      ReplayMoves L S w e (w.setThread j (.replaying c m v t epoch false S.topics))
  | touches (j : ℕ) (c m v t : String) (epoch : ℚ) (b b' : Bool) (Q : String) (Qs : List String)
      (hs : w.thread j = .replaying c m v t epoch b (Q :: Qs)) (ht : topicMatches L Q t = true) :
      ReplayMoves L S w e ((w.setDb (w.db.at (replayKey c Q) (touch w.now m epoch S.expiry))).setThread j
        (.replaying c m v t epoch b' Qs))
  | passes (j : ℕ) (c m v t : String) (epoch : ℚ) (b : Bool) (Q : String) (Qs : List String)
      (hs : w.thread j = .replaying c m v t epoch b (Q :: Qs)) (ht : topicMatches L Q t = false) :
      ReplayMoves L S w e (w.setThread j (.replaying c m v t epoch b Qs))
  | returns (j : ℕ) (c m v t : String) (epoch : ℚ) (b : Bool) (hs : w.thread j = .replaying c m v t epoch b []) :
      ReplayMoves L S w e (w.ret j (.replay c m v t) b)

theorem mem_ret_other {w : StoreWorld} {j : ℕ} {c : StoreCall} {b : Bool} (hc : c.isReplay = false)
    {r : StoreReturn} (hr : r.call.isReplay = true) : r ∈ (w.ret j c b).returned ↔ r ∈ w.returned := by
  rw [ret_returned, List.mem_append, List.mem_singleton, or_iff_left]
  rintro rfl
  rw [hc] at hr
  cases hr

/-- A thread goes from one stage outside `store_replay_message` to another. -/
theorem ReplayMoves.outside {w w' : StoreWorld} {e : StoreEvent} {j : ℕ} {s : StoreStage} (hnow : w'.now = w.now)
    (hdb : ∀ k, keyFamily k = some 'r' → w'.db k = w.db k) (hthread : w'.thread = Function.update w.thread j s)
    (hold : (w.thread j).inReplay = .idle) (hnew : s.inReplay = .idle)
    (hret : ∀ r, r.call.isReplay = true → (r ∈ w'.returned ↔ r ∈ w.returned)) : ReplayMoves L S w e w' := by
  refine .other hnow.ge hdb ?_ hret
  intro j'
  rw [hthread, Function.update_apply]
  split
  · rename_i heq
    rw [hnew, heq, hold]
  · rfl

/-- A key of another family. -/
theorem replay_ne {k k' : String} {a : Char} (hk : keyFamily k = some 'r') (hk' : keyFamily k' = some a)
    (ha : a ≠ 'r') : k ≠ k' := keys_ne hk hk' ha.symm

theorem replay_moves (w : StoreWorld) {e : StoreEvent} (hclear : ∀ cs, e ≠ .clearReplay cs) :
    ReplayMoves L S w e (w.step L S e) := by
  have hstay : ReplayMoves L S w e w :=
    .other le_rfl (fun _ _ => rfl) (fun _ => rfl) fun _ _ => Iff.rfl
  have hold : ∀ {j s}, w.thread j = s → s.inReplay = .idle → (w.thread j).inReplay = .idle := by
    intro j s hs h
    rw [hs, h]
  cases e with
  | tick d =>
    change ReplayMoves L S w _ (if 0 ≤ d then { w with now := w.now + d } else w)
    split
    · rename_i hd
      exact .other (le_add_of_nonneg_right hd) (fun _ _ => rfl) (fun _ => rfl) fun _ _ => Iff.rfl
    · exact hstay
  | call j c =>
    change ReplayMoves L S w _ (w.call L S j c)
    by_cases hs : w.thread j = .idle
    · cases hp : parseTimeToEpoch L c.timeValue with
      | none =>
        rw [call_refused hs hp]
        cases c with
        | message m v t =>
          exact .outside rfl (fun _ _ => rfl) rfl (hold hs rfl) rfl fun r hr => mem_ret_other rfl hr
        | replay c m v t => exact .refuses j c m v t (hold hs rfl) hp
        | sync c P m v =>
          exact .outside rfl (fun _ _ => rfl) rfl (hold hs rfl) rfl fun r hr => mem_ret_other rfl hr
      | some epoch =>
        rw [call_entered hs hp]
        cases c with
        | message m v t =>
          exact .outside rfl (fun _ _ => rfl) rfl (hold hs rfl) rfl fun _ _ => Iff.rfl
        | replay c m v t => exact .enters j c m v t epoch rfl (hold hs rfl) hp
        | sync c P m v => exact .outside rfl (fun _ _ => rfl) rfl (hold hs rfl) rfl fun _ _ => Iff.rfl
    · have hcall : w.call L S j c = w := by
        unfold call
        split
        · rename_i h
          exact absurd h hs
        · rfl
      rw [hcall]
      exact hstay
  | advance j =>
    change ReplayMoves L S w _ (w.advance L S j)
    unfold advance
    cases hs : w.thread j with
    | idle => exact hstay
    | marking m v t epoch =>
      dsimp only
      cases hm : purge w.now (w.db (msgKey m)) with
      | some x =>
        rw [setNxEx_some hm]
        exact .outside rfl (fun _ _ => rfl) rfl (hold hs rfl) rfl fun r hr => mem_ret_other rfl hr
      | none =>
        rw [setNxEx_none hm]
        dsimp only
        refine .outside rfl ?_ rfl (hold hs rfl) rfl fun _ _ => Iff.rfl
        intro k hk
        rw [setThread_db, setDb_db]
        exact Db.at_ne _ (replay_ne hk (keyFamily_msgKey m) (by decide)) _
    | marked m v t epoch => exact .outside rfl (fun _ _ => rfl) rfl (hold hs rfl) rfl fun _ _ => Iff.rfl
    | indexing m v t epoch cutoff patterns =>
      cases patterns with
      | nil => exact .outside rfl (fun _ _ => rfl) rfl (hold hs rfl) rfl fun r hr => mem_ret_other rfl hr
      | cons Q Qs =>
        dsimp only
        split
        · refine .outside rfl ?_ rfl (hold hs rfl) rfl fun _ _ => Iff.rfl
          intro k hk
          exact Db.at_ne _ (replay_ne hk (keyFamily_topicKey Q) (by decide)) _
        · exact .outside rfl (fun _ _ => rfl) rfl (hold hs rfl) rfl fun _ _ => Iff.rfl
    | replaying c m v t epoch b patterns =>
      cases patterns with
      | nil => exact .returns j c m v t epoch b hs
      | cons Q Qs =>
        dsimp only
        cases ht : topicMatches L Q t with
        | true => exact .touches j c m v t epoch b _ Q Qs hs ht
        | false => exact .passes j c m v t epoch b Q Qs hs ht
    | syncing c Q m v epoch =>
      refine .outside rfl ?_ rfl (hold hs rfl) rfl fun r hr => mem_ret_other (w := w.setDb _) rfl hr
      intro k hk
      exact Db.at_ne _ (replay_ne hk (keyFamily_syncKey c Q) (by decide)) _
  | clearReplay cs => exact absurd rfl (hclear cs)
  | clearSync cs =>
    refine .other le_rfl ?_ (fun _ => rfl) fun _ _ => Iff.rfl
    intro k hk
    exact clearSync_frame S cs (by rw [hk]; decide) w.db

/-! ## What the set holds -/

/-- The call has returned: its centre, its id, its epoch, and that it matches the topic. -/
def ReturnAt (L : Lib) (c P m : String) (x : ℚ) (r : StoreReturn) : Prop :=
  ∃ v t, r.call = .replay c m v t ∧ topicMatches L P t = true ∧ parseTimeToEpoch L v = some x

/-- The call is under way, with these patterns left. -/
def StageAt (L : Lib) (c P m : String) (x : ℚ) (left : List String → Prop) : StoreStage → Prop
  | .replaying c' m' _ t x' _ Ps => c' = c ∧ m' = m ∧ x' = x ∧ topicMatches L P t = true ∧ left Ps
  | _ => False

/-- There is such a call. -/
def CallAt (L : Lib) (c P m : String) (x : ℚ) (left : List String → Prop) (w : StoreWorld) : Prop :=
  (∃ r ∈ w.returned, ReturnAt L c P m x r) ∨ ∃ j, StageAt L c P m x left (w.thread j)

/-- The stage of a replay call has the epoch of its time, and its centre has no colon. -/
def ReplayOK (L : Lib) : StoreStage → Prop
  | .replaying c _ v _ x _ _ => parseTimeToEpoch L v = some x ∧ ':' ∉ c.toList
  | _ => True

variable {c P m : String} {x : ℚ} {left : List String → Prop}

theorem stageAt_inReplay (s : StoreStage) : StageAt L c P m x left s.inReplay ↔ StageAt L c P m x left s := by
  cases s with
  | _ => exact Iff.rfl

theorem replayOK_inReplay (s : StoreStage) : ReplayOK L s.inReplay ↔ ReplayOK L s := by
  cases s with
  | _ => exact Iff.rfl

/-- One stage, and those of the other threads. -/
theorem exists_stageAt {w : StoreWorld} (j : ℕ) (s : StoreStage) :
    (∃ j', StageAt L c P m x left (Function.update w.thread j s j')) ↔
      StageAt L c P m x left s ∨ ∃ j', j' ≠ j ∧ StageAt L c P m x left (w.thread j') := by
  constructor
  · rintro ⟨j', h⟩
    rcases eq_or_ne j' j with rfl | hne
    · rw [Function.update_self] at h
      exact .inl h
    · rw [Function.update_of_ne hne] at h
      exact .inr ⟨j', hne, h⟩
  · rintro (h | ⟨j', hne, h⟩)
    · exact ⟨j, by rw [Function.update_self]; exact h⟩
    · exact ⟨j', by rw [Function.update_of_ne hne]; exact h⟩

/-- A thread goes on: what holds of its stage then is what counts. -/
theorem callAt_setThread {w : StoreWorld} {j : ℕ} {s : StoreStage}
    (h : StageAt L c P m x left s ↔ StageAt L c P m x left (w.thread j)) :
    CallAt L c P m x left (w.setThread j s) ↔ CallAt L c P m x left w := by
  have hself := @exists_stageAt L c P m x left w j (w.thread j)
  rw [Function.update_eq_self, ← h, ← exists_stageAt (w := w)] at hself
  exact or_congr_right hself.symm

/-- **The replay set of a centre and a topic**, since it was cleared: it lives until `stop` at least. -/
structure Fills (L : Lib) (c P : String) (stop : ℚ) (w : StoreWorld) (z : Dict String ℚ) : Prop where
  slot : (w.db (replayKey c P) = none ∧ z = Dict.empty) ∨
    ∃ e, w.db (replayKey c P) = some ⟨.zset z, some e⟩ ∧ stop ≤ e
  sound : ∀ m x, z.get? m = some x → CallAt L c P m x (fun _ => True) w
  /-- a call that is past the pattern has stored its id -/
  complete : ∀ m x, CallAt L c P m x (fun Ps => P ∉ Ps) w → ∃ y, z.get? m = some y
  stages : ∀ j, ReplayOK L (w.thread j)

theorem Fills.zset {stop : ℚ} {w : StoreWorld} {z : Dict String ℚ} (h : Fills L c P stop w z) {now : ℚ}
    (hnow : now ≤ stop) : Redis.zset now (w.db (replayKey c P)) = z := by
  rcases h.slot with ⟨hnone, rfl⟩ | ⟨e, hsome, he⟩
  · rw [hnone]
    rfl
  · rw [hsome, zset_alive (hnow.trans he)]

theorem Fills.notStr {stop : ℚ} {w : StoreWorld} {z : Dict String ℚ} (h : Fills L c P stop w z) :
    NotStr (w.db (replayKey c P)) := by
  rcases h.slot with ⟨hnone, -⟩ | ⟨e, hsome, -⟩
  · rw [hnone]
    intro x t heq
    cases heq
  · rw [hsome]
    intro x t heq
    cases heq

/-- Nothing happens to the set or to a call that matches. -/
theorem Fills.congr {stop : ℚ} {w w' : StoreWorld} {z : Dict String ℚ} (h : Fills L c P stop w z)
    (hdb : w'.db (replayKey c P) = w.db (replayKey c P))
    (hcall : ∀ m x left, CallAt L c P m x left w' ↔ CallAt L c P m x left w)
    (hok : ∀ j, ReplayOK L (w'.thread j)) : Fills L c P stop w' z where
  slot := by
    rw [hdb]
    exact h.slot
  sound := fun m x hz => (hcall m x _).2 (h.sound m x hz)
  complete := fun m x hp => h.complete m x ((hcall m x _).1 hp)
  stages := hok

theorem replayOK_setThread {w : StoreWorld} (h : ∀ j, ReplayOK L (w.thread j)) {j : ℕ} {s : StoreStage}
    (hs : ReplayOK L s) (j' : ℕ) : ReplayOK L ((w.setThread j s).thread j') := by
  rw [setThread_thread]
  split
  · exact hs
  · exact h j'

/-- A pipeline on the set itself. -/
theorem Fills.touched {stop : ℚ} {w : StoreWorld} {z : Dict String ℚ} (h : Fills L c P stop w z)
    (hnow : w.now ≤ stop) (hstop : stop ≤ w.now + S.expiry) {j : ℕ} {m v t : String} {x : ℚ} {b b' : Bool}
    {Ps : List String} (hs : w.thread j = .replaying c m v t x b (P :: Ps)) (ht : topicMatches L P t = true) :
    Fills L c P stop ((w.setDb (w.db.at (replayKey c P) (touch w.now m x S.expiry))).setThread j
      (.replaying c m v t x b' Ps)) (z.set m x) := by
  have hok := h.stages j
  rw [hs] at hok
  have hcalled : ∀ m' y, CallAt L c P m' y (fun _ => True) w → CallAt L c P m' y (fun _ => True)
      ((w.setDb (w.db.at (replayKey c P) (touch w.now m x S.expiry))).setThread j (.replaying c m v t x b' Ps)) := by
    intro m' y
    refine (callAt_setThread (w := w.setDb _) ?_).2
    rw [setDb_thread, hs]
    exact Iff.rfl
  refine ⟨.inr ⟨w.now + S.expiry, ?_, hstop⟩, ?_, ?_, replayOK_setThread (w := w.setDb _) h.stages hok⟩
  · rw [setThread_db, setDb_db, Db.at_self, touch_eq h.notStr, h.zset hnow]
  · intro m' y hz
    rw [Dict.get?_set] at hz
    split at hz
    · rename_i heq
      rw [heq, ← Option.some.inj hz]
      refine .inr ⟨j, ?_⟩
      rw [setThread_thread, if_pos rfl]
      exact ⟨rfl, rfl, rfl, ht, trivial⟩
    · exact hcalled m' y (h.sound m' y hz)
  · intro m' y hp
    rw [Dict.get?_set]
    split
    · exact ⟨x, rfl⟩
    · rename_i hne
      -- another id: its call has not moved
      refine h.complete m' y ((callAt_setThread (w := w.setDb _) ?_).1 hp)
      rw [setDb_thread, hs]
      refine iff_of_false ?_ ?_
      · rintro ⟨-, rfl, -⟩
        exact hne rfl
      · rintro ⟨-, rfl, -⟩
        exact hne rfl

/-- A thread outside `store_replay_message` is at no call. -/
theorem not_stageAt_of_idle {s : StoreStage} (hs : s.inReplay = .idle) : ¬ StageAt L c P m x left s := by
  rw [← stageAt_inReplay, hs]
  exact not_false

/-- A call whose time has no epoch returns as if it had not been made. -/
theorem callAt_refused {w : StoreWorld} {j : ℕ} {c' m' v t : String} (hs : (w.thread j).inReplay = .idle)
    (hp : parseTimeToEpoch L v = none) (b : Bool) :
    CallAt L c P m x left (w.ret j (.replay c' m' v t) b) ↔ CallAt L c P m x left w := by
  have hself := @callAt_setThread L c P m x left w j .idle (iff_of_false not_false (not_stageAt_of_idle hs))
  rw [← hself]
  refine or_congr_left ?_
  constructor
  · rintro ⟨r, hr, v', t', hcl, hmatch, hparse⟩
    rw [ret_returned, List.mem_append, List.mem_singleton] at hr
    rcases hr with hr | rfl
    · exact ⟨r, hr, v', t', hcl, hmatch, hparse⟩
    · obtain ⟨-, -, rfl, -⟩ := StoreCall.replay.inj hcl
      rw [hp] at hparse
      cases hparse
  · rintro ⟨r, hr, hrest⟩
    exact ⟨r, List.mem_append_left _ hr, hrest⟩

/-- A call that returns is over where its stage was. -/
theorem callAt_returned {w : StoreWorld} {j : ℕ} {c' m' v t : String} {epoch : ℚ} {b : Bool}
    (hs : w.thread j = .replaying c' m' v t epoch b []) (hp : parseTimeToEpoch L v = some epoch)
    (hleft : left []) :
    CallAt L c P m x left (w.ret j (.replay c' m' v t) b) ↔ CallAt L c P m x left w := by
  have hself := @exists_stageAt L c P m x left w j (w.thread j)
  rw [Function.update_eq_self] at hself
  have hnew := @exists_stageAt L c P m x left w j .idle
  have hreturn : ReturnAt L c P m x ⟨j, .replay c' m' v t, b⟩ ↔ StageAt L c P m x left (w.thread j) := by
    rw [hs]
    constructor
    · rintro ⟨v', t', hcl, hmatch, hparse⟩
      obtain ⟨rfl, rfl, rfl, rfl⟩ := StoreCall.replay.inj hcl
      rw [hp] at hparse
      exact ⟨rfl, rfl, Option.some.inj hparse, hmatch, hleft⟩
    · rintro ⟨rfl, rfl, rfl, hmatch, -⟩
      exact ⟨v, t, rfl, hmatch, hp⟩
  change ((∃ r ∈ w.returned ++ [_], _) ∨
    ∃ j', StageAt L c P m x left (Function.update w.thread j .idle j')) ↔ _
  unfold CallAt
  rw [hnew, hself, ← hreturn]
  simp only [List.mem_append, List.mem_singleton, or_and_right, exists_or, exists_eq_left]
  simp only [StageAt, false_or, or_assoc]

theorem replayOK_ret {w : StoreWorld} (h : ∀ j, ReplayOK L (w.thread j)) (j : ℕ) (cl : StoreCall) (b : Bool)
    (j' : ℕ) : ReplayOK L ((w.ret j cl b).thread j') := by
  rw [ret_thread]
  split
  · trivial
  · exact h j'

/-- A call begins, with all patterns before it. -/
theorem Fills.entered {stop : ℚ} {w : StoreWorld} {z : Dict String ℚ} (h : Fills L c P stop w z)
    (hP : P ∈ S.topics) {j : ℕ} {c' m v t : String} {epoch : ℚ} (hs : (w.thread j).inReplay = .idle)
    (hp : parseTimeToEpoch L v = some epoch) (hc : ':' ∉ c'.toList) :
    Fills L c P stop (w.setThread j (.replaying c' m v t epoch false S.topics)) z := by
  refine ⟨h.slot, ?_, ?_, replayOK_setThread h.stages ⟨hp, hc⟩⟩
  · intro m' x hz
    rcases h.sound m' x hz with hr | ⟨j', hj'⟩
    · exact .inl hr
    · refine .inr ((exists_stageAt (w := w) j _).2 (.inr ⟨j', ?_, hj'⟩))
      rintro rfl
      exact not_stageAt_of_idle hs hj'
  · intro m' x hpast
    refine h.complete m' x ((callAt_setThread (iff_of_false ?_ (not_stageAt_of_idle hs))).1 hpast)
    rintro ⟨-, -, -, -, hleft⟩
    exact hleft hP

/-- A pipeline on another set. -/
theorem Fills.elsewhere {stop : ℚ} {w : StoreWorld} {z : Dict String ℚ} (h : Fills L c P stop w z)
    (hc : ':' ∉ c.toList) {j : ℕ} {c' m v t Q : String} {x : ℚ} {b b' : Bool} {Qs : List String}
    (hs : w.thread j = .replaying c' m v t x b (Q :: Qs)) (hne : ¬ (c' = c ∧ Q = P)) (f : Slot → Slot) :
    Fills L c P stop ((w.setDb (w.db.at (replayKey c' Q) f)).setThread j
      (.replaying c' m v t x b' Qs)) z := by
  have hok := h.stages j
  rw [hs] at hok
  have hkey : replayKey c P ≠ replayKey c' Q := by
    intro hk
    obtain ⟨rfl, rfl⟩ := replayKey_inj hc hok.2 hk
    exact hne ⟨rfl, rfl⟩
  refine ⟨h.slot.imp ?_ ?_, ?_, ?_, replayOK_setThread (w := w.setDb _) h.stages hok⟩
  · rintro ⟨hnone, rfl⟩
    refine ⟨?_, rfl⟩
    rw [setThread_db, setDb_db, Db.at_ne _ hkey, hnone]
  · rintro ⟨e, hsome, hle⟩
    refine ⟨e, ?_, hle⟩
    rw [setThread_db, setDb_db, Db.at_ne _ hkey, hsome]
  · intro m' x hz
    refine (callAt_setThread (w := w.setDb _) ?_).2 (h.sound m' x hz)
    rw [setDb_thread, hs]
    exact Iff.rfl
  · intro m' x hpast
    refine h.complete m' x ((callAt_setThread (w := w.setDb _) ?_).1 hpast)
    rw [setDb_thread, hs]
    -- a call for the centre is not at the pattern
    refine and_congr_right fun hcc => ?_
    have hQ : P ≠ Q := fun hPQ => hne ⟨hcc, hPQ.symm⟩
    simp [hQ]

/-- A pattern that the topic does not match. -/
theorem Fills.passed {stop : ℚ} {w : StoreWorld} {z : Dict String ℚ} (h : Fills L c P stop w z) {j : ℕ}
    {c' m v t Q : String} {epoch : ℚ} {b : Bool} {Qs : List String}
    (hs : w.thread j = .replaying c' m v t epoch b (Q :: Qs)) (ht : topicMatches L Q t = false) :
    Fills L c P stop (w.setThread j (.replaying c' m v t epoch b Qs)) z := by
  have hok := h.stages j
  rw [hs] at hok
  have hstage : ∀ m' x, StageAt L c P m' x (fun Ps => P ∉ Ps) (.replaying c' m v t epoch b Qs) ↔
      StageAt L c P m' x (fun Ps => P ∉ Ps) (w.thread j) := by
    intro m' x
    rw [hs]
    refine and_congr_right fun _ => and_congr_right fun _ => and_congr_right fun _ =>
      and_congr_right fun hmatch => ?_
    exact not_congr (mem_cons_of_skipped ht hmatch).symm
  refine ⟨h.slot, ?_, ?_, replayOK_setThread h.stages hok⟩
  · intro m' x hz
    refine (callAt_setThread ?_).2 (h.sound m' x hz)
    rw [hs]
    exact Iff.rfl
  · intro m' x hpast
    exact h.complete m' x ((callAt_setThread (hstage m' x)).1 hpast)

/-- The last step of a call. -/
theorem Fills.returned {stop : ℚ} {w : StoreWorld} {z : Dict String ℚ} (h : Fills L c P stop w z) {j : ℕ}
    {c' m v t : String} {epoch : ℚ} {b : Bool} (hs : w.thread j = .replaying c' m v t epoch b []) :
    Fills L c P stop (w.ret j (.replay c' m v t) b) z := by
  have hok := h.stages j
  rw [hs] at hok
  refine ⟨h.slot, ?_, ?_, replayOK_ret h.stages j _ b⟩
  · intro m' x hz
    exact (callAt_returned hs hok.1 trivial).2 (h.sound m' x hz)
  · intro m' x hpast
    exact h.complete m' x ((callAt_returned hs hok.1 List.not_mem_nil).1 hpast)

theorem fills_moves {stop : ℚ} {w w' : StoreWorld} {e : StoreEvent} (hm : ReplayMoves L S w e w')
    (hP : P ∈ S.topics) (hc : ':' ∉ c.toList)
    (hcall : ∀ j c' m v t, e = .call j (.replay c' m v t) → ':' ∉ c'.toList)
    (hnow : w.now ≤ stop) (hstop : stop ≤ w.now + S.expiry) {z : Dict String ℚ} (h : Fills L c P stop w z) :
    ∃ z', Fills L c P stop w' z' := by
  cases hm with
  | other hnow' hdb hstage hret =>
    refine ⟨z, h.congr (hdb _ (keyFamily_replayKey c P)) ?_ ?_⟩
    · intro m x left
      refine or_congr ?_ (exists_congr fun j => ?_)
      · constructor
        · rintro ⟨r, hr, v, t, hcl, hrest⟩
          exact ⟨r, (hret r (by rw [hcl]; rfl)).1 hr, v, t, hcl, hrest⟩
        · rintro ⟨r, hr, v, t, hcl, hrest⟩
          exact ⟨r, (hret r (by rw [hcl]; rfl)).2 hr, v, t, hcl, hrest⟩
      · rw [← stageAt_inReplay, hstage, stageAt_inReplay]
    · intro j
      rw [← replayOK_inReplay, hstage, replayOK_inReplay]
      exact h.stages j
  | refuses j c' m v t hs hp =>
    exact ⟨z, h.congr rfl (fun _ _ _ => callAt_refused hs hp false) (replayOK_ret h.stages j _ false)⟩
  | enters j c' m v t epoch he hs hp => exact ⟨z, h.entered hP hs hp (hcall j c' m v t he)⟩
  | touches j c' m v t epoch b b' Q Qs hs ht =>
    by_cases heq : c' = c ∧ Q = P
    · obtain ⟨rfl, rfl⟩ := heq
      exact ⟨z.set m epoch, h.touched hnow hstop hs ht⟩
    · exact ⟨z, h.elsewhere hc hs heq _⟩
  | passes j c' m v t epoch b Q Qs hs ht => exact ⟨z, h.passed hs ht⟩
  | returns j c' m v t epoch b hs => exact ⟨z, h.returned hs⟩

theorem fills_run (hP : P ∈ S.topics) (hc : ':' ∉ c.toList) {stop : ℚ} (es : List StoreEvent)
    (hclear : ∀ cs, StoreEvent.clearReplay cs ∉ es)
    (hcall : ∀ j c' m v t, StoreEvent.call j (.replay c' m v t) ∈ es → ':' ∉ c'.toList) :
    ∀ {w : StoreWorld} {z : Dict String ℚ}, (w.run L S es).now ≤ stop → stop ≤ w.now + S.expiry →
      Fills L c P stop w z → ∃ z', Fills L c P stop (w.run L S es) z' := by
  induction es with
  | nil =>
    intro w z _ _ h
    exact ⟨z, h⟩
  | cons e es ih =>
    intro w z hnow hstop h
    rw [run_cons] at hnow ⊢
    have hstep := now_step (L := L) (S := S) w e
    have hrest := now_run (L := L) (S := S) es (w.step L S e)
    have hm : ReplayMoves L S w e (w.step L S e) :=
      replay_moves w fun cs heq => hclear cs (by rw [heq]; exact List.mem_cons_self)
    obtain ⟨z', h'⟩ := fills_moves hm hP hc (fun j c' m v t heq => hcall j c' m v t (by
      rw [heq]
      exact List.mem_cons_self)) (by linarith) hstop h
    exact ih (fun cs h => hclear cs (List.mem_cons_of_mem _ h))
      (fun j c' m v t h => hcall j c' m v t (List.mem_cons_of_mem _ h)) hnow (by linarith) h'

/-- The id of a call for the centre that matches the topic, with its epoch in the window. -/
def matchedId (L : Lib) (c P : String) (lo hi : ℤ) : StoreCall → Option String
  | .replay c' m v t =>
    match parseTimeToEpoch L v with
    | some x => if c' = c ∧ topicMatches L P t = true ∧ (lo : ℚ) ≤ x ∧ x < hi then some m else none
    | none => none
  | _ => none

/-- The ids of the calls that have returned. -/
def matchedIds (L : Lib) (c P : String) (lo hi : ℤ) (rs : List StoreReturn) : Finset String :=
  (rs.filterMap fun r => matchedId L c P lo hi r.call).toFinset

theorem mem_matchedIds {lo hi : ℤ} {rs : List StoreReturn} :
    m ∈ matchedIds L c P lo hi rs ↔ ∃ x, (∃ r ∈ rs, ReturnAt L c P m x r) ∧ (lo : ℚ) ≤ x ∧ x < hi := by
  unfold matchedIds
  rw [List.mem_toFinset, List.mem_filterMap]
  constructor
  · rintro ⟨r, hr, hid⟩
    cases hcall : r.call with
    | replay c' m' v t =>
      rw [hcall] at hid
      unfold matchedId at hid
      cases hp : parseTimeToEpoch L v with
      | none =>
        simp only [hp] at hid
        cases hid
      | some x =>
        simp only [hp] at hid
        split at hid
        · rename_i hall
          obtain ⟨rfl, hmatch, hlo, hhi⟩ := hall
          rw [← Option.some.inj hid]
          exact ⟨x, ⟨r, hr, v, t, hcall, hmatch, hp⟩, hlo, hhi⟩
        · cases hid
    | message m' v t =>
      rw [hcall] at hid
      cases hid
    | sync c' Q m' v =>
      rw [hcall] at hid
      cases hid
  · rintro ⟨x, ⟨r, hr, v, t, hcall, hmatch, hp⟩, hlo, hhi⟩
    refine ⟨r, hr, ?_⟩
    rw [hcall]
    unfold matchedId
    simp only [hp]
    exact if_pos ⟨trivial, hmatch, hlo, hhi⟩

/-- **The count of overlapping replay calls.** From a cleared set and within one expiry, whatever the
threads do: when all calls are over, the count of a centre and a topic is the number of ids whose calls
match and lie in the window, if each id has one time. -/
theorem replay_count_overlapping (hP : P ∈ S.topics) (hc : ':' ∉ c.toList) {w : StoreWorld}
    (hset : w.db (replayKey c P) = none) (hnone : w.returned = []) (hidle : ∀ j, (w.thread j).inReplay = .idle)
    (es : List StoreEvent) (hclear : ∀ cs, StoreEvent.clearReplay cs ∉ es)
    (hcentres : ∀ j c' m v t, StoreEvent.call j (.replay c' m v t) ∈ es → ':' ∉ c'.toList)
    (hspan : (w.run L S es).now ≤ w.now + S.expiry) (hdone : ∀ j, ((w.run L S es).thread j).inReplay = .idle)
    (hone : ∀ r ∈ (w.run L S es).returned, ∀ r' ∈ (w.run L S es).returned, r.call.isReplay = true →
      r'.call.isReplay = true → r.call.msgId = r'.call.msgId →
      parseTimeToEpoch L r.call.timeValue = parseTimeToEpoch L r'.call.timeValue) (lo hi : ℤ) :
    countReplayMessages (w.run L S es).now (w.run L S es).db c P lo hi =
      (matchedIds L c P lo hi (w.run L S es).returned).card := by
  have hinit : Fills L c P (w.now + S.expiry) w Dict.empty := by
    have hstage : ∀ j m x left, ¬ StageAt L c P m x left (w.thread j) := by
      intro j m x left
      rw [← stageAt_inReplay, hidle j]
      exact not_false
    refine ⟨.inl ⟨hset, rfl⟩, by nofun, ?_, ?_⟩
    · rintro m x (⟨r, hr, -⟩ | ⟨j, hj⟩)
      · rw [hnone] at hr
        cases hr
      · exact absurd hj (hstage j m x _)
    · intro j
      rw [← replayOK_inReplay, hidle j]
      trivial
  obtain ⟨z, h⟩ := fills_run hP hc es hclear hcentres hspan le_rfl hinit
  -- all calls have returned
  have hcalls : ∀ m x left, CallAt L c P m x left (w.run L S es) ↔
      ∃ r ∈ (w.run L S es).returned, ReturnAt L c P m x r := by
    intro m x left
    refine or_iff_left ?_
    rintro ⟨j, hj⟩
    rw [← stageAt_inReplay, hdone j] at hj
    exact hj
  unfold countReplayMessages
  rw [zcount_eq_card]
  congr 1
  ext m
  rw [mem_zrange, mem_matchedIds]
  unfold zscore
  rw [h.zset hspan]
  constructor
  · rintro ⟨x, hz, hlo, hhi⟩
    exact ⟨x, (hcalls m x _).1 (h.sound m x hz), hlo, hhi⟩
  · rintro ⟨x, hr, hlo, hhi⟩
    obtain ⟨y, hz⟩ := h.complete m x ((hcalls m x _).2 hr)
    obtain ⟨r, hrm, v, t, hrc, -, hrp⟩ := hr
    obtain ⟨r', hrm', v', t', hrc', -, hrp'⟩ := (hcalls m y _).1 (h.sound m y hz)
    have hparse := hone r hrm r' hrm' (by rw [hrc]; rfl) (by rw [hrc']; rfl) (by rw [hrc, hrc']; rfl)
    rw [hrc, hrc'] at hparse
    have hxy : some x = some y := hrp.symm.trans (hparse.trans hrp')
    rw [Option.some.inj hxy] at hlo hhi
    exact ⟨y, hz, hlo, hhi⟩

/-- Two brokers deliver one replay, and one of them another. -/
def overlappingReplays : List StoreEvent :=
  [.call 0 (.replay "ca-eccc" "m" "2024-01-01T00:00:00Z" "cache/a/wis2/x"),
    .call 1 (.replay "ca-eccc" "m" "2024-01-01T00:00:00Z" "cache/a/wis2/x"), .advance 1, .advance 0, .advance 1,
    .call 1 (.replay "ca-eccc" "n" "2024-01-01T00:01:00Z" "cache/a/wis2/y"), .advance 1, .tick 1, .advance 0,
    .advance 1]

def replayStore : RedisStore := ⟨660, ["cache/a/wis2/#"]⟩

theorem replay_count_overlapping_sample : countReplayMessages (newYear + 311)
    ((init (newYear + 310)).run sampleTables.lib replayStore overlappingReplays).db "ca-eccc" "cache/a/wis2/#"
      newYear (newYear + 300) = 2 := by
  have hidle : ∀ j,
      ((init (newYear + 310)).run sampleTables.lib replayStore overlappingReplays).thread j = .idle := by
    intro j
    by_cases h₀ : j = 0
    · rw [h₀]
      decide +kernel
    by_cases h₁ : j = 1
    · rw [h₁]
      decide +kernel
    rw [thread_untouched overlappingReplays ?_ (init (newYear + 310))]
    · rfl
    · intro e he
      simp only [overlappingReplays, List.mem_cons, List.not_mem_nil, or_false] at he
      rcases he with rfl | rfl | rfl | rfl | rfl | rfl | rfl | rfl | rfl | rfl
      all_goals simp [Ne.symm h₀, Ne.symm h₁]
  have hcount := replay_count_overlapping (L := sampleTables.lib) (S := replayStore) (P := "cache/a/wis2/#")
    (c := "ca-eccc") (w := init (newYear + 310)) (by decide) (by decide) rfl rfl (fun _ => rfl) overlappingReplays
    (by simp [overlappingReplays]) (by
      intro j c' m v t h
      simp only [overlappingReplays, List.mem_cons, StoreEvent.call.injEq, StoreCall.replay.injEq, reduceCtorEq,
        List.not_mem_nil, or_false, false_or] at h
      rcases h with ⟨-, rfl, -⟩ | ⟨-, rfl, -⟩ | ⟨-, rfl, -⟩
      all_goals decide) (by decide +kernel) (fun j => by rw [hidle j]; rfl) (by decide +kernel)
    newYear (newYear + 300)
  have hnow : ((init (newYear + 310)).run sampleTables.lib replayStore overlappingReplays).now = newYear + 311 := by
    decide +kernel
  rw [hnow] at hcount
  rw [hcount]
  decide +kernel

end StoreWorld

end Scgrep
