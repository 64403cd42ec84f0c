import Scgrep.Proof.StoreSpec

/-!
# Histories of store operations

Everything the program does to the store is a list of `StoreOp`s. The sets are
never turned into strings (`notStr_runAll`), and an id that every operation
mentions with one time has that time as its score wherever it is a member
(`scored_runAll`).
-/

namespace Scgrep

open Redis

/-- A call that changes the store. -/
inductive StoreOp where
  | message (now : ℚ) (msgId timeValue topic : String)
  | replay (now : ℚ) (centreId msgId timeValue originalTopic : String)
  | sync (now : ℚ) (centreId pattern msgId timeValue : String)
  | clearReplay (centreIds : List String)
  | clearSync (centreIds : List String)

namespace StoreOp

/-- The id and the time value a call stores. -/
def record? : StoreOp → Option (String × String)
  | message _ msgId timeValue _ => some (msgId, timeValue)
  | replay _ _ msgId timeValue _ => some (msgId, timeValue)
  | sync _ _ _ msgId timeValue => some (msgId, timeValue)
  | clearReplay _ => none
  | clearSync _ => none

variable (L : Lib) (S : RedisStore)

def run (db : Db) : StoreOp → Db
  | message now msgId timeValue topic => (storeMessage L S now msgId timeValue topic db).2
  | replay now centreId msgId timeValue originalTopic =>
    (storeReplayMessage L S now centreId msgId timeValue originalTopic db).2
  | sync now centreId pattern msgId timeValue =>
    (storeSyncMessage L S now centreId pattern msgId timeValue db).2
  | clearReplay centreIds => Scgrep.clearReplay S centreIds db
  | clearSync centreIds => Scgrep.clearSync S centreIds db

def runAll (ops : List StoreOp) (db : Db) : Db := ops.foldl (run L S) db

variable {L S}

theorem runAll_append (ops ops' : List StoreOp) (db : Db) :
    runAll L S (ops ++ ops') db = runAll L S ops' (runAll L S ops db) := by
  simp [runAll, List.foldl_append]

/-- What an operation can do to a set: nothing, delete it, or store what it mentions. -/
inductive Effect (L : Lib) (S : RedisStore) (op : StoreOp) (o : Slot) : Slot → Prop where
  | same : Effect L S op o o
  | delete : Effect L S op o none
  | touch {msgId timeValue : String} {τ : ℚ} (now : ℚ) (hr : op.record? = some (msgId, timeValue))
      (hp : parseTimeToEpoch L timeValue = some τ) : Effect L S op o (touch now msgId τ S.expiry o)
  | index {msgId timeValue : String} {τ : ℚ} (now : ℚ) (hr : op.record? = some (msgId, timeValue))
      (hp : parseTimeToEpoch L timeValue = some τ) :
      Effect L S op o (index now msgId τ (now - S.expiry) S.expiry o)

theorem effect_touchStep {op : StoreOp} {msgId timeValue : String} {τ : ℚ}
    (hr : op.record? = some (msgId, timeValue)) (hp : parseTimeToEpoch L timeValue = some τ)
    (o : Slot) (now : ℚ) (text : String) (hit : Bool) :
    Effect L S op o (Retention.touchStep (S.expiry : ℚ) o ⟨now, msgId, τ, text, hit⟩) := by
  unfold Retention.touchStep
  split
  · exact Effect.touch now hr hp
  · exact Effect.same

theorem effect_delete (op : StoreOp) (db : Db) (keys : List String) (k : String) :
    Effect L S op (db k) (db.delete keys k) := by
  unfold Db.delete
  split
  · exact Effect.delete
  · exact Effect.same

/-- **Each operation has such an effect on each set.** -/
theorem run_effect (he : 0 ≤ S.expiry) {db : Db} {k : String} (hk : keyFamily k ≠ some 'm')
    (hns : NotStr (db k)) (op : StoreOp) : Effect L S op (db k) (op.run L S db k) := by
  have he' : (0 : ℚ) ≤ S.expiry := by exact_mod_cast he
  cases op with
  | message now msgId timeValue topic =>
    simp only [run]
    cases ht : parseTimeToEpoch L timeValue with
    | none => rw [storeMessage_unparsed _ ht]; exact Effect.same
    | some τ =>
      cases hp : purge now (db (msgKey msgId)) with
      | some e => rw [storeMessage_seen _ hp]; exact Effect.same
      | none =>
        have h1 : (db.at (msgKey msgId) fun _ => some ⟨.str topic, some (now + S.expiry)⟩) k = db k :=
          Db.at_ne _ (fun h => hk (by rw [h]; simp)) _
        rw [storeMessage_new _ ht hp, foldl_at _ _ _ _ _ _
          (by rw [h1]; exact index_index hns (by linarith) _ _ _), h1]
        split
        · exact Effect.index now rfl ht
        · exact Effect.same
  | replay now centreId msgId timeValue originalTopic =>
    simp only [run]
    cases ht : parseTimeToEpoch L timeValue with
    | none => rw [storeReplayMessage_unparsed ht]; exact Effect.same
    | some τ => rw [storeReplayMessage_at he hns _ _ _ ht]; exact effect_touchStep rfl ht _ _ _ _
  | sync now centreId pattern msgId timeValue =>
    simp only [run]
    cases ht : parseTimeToEpoch L timeValue with
    | none => rw [storeSyncMessage_unparsed ht]; exact Effect.same
    | some τ => rw [storeSyncMessage_at ht]; exact effect_touchStep rfl ht _ _ _ _
  | clearReplay centreIds => exact effect_delete _ db _ k
  | clearSync centreIds => exact effect_delete _ db _ k

theorem Effect.notStr {op : StoreOp} {o o' : Slot} (h : Effect L S op o o') (hns : NotStr o) :
    NotStr o' := by
  cases h with
  | same => exact hns
  | delete => intro x t h; cases h
  | touch now hr hp => exact hns.touch _ _ _ _
  | index now hr hp => exact hns.index _ _ _ _ _

/-- The sets stay sets. -/
theorem notStr_runAll (he : 0 ≤ S.expiry) {k : String} (hk : keyFamily k ≠ some 'm')
    (ops : List StoreOp) : ∀ {db : Db}, NotStr (db k) → NotStr (runAll L S ops db k) := by
  induction ops with
  | nil => intro db h; exact h
  | cons op ops ih => intro db h; exact ih ((run_effect he hk h op).notStr h)

/-! ## Scores -/

/-- Wherever `x` is a member of the set, its score is `τ`. -/
def Scored (x : String) (τ : ℚ) (o : Slot) : Prop :=
  ∀ z t, o = some ⟨.zset z, t⟩ → ∀ s, z.get? x = some s → s = τ

theorem scored_none (x : String) (τ : ℚ) : Scored x τ none := by
  intro z t h; cases h

theorem Scored.set {x m : String} {τ s now : ℚ} {o : Slot} (h : Scored x τ o) (hs : m = x → s = τ)
    {s' : ℚ} (hg : ((zset now o).set m s).get? x = some s') : s' = τ := by
  rw [Dict.get?_set] at hg
  by_cases hm : x = m
  · rw [if_pos hm, Option.some.injEq] at hg
    rw [← hg]; exact hs hm.symm
  · rw [if_neg hm] at hg
    have hg : zscore now o x = some s' := hg
    obtain ⟨z, t, ho, hz⟩ := zscore_some hg
    exact h z t ho s' hz

theorem Scored.touch {x m : String} {τ s now ttl : ℚ} {o : Slot} (hns : NotStr o) (h : Scored x τ o)
    (hs : m = x → s = τ) : Scored x τ (touch now m s ttl o) := by
  intro z t hz s' hg
  rw [touch_eq hns] at hz
  cases hz
  exact h.set hs hg

theorem Scored.index {x m : String} {τ s now cutoff ttl : ℚ} {o : Slot} (hns : NotStr o)
    (h : Scored x τ o) (hs : m = x → s = τ) : Scored x τ (index now m s cutoff ttl o) := by
  intro z t hz s' hg
  rw [index_eq hns] at hz
  dsimp only at hz
  split at hz
  · cases hz
  · cases hz
    rw [Dict.get?_filter, Option.filter_eq_some_iff] at hg
    exact h.set hs hg.1

/-- Every operation mentions `x` with the time `τ` only. -/
def OneTime (L : Lib) (x : String) (τ : ℚ) (ops : List StoreOp) : Prop :=
  ∀ op ∈ ops, ∀ v, op.record? = some (x, v) → parseTimeToEpoch L v = some τ

theorem Effect.scored {op : StoreOp} {o o' : Slot} (h : Effect L S op o o') (hns : NotStr o)
    {x : String} {τ : ℚ} (hx : Scored x τ o)
    (hop : ∀ v, op.record? = some (x, v) → parseTimeToEpoch L v = some τ) : Scored x τ o' := by
  have key : ∀ {m v s}, op.record? = some (m, v) → parseTimeToEpoch L v = some s → m = x → s = τ := by
    intro m v s h1 h2 hm
    subst hm
    rw [hop v h1] at h2
    exact (Option.some.inj h2).symm
  cases h with
  | same => exact hx
  | delete => exact scored_none x τ
  | touch now hr hp => exact hx.touch hns (key hr hp)
  | index now hr hp => exact hx.index hns (key hr hp)

/-- **An id with one time keeps that time as its score.** -/
theorem scored_runAll (he : 0 ≤ S.expiry) {k : String} (hk : keyFamily k ≠ some 'm') {x : String}
    {τ : ℚ} (ops : List StoreOp) : ∀ {db : Db}, NotStr (db k) → Scored x τ (db k) →
      OneTime L x τ ops → Scored x τ (runAll L S ops db k) := by
  induction ops with
  | nil => intro db _ h _; exact h
  | cons op ops ih =>
    intro db hns h hx
    have heff := run_effect (L := L) he hk hns op
    exact ih (heff.notStr hns) (heff.scored hns h (hx op List.mem_cons_self))
      fun op' hop' => hx op' (List.mem_cons_of_mem _ hop')

/-- What is counted in a range has its time there. -/
theorem mem_zrange_scored {x : String} {τ now lo hi : ℚ} {o : Slot} (h : Scored x τ o)
    (hx : x ∈ zrange now lo hi o) : lo ≤ τ ∧ τ < hi := by
  obtain ⟨s, hz, h1, h2⟩ := mem_zrange.1 hx
  obtain ⟨z, t, ho, hg⟩ := zscore_some hz
  rw [h z t ho s hg] at h1 h2
  exact ⟨h1, h2⟩

end StoreOp

end Scgrep
