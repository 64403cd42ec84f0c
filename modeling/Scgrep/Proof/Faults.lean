import Scgrep.Proof.StoreSpec
import Scgrep.Spec.Faults
import Scgrep.Spec.Tables

/-!
# Delivered again after a fault

* `storeMessageFailing_none`: without a fault it is `store_message`.
* `failing_marker`, `failing_set`: what a failing call leaves of the marker and of
  the set of a topic.
* `inEverySet_stored`, `inEverySet_marked`: the second delivery, as a new message and as
  a duplicate.
* `repaired_iff`: **after the message has been delivered again it is in the set of every
  matching topic exactly when it was not marked any more, or was there already.**
-/

namespace Scgrep

open Redis

variable {L : Lib} {S : RedisStore}

/-! ## The loop -/

/-- The loop over patterns without a fault. -/
def indexAll (L : Lib) (S : RedisStore) (now : ℚ) (msgId receivedTopic : String) (epoch : ℚ)
    (patterns : List String) (db : Db) : Db :=
  patterns.foldl (fun (db : Db) P => if topicMatches L P receivedTopic then
    db.at (topicKey P) (index now msgId epoch (now - S.expiry) S.expiry) else db) db

theorem indexPatterns_none (now : ℚ) (msgId receivedTopic : String) (epoch : ℚ) (patterns : List String) :
    ∀ db, indexPatterns L S now msgId receivedTopic epoch none patterns db =
      (some (), indexAll L S now msgId receivedTopic epoch patterns db) := by
  induction patterns with
  | nil => intro db; rfl
  | cons P Ps ih =>
    intro db
    unfold indexPatterns indexAll
    rw [List.foldl_cons]
    by_cases h : topicMatches L P receivedTopic = true
    · rw [if_pos h, if_pos h]; exact ih _
    · rw [if_neg h, if_neg h]; exact ih _

/-- With a fault the loop runs the pipelines of the first matching patterns. -/
theorem indexPatterns_some (now : ℚ) (msgId receivedTopic : String) (epoch : ℚ) (patterns : List String) :
    ∀ (f : Fault) (db : Db), (indexPatterns L S now msgId receivedTopic epoch (some f) patterns db).2 =
      indexAll L S now msgId receivedTopic epoch
        ((patterns.filter fun P => topicMatches L P receivedTopic).take f.ran) db := by
  induction patterns with
  | nil => intro f db; rw [List.filter_nil, List.take_nil]; rfl
  | cons P Ps ih =>
    rintro ⟨k, executed⟩ db
    by_cases h : topicMatches L P receivedTopic = true
    · unfold indexPatterns
      rw [if_pos h, List.filter_cons_of_pos (p := fun P => topicMatches L P receivedTopic) h]
      cases k with
      | zero =>
        -- this pipeline raises
        cases executed with
        | false => rfl
        | true =>
          show _ = indexAll L S now msgId receivedTopic epoch [P] db
          unfold indexAll
          rw [List.foldl_cons, if_pos h]
          rfl
      | succ k =>
        have hran : Fault.ran ⟨k + 1, executed⟩ = Fault.ran ⟨k, executed⟩ + 1 := by
          cases executed <;> rfl
        rw [hran, List.take_succ_cons]
        refine (ih ⟨k, executed⟩ _).trans ?_
        conv_rhs => unfold indexAll
        rw [List.foldl_cons, if_pos h]
        rfl
    · unfold indexPatterns
      rw [if_neg h, List.filter_cons_of_neg (p := fun P => topicMatches L P receivedTopic) h]
      exact ih _ db

/-- The loop, seen from the set of a topic. -/
theorem indexAll_at (he : 0 ≤ S.expiry) {now : ℚ} {msgId receivedTopic : String} {epoch : ℚ}
    (patterns : List String) {db : Db} {P : String} (hns : NotStr (db (topicKey P))) :
    indexAll L S now msgId receivedTopic epoch patterns db (topicKey P) =
      if P ∈ patterns ∧ topicMatches L P receivedTopic = true then
        index now msgId epoch (now - S.expiry) S.expiry (db (topicKey P))
      else db (topicKey P) := by
  have he' : (0 : ℚ) ≤ S.expiry := by exact_mod_cast he
  unfold indexAll
  rw [foldl_at _ _ _ _ _ _ (index_index hns (by linarith) _ _ _)]
  have hiff : (∃ Q ∈ patterns, topicMatches L Q receivedTopic = true ∧ topicKey Q = topicKey P) ↔
      P ∈ patterns ∧ topicMatches L P receivedTopic = true := by
    constructor
    · rintro ⟨Q, hQ, hm, h⟩
      rw [topicKey_injective h] at hQ hm
      exact ⟨hQ, hm⟩
    · rintro ⟨hP, hm⟩; exact ⟨P, hP, hm, rfl⟩
  simp only [hiff]

/-- The loop leaves the markers alone. -/
theorem indexAll_marker {now : ℚ} {msgId receivedTopic : String} {epoch : ℚ} (patterns : List String)
    (db : Db) (m : String) :
    indexAll L S now msgId receivedTopic epoch patterns db (msgKey m) = db (msgKey m) :=
  foldl_at_ne _ _ _ _ (fun _ => keys_ne (keyFamily_topicKey _) (keyFamily_msgKey m) (by decide)) _ _

/-- Without a fault it is `store_message`. -/
theorem storeMessageFailing_none (now : ℚ) (msgId timeValue receivedTopic : String) (db : Db) :
    storeMessageFailing L S none now msgId timeValue receivedTopic db =
      (some (storeMessage L S now msgId timeValue receivedTopic db).1,
        (storeMessage L S now msgId timeValue receivedTopic db).2) := by
  unfold storeMessageFailing storeMessage
  cases parseTimeToEpoch L timeValue with
  | none => rfl
  | some epoch =>
    cases hp : purge now (db (msgKey msgId)) with
    | some e =>
      have hself : (db.at (msgKey msgId) fun _ => some e) = db :=
        Function.update_eq_self_iff.2 (purge_eq_some.1 hp).1.symm
      simp [setNxEx, hp, hself]
    | none =>
      simp [setNxEx, hp, indexPatterns_none]
      rfl

/-! ## The failing call -/

section Failing

variable {f : Fault} {now now' : ℚ} {msgId timeValue topic : String} {τ : ℚ} {db : Db}

/-- The patterns that match a topic, in the order of the loop. -/
def matching (L : Lib) (S : RedisStore) (topic : String) : List String :=
  S.topics.filter fun P => topicMatches L P topic

theorem mem_matching {P : String} :
    P ∈ matching L S topic ↔ P ∈ S.topics ∧ topicMatches L P topic = true := List.mem_filter

/-- An id with its marker: a failing call does nothing. -/
theorem failing_seen (hτ : parseTimeToEpoch L timeValue = some τ) {e : Redis.Entry String String ℚ}
    (hp : purge now (db (msgKey msgId)) = some e) :
    (storeMessageFailing L S (some f) now msgId timeValue topic db).2 = db := by
  have hself : (db.at (msgKey msgId) fun _ => some e) = db :=
    Function.update_eq_self_iff.2 (purge_eq_some.1 hp).1.symm
  obtain ⟨k, executed⟩ := f
  unfold storeMessageFailing
  simp only [hτ, setNxEx, hp, hself]
  cases k with
  | zero => exact ite_self db
  | succ k => rfl

/-- A new id: a failing call runs the first commands. -/
theorem failing_new (hτ : parseTimeToEpoch L timeValue = some τ)
    (hp : purge now (db (msgKey msgId)) = none) :
    (storeMessageFailing L S (some f) now msgId timeValue topic db).2 =
      if f.ran = 0 then db else
        indexAll L S now msgId topic τ ((matching L S topic).take (f.ran - 1))
          (db.at (msgKey msgId) fun _ => some ⟨.str topic, some (now + S.expiry)⟩) := by
  obtain ⟨k, executed⟩ := f
  unfold storeMessageFailing
  simp only [hτ, setNxEx, hp]
  cases k with
  | zero => cases executed <;> rfl
  | succ k =>
    have hran : Fault.ran ⟨k + 1, executed⟩ = Fault.ran ⟨k, executed⟩ + 1 := by
      cases executed <;> rfl
    rw [hran, if_neg (Nat.succ_ne_zero _), Nat.add_sub_cancel]
    exact indexPatterns_some now msgId topic τ S.topics ⟨k, executed⟩ _

/-- **The marker after a failing call.** -/
theorem failing_marker (hτ : parseTimeToEpoch L timeValue = some τ) :
    (storeMessageFailing L S (some f) now msgId timeValue topic db).2 (msgKey msgId) =
      if purge now (db (msgKey msgId)) = none ∧ f.ran ≠ 0 then
        some ⟨.str topic, some (now + S.expiry)⟩ else db (msgKey msgId) := by
  cases hp : purge now (db (msgKey msgId)) with
  | some e => rw [failing_seen hτ hp, if_neg (by simp)]
  | none =>
    rw [failing_new hτ hp]
    by_cases hf : f.ran = 0
    · rw [if_pos hf, if_neg (by simp [hf])]
    · rw [if_neg hf, if_pos ⟨rfl, hf⟩, indexAll_marker, Db.at_self]

/-- **The set of a topic after a failing call.** -/
theorem failing_set (he : 0 ≤ S.expiry) (hτ : parseTimeToEpoch L timeValue = some τ) {P : String}
    (hns : NotStr (db (topicKey P))) :
    (storeMessageFailing L S (some f) now msgId timeValue topic db).2 (topicKey P) =
      if purge now (db (msgKey msgId)) = none ∧ P ∈ (matching L S topic).take (f.ran - 1) then
        index now msgId τ (now - S.expiry) S.expiry (db (topicKey P)) else db (topicKey P) := by
  cases hp : purge now (db (msgKey msgId)) with
  | some e => rw [failing_seen hτ hp, if_neg (by simp)]
  | none =>
    have hset : (db.at (msgKey msgId) fun _ => some ⟨.str topic, some (now + S.expiry)⟩) (topicKey P) =
        db (topicKey P) := Db.at_ne _ (keys_ne (keyFamily_topicKey P) (keyFamily_msgKey msgId) (by decide)) _
    rw [failing_new hτ hp]
    by_cases hf : f.ran = 0
    · rw [if_pos hf, hf, if_neg (by simp)]
    · rw [if_neg hf, indexAll_at he _ (by rw [hset]; exact hns), hset]
      have hiff : (P ∈ (matching L S topic).take (f.ran - 1) ∧ topicMatches L P topic = true) ↔
          (none = (none : Slot) ∧ P ∈ (matching L S topic).take (f.ran - 1)) := by
        constructor
        · rintro ⟨h, -⟩; exact ⟨rfl, h⟩
        · rintro ⟨-, h⟩; exact ⟨h, (mem_matching.1 (List.mem_of_mem_take h)).2⟩
      simp only [hiff]

/-! ## The message again -/

/-- The message is in the set of every topic that matches it. -/
def InEverySet (L : Lib) (S : RedisStore) (now : ℚ) (msgId topic : String) (db : Db) : Prop :=
  ∀ P ∈ matching L S topic, (zscore now (db (topicKey P)) msgId).isSome = true

instance (now : ℚ) (msgId topic : String) (db : Db) : Decidable (InEverySet L S now msgId topic db) :=
  inferInstanceAs (Decidable (∀ P ∈ matching L S topic, _))

/-- Whether the first call left a marker that is alive when the message comes again. -/
def Marks (S : RedisStore) (f : Fault) (now now' : ℚ) (msgId : String) (db : Db) : Prop :=
  purge now (db (msgKey msgId)) = none ∧ f.ran ≠ 0 ∧ now' ≤ now + S.expiry

/-- When the second delivery leaves the message in every set.

Not marked any more, it is stored, so its time must not have expired. Marked, it must be in the
sets: from before, or from the pipelines that the first call ran. -/
def Repaired (L : Lib) (S : RedisStore) (f : Fault) (now now' : ℚ) (msgId topic : String) (τ : ℚ)
    (db : Db) : Prop :=
  (purge now' (db (msgKey msgId)) = none ∧ ¬ Marks S f now now' msgId db ∧
      (matching L S topic ≠ [] → now' - S.expiry < τ)) ∨
    (purge now' (db (msgKey msgId)) ≠ none ∧ InEverySet L S now' msgId topic db) ∨
    (Marks S f now now' msgId db ∧ ∀ P ∈ matching L S topic,
      if P ∈ (matching L S topic).take (f.ran - 1) then now - S.expiry < τ
      else (zscore now' (db (topicKey P)) msgId).isSome = true)

/-- A message that is stored is in every set, unless it has expired. -/
theorem inEverySet_stored (he : 0 ≤ S.expiry) (hτ : parseTimeToEpoch L timeValue = some τ)
    (hp : purge now (db (msgKey msgId)) = none) (hns : ∀ P ∈ S.topics, NotStr (db (topicKey P))) :
    InEverySet L S now msgId topic (storeMessage L S now msgId timeValue topic db).2 ↔
      (matching L S topic ≠ [] → now - S.expiry < τ) := by
  have he' : (0 : ℚ) ≤ S.expiry := by exact_mod_cast he
  have key : ∀ P ∈ matching L S topic,
      (zscore now ((storeMessage L S now msgId timeValue topic db).2 (topicKey P)) msgId).isSome = true ↔
        now - S.expiry < τ := by
    intro P hP
    obtain ⟨hPS, hm⟩ := mem_matching.1 hP
    have hset : (db.at (msgKey msgId) fun _ => some ⟨.str topic, some (now + S.expiry)⟩) (topicKey P) =
        db (topicKey P) := Db.at_ne _ (keys_ne (keyFamily_topicKey P) (keyFamily_msgKey msgId) (by decide)) _
    have hstored : (storeMessage L S now msgId timeValue topic db).2 (topicKey P) =
        index now msgId τ (now - S.expiry) S.expiry (db (topicKey P)) := by
      have hns' := hns P hPS
      rw [← hset] at hns'
      rw [storeMessage_new topic hτ hp]
      refine (indexAll_at he S.topics hns').trans ?_
      rw [if_pos ⟨hPS, hm⟩, hset]
    rw [hstored, zscore_index (hns P hPS) _ _ _ _ (by linarith), if_pos rfl]
    by_cases h : now - (S.expiry : ℚ) < τ
    · simp [h]
    · simp [h]
  unfold InEverySet
  constructor
  · intro h hne
    obtain ⟨P, hP⟩ := List.exists_mem_of_ne_nil _ hne
    exact (key P hP).1 (h P hP)
  · intro h P hP
    exact (key P hP).2 (h (List.ne_nil_of_mem hP))

/-- The set of a matching topic after the first call, when it marked the message: the pipelines that
ran have stored it. -/
theorem zscore_failing (he : 0 ≤ S.expiry) (hτ : parseTimeToEpoch L timeValue = some τ)
    (hns : ∀ P ∈ S.topics, NotStr (db (topicKey P))) (hmarks : Marks S f now now' msgId db) {P : String}
    (hP : P ∈ matching L S topic) :
    (zscore now' ((storeMessageFailing L S (some f) now msgId timeValue topic db).2 (topicKey P))
        msgId).isSome = true ↔
      if P ∈ (matching L S topic).take (f.ran - 1) then now - S.expiry < τ
      else (zscore now' (db (topicKey P)) msgId).isSome = true := by
  obtain ⟨hp, -, hexp⟩ := hmarks
  have hPS := (mem_matching.1 hP).1
  rw [failing_set he hτ (hns P hPS)]
  by_cases htake : P ∈ (matching L S topic).take (f.ran - 1)
  · rw [if_pos ⟨hp, htake⟩, if_pos htake, zscore_index (hns P hPS) _ _ _ _ hexp, if_pos rfl]
    by_cases h : now - (S.expiry : ℚ) < τ
    · simp [h]
    · simp [h]
  · rw [if_neg fun h => htake h.2, if_neg htake]

/-- Delivered again while the first call's marker lives, the message is a duplicate. -/
theorem inEverySet_marked (he : 0 ≤ S.expiry) (hτ : parseTimeToEpoch L timeValue = some τ)
    (hns : ∀ P ∈ S.topics, NotStr (db (topicKey P))) (hmarks : Marks S f now now' msgId db) :
    InEverySet L S now' msgId topic (storeMessage L S now' msgId timeValue topic
        (storeMessageFailing L S (some f) now msgId timeValue topic db).2).2 ↔
      ∀ P ∈ matching L S topic,
        if P ∈ (matching L S topic).take (f.ran - 1) then now - S.expiry < τ
        else (zscore now' (db (topicKey P)) msgId).isSome = true := by
  have hlive : purge now' ((storeMessageFailing L S (some f) now msgId timeValue topic db).2 (msgKey msgId)) =
      some ⟨.str topic, some (now + S.expiry)⟩ := by
    rw [failing_marker hτ, if_pos ⟨hmarks.1, hmarks.2.1⟩]
    exact purge_of_le hmarks.2.2
  rw [storeMessage_seen topic hlive]
  exact forall₂_congr fun P hP => zscore_failing he hτ hns hmarks hP

/-- A message that is not marked, and that the first call left without a marker that lives on, is not
marked when it comes again. -/
theorem failing_unmarked (hτ : parseTimeToEpoch L timeValue = some τ)
    (hmarks : ¬ Marks S f now now' msgId db) (hp' : purge now' (db (msgKey msgId)) = none) :
    purge now' ((storeMessageFailing L S (some f) now msgId timeValue topic db).2 (msgKey msgId)) = none := by
  rw [failing_marker hτ]
  split
  · rename_i h
    have hgt : now + (S.expiry : ℚ) < now' := by
      by_contra hle'
      exact hmarks ⟨h.1, h.2, not_lt.1 hle'⟩
    exact purge_of_lt hgt
  · exact hp'

/-- **Delivered again after a fault**, the message is in the set of every matching topic exactly when
it is not marked any more and has not expired, or was in those sets already. -/
theorem repaired_iff (he : 0 ≤ S.expiry) (hτ : parseTimeToEpoch L timeValue = some τ) (hle : now ≤ now')
    (hns : ∀ P ∈ S.topics, NotStr (db (topicKey P))) :
    InEverySet L S now' msgId topic (storeMessage L S now' msgId timeValue topic
        (storeMessageFailing L S (some f) now msgId timeValue topic db).2).2 ↔
      Repaired L S f now now' msgId topic τ db := by
  unfold Repaired
  by_cases hmarks : Marks S f now now' msgId db
  · -- marked by the first call: the second delivery is a duplicate
    have hp' := purge_none_later hmarks.1 hle
    rw [inEverySet_marked he hτ hns hmarks]
    constructor
    · intro h; exact Or.inr (Or.inr ⟨hmarks, h⟩)
    · rintro (⟨-, h, -⟩ | ⟨h, -⟩ | ⟨-, h⟩)
      · exact absurd hmarks h
      · exact absurd hp' h
      · exact h
  · cases hp' : purge now' (db (msgKey msgId)) with
    | some e =>
      -- marked before: neither call does anything
      have hp : purge now (db (msgKey msgId)) ≠ none := by
        intro h
        rw [purge_none_later h hle] at hp'
        cases hp'
      obtain ⟨e', hp⟩ := Option.ne_none_iff_exists'.1 hp
      rw [failing_seen hτ hp, storeMessage_seen topic hp']
      constructor
      · intro h; exact Or.inr (Or.inl ⟨by simp, h⟩)
      · rintro (⟨h, -⟩ | ⟨-, h⟩ | ⟨h, -⟩)
        · cases h
        · exact h
        · exact absurd h hmarks
    | none =>
      -- not marked: the second call stores it
      have hns₁ : ∀ P ∈ S.topics,
          NotStr ((storeMessageFailing L S (some f) now msgId timeValue topic db).2 (topicKey P)) := by
        intro P hP
        rw [failing_set he hτ (hns P hP)]
        split
        · exact (hns P hP).index _ _ _ _ _
        · exact hns P hP
      rw [inEverySet_stored he hτ (failing_unmarked hτ hmarks hp') hns₁]
      constructor
      · intro h; exact Or.inl ⟨rfl, hmarks, h⟩
      · rintro (⟨-, -, h⟩ | ⟨h, -⟩ | ⟨h, -⟩)
        · exact h
        · exact absurd rfl h
        · exact absurd h hmarks

end Failing

/-- A store with two topics that match the sample message. -/
def nestedStore : RedisStore := ⟨660, ["cache/a/wis2/#", "cache/a/wis2/us/#"]⟩

theorem repaired_sample :
    InEverySet sampleTables.lib nestedStore (newYear + 1) "m" "cache/a/wis2/us/x"
        (storeMessage sampleTables.lib nestedStore (newYear + 1) "m" "2024-01-01T00:00:00Z" "cache/a/wis2/us/x"
          (storeMessageFailing sampleTables.lib nestedStore (some ⟨0, false⟩) newYear "m"
            "2024-01-01T00:00:00Z" "cache/a/wis2/us/x" Redis.Db.empty).2).2 ↔
      Repaired sampleTables.lib nestedStore ⟨0, false⟩ newYear (newYear + 1) "m" "cache/a/wis2/us/x" newYear
        Redis.Db.empty :=
  repaired_iff (by decide) (by decide +kernel) (by decide +kernel) fun P _ x t h => by cases h

/-- **The second pipeline fails**: the message comes again a second later, and the set of the second
topic never gets it. -/
theorem half_indexed :
    (storeMessageFailing sampleTables.lib nestedStore (some ⟨2, false⟩) newYear "m"
      "2024-01-01T00:00:00Z" "cache/a/wis2/us/x" Redis.Db.empty).1 = none ∧
    ¬ InEverySet sampleTables.lib nestedStore (newYear + 1) "m" "cache/a/wis2/us/x"
        (storeMessage sampleTables.lib nestedStore (newYear + 1) "m" "2024-01-01T00:00:00Z" "cache/a/wis2/us/x"
          (storeMessageFailing sampleTables.lib nestedStore (some ⟨2, false⟩) newYear "m"
            "2024-01-01T00:00:00Z" "cache/a/wis2/us/x" Redis.Db.empty).2).2 := by
  refine ⟨by decide +kernel, by decide +kernel⟩

end Scgrep
