import Scgrep.Spec.Fetch
import Scgrep.Spec.Tables
import Scgrep.Proof.StoreSpec

/-!
# One message, two extractions

`_parse_message` reads a broker message, `_process_features` a feature of a page.
Both take the id and the time of a JSON value, but only the second asks first
whether the value is an object.

* `parseMessage_eq`: on a decoded value the two agree, except that `_parse_message`
  raises where the value is no object.
* `onMessage_ok_iff`: when `on_message` returns.
* `same_identity_iff`: **the two agree, and no topic makes `on_message` raise, exactly
  for the objects whose id Redis can be handed.**
-/

namespace Scgrep

variable {L : Lib}

/-- The (id, time) pairs that `_process_features` passes to `store_sync_message`: those of the
features that are stored, and that of the one it raises for. -/
def storedBy (L : Lib) (page : Json) : List (String × String) :=
  (storedFeatures L page ++ ((pageFeatures page).find? (featureRefused L)).toList).filterMap (featureRecord L)

/-- A page whose features are `[v]`. -/
def onePage (v : Json) : Json := .obj [("features", .arr [v])]

theorem refuses_of_featureRefused {feature : Json} {m : String × String} (hm : featureRecord L feature = some m) :
    featureRefused L feature = refuses L m.1 m.2 := by
  unfold featureRefused
  rw [hm]
  rfl

/-- What `_process_features` does to the keyspace is to store those pairs that are not refused, in
turn. -/
theorem processFeatures_storedBy (S : RedisStore) (now : ℚ) (centreId topic : String) (page : Json)
    (db : Db) : (processFeatures L S now centreId topic page db).2 =
      ((storedBy L page).filter fun m => !refuses L m.1 m.2).foldl
        (fun db m => (storeSyncMessage L S now centreId topic m.1 m.2 db).2) db := by
  have hkept : ∀ m ∈ (storedFeatures L page).filterMap (featureRecord L), (!refuses L m.1 m.2) = true := by
    intro m hm
    obtain ⟨feature, hf, hrec⟩ := List.mem_filterMap.1 hm
    have := List.mem_takeWhile_imp hf
    rwa [refuses_of_featureRefused hrec] at this
  have hraised : (((pageFeatures page).find? (featureRefused L)).toList.filterMap (featureRecord L)).filter
      (fun m => !refuses L m.1 m.2) = [] := by
    refine List.filter_eq_nil_iff.2 fun m hm => ?_
    obtain ⟨feature, hf, hrec⟩ := List.mem_filterMap.1 hm
    have := List.find?_some (Option.mem_toList.1 hf)
    rw [refuses_of_featureRefused hrec] at this
    rw [this]
    exact Bool.false_ne_true
  unfold storedBy
  rw [List.filterMap_append, List.filter_append, hraised, List.append_nil, List.filter_eq_self.2 hkept]
  rfl

theorem storedBy_onePage (v : Json) : storedBy L (onePage v) = (featureRecord L v).toList := by
  have hf : pageFeatures (onePage v) = [v] := rfl
  unfold storedBy storedFeatures
  rw [hf, List.takeWhile_cons, List.find?_cons]
  cases hr : featureRefused L v <;> cases hv : featureRecord L v <;> simp [hv]

/-- Both skip the value, or both extract the same pair. -/
def SameIdentity (L : Lib) (text : String) (v : Json) : Prop :=
  (parseMessage L text = .ok none ∧ storedBy L (onePage v) = []) ∨
    ∃ m, parseMessage L text = .ok (some m) ∧ storedBy L (onePage v) = [m]

/-- **`_parse_message` on a decoded value** extracts what `_process_features` does, or raises. -/
theorem parseMessage_eq {text : String} {v : Json} (h : L.loads text = .ok v) :
    parseMessage L text = if v.isDict then .ok (featureRecord L v) else .error .attributeError := by
  unfold parseMessage featureRecord
  rw [h]
  dsimp only
  by_cases hd : v.isDict = true
  · rw [hd, if_pos rfl]
    simp only [Bool.not_true, Bool.false_eq_true, if_false]
    split <;> rfl
  · have hd : v.isDict = false := by simpa using hd
    rw [hd]
    rfl

theorem sameIdentity_iff {text : String} {v : Json} (h : L.loads text = .ok v) :
    SameIdentity L text v ↔ v.isDict = true := by
  unfold SameIdentity
  rw [parseMessage_eq h, storedBy_onePage]
  constructor
  · intro hs
    by_contra hd
    rw [if_neg hd] at hs
    rcases hs with ⟨h1, -⟩ | ⟨m, h1, -⟩ <;> cases h1
  · intro hd
    rw [if_pos hd]
    cases featureRecord L v with
    | none => exact Or.inl ⟨rfl, rfl⟩
    | some m => exact Or.inr ⟨m, rfl, rfl⟩

/-! ## `on_message` -/

variable {S : RedisStore}

/-- The store call for the (id, time) of a message raises. -/
def messageRefused (L : Lib) (S : RedisStore) (topic : String) (m : String × String) : Bool :=
  if Text.startsWith topic "replay/" then
    match replayParts topic with
    | none => false
    | some (_, originalTopic) => refusesReplay L S m.1 m.2 originalTopic
  else refuses L m.1 m.2

/-- **When `on_message` returns**: the payload is parsed without raising and its id is not refused,
or it is not looked at because the replay topic has too few levels. -/
theorem onMessage_ok_iff (wall mono : ℚ) (msg : MqttMessage) (s : HandlerState) :
    (onMessage L S wall mono msg s).1 = .ok () ↔
      (∃ o, parseMessage L msg.payload = .ok o ∧ ∀ m ∈ o, messageRefused L S msg.topic m = false) ∨
        (Text.startsWith msg.topic "replay/" = true ∧ replayParts msg.topic = none) := by
  unfold onMessage messageRefused
  by_cases hr : Text.startsWith msg.topic "replay/" = true
  · rw [if_pos hr]
    simp only [if_pos hr]
    unfold handleReplayMessage
    cases hparts : replayParts msg.topic with
    | none => exact ⟨fun _ => Or.inr ⟨hr, rfl⟩, fun _ => rfl⟩
    | some parts =>
      cases hp : parseMessage L msg.payload with
      | error e => simp
      | ok o =>
        cases o with
        | none => simp
        | some m =>
          obtain ⟨msgId, timeValue⟩ := m
          cases hm : refusesReplay L S msgId timeValue parts.2 <;> simp [hm]
  · rw [if_neg hr]
    simp only [if_neg hr]
    cases hp : parseMessage L msg.payload with
    | error e => simp [hr]
    | ok o =>
      cases o with
      | none => simp
      | some m =>
        obtain ⟨msgId, timeValue⟩ := m
        cases hm : refuses L msgId timeValue <;> simp [hm, hr]

/-- No topic makes `on_message` raise on the payload. -/
def NeverRaises (L : Lib) (payload : String) : Prop :=
  ∀ (S : RedisStore) (wall mono : ℚ) (topic : String) (s : HandlerState),
    (onMessage L S wall mono ⟨topic, payload⟩ s).1 = .ok ()

/-- A message that is not refused as such is refused on no topic. -/
theorem messageRefused_of_not_refuses {m : String × String} (h : refuses L m.1 m.2 = false)
    (topic : String) : messageRefused L S topic m = false := by
  unfold messageRefused
  split
  · split
    · rfl
    · exact refusesReplay_of_refuses h _
  · exact h

theorem neverRaises_iff {payload : String} :
    NeverRaises L payload ↔
      ∃ o, parseMessage L payload = .ok o ∧ ∀ m ∈ o, refuses L m.1 m.2 = false := by
  constructor
  · intro h
    have h1 := h ⟨0, []⟩ 0 0 "" ⟨ReplayRegistry.new, Redis.Db.empty⟩
    have hr : ¬ Text.startsWith "" "replay/" = true := by decide
    rcases (onMessage_ok_iff _ _ _ _).1 h1 with ⟨o, hp, hm⟩ | ⟨h2, -⟩
    · refine ⟨o, hp, fun m ho => ?_⟩
      have := hm m ho
      unfold messageRefused at this
      rwa [if_neg hr] at this
    · exact absurd h2 hr
  · rintro ⟨o, hp, hm⟩ S wall mono topic s
    exact (onMessage_ok_iff _ _ _ _).2 (Or.inl ⟨o, hp, fun m ho =>
      messageRefused_of_not_refuses (hm m ho) topic⟩)

theorem featureRefused_iff {v : Json} : featureRefused L v = false ↔
    ∀ m ∈ featureRecord L v, refuses L m.1 m.2 = false := by
  unfold featureRefused
  cases featureRecord L v with
  | none => simp
  | some m => simp

/-- **The two extractions agree, and `on_message` returns on every topic**, exactly for the
objects whose text the decoder reads without running out of stack, and whose id UTF-8 can encode if
there is a time to store it under. -/
theorem same_identity_iff {text : String} {v : Json}
    (h : L.loads text = .ok v ∨ L.loads text = .recursionError) :
    (SameIdentity L text v ∧ NeverRaises L text) ↔
      (v.isDict = true ∧ L.loads text = .ok v ∧ featureRefused L v = false) := by
  rcases h with h | h
  · rw [sameIdentity_iff h, neverRaises_iff, parseMessage_eq h, featureRefused_iff]
    constructor
    · rintro ⟨hd, o, ho, hm⟩
      rw [if_pos hd] at ho
      cases ho
      exact ⟨hd, h, hm⟩
    · rintro ⟨hd, -, hm⟩
      exact ⟨hd, featureRecord L v, if_pos hd, hm⟩
  · have hp : parseMessage L text = .error .recursionError := by
      unfold parseMessage
      rw [h]
    rw [neverRaises_iff, hp]
    constructor
    · rintro ⟨-, o, ho, -⟩; cases ho
    · rintro ⟨-, hv, -⟩
      rw [h] at hv
      cases hv

/-- A notification without a time of its own. -/
def pubtimeOnly : Json :=
  .obj [("id", .str "a"), ("properties", .obj [("pubtime", .str "2024-01-01T00:00:00Z")])]

/-- That notification, one whose id has a lone surrogate, and two values that
are no objects. -/
def identityTables : Tables :=
  { sampleTables with
    jsons := [("o", .ok pubtimeOnly),
      ("lone", .ok (.obj [("id", .str "\\ud800"), ("time", .str "2024-01-01T00:00:00Z")])),
      ("null", .ok .null), ("[]", .ok (.arr []))]
    lone := ["\\ud800"] }

def identityLib : Lib := identityTables.lib

theorem same_identity_sample :
    (SameIdentity identityLib "o" pubtimeOnly ∧ NeverRaises identityLib "o") ↔
    (pubtimeOnly.isDict = true ∧ identityLib.loads "o" = .ok pubtimeOnly ∧
      featureRefused identityLib pubtimeOnly = false) :=
  same_identity_iff (Or.inl rfl)

/-- The id that UTF-8 cannot encode makes `on_message` raise. -/
example : (onMessage identityLib ⟨660, ["cache/a/wis2/#"]⟩ 0 0 ⟨"cache/a/wis2/x", "lone"⟩
    ⟨ReplayRegistry.new, Redis.Db.empty⟩).1 = .error .unicodeEncodeError := rfl

/-- **A payload `null`** is skipped as a feature, and raises as a broker message. -/
theorem null_raises :
    ¬ SameIdentity identityLib "null" .null ∧ storedBy identityLib (onePage .null) = [] ∧
    (onMessage identityLib ⟨660, ["cache/a/wis2/#"]⟩ 0 0 ⟨"cache/a/wis2/x", "null"⟩
      ⟨ReplayRegistry.new, Redis.Db.empty⟩).1 = .error .attributeError := by
  refine ⟨?_, rfl, rfl⟩
  rw [sameIdentity_iff (v := .null) rfl]
  decide

end Scgrep
