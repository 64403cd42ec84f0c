import Scgrep.Lib.Mqtt
import Scgrep.Proof.ConfigSpec
import Scgrep.Spec.Registry
import Scgrep.Spec.Fetch

/-!
# One topic, three filters

A configured topic `P` selects messages for the baseline and the replay count
(`topic_matches`), in the query of the service (`querySelects`), and for the
registry (`_channel_matches`).

* `core`: `P` without its trailing `#` and `/`.
* `topicMatches_iff`, `query_of_hash`, `channelMatches_iff`: what each selects.
* `one_filter_iff`: **all three agree on every topic iff `P` is its core followed by
  `/#`, or selects nothing at all.** An exact topic, a topic that ends in `/` and `#`
  alone are accepted, and treated differently by the three.
-/

namespace Scgrep

open Mqtt

/-- The library matches topics by the MQTT rules. -/
def ImplementsMqtt (L : Lib) : Prop := ∀ sub topic, L.topicMatchesSub sub topic = filterMatches sub topic

/-- The topic of a message: not empty, without wildcard characters. -/
def Concrete (t : String) : Prop := t ≠ "" ∧ '+' ∉ t.toList ∧ '#' ∉ t.toList

instance (t : String) : Decidable (Concrete t) := inferInstanceAs (Decidable (_ ∧ _))

/-- What the service selects for the query of `P`: whole levels as a prefix, nothing for
the empty query. -/
def querySelects (P t : String) : Prop :=
  topicToQuery P ≠ "" ∧ levels (topicToQuery P) <+: levels t

instance (P t : String) : Decidable (querySelects P t) := inferInstanceAs (Decidable (_ ∧ _))

/-- The topic of a replay of `t`, and the channel of the replays for `P`. -/
def replayTopic (c s t : String) : String := "replay/a/wis2/" ++ c ++ "/" ++ s ++ "/" ++ t

theorem expectedChannel_eq (call : FetchCall) (s : String) :
    call.expectedChannel s = replayTopic call.centreId s call.topic := rfl

/-- `P` without its trailing `#` and `/`. -/
def core (P : String) : String := Text.rstrip '/' (Text.rstrip '#' P)

/-- The topics on which the three selections agree: `core P` with `/#`, or one with a `#`
where none is allowed, which selects nothing. -/
def OneFilter (P : String) : Prop := '#' ∈ (core P).toList ∨ (core P ≠ "" ∧ P = core P ++ "/#")

instance (P : String) : Decidable (OneFilter P) := inferInstanceAs (Decidable (_ ∨ _))

/-! ## The core -/

theorem mem_of_mem_core {P : String} {x : Char} (h : x ∈ (core P).toList) : x ∈ P.toList :=
  Text.mem_of_mem_rstrip (Text.mem_of_mem_rstrip h)

theorem rstrip_core (P : String) : Text.rstrip '/' (core P) = core P := Text.rstrip_rstrip _ _

theorem core_hash (a : String) : core (a ++ "/#") = Text.rstrip '/' a := by
  have h1 : Text.rstrip '#' (a ++ "/#") = a ++ "/" := by
    rw [show a ++ "/#" = a ++ "/" ++ "#" by rw [String.append_assoc]; rfl, Text.rstrip_append,
      if_pos (by decide), Text.rstrip_append, if_neg (by decide)]
    rfl
  unfold core
  rw [h1, Text.rstrip_append, if_pos (by decide)]

theorem core_level (a : String) {b : String} (hb : core b = b) (h0 : b ≠ "") (h1 : Text.rstrip '#' b = b) :
    core (a ++ b) = a ++ b := by
  have h2 : Text.rstrip '/' b = b := by rw [← hb, rstrip_core]
  unfold core
  rw [Text.rstrip_append, if_neg (by rwa [h1]), h1, Text.rstrip_append, if_neg (by rwa [h2]), h2]

/-- A text that a topic has in front has its characters in the topic. -/
theorem subset_of_levels {a t : String} (h : levels a <+: levels t) : a.toList ⊆ t.toList := by
  rcases Text.split_prefix_iff.1 h with rfl | h
  · exact List.Subset.refl _
  · intro x hx; exact h.subset (List.mem_append_left _ hx)

/-! ## What each selects -/

variable {L : Lib}

theorem topicMatches_iff (hL : ImplementsMqtt L) {P : String} (hp : '+' ∉ P.toList) (hP : P ≠ "#")
    (t : String) : topicMatches L P t = true ↔ t = P ∨ ∃ a, P = a ++ "/#" ∧ levels a <+: levels t := by
  unfold topicMatches
  rw [hL, filterMatches_eq hp hP, matchLevels_iff hp hP]

/-- The query of a topic that ends in `/#` is its core. -/
theorem query_of_hash {a : String} (hs : Text.strip (a ++ "/#") = a ++ "/#") :
    topicToQuery (a ++ "/#") = core (a ++ "/#") := by
  have hne : a ++ "/#" ≠ "#" := by
    intro h
    have := congrArg (fun s => s.toList.length) h
    simp only [String.toList_append, List.length_append] at this
    have h2 : "/#".toList.length = 2 := rfl
    have h1 : "#".toList.length = 1 := rfl
    omega
  have hend : Text.endsWith (a ++ "/#") "/#" = true := by
    rw [Text.endsWith_iff, String.toList_append]; exact List.suffix_append _ _
  have hdrop : Text.dropEnd 2 (a ++ "/#") = a := by
    unfold Text.dropEnd
    rw [String.toList_append, List.length_append, show "/#".toList.length = 2 from rfl,
      Nat.add_sub_cancel, List.take_left, String.ofList_toList]
  simp only [topicToQuery, hs, hne, if_false, hend, if_true, hdrop, core_hash]

/-- A query keeps every character of the core. -/
theorem mem_query {P : String} (hs : Text.strip P = P) {x : Char} (hx : x ≠ '/')
    (h : x ∈ (core P).toList) : x ∈ (topicToQuery P).toList := by
  by_cases hend : Text.endsWith P "/#" = true
  · obtain ⟨l, hl⟩ := Text.endsWith_iff.1 hend
    have hP : P = String.ofList l ++ "/#" := by
      rw [← String.toList_inj, String.toList_append, String.toList_ofList, hl]
    rw [hP] at hs h ⊢
    rwa [query_of_hash hs]
  · have hne : P ≠ "#" := by
      rintro rfl
      exact absurd h (by rw [show core "#" = "" by decide]; simp)
    simp only [topicToQuery, hs, hne, if_false, hend, Bool.false_eq_true]
    exact Text.mem_rstrip hx (mem_of_mem_core h)

theorem mem_of_mem_query {P : String} {x : Char} (h : x ∈ (topicToQuery P).toList) :
    x ∈ P.toList := by
  simp only [topicToQuery] at h
  split at h
  · simp at h
  · have h := Text.mem_of_mem_rstrip h
    split at h
    · unfold Text.dropEnd at h
      rw [String.toList_ofList] at h
      exact Text.mem_of_mem_strip (List.mem_of_mem_take h)
    · exact Text.mem_of_mem_strip h

/-- What the prefix test of `_channel_matches` strips from a replay channel. -/
theorem rstrip_channel (c s P : String) :
    Text.rstrip '/' (Text.rstrip '#' (replayTopic c s P)) =
      if core P = "" then Text.rstrip '/' ("replay/a/wis2/" ++ c ++ "/" ++ s)
      else "replay/a/wis2/" ++ c ++ "/" ++ s ++ "/" ++ core P := by
  set base := "replay/a/wis2/" ++ c ++ "/" ++ s with hbase
  have h1 : Text.rstrip '#' (base ++ "/" ++ P) = base ++ "/" ++ Text.rstrip '#' P := by
    rw [Text.rstrip_append]
    split
    · rename_i h
      rw [h, String.append_empty, Text.rstrip_append, if_neg (by decide)]
      rfl
    · rfl
  have h2 : replayTopic c s P = base ++ "/" ++ P := rfl
  rw [h2, h1, Text.rstrip_append]
  unfold core
  split
  · rw [Text.rstrip_append, if_pos (by decide)]
  · rfl

/-- With an empty core the prefix test lets every topic through. -/
theorem channelMatches_of_core_empty {P : String} (h : core P = "") (c s t : String) :
    channelMatches L (replayTopic c s P) (replayTopic c s t) = true := by
  have hpre : Text.startsWith (replayTopic c s t)
      (Text.rstrip '/' (Text.rstrip '#' (replayTopic c s P)) ++ "/") = true := by
    rw [rstrip_channel, if_pos h, Text.startsWith_iff]
    unfold replayTopic
    set base := "replay/a/wis2/" ++ c ++ "/" ++ s with hbase
    obtain ⟨n, hn⟩ := Text.rstrip_append_replicate '/' base
    refine ⟨List.replicate n '/' ++ t.toList, ?_⟩
    have hslash : "/".toList = ['/'] := rfl
    simp only [String.toList_append, hslash]
    rw [hn, List.append_assoc, List.append_assoc, List.append_assoc, ← List.append_assoc ['/'],
      ← List.append_assoc (List.replicate n '/'), List.singleton_append, ← List.replicate_succ,
      List.replicate_succ']
  unfold channelMatches
  rw [if_pos hpre, ite_self]

/-- With a core, the prefix test asks for the core and a `/` in front. -/
theorem startsWith_channel {P : String} (h : core P ≠ "") (c s t : String) :
    Text.startsWith (replayTopic c s t)
      (Text.rstrip '/' (Text.rstrip '#' (replayTopic c s P)) ++ "/") = true ↔
        (core P ++ "/").toList <+: t.toList := by
  rw [rstrip_channel, if_neg h, Text.startsWith_iff]
  unfold replayTopic
  set base := "replay/a/wis2/" ++ c ++ "/" ++ s ++ "/" with hbase
  have hassoc : base ++ core P ++ "/" = base ++ (core P ++ "/") := String.append_assoc
  have h1 : (base ++ (core P ++ "/")).toList = base.toList ++ (core P ++ "/").toList :=
    String.toList_append
  have h2 : (base ++ t).toList = base.toList ++ t.toList := String.toList_append
  rw [hassoc, h1, h2, List.prefix_append_right_inj]

/-- The filter of a channel selects the replays of what the filter of its topic selects. -/
theorem topicMatches_channel (hL : ImplementsMqtt L) {P : String} (hp : '+' ∉ P.toList)
    (hP : P ≠ "#") (c s t : String) :
    topicMatches L (replayTopic c s P) (replayTopic c s t) = true ↔
      t = P ∨ ∃ a, P = a ++ "/#" ∧ levels a <+: levels t := by
  -- no replay topic begins with `$`
  have hdollar : Text.startsWith (replayTopic c s t) "$" = false := by
    unfold replayTopic Text.startsWith
    simp only [String.toList_append, List.append_assoc]
    rfl
  have hl : ∀ x, levels (replayTopic c s x) =
      levels ("replay/a/wis2/" ++ c ++ "/" ++ s) ++ levels x := fun x => levels_join _ x
  unfold topicMatches
  rw [hL, filterMatches, if_neg (by rw [hdollar]; decide), hl, hl,
    matchLevels_prefix _ (levels_ne_nil P), matchLevels_iff hp hP]

/-- Otherwise a channel selects its own topic, what has the core and a `/` in front, and
what the MQTT filter selects. -/
theorem channelMatches_iff (hL : ImplementsMqtt L) {P : String} (hp : '+' ∉ P.toList)
    (h : core P ≠ "") (c s t : String) :
    channelMatches L (replayTopic c s P) (replayTopic c s t) = true ↔
      t = P ∨ (core P ++ "/").toList <+: t.toList ∨ ∃ a, P = a ++ "/#" ∧ levels a <+: levels t := by
  have hP : P ≠ "#" := by rintro rfl; exact h (by decide)
  have heq : replayTopic c s t = replayTopic c s P ↔ t = P := by
    unfold replayTopic; rw [String.append_right_inj]
  have hpre := startsWith_channel h c s t
  have hmq := topicMatches_channel hL hp hP c s t
  unfold channelMatches
  by_cases h1 : t = P
  · rw [if_pos (heq.2 h1)]
    exact ⟨fun _ => Or.inl h1, fun _ => rfl⟩
  · rw [if_neg fun h' => h1 (heq.1 h')]
    by_cases h2 : (core P ++ "/").toList <+: t.toList
    · rw [if_pos (hpre.2 h2)]
      exact ⟨fun _ => Or.inr (Or.inl h2), fun _ => rfl⟩
    · rw [if_neg fun h' => h2 (hpre.1 h'), hmq, or_iff_right h1, or_iff_right h1, or_iff_right h2]

/-! ## Agreement -/

/-- The three selections agree on `t`, for the replays of centre `c` to subscriber `s`. -/
def Agree (L : Lib) (c s P t : String) : Prop :=
  (topicMatches L P t = true ↔ querySelects P t) ∧
    (querySelects P t ↔ channelMatches L (replayTopic c s P) (replayTopic c s t) = true)

instance (L : Lib) (c s P t : String) : Decidable (Agree L c s P t) :=
  inferInstanceAs (Decidable (_ ∧ _))

/-- A topic with a `#` inside selects nothing. -/
theorem agree_of_hash_in_core (hL : ImplementsMqtt L) {P : String} (hp : '+' ∉ P.toList)
    (hs : Text.strip P = P) (h : '#' ∈ (core P).toList) (c s : String) {t : String}
    (ht : Concrete t) : Agree L c s P t := by
  obtain ⟨-, -, hth⟩ := ht
  have hP : P ≠ "#" := by rintro rfl; exact absurd h (by decide)
  have hc : core P ≠ "" := by intro h0; rw [h0] at h; simp at h
  have h1 : t ≠ P := by rintro rfl; exact hth (mem_of_mem_core h)
  have h2 : ¬ ∃ a, P = a ++ "/#" ∧ levels a <+: levels t := by
    rintro ⟨a, rfl, ha⟩
    rw [core_hash] at h
    exact hth (subset_of_levels ha (Text.mem_of_mem_rstrip h))
  have h3 : ¬ (core P ++ "/").toList <+: t.toList := by
    intro hpre
    exact hth (hpre.subset (by rw [String.toList_append]; exact List.mem_append_left _ h))
  have h4 : ¬ querySelects P t := by
    rintro ⟨-, hq⟩
    exact hth (subset_of_levels hq (mem_query hs (by decide) h))
  unfold Agree
  rw [topicMatches_iff hL hp hP, channelMatches_iff hL hp hc, or_iff_right h1, or_iff_right h1,
    or_iff_right h3]
  exact ⟨iff_of_false h2 h4, iff_of_false h4 h2⟩

/-- A core with `/#` selects what has the core in front. -/
theorem agree_of_core_hash (hL : ImplementsMqtt L) {P : String} (hp : '+' ∉ P.toList)
    (hs : Text.strip P = P) (hc : core P ≠ "") (h : P = core P ++ "/#") (c s : String) {t : String}
    (ht : Concrete t) : Agree L c s P t := by
  obtain ⟨-, -, hth⟩ := ht
  have hP : P ≠ "#" := by rintro rfl; exact hc (by decide)
  have hq : topicToQuery P = core P := by
    have := query_of_hash (a := core P) (by rw [← h, hs])
    rwa [← h] at this
  have h1 : t ≠ P := by
    rintro rfl
    exact hth (by rw [h, String.toList_append]; exact List.mem_append_right _ (by decide))
  have h2 : (∃ a, P = a ++ "/#" ∧ levels a <+: levels t) ↔ levels (core P) <+: levels t := by
    constructor
    · rintro ⟨a, ha, hpre⟩
      rw [(String.append_left_inj "/#").1 (h.symm.trans ha)]
      exact hpre
    · intro hpre; exact ⟨_, h, hpre⟩
  have h3 : (core P ++ "/").toList <+: t.toList → levels (core P) <+: levels t := by
    intro hpre
    rw [String.toList_append] at hpre
    exact Text.split_prefix_iff.2 (Or.inr hpre)
  unfold Agree querySelects
  rw [topicMatches_iff hL hp hP, channelMatches_iff hL hp hc, hq, h2, or_iff_right h1,
    or_iff_right h1, or_iff_right_of_imp h3, and_iff_right hc]
  exact ⟨Iff.rfl, Iff.rfl⟩

/-- Without a core the registry takes every topic, and the query no plain one. -/
theorem disagree_of_core_empty {P : String} (h : core P = "") (c s : String) :
    Concrete "a" ∧ ¬ Agree L c s P "a" := by
  refine ⟨by unfold Concrete; decide, ?_⟩
  rintro ⟨-, h2⟩
  obtain ⟨h0, hq⟩ := h2.2 (channelMatches_of_core_empty h c s "a")
  -- the query would be `a`, which neither `/` nor `#` can be
  have hqa : topicToQuery P = "a" := by
    rcases Text.split_prefix_iff.1 hq with ha | ha
    · exact ha.symm
    · have hl : (topicToQuery P).toList.length + 1 ≤ 1 := by
        have := ha.length_le
        rwa [List.length_append] at this
      have : (topicToQuery P).toList = [] := List.length_eq_zero_iff.1 (by omega)
      exact absurd (String.toList_inj.1 (this.trans rfl)) h0
  have ha : 'a' ∈ P.toList := mem_of_mem_query (by rw [hqa]; decide)
  have hac : 'a' ∈ (core P).toList := Text.mem_rstrip (by decide) (Text.mem_rstrip (by decide) ha)
  rw [h] at hac
  simp at hac

/-- A level below the core makes a plain topic. -/
theorem concrete_below_core {P : String} (hp : '+' ∉ P.toList) (hh : '#' ∉ (core P).toList) :
    Concrete (core P ++ "/a") := by
  have hl : (core P ++ "/a").toList = (core P).toList ++ ['/', 'a'] := String.toList_append
  refine ⟨?_, ?_, ?_⟩
  · intro h
    have := congrArg String.toList h
    rw [hl] at this
    simp at this
  · rw [hl]
    simp only [List.mem_append, not_or]
    exact ⟨fun h => hp (mem_of_mem_core h), by decide⟩
  · rw [hl]
    simp only [List.mem_append, not_or]
    exact ⟨hh, by decide⟩

/-- A topic below its core is not that topic. -/
theorem below_core_ne (P : String) : core P ++ "/a" ≠ P := by
  intro h
  -- `P` would be its own core
  have hcore := core_level (core P ++ "/") (by decide : core "a" = "a") (by decide) (by decide)
  rw [String.append_assoc, show "/" ++ "a" = "/a" from rfl, h] at hcore
  rw [hcore] at h
  have := congrArg (fun s => s.toList.length) h
  simp only [String.toList_append, List.length_append] at this
  have h2 : "/a".toList.length = 2 := rfl
  omega

/-- Nor does the filter select it, when that is not the core followed by `/#`. -/
theorem below_core_not_below {P a : String} (hne : P ≠ core P ++ "/#") (ha : P = a ++ "/#") :
    ¬ levels a <+: levels (core P ++ "/a") := by
  intro hpre
  have hl : (core P ++ "/a").toList = (core P).toList ++ ['/', 'a'] := String.toList_append
  -- `P` would end in more than one slash before its `#`
  have hca : core P = Text.rstrip '/' a := by rw [ha, core_hash]
  obtain ⟨n, hn⟩ := Text.rstrip_append_replicate '/' a
  rw [← hca] at hn
  have hn0 : n ≠ 0 := by
    rintro rfl
    rw [List.replicate_zero, List.append_nil, String.toList_inj] at hn
    exact hne (by rw [← hn]; exact ha)
  obtain ⟨k, rfl⟩ := Nat.exists_eq_succ_of_ne_zero hn0
  rcases Text.split_prefix_iff.1 hpre with h | h
  · have := congrArg String.toList h
    rw [hl, hn, List.append_cancel_left_eq, List.replicate_succ', ← List.singleton_append] at this
    have := congrArg List.getLast? this
    simp at this
  · rw [hl, hn, List.append_assoc, List.prefix_append_right_inj, List.replicate_succ] at h
    cases k with
    | zero => simp at h
    | succ k => simp [List.replicate_succ] at h

/-- A topic below the core reaches the registry but not the baseline. -/
theorem disagree_below_core (hL : ImplementsMqtt L) {P : String} (hp : '+' ∉ P.toList)
    (hc : core P ≠ "") (hh : '#' ∉ (core P).toList) (hne : P ≠ core P ++ "/#") (c s : String) :
    Concrete (core P ++ "/a") ∧ ¬ Agree L c s P (core P ++ "/a") := by
  have hP : P ≠ "#" := by rintro rfl; exact hc (by decide)
  refine ⟨concrete_below_core hp hh, ?_⟩
  rintro ⟨h1, h2⟩
  have hch : channelMatches L (replayTopic c s P) (replayTopic c s (core P ++ "/a")) = true := by
    refine (channelMatches_iff hL hp hc c s _).2 (Or.inr (Or.inl ⟨['a'], ?_⟩))
    rw [String.toList_append, String.toList_append, List.append_assoc]
    rfl
  rcases (topicMatches_iff hL hp hP _).1 (h1.2 (h2.2 hch)) with h | ⟨a, ha, hpre⟩
  · exact below_core_ne P h
  · exact below_core_not_below hne ha hpre

/-- **One topic filter everywhere** iff the topic is its core followed by `/#`, or has a `#`
inside and selects nothing. -/
theorem one_filter_iff (hL : ImplementsMqtt L) {uuid : String} {env : String → Option String}
    {cfg : Config} (hcfg : Config.fromEnv L uuid env = .ok cfg) {P : String}
    (hP : P ∈ cfg.subscriptionTopics) (c s : String) :
    (∀ t, Concrete t → Agree L c s P t) ↔ OneFilter P := by
  have hacc := fromEnv_spec hcfg
  have hp := (hacc.topic_plain P hP).1
  have hs := hacc.topic_strip P hP
  constructor
  · intro hall
    by_contra hno
    simp only [OneFilter, not_or, not_and] at hno
    obtain ⟨hh, hno⟩ := hno
    by_cases hc : core P = ""
    · obtain ⟨ht, hd⟩ := disagree_of_core_empty (L := L) hc c s
      exact hd (hall _ ht)
    · obtain ⟨ht, hd⟩ := disagree_below_core hL hp hc hh (hno hc) c s
      exact hd (hall _ ht)
  · rintro (h | ⟨hc, h⟩) t ht
    · exact agree_of_hash_in_core hL hp hs h c s ht
    · exact agree_of_core_hash hL hp hs hc h c s ht

theorem implementsMqtt_lib (T : Tables) : ImplementsMqtt T.lib := fun _ _ => rfl

/-- A plain topic prefix is accepted and sent to the service as a prefix, but the baseline
and the replay count only take the topic itself. -/
theorem filters_disagree :
    Config.fromEnv sampleTables.lib "sub" (sampleEnv "cache/a/wis2" "ca-eccc" "https://x") =
        .ok (sampleConfig ["cache/a/wis2"] ["ca-eccc"] ["https://x"]) ∧
      Concrete "cache/a/wis2/us" ∧
      topicMatches sampleTables.lib "cache/a/wis2" "cache/a/wis2/us" = false ∧
      querySelects "cache/a/wis2" "cache/a/wis2/us" ∧
      ¬ Agree sampleTables.lib "ca-eccc" "sub" "cache/a/wis2" "cache/a/wis2/us" := by
  decide +kernel

theorem one_filter_sample :
    Agree sampleTables.lib "ca-eccc" "sub" "cache/a/wis2/#" "cache/a/wis2/us" :=
  (one_filter_iff (implementsMqtt_lib sampleTables)
    (show Config.fromEnv sampleTables.lib "sub" (sampleEnv "cache/a/wis2/#" "ca-eccc" "https://x") =
      .ok (sampleConfig ["cache/a/wis2/#"] ["ca-eccc"] ["https://x"]) by decide +kernel)
    (by decide) "ca-eccc" "sub").2 (by decide) _ (by decide)

end Scgrep
