import Scgrep.Proof.Topic

/-!
# What an accepted topic asks for

The requests made for a topic `P` name a collection (`topic_to_collection`) and a
query (`topic_to_query`).

* `stem`: `P` without one trailing `/#`; `P` selects some message topic exactly when
  no `#` is left in it.
* `routed_iff`: **the collection asked holds every message that `P` selects, unless `P`
  spans both collections or only looks like a topic of the monitoring tree.**
* `testable_iff`: **`P` is a valid filter with a plain query exactly when no `#` is left
  in its stem and it holds more than `/` and `#`.**
-/

namespace Scgrep

open Mqtt

/-! ## The stem -/

/-- `P` without one trailing `/#`. -/
def stem (P : String) : String := if Text.endsWith P "/#" then Text.dropEnd 2 P else P

theorem stem_hash (a : String) : stem (a ++ "/#") = a := by
  unfold stem Text.dropEnd
  have hend : Text.endsWith (a ++ "/#") "/#" = true := by
    rw [Text.endsWith_iff, String.toList_append]; exact List.suffix_append _ _
  rw [if_pos hend, String.toList_append, List.length_append, show "/#".toList.length = 2 from rfl,
    Nat.add_sub_cancel, List.take_left, String.ofList_toList]

/-- A topic ends in `/#`, or is its own stem. -/
theorem stem_cases (P : String) : P = stem P ++ "/#" ∨ (stem P = P ∧ ∀ a, P ≠ a ++ "/#") := by
  by_cases h : Text.endsWith P "/#" = true
  · left
    obtain ⟨l, hl⟩ := Text.endsWith_iff.1 h
    have hP : P = String.ofList l ++ "/#" := by
      rw [← String.toList_inj, String.toList_append, String.toList_ofList, hl]
    rw [hP, stem_hash]
  · right
    refine ⟨by unfold stem; rw [if_neg h], ?_⟩
    rintro a rfl
    exact h (by rw [Text.endsWith_iff, String.toList_append]; exact List.suffix_append _ _)

theorem mem_of_mem_stem {P : String} {x : Char} (h : x ∈ (stem P).toList) : x ∈ P.toList := by
  rcases stem_cases P with hP | ⟨hP, -⟩
  · rw [hP, String.toList_append]; exact List.mem_append_left _ h
  · rwa [hP] at h

/-! ## The collection -/

/-- The levels of the monitoring tree. -/
def monitorLevels : List String := ["monitor", "a", "wis2"]

/-- The collection that holds a message on `t`. -/
def holder (t : String) : String :=
  if monitorLevels <+: levels t then monitoringCollection else notificationCollection

/-- The requests for `P` go to the collection that holds what `P` selects. -/
def Routed (L : Lib) (P : String) : Prop :=
  ∀ t, Concrete t → topicMatches L P t = true → topicToCollection P = holder t

/-- The filters that select messages of both collections. -/
def spanning : List String := ["#", "monitor/#", "monitor/a/#"]

/-- The text of `P` begins like the monitoring tree, but its levels do not. -/
def LooksMonitored (P : String) : Prop :=
  Text.startsWith P "monitor/a/wis2" = true ∧ ¬ monitorLevels <+: levels P

instance (P : String) : Decidable (LooksMonitored P) := inferInstanceAs (Decidable (_ ∧ _))

theorem monitorLevels_eq : monitorLevels = levels "monitor/a/wis2" := by decide

/-- What lies in the monitoring tree begins like it. -/
theorem startsWith_of_monitored {t : String} (h : monitorLevels <+: levels t) :
    Text.startsWith t "monitor/a/wis2" = true := by
  rw [monitorLevels_eq] at h
  rw [Text.startsWith_iff]
  rcases Text.split_prefix_iff.1 h with rfl | h
  · exact List.prefix_rfl
  · exact (List.prefix_append _ _).trans h

/-- A trailing `#` is none of the levels of the monitoring tree. -/
theorem monitored_hash {a : String} :
    monitorLevels <+: levels (a ++ "/#") ↔ monitorLevels <+: levels a := by
  rw [levels_hash]
  constructor
  · intro h
    rcases List.prefix_concat_iff.1 h with h | h
    · have hmem : "#" ∈ monitorLevels := by
        rw [h]; exact List.mem_append_right _ (List.mem_singleton.2 rfl)
      exact absurd hmem (by decide)
    · exact h
  · intro h; exact h.trans (List.prefix_append _ _)

theorem holder_congr {t t' : String} (h : monitorLevels <+: levels t ↔ monitorLevels <+: levels t') :
    holder t = holder t' := by
  unfold holder
  simp only [h]

theorem topicToCollection_eq {P : String} (hs : Text.strip P = P) :
    topicToCollection P =
      if Text.startsWith P "monitor/a/wis2" then monitoringCollection else notificationCollection := by
  simp [topicToCollection, monitoringTopicPrefixes, hs]

/-- What only begins like the monitoring tree is asked of the wrong collection, and nothing else is. -/
theorem collection_eq_holder_iff {P : String} (hs : Text.strip P = P) :
    topicToCollection P = holder P ↔ ¬ LooksMonitored P := by
  have hne : monitoringCollection ≠ notificationCollection := by decide
  rw [topicToCollection_eq hs]
  unfold holder LooksMonitored
  by_cases hm : monitorLevels <+: levels P
  · rw [if_pos hm, if_pos (startsWith_of_monitored hm)]
    exact iff_of_true rfl fun h => h.2 hm
  · rw [if_neg hm]
    by_cases hp : Text.startsWith P "monitor/a/wis2" = true
    · rw [if_pos hp]
      exact iff_of_false hne fun h => h ⟨hp, hm⟩
    · rw [if_neg hp]
      exact iff_of_true rfl fun h => hp h.1

/-- The levels above the monitoring tree. -/
theorem above_monitored {a : String} (h : levels a <+: monitorLevels) (hm : ¬ monitorLevels <+: levels a) :
    a = "monitor" ∨ a = "monitor/a" := by
  have hne := levels_ne_nil a
  have hinj : ∀ b : String, levels a = levels b → a = b := fun b hb => Text.split_injective hb
  obtain ⟨r, hr⟩ := h
  rcases hl : levels a with _ | ⟨x, _ | ⟨y, _ | ⟨z, l⟩⟩⟩
  · exact absurd hl hne
  · rw [hl] at hr
    obtain ⟨rfl, -⟩ := List.cons.inj hr
    exact Or.inl (hinj _ (hl.trans (by decide)))
  · rw [hl] at hr
    simp only [monitorLevels, List.cons_append, List.nil_append, List.cons.injEq] at hr
    obtain ⟨rfl, rfl, -⟩ := hr
    exact Or.inr (hinj _ (hl.trans (by decide)))
  · rw [hl] at hr
    simp only [monitorLevels, List.cons_append, List.cons.injEq] at hr
    obtain ⟨rfl, rfl, rfl, -⟩ := hr
    exact absurd (by rw [hl]; exact ⟨l, rfl⟩) hm

section Collection

variable {L : Lib} {P : String}

/-- A filter that does not span both collections selects of its own tree only. -/
theorem holder_of_selected (hL : ImplementsMqtt L) (hp : '+' ∉ P.toList) (hspan : P ∉ spanning) {t : String}
    (ht : topicMatches L P t = true) : holder t = holder P := by
  have hP : P ≠ "#" := by rintro rfl; exact hspan (by decide)
  rcases (topicMatches_iff hL hp hP t).1 ht with rfl | ⟨a, rfl, hat⟩
  · rfl
  · refine holder_congr ⟨fun hmt => monitored_hash.2 ?_, fun hm => (monitored_hash.1 hm).trans hat⟩
    by_contra hm
    -- both are first levels of the topic, so one is above the other
    rcases List.prefix_or_prefix_of_prefix hat hmt with h | h
    · rcases above_monitored h hm with rfl | rfl
      · exact hspan (by decide)
      · exact hspan (by decide)
    · exact hm h

/-- A filter whose stem holds no `#` selects its stem. -/
theorem selects_stem (hL : ImplementsMqtt L) (hp : '+' ∉ P.toList) (hh : '#' ∉ (stem P).toList)
    (h0 : stem P ≠ "") : Concrete (stem P) ∧ topicMatches L P (stem P) = true := by
  have hP : P ≠ "#" := by rintro rfl; exact hh (by decide)
  refine ⟨⟨h0, fun h => hp (mem_of_mem_stem h), hh⟩, ?_⟩
  rw [topicMatches_iff hL hp hP]
  rcases stem_cases P with h | ⟨h, -⟩
  · exact Or.inr ⟨_, h, List.prefix_rfl⟩
  · exact Or.inl h

/-- A stem lies in the monitoring tree when its topic does. -/
theorem holder_stem (P : String) : holder (stem P) = holder P := by
  rcases stem_cases P with h | ⟨h, -⟩
  · refine holder_congr ?_
    conv_rhs => rw [h]
    exact monitored_hash.symm
  · rw [h]

/-- Each of the spanning filters selects a topic of the monitoring tree and is asked elsewhere. -/
theorem not_routed_spanning (hL : ImplementsMqtt L) (h : P ∈ spanning) : ¬ Routed L P := by
  intro hr
  have ht : Concrete "monitor/a/wis2" := by unfold Concrete; decide
  have hm : topicMatches L P "monitor/a/wis2" = true := by
    unfold topicMatches
    rw [hL]
    simp only [spanning, List.mem_cons, List.not_mem_nil, or_false] at h
    rcases h with rfl | rfl | rfl <;> decide
  have hc := hr _ ht hm
  simp only [spanning, List.mem_cons, List.not_mem_nil, or_false] at h
  rcases h with rfl | rfl | rfl <;> exact absurd hc (by decide)

/-- **The collection asked holds every message that an accepted topic selects**, unless the topic
spans both collections, or selects something and only looks like a topic of the monitoring tree. -/
theorem routed_iff (hL : ImplementsMqtt L) {uuid : String} {env : String → Option String} {cfg : Config}
    (hcfg : Config.fromEnv L uuid env = .ok cfg) (hP : P ∈ cfg.subscriptionTopics) :
    Routed L P ↔ P ∉ spanning ∧ ¬ (LooksMonitored P ∧ '#' ∉ (stem P).toList) := by
  have hacc := fromEnv_spec hcfg
  have hs := hacc.topic_strip P hP
  have hp := (hacc.topic_plain P hP).1
  constructor
  · intro hr
    refine ⟨fun h => not_routed_spanning hL h hr, ?_⟩
    rintro ⟨hlook, hh⟩
    -- the stem itself is selected, and held elsewhere
    have h0 : stem P ≠ "" := by
      intro h0
      have hstart := Text.startsWith_iff.1 hlook.1
      rcases stem_cases P with h | ⟨h, -⟩
      · rw [h, h0] at hstart
        exact absurd hstart (by decide)
      · rw [← h, h0] at hstart
        exact absurd hstart (by decide)
    obtain ⟨hc, hm⟩ := selects_stem hL hp hh h0
    have heq := hr _ hc hm
    rw [holder_stem, collection_eq_holder_iff hs] at heq
    exact heq hlook
  · rintro ⟨hspan, hlook⟩ t ht hm
    have hP : P ≠ "#" := by rintro rfl; exact hspan (by decide)
    have hh : '#' ∉ (stem P).toList := by
      rcases (topicMatches_iff hL hp hP t).1 hm with rfl | ⟨a, rfl, hat⟩
      · exact fun h => ht.2.2 (mem_of_mem_stem h)
      · rw [stem_hash]
        exact fun h => ht.2.2 (subset_of_levels hat h)
    rw [holder_of_selected hL hp hspan hm, collection_eq_holder_iff hs]
    exact fun h => hlook ⟨h, hh⟩

end Collection

theorem routed_cache :
    Routed sampleTables.lib "cache/a/wis2/#" ↔ "cache/a/wis2/#" ∉ spanning ∧
      ¬ (LooksMonitored "cache/a/wis2/#" ∧ '#' ∉ (stem "cache/a/wis2/#").toList) :=
  have hcfg : Config.fromEnv sampleTables.lib "sub"
      (sampleEnv "cache/a/wis2/#, origin/a/wis2/#" "ca-eccc" "https://x/") =
        .ok (sampleConfig ["cache/a/wis2/#", "origin/a/wis2/#"] ["ca-eccc"] ["https://x"]) := by
    decide +kernel
  routed_iff (fun _ _ => rfl) hcfg (by decide)

/-- **A sibling of the monitoring tree** is accepted, and asked of the monitoring collection. -/
theorem sibling_not_routed :
    Config.fromEnv sampleTables.lib "sub" (sampleEnv "monitor/a/wis2x/#" "ca-eccc" "https://x") =
      .ok (sampleConfig ["monitor/a/wis2x/#"] ["ca-eccc"] ["https://x"]) ∧
    Concrete "monitor/a/wis2x/y" ∧
    topicMatches sampleTables.lib "monitor/a/wis2x/#" "monitor/a/wis2x/y" = true ∧
    topicToCollection "monitor/a/wis2x/#" ≠ holder "monitor/a/wis2x/y" := by
  refine ⟨by decide +kernel, by unfold Concrete; decide, by decide, by decide⟩

/-! ## The query -/

/-- `P` is an MQTT filter: `#` only as the whole last level, and no `+`. -/
def ValidFilter (P : String) : Prop :=
  '+' ∉ P.toList ∧ (∀ x ∈ (levels P).dropLast, '#' ∉ x.toList) ∧
    ∀ x ∈ (levels P).getLast?, '#' ∈ x.toList → x = "#"

/-- The query of `P` is not empty, and none of its levels is a wildcard. -/
def PlainQuery (P : String) : Prop :=
  topicToQuery P ≠ "" ∧ ∀ x ∈ levels (topicToQuery P), x ≠ "#" ∧ x ≠ "+" ∧ x ≠ "*"

/-- What a topic needs to be tested. -/
def Testable (P : String) : Prop := ValidFilter P ∧ PlainQuery P

/-- No `#` is left in the stem, and there is more than `/` and `#`. -/
def PlainTopic (P : String) : Prop := '#' ∉ (stem P).toList ∧ ∃ x ∈ P.toList, x ≠ '/' ∧ x ≠ '#'

theorem topicToQuery_eq {P : String} (hs : Text.strip P = P) (hP : P ≠ "#") :
    topicToQuery P = Text.rstrip '/' (stem P) := by
  simp only [topicToQuery, hs, hP, if_false, stem]

/-- A level that is one character holds it. -/
theorem not_level {s : String} {c : Char} (h : c ∉ s.toList) : String.singleton c ∉ levels s := by
  intro hm
  exact h (Text.mem_of_mem_split hm (by simp))

/-- **No `#` is left in the stem** of a valid filter, but for the filter `#`. -/
theorem ValidFilter.stem_plain {P : String} (h : ValidFilter P) (hP : P ≠ "#") : '#' ∉ (stem P).toList := by
  obtain ⟨-, hinit, hlast⟩ := h
  intro hh
  obtain ⟨x, hx, hhx⟩ := Text.mem_split_of_mem (c := '/') hh (by decide)
  rcases stem_cases P with hcase | ⟨hcase, hne⟩
  · have hl : levels P = levels (stem P) ++ ["#"] := by
      conv_lhs => rw [hcase]
      exact levels_hash _
    rw [hl, List.dropLast_concat] at hinit
    exact hinit x hx hhx
  · rw [hcase] at hx
    obtain ⟨l, y, hly⟩ := (levels P).eq_nil_or_concat'.resolve_left (levels_ne_nil P)
    rw [hly, List.dropLast_concat] at hinit
    rw [hly, List.getLast?_concat] at hlast
    have hx' : x ∈ l ++ [y] := by rw [← hly]; exact hx
    rcases List.mem_append.1 hx' with h | h
    · exact hinit x h hhx
    · rw [List.mem_singleton] at h
      subst h
      -- the last level is `#`, so the topic is `#` or ends in `/#`
      have hy : x = "#" := hlast x rfl hhx
      subst hy
      rcases l.eq_nil_or_concat' with rfl | ⟨l', z, rfl⟩
      · exact hP (Text.split_injective (hly.trans (by decide)))
      · have hmem : ∀ w ∈ l' ++ [z], '/' ∉ w.toList := fun w hw =>
          Text.not_mem_of_mem_split (s := P) (show w ∈ levels P by
            rw [hly]; exact List.mem_append_left _ hw)
        refine hne (Text.join '/' (l' ++ [z])) (Text.split_injective (c := '/') ?_)
        have h2 := levels_hash (Text.join '/' (l' ++ [z]))
        have h3 : levels (Text.join '/' (l' ++ [z])) = l' ++ [z] := Text.split_join (by simp) hmem
        rw [h3] at h2
        exact hly.trans h2.symm

/-- A filter whose stem holds no `#` is valid. -/
theorem validFilter_of_stem {P : String} (hp : '+' ∉ P.toList) (h : '#' ∉ (stem P).toList) :
    ValidFilter P := by
  have hlev : ∀ x ∈ levels (stem P), '#' ∉ x.toList := fun x hx hhx => h (Text.mem_of_mem_split hx hhx)
  rcases stem_cases P with hcase | ⟨hcase, -⟩
  · have hl : levels P = levels (stem P) ++ ["#"] := by
      conv_lhs => rw [hcase]
      exact levels_hash _
    refine ⟨hp, ?_, ?_⟩
    · rw [hl, List.dropLast_concat]; exact hlev
    · rw [hl, List.getLast?_concat]
      intro x hx _
      exact (Option.some.inj hx).symm
  · rw [hcase] at hlev
    refine ⟨hp, fun x hx => hlev x (List.mem_of_mem_dropLast hx), ?_⟩
    intro x hx hhx
    exact absurd hhx (hlev x (List.mem_of_getLast? hx))

/-- **An accepted topic can be tested** exactly when no `#` is left in its stem and it holds more
than `/` and `#`. -/
theorem testable_topic {P : String} (hs : Text.strip P = P) (hp : '+' ∉ P.toList) (hstar : '*' ∉ P.toList) :
    Testable P ↔ PlainTopic P := by
  constructor
  · rintro ⟨hv, hq, -⟩
    have hP : P ≠ "#" := by rintro rfl; exact hq (by decide)
    have hh := hv.stem_plain hP
    refine ⟨hh, ?_⟩
    rw [topicToQuery_eq hs hP] at hq
    -- a stripped text that is not empty ends in another character
    have hne : (Text.rstrip '/' (stem P)).toList ≠ [] := fun h => hq (String.toList_inj.1 (h.trans rfl))
    have hlast : (Text.rstrip '/' (stem P)).toList.getLast hne ≠ '/' := by
      unfold Text.rstrip at hne ⊢
      simp only [String.toList_ofList] at hne ⊢
      simpa using List.rdropWhile_last_not (fun x => x == '/') (stem P).toList hne
    have hmem := Text.mem_of_mem_rstrip (List.getLast_mem hne)
    refine ⟨_, mem_of_mem_stem hmem, hlast, ?_⟩
    intro h
    rw [h] at hmem
    exact hh hmem
  · rintro ⟨hh, x, hx, hx1, hx2⟩
    have hP : P ≠ "#" := by rintro rfl; exact hh (by decide)
    have hxs : x ∈ (stem P).toList := by
      rcases stem_cases P with h | ⟨h, -⟩
      · rw [h, String.toList_append] at hx
        rcases List.mem_append.1 hx with hx | hx
        · exact hx
        · simp only [show "/#".toList = ['/', '#'] from rfl, List.mem_cons, List.not_mem_nil, or_false] at hx
          rcases hx with hx | hx
          · exact absurd hx hx1
          · exact absurd hx hx2
      · rwa [h]
    refine ⟨validFilter_of_stem hp hh, ?_, ?_⟩
    · rw [topicToQuery_eq hs hP]
      intro h0
      have hq := Text.mem_rstrip hx1 hxs
      rw [h0] at hq
      cases hq
    · have hplain : ∀ {y : Char}, y ∉ (stem P).toList → String.singleton y ∉ levels (topicToQuery P) := by
        intro y hy
        rw [topicToQuery_eq hs hP]
        exact not_level fun h => hy (Text.mem_of_mem_rstrip h)
      intro y hy
      refine ⟨?_, ?_, ?_⟩
      · rintro rfl; exact hplain hh hy
      · rintro rfl; exact hplain (fun h => hp (mem_of_mem_stem h)) hy
      · rintro rfl; exact hplain (fun h => hstar (mem_of_mem_stem h)) hy

/-- **All accepted topics can be tested** exactly when every entry of the variable is plain. -/
theorem testable_iff {L : Lib} {uuid : String} {env : String → Option String} {cfg : Config}
    (hcfg : Config.fromEnv L uuid env = .ok cfg) :
    (∀ P ∈ cfg.subscriptionTopics, Testable P) ↔
      ∀ P ∈ splitList ((env "SUBSCRIPTION_TOPICS").getD ""), PlainTopic P := by
  have hacc := fromEnv_spec hcfg
  rw [← (fromEnv_lists hcfg).1]
  constructor
  · intro h P hP
    exact (testable_topic (hacc.topic_strip P hP) (hacc.topic_plain P hP).1 (hacc.topic_plain P hP).2).1
      (h P hP)
  · intro h P hP
    exact (testable_topic (hacc.topic_strip P hP) (hacc.topic_plain P hP).1 (hacc.topic_plain P hP).2).2
      (h P hP)

theorem testable_sample :
    (∀ P ∈ (sampleConfig ["cache/a/wis2/#", "origin/a/wis2/#"] ["ca-eccc"] ["https://x"]).subscriptionTopics,
      Testable P) ↔
    ∀ P ∈ splitList (((sampleEnv "cache/a/wis2/#, origin/a/wis2/#" "ca-eccc" "https://x/")
      "SUBSCRIPTION_TOPICS").getD ""), PlainTopic P :=
  testable_iff fromEnv_sampleConfig

/-- **The topics `#` and `cache/x#/y` are accepted**: the query of the first is empty, and the
second is no filter. -/
theorem untestable_accepted :
    Config.fromEnv sampleTables.lib "sub" (sampleEnv "#, cache/x#/y" "ca-eccc" "https://x") =
      .ok (sampleConfig ["#", "cache/x#/y"] ["ca-eccc"] ["https://x"]) ∧
    ¬ PlainQuery "#" ∧ ¬ ValidFilter "cache/x#/y" := by
  refine ⟨by decide +kernel, fun h => h.1 (by decide), ?_⟩
  rintro ⟨-, h, -⟩
  exact h "x#" (by decide) (by decide)

end Scgrep
