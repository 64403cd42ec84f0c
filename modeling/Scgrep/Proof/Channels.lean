import Scgrep.Proof.Recount
import Scgrep.Proof.Topic

/-!
# Configurations whose channels and keys are apart

`Config.Separate` is the shape of the shipped configuration: topics `l/#` none of
which lies below another, and centres without separators in their names.

* `channelMatches_levels`: a channel only matches a replay topic below its own topic,
  of its own centre or, when the centre is the wildcard `+`, of any.
* `indexesFor_replay`: a replay is indexed for the cells of its own centre whose topic
  selects it.
* `oneChannel_replay`: **so a replay matches the channel of its cell alone**, unless a
  centre is a wildcard.
-/

namespace Scgrep

open Mqtt

/-- The levels before the last one. -/
def base (P : String) : List String := (levels P).dropLast

/-- Topics `l/#` of the three hierarchies, none of which lies below another, and
centres whose names hold no separator. -/
structure Config.Separate (cfg : Config) : Prop where
  topics : cfg.subscriptionTopics.Nodup
  centres : cfg.replayCentreIds.Nodup
  hash : ∀ P ∈ cfg.subscriptionTopics, ∃ l, P = l ++ "/#"
  plain : ∀ P ∈ cfg.subscriptionTopics, ∀ x ∈ base P, x ≠ "" ∧ '+' ∉ x.toList ∧ '#' ∉ x.toList
  hierarchy : ∀ P ∈ cfg.subscriptionTopics, Text.startsWith P "cache/a/wis2/" = true ∨
    Text.startsWith P "origin/a/wis2/" = true ∨ Text.startsWith P "monitor/a/wis2/" = true
  apart : ∀ P ∈ cfg.subscriptionTopics, ∀ Q ∈ cfg.subscriptionTopics, base P <+: base Q → P = Q
  centre_plain : ∀ c ∈ cfg.replayCentreIds, '/' ∉ c.toList ∧ ':' ∉ c.toList
  subscriber_plain : '/' ∉ cfg.subscriberId.toList

theorem base_hash (l : String) : base (l ++ "/#") = levels l := by
  unfold base
  rw [levels_hash, List.dropLast_concat]

/-- A text whose levels are not empty does not end in a separator. -/
theorem rstrip_of_levels {l : String} (h : ∀ x ∈ levels l, x ≠ "") : Text.rstrip '/' l = l := by
  obtain ⟨n, hn⟩ := Text.rstrip_append_replicate '/' l
  cases n with
  | zero =>
    rw [List.replicate_zero, List.append_nil, String.toList_inj] at hn
    exact hn.symm
  | succ n =>
    have hsplit : l.toList = (String.ofList ((Text.rstrip '/' l).toList ++ List.replicate n '/')).toList ++
        '/' :: "".toList := by
      rw [hn, List.replicate_succ', String.toList_ofList, List.append_assoc]
      rfl
    have hmem : "" ∈ levels l := by
      unfold levels
      rw [Text.split_append hsplit]
      exact List.mem_append_right _ (by decide)
    exact absurd rfl (h "" hmem)

/-- The levels of a replay topic of a centre and a subscriber without separators. -/
theorem levels_replayTopic {c s : String} (hc : '/' ∉ c.toList) (hs : '/' ∉ s.toList) (t : String) :
    levels (replayTopic c s t) = ["replay", "a", "wis2", c, s] ++ levels t := by
  have h0 : levels "replay/a/wis2" = ["replay", "a", "wis2"] := by decide
  have h1 : replayTopic c s t = "replay/a/wis2" ++ "/" ++ c ++ "/" ++ s ++ "/" ++ t := rfl
  rw [h1, levels_join, levels_join, levels_join, h0]
  unfold levels
  rw [Text.split_of_not_mem hc, Text.split_of_not_mem hs]
  rfl

variable {L : Lib} {cfg : Config}

namespace Config.Separate

/-- A topic of this shape is its core followed by `/#`. -/
theorem core_eq (h : cfg.Separate) {P : String} (hP : P ∈ cfg.subscriptionTopics) :
    P = core P ++ "/#" ∧ levels (core P) = base P ∧ core P ≠ "" := by
  obtain ⟨l, rfl⟩ := h.hash P hP
  have hne : ∀ x ∈ levels l, x ≠ "" := by
    intro x hx
    exact (h.plain _ hP x (by rw [base_hash]; exact hx)).1
  have hcore : core (l ++ "/#") = l := by rw [core_hash, rstrip_of_levels hne]
  rw [hcore, base_hash]
  refine ⟨rfl, rfl, ?_⟩
  rintro rfl
  exact hne "" (by decide) rfl

/-- A topic of this shape selects what lies below it. -/
theorem selects_iff (h : cfg.Separate) (hacc : cfg.Accepted) (hL : ImplementsMqtt L) {P : String}
    (hP : P ∈ cfg.subscriptionTopics) (t : String) :
    topicMatches L P t = true ↔ base P <+: levels t := by
  obtain ⟨h1, h2, h3⟩ := h.core_eq hP
  have hne : P ≠ "#" := by
    intro hP'
    rw [hP'] at h3
    exact h3 (by decide)
  rw [topicMatches_iff hL (hacc.topic_plain P hP).1 hne]
  constructor
  · rintro (rfl | ⟨a, ha, hpre⟩)
    · exact List.dropLast_prefix _
    · rw [ha, base_hash]; exact hpre
  · intro hpre
    exact Or.inr ⟨core P, h1, by rw [h2]; exact hpre⟩

/-- The query of a topic of this shape selects what the topic selects. -/
theorem query_iff (h : cfg.Separate) (hacc : cfg.Accepted) (hL : ImplementsMqtt L) {P : String}
    (hP : P ∈ cfg.subscriptionTopics) (t : String) :
    querySelects P t ↔ topicMatches L P t = true := by
  obtain ⟨h1, h2, h3⟩ := h.core_eq hP
  have hstrip := hacc.topic_strip P hP
  rw [h1] at hstrip
  have hq : topicToQuery P = core P := by
    conv_lhs => rw [h1]
    rw [query_of_hash hstrip, ← h1]
  unfold querySelects
  rw [hq, h2, h.selects_iff hacc hL hP, and_iff_right h3]

/-- No two topics of this shape select the same topic. -/
theorem selects_unique (h : cfg.Separate) (hacc : cfg.Accepted) (hL : ImplementsMqtt L) {P Q t : String}
    (hP : P ∈ cfg.subscriptionTopics) (hQ : Q ∈ cfg.subscriptionTopics)
    (h1 : topicMatches L P t = true) (h2 : topicMatches L Q t = true) : P = Q := by
  rw [h.selects_iff hacc hL hP] at h1
  rw [h.selects_iff hacc hL hQ] at h2
  rcases List.prefix_or_prefix_of_prefix h1 h2 with hpre | hpre
  · exact h.apart P hP Q hQ hpre
  · exact (h.apart Q hQ P hP hpre).symm

/-- A channel matches the replays of its own centre below its topic, and no others unless
its centre is the wildcard. -/
theorem channelMatches_levels (h : cfg.Separate) (hL : ImplementsMqtt L)
    {P : String} (hP : P ∈ cfg.subscriptionTopics) {c c' t : String} (hc : '/' ∉ c.toList)
    (hc' : '/' ∉ c'.toList)
    (hm : channelMatches L (replayTopic c' cfg.subscriberId P)
      (replayTopic c cfg.subscriberId t) = true) :
    (c' = c ∨ c' = "+") ∧ base P <+: levels t := by
  have hs := h.subscriber_plain
  obtain ⟨hcore, hlev, hne⟩ := h.core_eq hP
  have hlt := levels_replayTopic hc hs t
  unfold channelMatches at hm
  split at hm
  · -- the channel itself
    rename_i heq
    have hl := congrArg levels heq
    rw [hlt, levels_replayTopic hc' hs] at hl
    simp only [List.cons_append, List.nil_append, List.cons.injEq, true_and] at hl
    refine ⟨Or.inl hl.1.symm, ?_⟩
    rw [hl.2]
    exact List.dropLast_prefix _
  · split at hm
    · -- a topic below the channel
      rename_i hst
      rw [rstrip_channel, if_neg hne, Text.startsWith_iff, String.toList_append] at hst
      have hpre : levels (replayTopic c' cfg.subscriberId (core P)) <+:
          levels (replayTopic c cfg.subscriberId t) := Text.split_prefix_iff.2 (Or.inr hst)
      rw [hlt, levels_replayTopic hc' hs, hlev] at hpre
      simp only [List.cons_append, List.nil_append, List.cons_prefix_cons, true_and] at hpre
      exact ⟨Or.inl hpre.1, hpre.2⟩
    · -- the filter of the channel
      have hdollar : Text.startsWith (replayTopic c cfg.subscriberId t) "$" = false := by
        unfold replayTopic Text.startsWith
        simp only [String.toList_append, List.append_assoc]
        rfl
      unfold topicMatches at hm
      rw [hL, filterMatches, if_neg (by rw [hdollar]; decide), hlt, levels_replayTopic hc' hs] at hm
      have hplus : "+" ∉ base P := by
        intro hx
        exact (h.plain P hP _ hx).2.1 (by decide)
      have hP' : levels P = base P ++ ["#"] := by
        conv_lhs => rw [hcore, levels_hash, hlev]
      rw [hP'] at hm
      simp only [List.cons_append, List.nil_append, matchLevels, List.isEmpty_cons, Bool.and_false,
        Bool.false_or, Bool.and_eq_true, Bool.or_eq_true, beq_iff_eq, or_true,
        true_and] at hm
      refine ⟨hm.1.symm, ?_⟩
      -- the subscriber is a level of its own, not a wildcard at the end
      rcases hm.2 with ⟨-, hend⟩ | hrest
      · simp at hend
      · exact (matchLevels_hash hplus _).1 hrest

/-- The channel of a cell matches what its topic selects. -/
theorem channelMatches_own (h : cfg.Separate) (hacc : cfg.Accepted) (hL : ImplementsMqtt L)
    {P t : String} (hP : P ∈ cfg.subscriptionTopics) (ht : topicMatches L P t = true) (c : String) :
    channelMatches L (replayTopic c cfg.subscriberId P) (replayTopic c cfg.subscriberId t) = true := by
  obtain ⟨hcore, hlev, hne⟩ := h.core_eq hP
  rw [h.selects_iff hacc hL hP] at ht
  rw [channelMatches_iff hL (hacc.topic_plain P hP).1 hne]
  exact Or.inr (Or.inr ⟨core P, hcore, by rw [hlev]; exact ht⟩)

/-- Distinct topics and centres are distinct targets too. -/
theorem distinct (h : cfg.Separate) (hacc : cfg.Accepted) : cfg.Distinct := by
  refine ⟨h.topics, ?_⟩
  unfold Config.replayTargets
  rw [List.map_fst_zip hacc.urls_length.le]
  exact h.centres

end Config.Separate

/-! ## Replays -/

theorem replay_startsWith (c s t : String) : Text.startsWith (replayTopic c s t) "replay/" = true := by
  have h : replayTopic c s t = "replay/" ++ ("a/wis2/" ++ c ++ "/" ++ s ++ "/" ++ t) := by
    unfold replayTopic
    rw [← String.toList_inj]
    simp [String.toList_append]
  rw [h]
  exact Text.startsWith_append _ _

/-- The centre and the topic that the handler reads off a replay topic. -/
theorem replayParts_replayTopic {c s : String} (hc : '/' ∉ c.toList) (hs : '/' ∉ s.toList) (t : String) :
    replayParts (replayTopic c s t) = some (c, t) := by
  have hl : Text.split '/' (replayTopic c s t) = ["replay", "a", "wis2", c, s] ++ Text.split '/' t :=
    levels_replayTopic hc hs t
  have hne : 0 < (Text.split '/' t).length := List.length_pos_of_ne_nil (Text.split_ne_nil _ _)
  unfold replayParts
  simp only [hl]
  rw [if_neg (by rw [List.length_append]; simp only [List.length_cons, List.length_nil]; omega)]
  show some (c, Text.join '/' (Text.split '/' t)) = some (c, t)
  rw [Text.join_split]

variable {E : Ctx}

/-- The index of a cell is that of its topic and centre. -/
theorem cell_index (hn : (E.cfg.cells.map Cell.pair).Nodup) {i j : ℕ} {cell cell' : Cell}
    (hi : E.cfg.cells[i]? = some cell) (hj : E.cfg.cells[j]? = some cell')
    (hp : cell'.pair = cell.pair) : j = i := by
  have hi' : (E.cfg.cells.map Cell.pair)[i]? = some cell.pair := by rw [List.getElem?_map, hi]; rfl
  have hj' : (E.cfg.cells.map Cell.pair)[j]? = some cell.pair := by
    rw [List.getElem?_map, hj, Option.map_some, hp]
  obtain ⟨hlt, -⟩ := List.getElem?_eq_some_iff.1 hj'
  exact (List.getElem?_inj hlt hn).1 (hj'.trans hi'.symm)

/-- **A replay is indexed for the cells** of its own centre whose topic selects it. -/
theorem indexesFor_replay (h : E.cfg.Separate) {i : ℕ} {cell : Cell} (hi : E.cfg.cells[i]? = some cell)
    {c t : String} (hc : c ∈ E.cfg.replayCentreIds) {msg : MqttMessage}
    (ht : msg.topic = replayTopic c E.cfg.subscriberId t) {r : ReplayRecord}
    (hr : replayRecord E.L msg = some r) :
    r.centreId = c ∧ r.topic = t ∧ (indexesFor E cell msg = true ↔
      cell.centreId = c ∧ topicMatches E.L cell.topic t = true) := by
  obtain ⟨hcs, hcc⟩ := h.centre_plain c hc
  have hparts := replayParts_replayTopic hcs h.subscriber_plain t
  obtain ⟨hrc, hrt⟩ : r.centreId = c ∧ r.topic = t := by
    unfold replayRecord at hr
    rw [ht, hparts] at hr
    split at hr
    · split at hr
      · rename_i c' t' m v hp hm
        split at hr
        · cases hr
        obtain ⟨τ, -, rfl⟩ := Option.map_eq_some_iff.1 hr
        cases hp
        exact ⟨rfl, rfl⟩
      · cases hr
    · cases hr
  refine ⟨hrc, hrt, ?_⟩
  unfold indexesFor indexedUnder
  rw [hr]
  dsimp only
  rw [hrc, hrt]
  simp only [List.any_eq_true, Bool.and_eq_true, decide_eq_true_eq]
  constructor
  · rintro ⟨P, hP, hm, hk⟩
    obtain ⟨h1, h2⟩ := replayKey_inj hcc (h.centre_plain _ (centre_mem hi)).2 hk
    exact ⟨h1.symm, by rw [← h2]; exact hm⟩
  · rintro ⟨rfl, hm⟩
    exact ⟨cell.topic, (cell_mem hi).1, hm, rfl⟩

/-- **A replay matches the channel of its cell alone**, when the centres that are to replay its
topic are no wildcards. -/
theorem oneChannel_replay (h : E.cfg.Separate) (hacc : E.cfg.Accepted) (hL : ImplementsMqtt E.L)
    {P c t : String} (hP : P ∈ E.cfg.subscriptionTopics) (hPt : topicMatches E.L P t = true)
    (hc : c ∈ E.cfg.replayCentreIds) (hplus : ∀ (j : ℕ) (cell : Cell), E.cfg.cells[j]? = some cell →
      cell.topic = P → cell.centreId ≠ "+") {msg : MqttMessage}
    (ht : msg.topic = replayTopic c E.cfg.subscriberId t) : OneChannel E msg := by
  have hcs := (h.centre_plain c hc).1
  have hn := pairs_nodup (h.distinct hacc)
  intro i cell hi hind
  obtain ⟨r, hr⟩ : ∃ r, replayRecord E.L msg = some r := by
    unfold indexesFor at hind
    cases hr : replayRecord E.L msg with
    | none => rw [hr] at hind; cases hind
    | some r => exact ⟨r, rfl⟩
  obtain ⟨rfl, hm⟩ := (indexesFor_replay h hi hc ht hr).2.2.1 hind
  obtain rfl := h.selects_unique hacc hL (cell_mem hi).1 hP hm hPt
  have hch : ∀ cell' : Cell, E.channel cell' =
      replayTopic cell'.centreId E.cfg.subscriberId cell'.topic := fun _ => expectedChannel_eq _ _
  refine ⟨by rw [hch, ht]; exact h.channelMatches_own hacc hL hP hm _, fun j cell' hj hm' => ?_⟩
  rw [hch, ht] at hm'
  have hP' := (cell_mem hj).1
  obtain ⟨hcc, hpre⟩ := h.channelMatches_levels hL hP' hcs (h.centre_plain _ (centre_mem hj)).1 hm'
  have htop : cell'.topic = cell.topic :=
    h.selects_unique hacc hL hP' hP ((h.selects_iff hacc hL hP' t).2 hpre) hPt
  rcases hcc with hcc | hcc
  · exact cell_index hn hi hj (by unfold Cell.pair; rw [htop, hcc])
  · exact absurd hcc (hplus j cell' hj htop)

end Scgrep
