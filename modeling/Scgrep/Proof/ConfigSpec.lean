import Scgrep.Spec.Tables

/-!
# Accepted configurations

`fromEnv_spec`: what `Config.from_env` has checked when it returns.
-/

namespace Scgrep

/-- What holds of every configuration that `from_env` returns. -/
structure Config.Accepted (cfg : Config) : Prop where
  testInterval_pos : 0 < cfg.testInterval
  timeLag_nonneg : 0 ≤ cfg.timeLag
  topics_ne : cfg.subscriptionTopics ≠ []
  topic_ne : ∀ P ∈ cfg.subscriptionTopics, P ≠ ""
  topic_strip : ∀ P ∈ cfg.subscriptionTopics, Text.strip P = P
  topic_plain : ∀ P ∈ cfg.subscriptionTopics, '+' ∉ P.toList ∧ '*' ∉ P.toList
  topic_comma : ∀ P ∈ cfg.subscriptionTopics, ',' ∉ P.toList
  centres_ne : cfg.replayCentreIds ≠ []
  urls_length : cfg.replayCentreIds.length = cfg.replayUrls.length

namespace Config.Accepted

variable {cfg : Config}

theorem redisExpiry_nonneg (h : cfg.Accepted) : 0 ≤ cfg.redisExpiry := by
  have h1 := h.testInterval_pos
  have h2 := h.timeLag_nonneg
  unfold Config.redisExpiry
  omega

theorem targets_ne (h : cfg.Accepted) : cfg.replayTargets ≠ [] := by
  have h1 := h.centres_ne
  have h2 := h.urls_length
  unfold Config.replayTargets
  intro h0
  rcases List.zip_eq_nil_iff.1 h0 with h3 | h3
  · exact h1 h3
  · rw [h3, List.length_nil, List.length_eq_zero_iff] at h2; exact h1 h2

end Config.Accepted

theorem mem_splitList {value x : String} (h : x ∈ splitList value) :
    x ≠ "" ∧ Text.strip x = x ∧ ',' ∉ x.toList := by
  unfold splitList at h
  rw [List.mem_filter, List.mem_map] at h
  obtain ⟨⟨y, hy, rfl⟩, hne⟩ := h
  refine ⟨by simpa using hne, Text.strip_strip y, fun hc => ?_⟩
  exact Text.not_mem_of_mem_split hy (Text.mem_of_mem_strip hc)

section Checks

variable {ε α β : Type}

theorem bind_eq_ok {x : Except ε α} {f : α → Except ε β} {v : β} :
    (x >>= f) = .ok v ↔ ∃ a, x = .ok a ∧ f a = .ok v := by
  cases x with
  | error e => exact ⟨fun h => (by cases h), fun ⟨a, h, _⟩ => (by cases h)⟩
  | ok a => exact ⟨fun h => ⟨a, rfl, h⟩, fun ⟨b, h, hb⟩ => (by cases h; exact hb)⟩

/-- A check that throws has passed when the function returns. -/
theorem check_eq_ok {c : Prop} [Decidable c] {e : ε} {f : α → Except ε β} {x : Except ε β} {v : β} :
    (if c then (throw e >>= f) else x) = .ok v ↔ ¬ c ∧ x = .ok v := by
  by_cases h : c
  · rw [if_pos h]
    exact ⟨fun h' => (by cases h'), fun h' => absurd h h'.1⟩
  · rw [if_neg h]
    exact ⟨fun h' => ⟨h, h'⟩, fun h' => h'.2⟩

end Checks

/-- **What `from_env` has checked** when it returns. -/
theorem fromEnv_spec {L : Lib} {uuid : String} {env : String → Option String} {cfg : Config}
    (h : Config.fromEnv L uuid env = .ok cfg) : cfg.Accepted := by
  unfold Config.fromEnv at h
  simp only [check_eq_ok, bind_eq_ok] at h
  obtain ⟨-, h1, h2, -, _, -, h3, h4, lag, -, int, -, _, -, _, -, _, -, h5, h6, h⟩ := h
  have hsplit : ∀ P ∈ splitList ((env "SUBSCRIPTION_TOPICS").getD ""), _ := fun P hP => mem_splitList hP
  have hplain : ∀ P ∈ splitList ((env "SUBSCRIPTION_TOPICS").getD ""), '+' ∉ P.toList ∧ '*' ∉ P.toList := by
    intro P hP
    simp only [ne_eq, not_not, List.filter_eq_nil_iff] at h2
    simpa [List.contains_iff_mem] using h2 P hP
  -- the replay brokers are read last, or are those of the baseline
  split at h
  all_goals
    obtain ⟨rb, -, h⟩ := bind_eq_ok.1 h
    obtain rfl := Except.ok.inj h
    exact ⟨by simpa using h5, by simpa using h6, h1, fun P hP => (hsplit P hP).1,
      fun P hP => (hsplit P hP).2.1, hplain, fun P hP => (hsplit P hP).2.2, h4, by simpa using h3⟩

/-- The topics and the centres are the entries of their variables. -/
theorem fromEnv_lists {L : Lib} {uuid : String} {env : String → Option String} {cfg : Config}
    (h : Config.fromEnv L uuid env = .ok cfg) :
    cfg.subscriptionTopics = splitList ((env "SUBSCRIPTION_TOPICS").getD "") ∧
      cfg.replayCentreIds =
        splitList ((env "GLOBAL_REPLAY_CENTRE_IDS").getD "ca-eccc-msc-global-replay") := by
  unfold Config.fromEnv at h
  simp only [check_eq_ok, bind_eq_ok] at h
  obtain ⟨-, -, -, -, _, -, -, -, _, -, _, -, _, -, _, -, _, -, -, -, h⟩ := h
  split at h
  all_goals
    obtain ⟨_, -, h⟩ := bind_eq_ok.1 h
    obtain rfl := Except.ok.inj h
    exact ⟨rfl, rfl⟩

end Scgrep
