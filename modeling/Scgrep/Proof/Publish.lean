import Scgrep.Proof.FetchSpec
import Scgrep.Spec.Cycle
import Mathlib.Algebra.BigOperators.Group.List.Basic

/-!
# What a cycle publishes

* `publishAll_received`, `publishAll_fetched`: what the counters gain.
* `publishAll_shows`: the gauges of a label show one of the results published for it.
* `results_of_returns`: when all fetches return there are two results for each cell.
-/

namespace Scgrep

open FloorWindow

variable (cfg : Config)

/-! ## Counters -/

theorem incReceived_fold_fetched (items : List (String × ℕ)) : ∀ m : Metrics,
    (items.foldl (fun m c => incReceived cfg.sensorCentreId c.1 c.2 m) m).messagesFetched =
      m.messagesFetched := by
  induction items with
  | nil => intro m; rfl
  | cons c items ih => intro m; rw [List.foldl_cons, ih]; rfl

theorem publish_fold_received (rs : List CellResult) : ∀ m : Metrics,
    (rs.foldl (fun m r => publish (r.labels cfg) r.result m) m).messagesReceived =
      m.messagesReceived := by
  induction rs with
  | nil => intro m; rfl
  | cons r rs ih => intro m; rw [List.foldl_cons, ih]; rfl

/-- The received counter of a topic gains its entry, when it has one at most. -/
theorem incReceived_fold_received (P : String) (items : List (String × ℕ)) :
    (items.map Prod.fst).Nodup → ∀ m : Metrics,
      (items.foldl (fun m c => incReceived cfg.sensorCentreId c.1 c.2 m) m).messagesReceived
          (cfg.sensorCentreId, P) =
        m.messagesReceived (cfg.sensorCentreId, P) + ((items.lookup P).getD 0 : ℕ) := by
  induction items with
  | nil => intro _ m; simp
  | cons c items ih =>
    intro hn m
    obtain ⟨Q, n⟩ := c
    rw [List.map_cons, List.nodup_cons] at hn
    rw [List.foldl_cons, ih hn.2]
    by_cases h : P = Q
    · subst h
      -- no other entry is that of `P`
      have hno : items.lookup P = none := by
        rw [List.lookup_eq_none_iff]
        intro p hp
        have : p.1 ≠ P := fun h => hn.1 (List.mem_map.2 ⟨p, hp, h⟩)
        simpa using Ne.symm this
      rw [hno]
      simp [incReceived]
    · have hPQ : (P == Q) = false := by simpa using h
      rw [List.lookup_cons, hPQ]
      simp [incReceived, h]

/-- The received counter of a topic gains its entry in the baselines. -/
theorem publishAll_received (d : Dict String ℕ) (rs : List CellResult) (m : Metrics) (P : String) :
    (publishAll cfg d rs m).messagesReceived (cfg.sensorCentreId, P) =
      m.messagesReceived (cfg.sensorCentreId, P) + ((d.get? P).getD 0 : ℕ) := by
  unfold publishAll
  rw [publish_fold_received]
  exact incReceived_fold_received cfg P d.items d.nodup m

/-- The fetched counter of a label gains the counts published under it. -/
theorem publish_fold_fetched (rs : List CellResult) (l : Labels) : ∀ m : Metrics,
    (rs.foldl (fun m r => publish (r.labels cfg) r.result m) m).messagesFetched l =
      m.messagesFetched l +
        (rs.map fun r => if r.labels cfg = l then r.result.messagesFetched else 0).sum := by
  induction rs with
  | nil => intro m; simp
  | cons r rs ih =>
    intro m
    rw [List.foldl_cons, ih, List.map_cons, List.sum_cons]
    by_cases h : r.labels cfg = l
    · rw [if_pos h, ← h]
      simp only [publish, Function.update_self]
      ring
    · rw [if_neg h]
      simp only [publish, Function.update_of_ne (Ne.symm h)]
      ring

theorem publishAll_fetched (d : Dict String ℕ) (rs : List CellResult) (m : Metrics) (l : Labels) :
    (publishAll cfg d rs m).messagesFetched l =
      m.messagesFetched l +
        (rs.map fun r => if r.labels cfg = l then r.result.messagesFetched else 0).sum := by
  unfold publishAll
  rw [publish_fold_fetched, incReceived_fold_fetched]

/-! ## Gauges -/

/-- The gauges of a label show a result. -/
structure Metrics.Shows (m : Metrics) (l : Labels) (r : FetchResult) : Prop where
  testAborted : m.testAborted l = some (flag r.aborted)
  responseInvalidFormat : m.responseInvalidFormat l = some (flag r.invalidFormat)
  responseInvalidNumberMatched :
    r.protocol = .http → m.responseInvalidNumberMatched l = some (flag r.invalidNumberMatched)
  fetchDelay : m.fetchDelay l = some r.fetchDelayMs
  httpResponseCode : m.httpResponseCode l = some (r.httpStatus : ℚ)

theorem publish_shows (l : Labels) (r : FetchResult) (m : Metrics) : (publish l r m).Shows l r := by
  refine ⟨?_, ?_, ?_, ?_, ?_⟩
  · exact Function.update_self ..
  · exact Function.update_self ..
  · intro h; simp only [publish, if_pos h, Function.update_self]
  · exact Function.update_self ..
  · exact Function.update_self ..

/-- Publishing under another label leaves the gauges of a label alone. -/
theorem Metrics.Shows.publish_ne {m : Metrics} {l l' : Labels} {r : FetchResult} (h : m.Shows l r)
    (hl : l ≠ l') (r' : FetchResult) : (publish l' r' m).Shows l r := by
  refine ⟨?_, ?_, ?_, ?_, ?_⟩
  · simp only [publish, Function.update_of_ne hl, h.testAborted]
  · simp only [publish, Function.update_of_ne hl, h.responseInvalidFormat]
  · intro hp
    simp only [publish]
    split
    · rw [Function.update_of_ne hl, h.responseInvalidNumberMatched hp]
    · exact h.responseInvalidNumberMatched hp
  · simp only [publish, Function.update_of_ne hl, h.fetchDelay]
  · simp only [publish, Function.update_of_ne hl, h.httpResponseCode]

/-- **The gauges of a label show one of the results published for it**: the last one. -/
theorem publishAll_shows (d : Dict String ℕ) (rs : List CellResult) (m : Metrics) {l : Labels}
    (hl : ∃ r ∈ rs, r.labels cfg = l) :
    ∃ r ∈ rs, r.labels cfg = l ∧ (publishAll cfg d rs m).Shows l r.result := by
  unfold publishAll
  generalize d.items.foldl (fun m c => incReceived cfg.sensorCentreId c.1 c.2 m) m = m
  induction rs using List.reverseRecOn with
  | nil => obtain ⟨r, hr, -⟩ := hl; cases hr
  | append_singleton rs r ih =>
    rw [List.foldl_append, List.foldl_cons, List.foldl_nil]
    by_cases h : r.labels cfg = l
    · refine ⟨r, List.mem_append_right _ (by simp), h, ?_⟩
      rw [h]; exact publish_shows l _ _
    · obtain ⟨r', hr', hl'⟩ := hl
      have hr'' : r' ∈ rs := by
        rcases List.mem_append.1 hr' with h' | h'
        · exact h'
        · rw [List.mem_singleton] at h'
          subst h'; exact absurd hl' h
      obtain ⟨s, hs, hsl, hshow⟩ := ih ⟨r', hr'', hl'⟩
      exact ⟨s, List.mem_append_left _ hs, hsl, hshow.publish_ne (Ne.symm h) _⟩

/-! ## Results -/

theorem recount_protocol (W : Window) (v : View) (cell : Cell) (r : FetchResult) :
    (recount W v cell r).protocol = r.protocol := by
  unfold recount
  split
  · rfl
  · split <;> rfl

/-- The outcomes of a cycle are those of the two fetches of each cell, for the given calls,
broker authorities and behaviour of the outside. -/
structure CycleEnv.FromFetches (L : Lib) (E : CycleEnv) (call : Cell → FetchCall) (auth : List String)
    (σ : ℕ → SyncScript) (α : ℕ → AsyncScript) : Prop where
  sync : ∀ i cell, cfg.cells[i]? = some cell → E.sync i = syncFetch L (call cell) (σ i)
  async : ∀ i cell, cfg.cells[i]? = some cell →
    E.async i = asyncFetch L (call cell) cfg.subscriberId auth
      (((baselineDict (E.counts cfg)).get? cell.topic).getD 0) (numberMatchedFrom (E.sync i)) (α i)

/-- All fetches of the cycle return. -/
def CycleEnv.Returns (E : CycleEnv) : Prop :=
  ∀ i cell, cfg.cells[i]? = some cell → (∃ r, E.sync i = .ok r) ∧ ∃ r, E.async i = .ok r

/-- Every outcome of the cycle is one of its protocol. -/
def CycleEnv.Proper (E : CycleEnv) : Prop :=
  ∀ i cell, cfg.cells[i]? = some cell → OutcomeOf .http (E.sync i) ∧ OutcomeOf .mqtt (E.async i)

variable {cfg}

theorem CycleEnv.FromFetches.proper {L : Lib} {E : CycleEnv} {call : Cell → FetchCall}
    {auth : List String} {σ : ℕ → SyncScript} {α : ℕ → AsyncScript}
    (h : E.FromFetches cfg L call auth σ α) : E.Proper cfg := by
  intro i cell hi
  rw [h.sync i cell hi, h.async i cell hi]
  exact ⟨syncFetch_result _ _, asyncFetch_result _ _ _ _ _ _⟩

theorem mem_cells_zipIdx {cell : Cell} {i : ℕ} (h : (cell, i) ∈ cfg.cells.zipIdx) :
    cfg.cells[i]? = some cell := List.mem_zipIdx_iff_getElem?.1 h

/-- A cell pairs a configured topic with a configured centre. -/
theorem cell_mem {i : ℕ} {cell : Cell} (hi : cfg.cells[i]? = some cell) :
    cell.topic ∈ cfg.subscriptionTopics ∧ (cell.centreId, cell.replayUrl) ∈ cfg.replayTargets := by
  have hcell := List.mem_of_getElem? hi
  unfold Config.cells at hcell
  obtain ⟨P, hP, hc⟩ := List.mem_flatMap.1 hcell
  obtain ⟨t, ht, rfl⟩ := List.mem_map.1 hc
  exact ⟨hP, ht⟩

/-- **Two results for each cell**, when all fetches return. -/
theorem results_of_returns {E : CycleEnv} (hp : E.Proper cfg) (hr : E.Returns cfg) :
    (E.results cfg).map (fun r => (r.cell, r.result.protocol)) =
      cfg.cells.flatMap fun cell => [(cell, Protocol.http), (cell, Protocol.mqtt)] := by
  unfold CycleEnv.results
  rw [List.map_flatMap]
  have key : ∀ x ∈ cfg.cells.zipIdx,
      List.map (fun r : CellResult => (r.cell, r.result.protocol))
          (collect (cycleWindow cfg E.now) (E.syncRecount x.2) x.1 (E.sync x.2) ++
            collect (cycleWindow cfg E.now) (E.asyncRecount x.2) x.1 (E.async x.2)) =
        [(x.1, Protocol.http), (x.1, Protocol.mqtt)] := by
    rintro ⟨cell, i⟩ hx
    have hi := mem_cells_zipIdx hx
    obtain ⟨⟨r, hs⟩, r', ha⟩ := hr i cell hi
    have h1 := (hp i cell hi).1 r hs
    have h2 := (hp i cell hi).2 r' ha
    simp only [hs, ha, collect, List.map_cons, List.map_nil, recount_protocol, h1.1,
      h2.1, List.singleton_append]
  rw [List.flatMap_congr key, List.flatMap_def, List.flatMap_def]
  congr 1
  conv_rhs => rw [← List.zipIdx_map_fst 0 cfg.cells]
  rw [List.map_map]
  rfl

end Scgrep
