import Scgrep.Proof.ConfigSpec
import Scgrep.Proof.Refresh

/-!
# What the counters hold after a run of cycles

Baselines are collected in a dictionary, results in a list. So a topic that is
configured twice is added once to `messages_received` and twice to
`messages_fetched`, and a centre that is configured twice counts double too.

* `runCycle_received`, `runCycle_fetched`: what one cycle adds.
* `accumulates_iff`: **the counters are the sums of the counts, over every run in which
  all fetches return, iff no topic and no centre is configured twice.**
-/

namespace Scgrep

open FloorWindow

variable {cfg : Config}

/-- The `k`-th baseline count of the cycle, of topic `P`. -/
def CycleEnv.baselineAt (cfg : Config) (E : CycleEnv) (k : ℕ) (P : String) : ℕ :=
  countMessages (E.baseline k).now (E.baseline k).db P (cycleWindow cfg E.now).start
    (cycleWindow cfg E.now).stop

/-- The topic and the centre of a cell. -/
def Cell.pair (cell : Cell) : String × String := (cell.topic, cell.centreId)

/-- The count of a protocol for a cell. -/
def countOf (W : Window) (v : View) (cell : Cell) : Protocol → ℕ
  | .http => countSyncMessages v.now v.db cell.centreId cell.topic W.start W.stop
  | .mqtt => countReplayMessages v.now v.db cell.centreId cell.topic W.start W.stop

/-- The outcome of the `i`-th cell for a protocol. -/
def CycleEnv.outcome (E : CycleEnv) (i : ℕ) : Protocol → Outcome
  | .http => E.sync i
  | .mqtt => E.async i

/-- The store at the re-count of the `i`-th cell for a protocol. -/
def CycleEnv.recountView (E : CycleEnv) (i : ℕ) : Protocol → View
  | .http => E.syncRecount i
  | .mqtt => E.asyncRecount i

/-- The re-count of the `i`-th cell for a protocol, 0 when that fetch was aborted. -/
def CycleEnv.recountAt (cfg : Config) (E : CycleEnv) (i : ℕ) (cell : Cell) (p : Protocol) : ℕ :=
  match E.outcome i p with
  | .ok r => if r.aborted then 0 else countOf (cycleWindow cfg E.now) (E.recountView i p) cell p
  | .error _ => 0

/-- The counters are the sums of the counts of the cycles. -/
def Accumulates (cfg : Config) (Es : List CycleEnv) : Prop :=
  (∀ k P, cfg.subscriptionTopics[k]? = some P →
    (runCycles cfg Es Metrics.new).messagesReceived (cfg.sensorCentreId, P) =
      (Es.map fun E => (E.baselineAt cfg k P : ℤ)).sum) ∧
  ∀ i cell p, cfg.cells[i]? = some cell →
    (runCycles cfg Es Metrics.new).messagesFetched (cell.labels cfg p) =
      (Es.map fun E => (E.recountAt cfg i cell p : ℤ)).sum

/-- No topic and no centre is configured twice. -/
def Config.Distinct (cfg : Config) : Prop :=
  cfg.subscriptionTopics.Nodup ∧ (cfg.replayTargets.map Prod.fst).Nodup

/-! ## One cycle -/

theorem lookup_baselineDict (counts : List (String × ℕ)) (hn : (counts.map Prod.fst).Nodup)
    {P : String} {n : ℕ} (h : (P, n) ∈ counts) : (baselineDict counts).get? P = some n := by
  unfold baselineDict
  exact Dict.get?_foldl_set counts Dict.empty hn h

/-- **What a cycle adds to `messages_received`**, when no topic is configured twice. -/
theorem runCycle_received (hn : cfg.subscriptionTopics.Nodup) (E : CycleEnv) (m : Metrics) {k : ℕ}
    {P : String} (hk : cfg.subscriptionTopics[k]? = some P) :
    (runCycle cfg E m).messagesReceived (cfg.sensorCentreId, P) =
      m.messagesReceived (cfg.sensorCentreId, P) + E.baselineAt cfg k P := by
  have hfst : (E.counts cfg).map Prod.fst = cfg.subscriptionTopics := by
    unfold CycleEnv.counts
    rw [List.map_map]
    exact List.zipIdx_map_fst 0 cfg.subscriptionTopics
  have hmem : (P, E.baselineAt cfg k P) ∈ E.counts cfg := by
    unfold CycleEnv.counts
    exact List.mem_map.2 ⟨(P, k), List.mem_zipIdx_iff_getElem?.2 hk, rfl⟩
  unfold runCycle
  rw [publishAll_received, lookup_baselineDict _ (by rw [hfst]; exact hn) hmem]
  rfl

/-- A re-counted result of a protocol. -/
theorem recount_fetched {p : Protocol} {r : FetchResult} (h : ResultOf p r) (W : Window) (v : View)
    (cell : Cell) :
    (recount W v cell r).messagesFetched = ((if r.aborted then 0 else countOf W v cell p : ℕ) : ℤ) := by
  obtain ⟨hp, ha⟩ := h
  unfold recount
  by_cases hab : r.aborted = true
  · rw [if_neg (by rw [hab]; simp), if_neg (by rw [hab]; simp), if_pos hab]
    exact ha hab
  · have hab' : r.aborted = false := by simpa using hab
    cases p with
    | http => rw [if_neg (by rw [hp]; simp), if_pos ⟨hp, hab'⟩, if_neg hab]; rfl
    | mqtt => rw [if_pos ⟨hp, hab'⟩, if_neg hab]; rfl

/-- What the results of one fetch add to a label. -/
theorem sum_collect (cfg : Config) {E : CycleEnv} {i : ℕ} {p : Protocol} (ho : OutcomeOf p (E.outcome i p))
    (cell : Cell) (l : Labels) :
    ((collect (cycleWindow cfg E.now) (E.recountView i p) cell (E.outcome i p)).map
        fun r => if r.labels cfg = l then r.result.messagesFetched else 0).sum =
      if cell.labels cfg p = l then (E.recountAt cfg i cell p : ℤ) else 0 := by
  unfold CycleEnv.recountAt
  cases hout : E.outcome i p with
  | error e => simp [collect]
  | ok r =>
    have hr := ho r hout
    have hlab : CellResult.labels cfg ⟨cell, recount (cycleWindow cfg E.now) (E.recountView i p) cell r⟩ =
        cell.labels cfg p := by
      unfold CellResult.labels Cell.labels
      rw [recount_protocol, hr.1]
    simp only [collect, List.map_cons, List.map_nil, List.sum_cons, List.sum_nil, add_zero, hlab,
      recount_fetched hr]

/-- **What a cycle adds to `messages_fetched`**: the re-counts of all cells of that topic and centre. -/
theorem runCycle_fetched {E : CycleEnv} (hp : E.Proper cfg) (m : Metrics) (cell : Cell) (p : Protocol) :
    (runCycle cfg E m).messagesFetched (cell.labels cfg p) = m.messagesFetched (cell.labels cfg p) +
      (cfg.cells.zipIdx.map fun x => if x.1.pair = cell.pair then
        (E.recountAt cfg x.2 x.1 p : ℤ) else 0).sum := by
  unfold runCycle
  rw [publishAll_fetched]
  congr 1
  unfold CycleEnv.results
  rw [List.map_flatMap, List.flatMap_def, List.sum_flatten, List.map_map]
  congr 1
  apply List.map_congr_left
  rintro ⟨x, i⟩ hx
  obtain ⟨hs, ha⟩ := hp i x (mem_cells_zipIdx hx)
  have h1 := sum_collect cfg (i := i) (p := .http) hs x (cell.labels cfg p)
  have h2 := sum_collect cfg (i := i) (p := .mqtt) ha x (cell.labels cfg p)
  simp only [CycleEnv.outcome, CycleEnv.recountView] at h1 h2
  simp only [Function.comp_apply, List.map_append, List.sum_append, h1, h2]
  have hlab : ∀ q, x.labels cfg q = cell.labels cfg p ↔
      q = p ∧ x.pair = cell.pair := by
    intro q
    unfold Cell.labels Cell.pair
    simp only [Labels.mk.injEq, Prod.mk.injEq, true_and]
    tauto
  simp only [hlab]
  cases p <;> simp

/-! ## Runs of cycles -/

/-- With distinct keys one element of the list has a given key. -/
theorem sum_of_nodup {α β : Type} [DecidableEq β] (key : α → β) (g : α → ℤ) (l : List α)
    (hn : (l.map key).Nodup) {x : α} (hx : x ∈ l) :
    (l.map fun y => if key y = key x then g y else 0).sum = g x := by
  have zero : ∀ l : List α, key x ∉ l.map key →
      (l.map fun y => if key y = key x then g y else 0).sum = 0 := by
    intro l
    induction l with
    | nil => intro _; rfl
    | cons y l ih =>
      intro h
      rw [List.map_cons, List.mem_cons, not_or] at h
      rw [List.map_cons, List.sum_cons, if_neg (Ne.symm h.1), ih h.2, add_zero]
  induction l with
  | nil => cases hx
  | cons y l ih =>
    rw [List.map_cons, List.nodup_cons] at hn
    rw [List.map_cons, List.sum_cons]
    rcases List.mem_cons.1 hx with rfl | hx
    · rw [if_pos rfl, zero l hn.1, add_zero]
    · have hne : key y ≠ key x := fun h => hn.1 (by rw [h]; exact List.mem_map_of_mem hx)
      rw [if_neg hne, ih hn.2 hx, zero_add]

theorem pairs_eq (cfg : Config) : cfg.cells.map Cell.pair =
    cfg.subscriptionTopics.flatMap fun P => (cfg.replayTargets.map Prod.fst).map (Prod.mk P) := by
  unfold Config.cells
  rw [List.map_flatMap]
  simp only [List.map_map]
  rfl

/-- Every pair is submitted once iff no topic and no centre is configured twice. -/
theorem pairs_nodup_iff (ht : cfg.subscriptionTopics ≠ []) (hc : cfg.replayTargets ≠ []) :
    (cfg.cells.map Cell.pair).Nodup ↔ cfg.Distinct := by
  rw [pairs_eq, List.nodup_flatMap]
  unfold Config.Distinct
  have hinj : ∀ P : String, Function.Injective (Prod.mk P : String → String × String) :=
    fun P a b h => (Prod.mk.inj h).2
  obtain ⟨P₀, hP₀⟩ := List.exists_mem_of_ne_nil _ ht
  obtain ⟨t₀, ht₀⟩ := List.exists_mem_of_ne_nil _ hc
  constructor
  · rintro ⟨h1, h2⟩
    refine ⟨h2.imp ?_, (h1 P₀ hP₀).of_map _⟩
    rintro P Q hd rfl
    have hm : (P, t₀.1) ∈ (cfg.replayTargets.map Prod.fst).map (Prod.mk P) :=
      List.mem_map_of_mem (List.mem_map_of_mem ht₀)
    exact hd hm hm
  · rintro ⟨h1, h2⟩
    refine ⟨fun P _ => h2.map (hinj P), h1.imp ?_⟩
    rintro P Q hne x hx hx'
    obtain ⟨a, -, rfl⟩ := List.mem_map.1 hx
    obtain ⟨b, -, hb⟩ := List.mem_map.1 hx'
    exact hne (Prod.mk.inj hb).1.symm

theorem pairs_zipIdx (cfg : Config) :
    (cfg.cells.zipIdx.map fun x => x.1.pair) = cfg.cells.map Cell.pair := by
  conv_rhs => rw [← List.zipIdx_map_fst 0 cfg.cells]
  rw [List.map_map]
  rfl

/-- With every pair submitted once, a cycle adds to a series the re-count of its cell. -/
theorem runCycle_fetched_cell (hn : (cfg.cells.map Cell.pair).Nodup) {E : CycleEnv}
    (hE : E.Proper cfg) (m : Metrics) {i : ℕ} {cell : Cell} (p : Protocol)
    (hi : cfg.cells[i]? = some cell) :
    (runCycle cfg E m).messagesFetched (cell.labels cfg p) =
      m.messagesFetched (cell.labels cfg p) + E.recountAt cfg i cell p := by
  rw [runCycle_fetched hE]
  congr 1
  have hn' : (cfg.cells.zipIdx.map fun x => x.1.pair).Nodup := by
    rw [pairs_zipIdx]
    exact hn
  have hx : (cell, i) ∈ cfg.cells.zipIdx := List.mem_zipIdx_iff_getElem?.2 hi
  exact sum_of_nodup (fun x : Cell × ℕ => x.1.pair) (fun x => (E.recountAt cfg x.2 x.1 p : ℤ)) _ hn' hx

/-- A counter that every cycle of a run increases holds the sum after the run. -/
theorem runCycles_sum (value : Metrics → ℤ) (inc : CycleEnv → ℤ) (Es : List CycleEnv) :
    (∀ E ∈ Es, ∀ m, value (runCycle cfg E m) = value m + inc E) →
      ∀ m, value (runCycles cfg Es m) = value m + (Es.map inc).sum := by
  induction Es with
  | nil => intro _ m; exact (add_zero _).symm
  | cons E Es ih =>
    intro h m
    have hE := h E List.mem_cons_self m
    have hrest := ih (fun E' hE' => h E' (List.mem_cons_of_mem _ hE')) (runCycle cfg E m)
    rw [List.map_cons, List.sum_cons, ← add_assoc, ← hE]
    exact hrest

/-- What a run of cycles adds to `messages_received`. -/
theorem runCycles_received (hn : cfg.subscriptionTopics.Nodup) {k : ℕ} {P : String}
    (hk : cfg.subscriptionTopics[k]? = some P) (Es : List CycleEnv) (m : Metrics) :
    (runCycles cfg Es m).messagesReceived (cfg.sensorCentreId, P) =
      m.messagesReceived (cfg.sensorCentreId, P) +
        (Es.map fun E => (E.baselineAt cfg k P : ℤ)).sum :=
  runCycles_sum (fun m => m.messagesReceived (cfg.sensorCentreId, P)) _ Es
    (fun E _ m => runCycle_received hn E m hk) m

/-- What it adds to `messages_fetched`. -/
theorem runCycles_fetched (hn : (cfg.cells.map Cell.pair).Nodup) {i : ℕ} {cell : Cell}
    (hi : cfg.cells[i]? = some cell) (p : Protocol) (Es : List CycleEnv)
    (hp : ∀ E ∈ Es, E.Proper cfg) (m : Metrics) :
    (runCycles cfg Es m).messagesFetched (cell.labels cfg p) =
      m.messagesFetched (cell.labels cfg p) +
        (Es.map fun E => (E.recountAt cfg i cell p : ℤ)).sum :=
  runCycles_sum (fun m => m.messagesFetched (cell.labels cfg p)) _ Es
    (fun E hE m => runCycle_fetched_cell hn (hp E hE) m p hi) m

/-- **A run of cycles adds up every count** when no topic and no centre is configured twice. -/
theorem accumulates_of_distinct (ht : cfg.subscriptionTopics ≠ []) (hc : cfg.replayTargets ≠ [])
    (hd : cfg.Distinct) (Es : List CycleEnv) (hp : ∀ E ∈ Es, E.Proper cfg) : Accumulates cfg Es := by
  have hn := (pairs_nodup_iff ht hc).2 hd
  constructor
  · intro k P hk
    exact (runCycles_received hd.1 hk Es Metrics.new).trans (zero_add _)
  · intro i cell p hi
    exact (runCycles_fetched hn hi p Es hp Metrics.new).trans (zero_add _)

/-! ## When a pair is submitted twice -/

/-- A store in which every set holds one message at the given time. -/
def fullView (t : ℤ) : View := ⟨fun _ => some ⟨.zset (Dict.empty.set "id" (t : ℚ)), none⟩, t⟩

theorem zcount_fullView (hint : 0 < cfg.testInterval) (t now : ℚ) (k : String) :
    Redis.zcount now ((cycleWindow cfg t).start : ℚ) ((cycleWindow cfg t).stop : ℚ)
      ((fullView (cycleWindow cfg t).start).db k) = 1 := by
  have hlen := window_length cfg.timeLag cfg.testInterval t
  have hlt : ((cycleWindow cfg t).start : ℚ) < ((cycleWindow cfg t).stop : ℚ) := by
    have : (cycleWindow cfg t).start < (cycleWindow cfg t).stop := by unfold cycleWindow; omega
    exact_mod_cast this
  have hz : Redis.zset now ((fullView (cycleWindow cfg t).start).db k) =
      Dict.empty.set "id" ((cycleWindow cfg t).start : ℚ) := rfl
  unfold Redis.zcount Dict.count
  rw [hz]
  simp [Dict.set, Dict.empty, hlt]

/-- When every baseline is one, so is that of every topic. -/
theorem lookup_ones {counts : List (String × ℕ)} {P : String} (hone : ∀ c ∈ counts, c.2 = 1)
    (hmem : ∃ c ∈ counts, c.1 = P) : (baselineDict counts).get? P = some 1 := by
  unfold baselineDict
  induction counts using List.reverseRecOn with
  | nil => obtain ⟨c, hc, -⟩ := hmem; cases hc
  | append_singleton counts c ih =>
    rw [List.foldl_append, List.foldl_cons, List.foldl_nil, Dict.get?_set]
    by_cases h : P = c.1
    · rw [if_pos h, hone c (List.mem_append_right _ (by simp))]
    · rw [if_neg h]
      refine ih (fun x hx => hone x (List.mem_append_left _ hx)) ?_
      obtain ⟨x, hx, hxP⟩ := hmem
      rcases List.mem_append.1 hx with hx | hx
      · exact ⟨x, hx, hxP⟩
      · rw [List.mem_singleton] at hx; subst hx; exact absurd hxP.symm h

/-- A cycle of the configuration in which the services answer with no JSON at all, over a store
with one message in every set. -/
def fullCycle (L : Lib) (cfg : Config) (text : String) (call : Cell → FetchCall) : CycleEnv where
  now := 0
  baseline _ := fullView (cycleWindow cfg 0).start
  sync i := match cfg.cells[i]? with
    | some cell => syncFetch L (call cell) ⟨0, 0, fun _ => 0, fun _ => .answer 200 text⟩
    | none => .error .valueError
  async i := match cfg.cells[i]? with
    | some cell => asyncFetch L (call cell) cfg.subscriberId [] 1 none
        ⟨0, 0, .fails, ReplayCounter.new.record 0⟩
    | none => .error .valueError
  syncRecount _ := fullView (cycleWindow cfg 0).start
  asyncRecount _ := fullView (cycleWindow cfg 0).start

theorem fullCycle_sync {L : Lib} {text : String} (hl : L.loads text = .valueError)
    (call : Cell → FetchCall) {i : ℕ} {cell : Cell} (hi : cfg.cells[i]? = some cell) :
    (fullCycle L cfg text call).sync i = invalidFirst 0 200 := by
  simp only [fullCycle, hi, syncFetch, syncFirst, hl]
  norm_num

theorem fullCycle_count (L : Lib) (hint : 0 < cfg.testInterval) (text : String)
    (call : Cell → FetchCall) {P : String} (hP : P ∈ cfg.subscriptionTopics) :
    (baselineDict ((fullCycle L cfg text call).counts cfg)).get? P = some 1 := by
  have hone : ∀ c ∈ (fullCycle L cfg text call).counts cfg, c.2 = 1 := by
    intro c hc
    obtain ⟨x, -, rfl⟩ := List.mem_map.1 hc
    exact zcount_fullView hint 0 (fullView (cycleWindow cfg 0).start).now (topicKey x.1)
  have hmem : ∃ c ∈ (fullCycle L cfg text call).counts cfg, c.1 = P := by
    obtain ⟨k, hk⟩ := List.getElem?_of_mem hP
    exact ⟨_, List.mem_map.2 ⟨(P, k), List.mem_zipIdx_iff_getElem?.2 hk, rfl⟩, rfl⟩
  exact lookup_ones hone hmem

/-- When each of them is one, a sum over the elements with a given key is their number. -/
theorem sum_of_ones {α β : Type} [BEq β] [LawfulBEq β] [DecidableEq β] (key : α → β) (g : α → ℤ)
    (x : β) (l : List α) (hg : ∀ y ∈ l, g y = 1) :
    (l.map fun y => if key y = x then g y else 0).sum = ((l.map key).count x : ℤ) := by
  induction l with
  | nil => rfl
  | cons y l ih =>
    rw [List.map_cons, List.sum_cons, ih fun z hz => hg z (List.mem_cons_of_mem _ hz),
      List.map_cons, List.count_cons]
    by_cases hy : key y = x
    · rw [if_pos hy, hg y List.mem_cons_self]
      simp [hy, add_comm]
    · rw [if_neg hy]
      simp [hy]

/-- In such a cycle the counters are the sums only if every pair is submitted once. -/
theorem nodup_of_accumulates {L : Lib} {text : String} (hl : L.loads text = .valueError)
    (hint : 0 < cfg.testInterval) (call : Cell → FetchCall)
    (hp : (fullCycle L cfg text call).Proper cfg)
    (h : Accumulates cfg [fullCycle L cfg text call]) : (cfg.cells.map Cell.pair).Nodup := by
  have hone : ∀ i cell, cfg.cells[i]? = some cell →
      (fullCycle L cfg text call).recountAt cfg i cell .http = 1 := by
    intro i cell hi
    unfold CycleEnv.recountAt CycleEnv.outcome
    rw [fullCycle_sync hl call hi]
    exact zcount_fullView hint 0 (fullView (cycleWindow cfg 0).start).now
      (syncKey cell.centreId cell.topic)
  rw [List.nodup_iff_count_eq_one]
  intro x hx
  obtain ⟨cell, hcell, rfl⟩ := List.mem_map.1 hx
  obtain ⟨i, hi⟩ := List.getElem?_of_mem hcell
  have hsum := h.2 i cell .http hi
  have hrun : runCycles cfg [fullCycle L cfg text call] Metrics.new =
      runCycle cfg (fullCycle L cfg text call) Metrics.new := rfl
  rw [hrun, runCycle_fetched hp, List.map_singleton, List.sum_singleton, hone i cell hi] at hsum
  have hg : ∀ y ∈ cfg.cells.zipIdx,
      ((fullCycle L cfg text call).recountAt cfg y.2 y.1 .http : ℤ) = 1 := by
    intro y hy
    rw [hone _ _ (List.mem_zipIdx_iff_getElem?.1 hy)]
    rfl
  rw [sum_of_ones (fun y : Cell × ℕ => y.1.pair) _ cell.pair _ hg, pairs_zipIdx] at hsum
  simpa [Metrics.new] using hsum

/-- **Counters accumulate exactly** in every run in which all fetches return, iff no topic and
no centre is configured twice. -/
theorem accumulates_iff {L : Lib} (hjson : ∃ text, L.loads text = .valueError) {uuid : String}
    {env : String → Option String} (hcfg : Config.fromEnv L uuid env = .ok cfg) :
    (∀ Es : List CycleEnv,
      (∀ E ∈ Es, (∃ call auth σ α, E.FromFetches cfg L call auth σ α) ∧ E.Returns cfg) →
        Accumulates cfg Es) ↔ cfg.Distinct := by
  have hacc := fromEnv_spec hcfg
  constructor
  · intro h
    obtain ⟨text, hl⟩ := hjson
    have hfrom : (fullCycle L cfg text sampleCall).FromFetches cfg L sampleCall []
        (fun _ => ⟨0, 0, fun _ => 0, fun _ => .answer 200 text⟩)
        (fun _ => ⟨0, 0, .fails, ReplayCounter.new.record 0⟩) := by
      refine ⟨fun i cell hi => by simp only [fullCycle, hi], fun i cell hi => ?_⟩
      have hP : cell.topic ∈ cfg.subscriptionTopics := (cell_mem hi).1
      rw [fullCycle_count L hacc.testInterval_pos text sampleCall hP]
      rw [fullCycle_sync hl sampleCall hi]
      simp only [fullCycle, hi]
      rfl
    refine (pairs_nodup_iff hacc.topics_ne hacc.targets_ne).1
      (nodup_of_accumulates hl hacc.testInterval_pos sampleCall hfrom.proper (h _ ?_))
    intro E hE
    rw [List.mem_singleton] at hE
    subst hE
    refine ⟨⟨_, _, _, _, hfrom⟩, fun i cell hi => ?_⟩
    rw [fullCycle_sync hl sampleCall hi, hfrom.async i cell hi]
    exact ⟨⟨_, rfl⟩, (asyncFetch_returns_iff _ _ _ _ _ _).2 fun s t h => by cases h⟩
  · intro hd Es hEs
    refine accumulates_of_distinct hacc.topics_ne hacc.targets_ne hd Es fun E hE => ?_
    obtain ⟨⟨call, auth, σ, α, hfrom⟩, -⟩ := hEs E hE
    exact hfrom.proper

/-- One topic, configured twice. -/
def twiceConfig : Config := sampleConfig ["cache/a/wis2/#", "cache/a/wis2/#"] ["ca-eccc"] ["https://x"]

/-- It is received once and fetched twice. -/
theorem counted_twice :
    Config.fromEnv sampleTables.lib "sub"
        (sampleEnv "cache/a/wis2/#,cache/a/wis2/#" "ca-eccc" "https://x") = .ok twiceConfig ∧
      (fullCycle sampleTables.lib twiceConfig "" sampleCall).recountAt twiceConfig 0
        ⟨"cache/a/wis2/#", "ca-eccc", "https://x"⟩ .http = 1 ∧
      (runCycles twiceConfig [fullCycle sampleTables.lib twiceConfig "" sampleCall]
        Metrics.new).messagesReceived ("int-wmo", "cache/a/wis2/#") = 1 ∧
      (runCycles twiceConfig [fullCycle sampleTables.lib twiceConfig "" sampleCall]
        Metrics.new).messagesFetched ⟨"int-wmo", "ca-eccc", "cache/a/wis2/#", .http⟩ = 2 ∧
      ¬ Accumulates twiceConfig [fullCycle sampleTables.lib twiceConfig "" sampleCall] := by
  have h1 : (fullCycle sampleTables.lib twiceConfig "" sampleCall).recountAt twiceConfig 0
      ⟨"cache/a/wis2/#", "ca-eccc", "https://x"⟩ .http = 1 := by decide +kernel
  have h2 : (runCycles twiceConfig [fullCycle sampleTables.lib twiceConfig "" sampleCall]
      Metrics.new).messagesFetched ⟨"int-wmo", "ca-eccc", "cache/a/wis2/#", .http⟩ = 2 := by
    decide +kernel
  refine ⟨by decide +kernel, h1, by decide +kernel, h2, ?_⟩
  intro h
  have h3 := h.2 0 ⟨"cache/a/wis2/#", "ca-eccc", "https://x"⟩ .http rfl
  rw [List.map_singleton, List.sum_singleton, h1] at h3
  exact absurd (h2.symm.trans h3) (by decide)

theorem accumulates_sample : Accumulates shippedConfig [sampleCycle .fails, sampleCycle .fails] := by
  refine (accumulates_iff ⟨"", rfl⟩ (show Config.fromEnv sampleTables.lib "sub"
    (sampleEnv "cache/a/wis2/#" "ca-eccc-msc-global-replay" "https://wis2-grep.weather.gc.ca") =
      .ok shippedConfig by decide +kernel)).2 (by unfold Config.Distinct; decide) _ ?_
  intro E hE
  have hE : E = sampleCycle .fails := by simpa using hE
  subst hE
  exact ⟨⟨_, _, _, _, sampleCycle_fromFetches⟩, fun i cell hi => ⟨⟨_, rfl⟩, ⟨_, rfl⟩⟩⟩

end Scgrep
