import Scgrep.Lib.Snapshot
import Scgrep.Proof.Publish
import Scgrep.Spec.Exposition
import Scgrep.Spec.Tables

/-!
# Scrapes during the publication

* `publication_exposes`: the calls, one after the other, publish what `publishAll` does.
* `steady_incs`, `steady_sets`: when a series only shows its first and its last value.
* `scrape_untorn_iff`: **every scrape shows the values of before or of after the
  publication exactly when the calls move one series at most, and that one steadily.**
* `scrape_torn`: a publication that moves two series is torn.
-/

namespace Scgrep

open Snapshot

/-! ## The calls and the metrics -/

/-- The exposition shows the metrics. An absent counter stands for 0. -/
structure Exposes (e : Exposition) (m : Metrics) : Prop where
  messagesReceived : ∀ p, (e (.messagesReceived p.1 p.2)).getD 0 = m.messagesReceived p
  messagesFetched : ∀ l, (e (.messagesFetched l)).getD 0 = m.messagesFetched l
  testAborted : ∀ l, e (.testAborted l) = m.testAborted l
  responseInvalidFormat : ∀ l, e (.responseInvalidFormat l) = m.responseInvalidFormat l
  fetchDelay : ∀ l, e (.fetchDelay l) = m.fetchDelay l
  httpResponseCode : ∀ l, e (.httpResponseCode l) = m.httpResponseCode l
  responseInvalidNumberMatched :
    ∀ l, e (.responseInvalidNumberMatched l) = m.responseInvalidNumberMatched l

theorem exposes_new : Exposes (fun _ => none) Metrics.new := by
  constructor <;> intro _ <;> rfl

theorem Exposes.incReceived {e : Exposition} {m : Metrics} (h : Exposes e m) (reportBy topic : String)
    (count : ℕ) : Exposes (MetricCall.apply e ⟨.messagesReceived reportBy topic, .inc count⟩)
      (incReceived reportBy topic count m) := by
  refine ⟨?_, ?_, h.testAborted, h.responseInvalidFormat, h.fetchDelay, h.httpResponseCode,
    h.responseInvalidNumberMatched⟩
  · rintro ⟨r, t⟩
    unfold MetricCall.apply Scgrep.incReceived
    by_cases hp : (r, t) = (reportBy, topic)
    · obtain ⟨rfl, rfl⟩ := Prod.mk.inj hp
      have hr := h.messagesReceived (r, t)
      simp only [Function.update_self, MetricOp.apply, Option.getD_some] at hr ⊢
      rw [hr]
      push_cast
      ring
    · have hne : Series.messagesReceived r t ≠ Series.messagesReceived reportBy topic := by
        intro heq
        obtain ⟨rfl, rfl⟩ := Series.messagesReceived.inj heq
        exact hp rfl
      simp only [Function.update_of_ne hp, Function.update_of_ne hne]
      exact h.messagesReceived (r, t)
  · intro l
    unfold MetricCall.apply
    rw [Function.update_of_ne (by simp)]
    exact h.messagesFetched l

/-- The calls of `_publish` publish the result. -/
theorem Exposes.publish {e : Exposition} {m : Metrics} (h : Exposes e m) (labels : Labels)
    (result : FetchResult) : Exposes ((publishCalls labels result).foldl MetricCall.apply e)
      (publish labels result m) := by
  constructor
  · intro p
    by_cases hp : result.protocol = .http <;>
      simpa [publishCalls, MetricCall.apply, Scgrep.publish, hp] using h.messagesReceived p
  all_goals
    intro l
    by_cases hp : result.protocol = .http <;> by_cases hl : l = labels
  -- the calls set the labels of the result, for every series but the one of the http check
  all_goals
    simp [publishCalls, MetricCall.apply, MetricOp.apply, Scgrep.publish, hp, hl, h.messagesFetched,
      h.testAborted, h.responseInvalidFormat, h.fetchDelay, h.httpResponseCode,
      h.responseInvalidNumberMatched]

/-- **The calls publish what `publishAll` does.** -/
theorem publication_exposes (cfg : Config) (baselines : Dict String ℕ) (results : List CellResult)
    {e : Exposition} {m : Metrics} (h : Exposes e m) :
    Exposes ((publicationCalls cfg baselines results).foldl MetricCall.apply e)
      (publishAll cfg baselines results m) := by
  have hres : ∀ (rs : List CellResult) {e : Exposition} {m : Metrics}, Exposes e m →
      Exposes ((rs.flatMap fun r => publishCalls (r.labels cfg) r.result).foldl MetricCall.apply e)
        (rs.foldl (fun m r => publish (r.labels cfg) r.result m) m) := by
    intro rs
    induction rs with
    | nil => intro e m h; exact h
    | cons r rs ih =>
      intro e m h
      rw [List.flatMap_cons, List.foldl_append, List.foldl_cons]
      exact ih (h.publish _ _)
  have hbase : ∀ (items : List (String × ℕ)) {e : Exposition} {m : Metrics}, Exposes e m →
      Exposes ((items.map fun c =>
          (⟨.messagesReceived cfg.sensorCentreId c.1, .inc c.2⟩ : MetricCall)).foldl MetricCall.apply e)
        (items.foldl (fun m c => incReceived cfg.sensorCentreId c.1 c.2 m) m) := by
    intro items
    induction items with
    | nil => intro e m h; exact h
    | cons c items ih =>
      intro e m h
      rw [List.map_cons, List.foldl_cons, List.foldl_cons]
      exact ih (h.incReceived _ _ _)
  unfold publicationCalls publishAll
  rw [List.foldl_append]
  exact hres results (hbase baselines.items h)

/-! ## One series -/

/-- The amounts that a series is incremented by. -/
def amounts (x : Series) (calls : List MetricCall) : List ℤ :=
  (calls.filter fun c => decide (c.series = x)).filterMap fun c =>
    match c.op with
    | .inc amount => some amount
    | .set _ => none

/-- The values that a series is set to. -/
def values (x : Series) (calls : List MetricCall) : List ℚ :=
  (calls.filter fun c => decide (c.series = x)).filterMap fun c =>
    match c.op with
    | .inc _ => none
    | .set value => some value

/-- The call does not leave its series as it was before the publication. -/
def MetricCall.Moves (e : Exposition) (c : MetricCall) : Prop :=
  match c.op with
  | .inc amount => e c.series = none ∨ amount ≠ 0
  | .set value => e c.series ≠ some value

/-- A counter that moves at most once: at its first call if it is new. A gauge that is only set to
its value of before or to the last one. -/
def MovesOnce (e : Exposition) (calls : List MetricCall) (x : Series) : Prop :=
  if x.isCounter then
    ((amounts x calls).filter (· ≠ 0)).length ≤ 1 ∧ (e x = none → ∀ n ∈ (amounts x calls).tail, n = 0)
  else ∀ v ∈ values x calls, e x = some v ∨ (values x calls).getLast? = some v

/-- The calls move one series at most, and that one once. -/
def OneMove (e : Exposition) (calls : List MetricCall) : Prop :=
  ∃ x, (∀ c ∈ calls, c.series ≠ x → ¬ c.Moves e) ∧ MovesOnce e calls x

theorem apply_eq_iff {e : Exposition} {c : MetricCall} :
    c.op.apply (e c.series) = e c.series ↔ ¬ c.Moves e := by
  unfold MetricCall.Moves
  cases c.op with
  | inc n =>
    cases he : e c.series with
    | none => simp [MetricOp.apply]
    | some v => simp [MetricOp.apply]
  | set v => simp [MetricOp.apply, eq_comm]

/-- A counter after some increments. -/
theorem after_incs (ns : List ℤ) : ∀ v : Option ℚ, ns ≠ [] →
    after (ns.map fun n => (MetricOp.inc n).apply) v = some (v.getD 0 + ns.sum) := by
  induction ns with
  | nil => intro v h; exact absurd rfl h
  | cons n ns ih =>
    intro v _
    have hstep : after ((n :: ns).map fun n => (MetricOp.inc n).apply) v =
        after (ns.map fun n => (MetricOp.inc n).apply) (some (v.getD 0 + n)) := rfl
    rw [hstep]
    by_cases hns : ns = []
    · subst hns; simp [after]
    · rw [ih _ hns, Option.getD_some, List.sum_cons]
      push_cast
      rw [add_assoc]

/-- Amounts that are not negative and sum up to nothing are all 0. -/
theorem all_zero_iff {ns : List ℤ} (h : ∀ n ∈ ns, 0 ≤ n) : (∀ n ∈ ns, n = 0) ↔ ns.sum = 0 := by
  induction ns with
  | nil => simp
  | cons n ns ih =>
    have hn := h n List.mem_cons_self
    have hns : ∀ m ∈ ns, 0 ≤ m := fun m hm => h m (List.mem_cons_of_mem _ hm)
    have hsum : 0 ≤ ns.sum := List.sum_nonneg hns
    rw [List.forall_mem_cons, ih hns, List.sum_cons]
    omega

/-- From the first amount on the sum is the whole when the others are all 0. -/
theorem settled_iff {n : ℤ} {ns : List ℤ} (h : ∀ m ∈ ns, 0 ≤ m) :
    (∀ k, ((n :: ns).take (k + 1)).sum = (n :: ns).sum) ↔ ∀ m ∈ ns, m = 0 := by
  rw [all_zero_iff h]
  constructor
  · intro hs
    have h1 := hs 0
    simp only [List.take_succ_cons, List.take_zero, List.sum_cons, List.sum_nil] at h1
    omega
  · intro hsum k
    have htake : ∀ m ∈ ns.take k, m = 0 := fun m hm =>
      (all_zero_iff h).2 hsum m (List.mem_of_mem_take hm)
    have := (all_zero_iff fun m hm => h m (List.mem_of_mem_take hm)).1 htake
    rw [List.take_succ_cons, List.sum_cons, List.sum_cons, this, hsum]

/-- The sums of the first amounts are 0 or the whole when one amount at most is not 0. -/
theorem sums_iff {ns : List ℤ} (h : ∀ n ∈ ns, 0 ≤ n) :
    (∀ k, (ns.take k).sum = 0 ∨ (ns.take k).sum = ns.sum) ↔ (ns.filter (· ≠ 0)).length ≤ 1 := by
  induction ns with
  | nil => simp
  | cons n ns ih =>
    have hn := h n List.mem_cons_self
    have hns : ∀ m ∈ ns, 0 ≤ m := fun m hm => h m (List.mem_cons_of_mem _ hm)
    by_cases hz : n = 0
    · subst hz
      rw [List.filter_cons_of_neg (by simp), ← ih hns]
      constructor
      · intro hk k
        have := hk (k + 1)
        simpa using this
      · intro hk k
        rcases k with _ | k
        · exact Or.inl rfl
        · simpa using hk k
    · have hpos : 0 < n := by omega
      rw [List.filter_cons_of_pos (by simpa using hz), List.length_cons]
      -- after the first amount the sum is the whole, so the others are 0
      have hzero : (∀ m ∈ ns, m = 0) ↔ (ns.filter (· ≠ 0)).length + 1 ≤ 1 := by
        have hlen : (ns.filter (· ≠ 0)).length + 1 ≤ 1 ↔ (ns.filter (· ≠ 0)).length = 0 := by omega
        rw [hlen, List.length_eq_zero_iff, List.filter_eq_nil_iff]
        simp
      rw [← hzero, ← settled_iff (n := n) hns]
      constructor
      · intro hk k
        have hpart : 0 ≤ (ns.take k).sum :=
          List.sum_nonneg fun m hm => hns m (List.mem_of_mem_take hm)
        rcases hk (k + 1) with h0 | h0
        · rw [List.take_succ_cons, List.sum_cons] at h0
          omega
        · exact h0
      · intro hs k
        rcases k with _ | k
        · exact Or.inl rfl
        · exact Or.inr (hs k)

/-- **When a counter only shows its first and its last value**: it moves at most once, and when it is
new, at its first call. -/
theorem steady_incs {ns : List ℤ} (h : ∀ n ∈ ns, 0 ≤ n) (v : Option ℚ) :
    Steady (ns.map fun n => (MetricOp.inc n).apply) v ↔
      (ns.filter (· ≠ 0)).length ≤ 1 ∧ (v = none → ∀ n ∈ ns.tail, n = 0) := by
  have hval : ∀ k, ns.take k ≠ [] → after ((ns.map fun n => (MetricOp.inc n).apply).take k) v =
      some (v.getD 0 + (ns.take k).sum) := by
    intro k hk
    rw [← List.map_take, after_incs _ _ hk]
  rcases ns with _ | ⟨n, ns⟩
  · simp [Steady]
  have hns : ∀ m ∈ ns, 0 ≤ m := fun m hm => h m (List.mem_cons_of_mem _ hm)
  have hfin := after_incs (n :: ns) v (by simp)
  cases v with
  | none =>
    -- new: the first call must give the last value
    have hsteady : Steady ((n :: ns).map fun n => (MetricOp.inc n).apply) none ↔
        ∀ k, ((n :: ns).take (k + 1)).sum = (n :: ns).sum := by
      constructor
      · intro hs k
        rcases hs (k + 1) with h1 | h1
        · rw [hval _ (by simp)] at h1; cases h1
        · rw [hval _ (by simp), hfin] at h1
          have h1 := Option.some.inj h1
          exact_mod_cast add_left_cancel h1
      · intro hs k
        rcases k with _ | k
        · exact Or.inl rfl
        · right
          rw [hval _ (by simp), hfin, hs k]
    rw [hsteady, settled_iff hns, List.tail_cons]
    constructor
    · intro hz
      refine ⟨?_, fun _ => hz⟩
      have hnil : ns.filter (· ≠ 0) = [] := List.filter_eq_nil_iff.2 fun m hm => by simp [hz m hm]
      rw [List.filter_cons, hnil]
      split <;> simp
    · rintro ⟨-, hz⟩; exact hz rfl
  | some q =>
    rw [← sums_iff h]
    have hall : ∀ k, after (((n :: ns).map fun n => (MetricOp.inc n).apply).take k) (some q) =
        some (q + ((n :: ns).take k).sum) := by
      intro k
      rcases k with _ | k
      · simp [after]
      · exact hval _ (by simp)
    constructor
    · intro hs
      refine ⟨fun k => ?_, fun h0 => (by cases h0)⟩
      have hk := hs k
      rw [hall, hfin] at hk
      simp only [Option.some.injEq, Option.getD_some, add_eq_left, add_right_inj] at hk
      exact_mod_cast hk
    · rintro ⟨hs, -⟩ k
      rw [hall, hfin]
      simp only [Option.some.injEq, Option.getD_some, add_eq_left, add_right_inj]
      exact_mod_cast hs k

theorem after_sets (vs : List ℚ) : ∀ v : Option ℚ,
    after (vs.map fun x => (MetricOp.set x).apply) v = vs.getLast?.or v := by
  induction vs with
  | nil => intro v; rfl
  | cons x vs ih =>
    intro v
    have hstep : after ((x :: vs).map fun x => (MetricOp.set x).apply) v =
        after (vs.map fun x => (MetricOp.set x).apply) (some x) := rfl
    rw [hstep, ih, List.getLast?_cons]
    cases vs.getLast? <;> rfl

/-- **When a gauge only shows its first and its last value.** -/
theorem steady_sets (vs : List ℚ) (v : Option ℚ) :
    Steady (vs.map fun x => (MetricOp.set x).apply) v ↔ ∀ x ∈ vs, v = some x ∨ vs.getLast? = some x := by
  have hval : ∀ k, after ((vs.map fun x => (MetricOp.set x).apply).take k) v = (vs.take k).getLast?.or v := by
    intro k
    rw [← List.map_take, after_sets]
  constructor
  · intro hs x hx
    obtain ⟨i, hi, rfl⟩ := List.getElem_of_mem hx
    have hk := hs (i + 1)
    rw [hval, after_sets, List.take_succ_eq_append_getElem hi, List.getLast?_concat, Option.some_or] at hk
    have hne : vs.getLast? ≠ none := by
      intro h0
      rw [List.getLast?_eq_none_iff.1 h0] at hi
      exact absurd hi (Nat.not_lt_zero _)
    obtain ⟨y, hy⟩ := Option.ne_none_iff_exists'.1 hne
    rw [hy, Option.some_or] at hk
    rw [hy]
    rcases hk with h | h
    · exact Or.inl h.symm
    · exact Or.inr h.symm
  · intro hs k
    rw [hval, after_sets]
    cases hl : (vs.take k).getLast? with
    | none => exact Or.inl (Option.none_or)
    | some x =>
      rw [Option.some_or]
      rcases hs x (List.mem_of_mem_take (List.mem_of_getLast? hl)) with h | h
      · exact Or.inl h.symm
      · rw [h]
        exact Or.inr rfl

/-! ## All series -/

/-- A call as a write to the cell of its series. -/
def MetricCall.write (c : MetricCall) : Write Series (Option ℚ) := ⟨c.series, c.op.apply⟩

theorem run_writes (calls : List MetricCall) : ∀ e : Exposition,
    run (calls.map MetricCall.write) e = calls.foldl MetricCall.apply e := by
  induction calls with
  | nil => intro e; rfl
  | cons c calls ih => intro e; exact ih _

/-- Counters are incremented and gauges are set, by amounts that are not negative. -/
def MetricCall.Proper (c : MetricCall) : Prop :=
  match c.op with
  | .inc amount => c.series.isCounter = true ∧ 0 ≤ amount
  | .set _ => c.series.isCounter = false

theorem changesTo_counter {x : Series} (hx : x.isCounter = true) {calls : List MetricCall}
    (hc : ∀ c ∈ calls, c.Proper) : changesTo x (calls.map MetricCall.write) =
      (amounts x calls).map fun n => (MetricOp.inc n).apply := by
  induction calls with
  | nil => rfl
  | cons c calls ih =>
    have ih := ih fun c hc' => hc c (List.mem_cons_of_mem _ hc')
    have hproper := hc c List.mem_cons_self
    obtain ⟨y, op⟩ := c
    by_cases hy : y = x
    · subst hy
      cases op with
      | inc n =>
        unfold changesTo amounts at ih ⊢
        simpa [MetricCall.write] using ih
      | set v =>
        have : y.isCounter = false := hproper
        rw [hx] at this
        cases this
    · unfold changesTo amounts at ih ⊢
      simpa [MetricCall.write, hy] using ih

theorem changesTo_gauge {x : Series} (hx : x.isCounter = false) {calls : List MetricCall}
    (hc : ∀ c ∈ calls, c.Proper) : changesTo x (calls.map MetricCall.write) =
      (values x calls).map fun v => (MetricOp.set v).apply := by
  induction calls with
  | nil => rfl
  | cons c calls ih =>
    have ih := ih fun c hc' => hc c (List.mem_cons_of_mem _ hc')
    have hproper := hc c List.mem_cons_self
    obtain ⟨y, op⟩ := c
    by_cases hy : y = x
    · subst hy
      cases op with
      | inc n =>
        have : y.isCounter = true := hproper.1
        rw [hx] at this
        cases this
      | set v =>
        unfold changesTo values at ih ⊢
        simpa [MetricCall.write] using ih
    · unfold changesTo values at ih ⊢
      simpa [MetricCall.write, hy] using ih

theorem mem_amounts {x : Series} {calls : List MetricCall} {n : ℤ} (h : n ∈ amounts x calls) :
    ∃ c ∈ calls, c.op = .inc n := by
  unfold amounts at h
  obtain ⟨c, hc, hn⟩ := List.mem_filterMap.1 h
  refine ⟨c, (List.mem_filter.1 hc).1, ?_⟩
  split at hn
  · rename_i amount hop
    rw [hop, Option.some.inj hn]
  · cases hn

theorem steady_iff {x : Series} {calls : List MetricCall} (hc : ∀ c ∈ calls, c.Proper) (e : Exposition) :
    Steady (changesTo x (calls.map MetricCall.write)) (e x) ↔ MovesOnce e calls x := by
  unfold MovesOnce
  by_cases hx : x.isCounter = true
  · have hpos : ∀ n ∈ amounts x calls, 0 ≤ n := by
      intro n hn
      obtain ⟨c, hcm, hop⟩ := mem_amounts hn
      have hproper := hc c hcm
      unfold MetricCall.Proper at hproper
      rw [hop] at hproper
      exact hproper.2
    rw [if_pos hx, changesTo_counter hx hc]
    exact steady_incs hpos (e x)
  · rw [if_neg hx, changesTo_gauge (by simpa using hx) hc]
    exact steady_sets _ (e x)

theorem still_iff_moves {y : Series} {calls : List MetricCall} {e : Exposition} :
    Still (changesTo y (calls.map MetricCall.write)) (e y) ↔ ∀ c ∈ calls, c.series = y → ¬ c.Moves e := by
  unfold Still changesTo
  simp only [List.mem_map, List.mem_filter, decide_eq_true_eq]
  constructor
  · intro h c hc hy
    rw [← apply_eq_iff, hy]
    exact h _ ⟨c.write, ⟨⟨c, hc, rfl⟩, hy⟩, rfl⟩
  · rintro h f ⟨w, ⟨⟨c, hc, rfl⟩, hy⟩, rfl⟩
    have hmove := apply_eq_iff.2 (h c hc hy)
    have hcy : c.series = y := hy
    rw [hcy] at hmove
    exact hmove

/-- Scrapes of proper calls are whole exactly when these make one move. -/
theorem calls_untorn_iff {calls : List MetricCall} (hc : ∀ c ∈ calls, c.Proper) (e : Exposition) :
    (∀ k, scrape calls k e = e ∨ scrape calls k e = scrape calls calls.length e) ↔ OneMove e calls := by
  have : Nonempty Series := ⟨.messagesReceived "" ""⟩
  have hrun : ∀ k, run ((calls.map MetricCall.write).take k) e = scrape calls k e := by
    intro k
    rw [← List.map_take, run_writes]
    rfl
  have hlast : run (calls.map MetricCall.write) e = scrape calls calls.length e := by
    unfold scrape
    rw [run_writes, List.take_length]
  have hu := untorn_iff (calls.map MetricCall.write) e
  unfold Untorn at hu
  simp only [hrun, hlast] at hu
  rw [hu]
  unfold OneMove
  refine exists_congr fun x => and_congr ?_ (steady_iff hc e)
  simp only [still_iff_moves]
  constructor
  · intro h c hcm hx; exact h c.series hx c hcm rfl
  · rintro h y hy c hcm rfl; exact h c hcm hy

/-- What `run_cycle` publishes is not negative. -/
def Counted (results : List CellResult) : Prop := ∀ r ∈ results, 0 ≤ r.result.messagesFetched

theorem publication_proper (cfg : Config) (baselines : Dict String ℕ) {results : List CellResult}
    (hres : Counted results) : ∀ c ∈ publicationCalls cfg baselines results, c.Proper := by
  intro c hc
  unfold publicationCalls at hc
  rw [List.mem_append, List.mem_map, List.mem_flatMap] at hc
  rcases hc with ⟨item, -, rfl⟩ | ⟨r, hr, hc⟩
  · exact ⟨rfl, Int.natCast_nonneg _⟩
  · have hpos := hres r hr
    unfold publishCalls at hc
    simp only [List.cons_append, List.nil_append, List.mem_cons] at hc
    rcases hc with rfl | rfl | rfl | rfl | rfl | hc
    · rfl
    · rfl
    · rfl
    · rfl
    · exact ⟨rfl, hpos⟩
    · split at hc
      · rw [List.mem_singleton] at hc; subst hc; rfl
      · cases hc

/-- **A scrape sees one cycle exactly when the publication makes one move**: at every point between
its calls the series have their values of before or of after it, for whatever it publishes. -/
theorem scrape_untorn_iff (cfg : Config) (baselines : Dict String ℕ) {results : List CellResult}
    (hres : Counted results) (e : Exposition) :
    (∀ k, scrape (publicationCalls cfg baselines results) k e = e ∨
      scrape (publicationCalls cfg baselines results) k e =
        scrape (publicationCalls cfg baselines results) (publicationCalls cfg baselines results).length e) ↔
      OneMove e (publicationCalls cfg baselines results) :=
  calls_untorn_iff (publication_proper cfg baselines hres) e

/-- **Two moves are torn**, whatever else is published. -/
theorem scrape_torn {cfg : Config} {baselines : Dict String ℕ} {results : List CellResult}
    (hres : Counted results) {e : Exposition} {c c' : MetricCall}
    (hc : c ∈ publicationCalls cfg baselines results) (hc' : c' ∈ publicationCalls cfg baselines results)
    (hne : c.series ≠ c'.series) (hm : c.Moves e) (hm' : c'.Moves e) :
    ∃ k, scrape (publicationCalls cfg baselines results) k e ≠ e ∧
      scrape (publicationCalls cfg baselines results) k e ≠
        scrape (publicationCalls cfg baselines results) (publicationCalls cfg baselines results).length e := by
  by_contra hno
  push Not at hno
  have huntorn := (scrape_untorn_iff cfg baselines hres e).1 fun k => by
    by_cases h : scrape (publicationCalls cfg baselines results) k e = e
    · exact Or.inl h
    · exact Or.inr (hno k h)
  obtain ⟨x, hothers, -⟩ := huntorn
  have hx : c.series = x := by
    by_contra h; exact hothers c hc h hm
  have hx' : c'.series = x := by
    by_contra h; exact hothers c' hc' h hm'
  exact hne (hx.trans hx'.symm)

/-- The results of a cycle are counted: they are re-counts, or those of aborted fetches. -/
theorem results_counted {cfg : Config} {E : CycleEnv} (hE : E.Proper cfg) : Counted (E.results cfg) := by
  have key : ∀ {p : Protocol} (v : View) (cell : Cell) {out : Outcome}, OutcomeOf p out →
      ∀ r ∈ collect (cycleWindow cfg E.now) v cell out, 0 ≤ r.result.messagesFetched := by
    intro p v cell out hout r hr
    cases out with
    | error e => cases hr
    | ok result =>
      obtain ⟨-, haborted⟩ := hout result rfl
      obtain rfl := List.mem_singleton.1 hr
      dsimp only
      unfold recount
      split
      · exact Int.natCast_nonneg _
      · split
        · exact Int.natCast_nonneg _
        · -- neither protocol is left but with an aborted fetch
          rename_i h1 h2
          have hab : result.aborted = true := by
            by_contra h
            have h : result.aborted = false := by simpa using h
            cases hprot : result.protocol with
            | http => exact h2 ⟨hprot, h⟩
            | mqtt => exact h1 ⟨hprot, h⟩
          rw [haborted hab]
  intro r hr
  unfold CycleEnv.results at hr
  obtain ⟨⟨cell, i⟩, hi, hr⟩ := List.mem_flatMap.1 hr
  obtain ⟨hsync, hasync⟩ := hE i cell (mem_cells_zipIdx hi)
  rcases List.mem_append.1 hr with hr | hr
  · exact key _ _ hsync r hr
  · exact key _ _ hasync r hr

/-- A result of the synchronous fetch of the shipped deployment. -/
def sampleResults : List CellResult :=
  [⟨⟨"cache/a/wis2/#", "ca-eccc-msc-global-replay", "https://wis2-grep.weather.gc.ca"⟩,
    ⟨.http, false, false, 20, 3, false, 200, 3⟩⟩]

/-- The calls of a cycle with a baseline of 3 and that result. -/
def sampleCalls : List MetricCall :=
  publicationCalls shippedConfig (baselineDict [("cache/a/wis2/#", 3)]) sampleResults

theorem scrape_untorn_sample :
    (∀ k, scrape sampleCalls k (fun _ => none) = (fun _ => none) ∨
      scrape sampleCalls k (fun _ => none) = scrape sampleCalls sampleCalls.length (fun _ => none)) ↔
      OneMove (fun _ => none) sampleCalls :=
  scrape_untorn_iff shippedConfig (baselineDict [("cache/a/wis2/#", 3)])
    (by intro r hr; obtain rfl := List.mem_singleton.1 hr; decide) _

/-- **A torn scrape**: after the first call the received messages are counted, the fetched ones not. -/
theorem scrape_between :
    scrape sampleCalls 1 (fun _ => none) (.messagesReceived "int-wmo" "cache/a/wis2/#") = some 3 ∧
    scrape sampleCalls 1 (fun _ => none) ≠ (fun _ => none) ∧
    scrape sampleCalls 1 (fun _ => none) ≠ scrape sampleCalls sampleCalls.length (fun _ => none) := by
  refine ⟨by decide +kernel, ?_, ?_⟩
  · intro h
    have := congrFun h (.messagesReceived "int-wmo" "cache/a/wis2/#")
    exact absurd this (by decide +kernel)
  · intro h
    have := congrFun h (.messagesFetched ⟨"int-wmo", "ca-eccc-msc-global-replay", "cache/a/wis2/#", .http⟩)
    exact absurd this (by decide +kernel)

end Scgrep
