import Scgrep.Proof.Accumulate
import Scgrep.Proof.Routing

/-!
# Is a fetch aborted although its replays arrived?

The abort is decided by the registry, which hands a replay to the first active
channel that matches it. The count is taken from Redis, where a replay is indexed
under every topic that matches it.

* `replaysCounted_of_oneChannel`: in every run in which each replay matches the
  channels of the cells it is indexed for and no others, no fetch is aborted whose
  replays arrived.
* `exists_aborted`: any other replay has a run in which one is.
-/

namespace Scgrep

variable {E : Ctx} {w₀ : World} {es : List Event}

/-- The `n`-th event registers the asynchronous fetch of cell `i`. -/
structure RegistersAt (E : Ctx) (w₀ : World) (es : List Event) (n i : ℕ) (cell : Cell) : Prop where
  event : es[n]? = some (.register i)
  fetches : (worldAt E w₀ es n).Fetches E i cell
  ready : (worldAt E w₀ es n).async i = .ready

/-- After event `r` and before the deadline a replay is handled that is indexed for the cell. -/
def ReplayArrives (E : Ctx) (w₀ : World) (es : List Event) (r : ℕ) (cell : Cell) : Prop :=
  ∃ d msg, r < d ∧ es[d]? = some (.deliver msg) ∧ (worldAt E w₀ es d).now < E.deadlineAt ∧
    indexesFor E cell msg = true

/-- No fetch is aborted whose replays arrive in time, and what is published for it is the count
of its replay set. -/
def ReplaysCounted (E : Ctx) (w₀ : World) (es : List Event) : Prop :=
  ∀ r i cell, RegistersAt E w₀ es r i cell → ReplayArrives E w₀ es r cell →
    ∀ res, (w₀.run E es).async i = .finished (.ok res) → res.aborted = false ∧
      ∀ b c, CycleRun E w₀ es b c → (cycleOf E w₀ es b c).recountAt E.cfg i cell .mqtt =
        countReplayMessages ((cycleOf E w₀ es b c).asyncRecount i).now
          ((cycleOf E w₀ es b c).asyncRecount i).db cell.centreId cell.topic
          E.window.start E.window.stop

/-- A replay matches the channel of every cell it is indexed for, and of no other cell. -/
def OneChannel (E : Ctx) (msg : MqttMessage) : Prop :=
  ∀ (i : ℕ) (cell : Cell), E.cfg.cells[i]? = some cell → indexesFor E cell msg = true →
    channelMatches E.L (E.channel cell) msg.topic = true ∧
      ∀ (j : ℕ) (cell' : Cell), E.cfg.cells[j]? = some cell' →
        channelMatches E.L (E.channel cell') msg.topic = true → j = i

/-! ## From the registration to the end -/

/-- Before the deadline no fetch is aborted. -/
theorem in_time_step {w : World} {i : ℕ}
    (h : ∀ res, w.async i = .finished (.ok res) → res.aborted = false ∨ E.deadlineAt ≤ w.now)
    (e : Event) : ∀ res, (w.step E e).async i = .finished (.ok res) →
      res.aborted = false ∨ E.deadlineAt ≤ (w.step E e).now := by
  intro res hres
  have hnow : w.now ≤ (w.step E e).now := by rw [now_step]; exact le_clock _ _
  rcases async_moved (E := E) w e i with h' | ⟨cell, -, h'⟩
  · rcases h res (h' ▸ hres) with ha | hd
    · exact Or.inl ha
    · exact Or.inr (hd.trans hnow)
  · rw [hres] at h'
    generalize hs : w.async i = s at h'
    generalize ht : AsyncState.finished (.ok res) = t at h'
    cases h' with
    | reply k start x =>
      cases hr : asyncPost E.L (E.call cell) E.cfg.subscriberId E.brokerAuthorities start w.now x with
      | error e => rw [hr] at ht; cases ht
      | ok a => rw [hr] at ht; cases ht
    | skip k a out hs he => cases ht; exact Or.inl rfl
    | finish k a hd => exact Or.inr (hd.trans hnow)
    | register => cases ht
    | post k => cases ht
    | wait k a out hs he => cases ht

/-- The fetch holds counter `k` or is over. -/
def Holding (i k : ℕ) (w : World) : Prop :=
  (w.async i).counter? = some k ∨ ∃ out, w.async i = .finished out

theorem holding_step {w : World} {i k : ℕ} (h : Holding i k w) (e : Event) :
    Holding i k (w.step E e) := by
  rcases h with hk | ⟨out, hout⟩
  · rcases async_moved (E := E) w e i with h' | ⟨cell, -, h'⟩
    · exact Or.inl (by rw [h']; exact hk)
    · unfold Holding
      generalize (w.step E e).async i = t at h' ⊢
      generalize w.async i = s at h' hk
      cases h' with
      | register => cases hk
      | post k' => exact Or.inl hk
      | reply k' start x =>
        cases asyncPost E.L (E.call cell) E.cfg.subscriberId E.brokerAuthorities start w.now x with
        | error e => exact Or.inr ⟨_, rfl⟩
        | ok a => exact Or.inl hk
      | wait k' a out hs he => exact Or.inl hk
      | skip k' a out hs he => exact Or.inr ⟨_, rfl⟩
      | finish k' a hd => exact Or.inr ⟨_, rfl⟩
  · exact Or.inr ⟨out, async_finished_step hout e⟩

/-- The counter of the fetch has recorded a replay, and the fetch holds it or was not aborted. -/
def Answered (i k : ℕ) (w : World) : Prop :=
  Recorded w k ∧ ((w.async i).counter? = some k ∨
    ∃ out, w.async i = .finished out ∧ ∀ res, out = .ok res → res.aborted = false)

theorem answered_step {w : World} {i k : ℕ} (h : Answered i k w) (e : Event) :
    Answered i k (w.step E e) := by
  obtain ⟨hrec, h⟩ := h
  refine ⟨recorded_step hrec e, ?_⟩
  rcases h with hk | ⟨out, hout, hab⟩
  · rcases async_moved (E := E) w e i with h' | ⟨cell, -, h'⟩
    · exact Or.inl (by rw [h']; exact hk)
    · generalize (w.step E e).async i = t at h' ⊢
      generalize w.async i = s at h' hk
      cases h' with
      | register => cases hk
      | post k' => exact Or.inl hk
      | reply k' start x =>
        cases asyncPost E.L (E.call cell) E.cfg.subscriberId E.brokerAuthorities start w.now x with
        | error e => exact Or.inr ⟨_, rfl, fun res h => by cases h⟩
        | ok a => exact Or.inl hk
      | wait k' a out hs he => exact Or.inl hk
      | skip k' a out hs he => exact Or.inr ⟨_, rfl, fun res h => by cases h; rfl⟩
      | finish k' a hd =>
        -- the counter read at the end is the one that recorded
        obtain rfl : k' = k := Option.some.inj hk
        refine Or.inr ⟨_, rfl, fun res h => ?_⟩
        obtain rfl := Except.ok.inj h
        unfold asyncFinish
        cases hc : (w.reg.counters k').firstMonotonic with
        | none => exact absurd hc hrec.2
        | some t => rfl
  · exact Or.inr ⟨out, async_finished_step hout e, hab⟩

theorem onCell_eq {w : World} {i : ℕ} {cell : Cell} (h : w.Fetches E i cell)
    (f : Cell → World → World) : w.onCell E i f = f cell w := by
  unfold World.onCell
  rw [h.1]
  exact if_pos h.2

/-- What the registration of a fetch does. -/
theorem step_register {w : World} {i : ℕ} {cell : Cell} (hi : w.Fetches E i cell)
    (ha : w.async i = .ready) : w.step E (.register i) =
      ({ w with reg := w.reg.register (E.channel cell) }).setAsync i (.registered w.reg.made) := by
  show w.onCell E i (World.register E i) = _
  rw [onCell_eq hi]
  unfold World.register
  rw [ha]

/-- The counter a fetch registers with. -/
theorem counter_registered {r i : ℕ} {cell : Cell} (h : RegistersAt E w₀ es r i cell) :
    (worldAt E w₀ es (r + 1)).async i = .registered (worldAt E w₀ es r).reg.made := by
  rw [worldAt_succ h.event, step_register h.fetches h.ready, setAsync_async, if_pos rfl]

/-- A fetch that holds its counter when a replay of its own arrives is not aborted. -/
theorem not_aborted {i : ℕ} {cell : Cell} {msg : MqttMessage} {d k : ℕ} {res : FetchResult}
    (hf : Fresh w₀) (hr : OwnChannels E w₀.reg) (hi : E.cfg.cells[i]? = some cell)
    (hone : OneChannel E msg) (he : es[d]? = some (.deliver msg))
    (hind : indexesFor E cell msg = true) (hk : ((worldAt E w₀ es d).async i).counter? = some k)
    (hres : (w₀.run E es).async i = .finished (.ok res)) : res.aborted = false := by
  have hok := regOK_run hf hr es d
  obtain ⟨hm, hu⟩ := hone i cell hi hind
  have hsole : SoleChannel E i cell := fun j cell' hj hch => hu j cell' hj (by rw [hch]; exact hm)
  obtain ⟨hact, hmade⟩ := hok.own i cell k hi hsole hk
  have hroute : (worldAt E w₀ es d).reg.route E.L msg.topic = some k := by
    refine route_own hact hm fun ch' hch' hm' => ?_
    obtain ⟨j, cell', hj, rfl⟩ := hok.channels ch' hch'
    obtain rfl := hu j cell' hj hm'
    rw [hi] at hj
    rw [Option.some.inj hj]
  have hstep : Answered i k (worldAt E w₀ es (d + 1)) := by
    rw [worldAt_succ he]
    exact ⟨recorded_of_route hmade (startsWith_of_indexesFor hind) hroute, Or.inl hk⟩
  have hend : Answered i k (w₀.run E es) :=
    keeps_end (P := Answered i k) (fun w e h => answered_step h e) hstep
  rcases hend.2 with h | ⟨out, hout, hab⟩
  · rw [hres] at h; cases h
  · rw [hres] at hout
    cases hout
    exact hab res rfl

/-- What is re-counted for a fetch that was not aborted is its replay set. -/
theorem recount_of_not_aborted {i : ℕ} {cell : Cell} {b : ℕ} {c : ℕ → ℕ} {res : FetchResult}
    (hc : CycleRun E w₀ es b c) (hi : E.cfg.cells[i]? = some cell)
    (hres : (w₀.run E es).async i = .finished (.ok res)) :
    (cycleOf E w₀ es b c).recountAt E.cfg i cell .mqtt = if res.aborted then 0 else
      countReplayMessages ((cycleOf E w₀ es b c).asyncRecount i).now
        ((cycleOf E w₀ es b c).asyncRecount i).db cell.centreId cell.topic
        E.window.start E.window.stop := by
  have hlt : i < E.cfg.cells.length := (List.getElem?_eq_some_iff.1 hi).1
  obtain ⟨-, -, -, out, hout⟩ := hc.collects (2 * i + 1) (by omega)
  have hend := async_at_end (future_async hout)
  rw [hres] at hend
  cases hend
  have ha : (cycleOf E w₀ es b c).outcome i .mqtt = .ok res := by
    show ((worldAt E w₀ es (c (2 * i + 1))).future (2 * i + 1)).getD (.error .valueError) = .ok res
    rw [hout]; rfl
  unfold CycleEnv.recountAt
  rw [ha]
  rfl

/-- The messages a run delivers. -/
def Delivers (Msgs : MqttMessage → Prop) (es : List Event) : Prop :=
  ∀ msg, Event.deliver msg ∈ es → Msgs msg

/-- **A fetch is not aborted** for which a replay that matches just its own channel arrived
in time. -/
theorem not_aborted_of_arrival (hf : Fresh w₀) (hr : OwnChannels E w₀.reg) {r d i : ℕ} {cell : Cell}
    (hreg : RegistersAt E w₀ es r i cell) (hrd : r < d) {msg : MqttMessage}
    (he : es[d]? = some (.deliver msg)) (hnow : (worldAt E w₀ es d).now < E.deadlineAt)
    (hind : indexesFor E cell msg = true) (hone : OneChannel E msg) {res : FetchResult}
    (hres : (w₀.run E es).async i = .finished (.ok res)) : res.aborted = false := by
  have hold : Holding i (worldAt E w₀ es r).reg.made (worldAt E w₀ es d) := by
    refine keeps_from (P := Holding i _) (fun w e h => holding_step h e)
      (show r + 1 ≤ d by omega) (Or.inl ?_)
    rw [counter_registered hreg]; rfl
  rcases hold with hk | ⟨out, hout⟩
  · exact not_aborted hf hr hreg.fetches.1 hone he hind hk hres
  · -- the fetch was over before the deadline
    have hend := async_at_end hout
    rw [hres] at hend
    rw [← hend] at hout
    have htime : ∀ res, (worldAt E w₀ es d).async i = .finished (.ok res) →
        res.aborted = false ∨ E.deadlineAt ≤ (worldAt E w₀ es d).now := by
      refine run_keeps (P := fun w => ∀ res, w.async i = .finished (.ok res) →
        res.aborted = false ∨ E.deadlineAt ≤ w.now) (fun w e h => in_time_step h e) _ _ ?_
      intro res hres
      rw [hf.async] at hres
      cases hres
    rcases htime res hout with h | h
    · exact h
    · exact absurd h (not_le.2 hnow)

/-- **No fetch is aborted whose replays arrived**, when each matches only its own channel. -/
theorem replaysCounted_of_oneChannel (hf : Fresh w₀) (hr : OwnChannels E w₀.reg)
    (h : Delivers (OneChannel E) es) : ReplaysCounted E w₀ es := by
  intro r i cell hreg harr res hres
  obtain ⟨d, msg, hrd, he, hnow, hind⟩ := harr
  have hab : res.aborted = false :=
    not_aborted_of_arrival hf hr hreg hrd he hnow hind (h msg (List.mem_of_getElem? he)) hres
  refine ⟨hab, fun b c hc => ?_⟩
  rw [recount_of_not_aborted hc hreg.fetches.1 hres, if_neg (by rw [hab]; decide)]

/-! ## A run that aborts a fetch whose replay arrived -/

/-- The fetches of a cell whose service cannot be reached, while one message arrives. -/
def lonelyFetch (E : Ctx) (i : ℕ) (msg : MqttMessage) : List Event :=
  [.syncBegin i, .syncReply i .fails, .post i, .postReply i .fails, .decide i, .deliver msg,
    .tick (deadlineS E.cfg), .finish i]

/-- The asynchronous fetch expects messages because of the baseline, and is aborted when the
message does not go to its counter. -/
theorem lonelyFetch_aborts {w : World} {i k : ℕ} {cell : Cell} {msg : MqttMessage}
    (hi : w.Fetches E i cell) (hd : 0 ≤ deadlineS E.cfg) (hnow : w.now = E.started)
    (hs : w.sync i = .ready) (ha : w.async i = .registered k) (hb : 0 < w.baselineOf cell)
    (hroute : w.reg.route E.L msg.topic ≠ some k) (hc : (w.reg.counters k).firstMonotonic = none) :
    ∃ res, (w.run E (lonelyFetch E i msg)).async i = .finished (.ok res) ∧ res.aborted = true := by
  obtain ⟨hi, hsub⟩ := hi
  have hc' : ((w.deliver E msg).reg.counters k).firstMonotonic = none := by
    rw [deliver_reg]
    split
    · unfold ReplayRegistry.handleReplay
      split
      · exact hc
      · rename_i k' hr
        have hne : k ≠ k' := by rintro rfl; exact hroute hr
        show (Function.update w.reg.counters k' _ k).firstMonotonic = none
        rw [Function.update_of_ne hne]
        exact hc
    · exact hc
  have he : expectMessages none (w.baselineOf cell) = true := by
    unfold expectMessages
    exact decide_eq_true hb
  have hdead : E.deadlineAt ≤ w.now + deadlineS E.cfg := by rw [hnow]; exact le_rfl
  unfold World.deliver at hc'
  unfold World.submitted at hsub
  unfold World.baselineOf at he
  dsimp only at hc'
  simp [World.run, lonelyFetch, World.step, World.onCell, hi, World.submitted, hsub,
    World.syncBegin, hs, World.setSync, World.syncReply, Scgrep.syncFirst, World.post, ha,
    World.setAsync, World.postReply, asyncPost, World.decide, SyncState.outcome?,
    numberMatchedFrom, he, World.deliver, hd, World.finish, hdead]
  unfold asyncFinish
  rw [hc']

/-- A cycle that begins with one message in every set. -/
def fullWorld (E : Ctx) : World :=
  World.init E (fullView E.window.start).db ReplayRegistry.new Metrics.new

/-- The same, once the fetches are submitted. -/
def openWorld (E : Ctx) : World := (fullWorld E).run E [.readBaselines, .clear]

theorem openWorld_baseline (hint : 0 < E.cfg.testInterval) {i : ℕ} {cell : Cell}
    (hi : E.cfg.cells[i]? = some cell) : (openWorld E).baselineOf cell = 1 := by
  have hP : cell.topic ∈ E.cfg.subscriptionTopics := (cell_mem hi).1
  show ((baselineDict ((fullWorld E).baselineCounts E)).get? cell.topic).getD 0 = 1
  rw [lookup_ones (P := cell.topic)]
  · rfl
  · intro x hx
    obtain ⟨P, -, rfl⟩ := List.mem_map.1 hx
    exact zcount_fullView hint _ (E.wall (fullWorld E).now) (topicKey P)
  · exact ⟨_, List.mem_map.2 ⟨_, hP, rfl⟩, rfl⟩

/-- A run without ticks takes no time. -/
theorem now_of_no_tick {w : World} (es : List Event) (h : ∀ d, Event.tick d ∉ es) :
    (w.run E es).now = w.now := by
  induction es generalizing w with
  | nil => rfl
  | cons e es ih =>
    rw [run_cons, ih fun d hd => h d (List.mem_cons_of_mem _ hd), now_step]
    cases e with
    | tick d => exact absurd List.mem_cons_self (h d)
    | _ => rfl

/-- The run that registers the given fetches and leaves the fetch of cell `i` alone. -/
def lonelyRun (E : Ctx) (regs : List ℕ) (i : ℕ) (msg : MqttMessage) : List Event :=
  [.readBaselines, .clear] ++ regs.map Event.register ++ lonelyFetch E i msg

/-- A registration leaves everything but the registry and its own fetch alone. -/
theorem register_same (w : World) (j : ℕ) :
    (w.step E (.register j)).main = w.main ∧ (w.step E (.register j)).sync = w.sync ∧
      (w.step E (.register j)).baselines = w.baselines ∧
      ∀ i ≠ j, (w.step E (.register j)).async i = w.async i := by
  have h := step_spec (E := E) w (.register j)
  generalize w.step E (.register j) = w' at h
  cases h with
  | idle => exact ⟨rfl, rfl, rfl, fun _ _ => rfl⟩
  | register hi ha =>
    refine ⟨rfl, rfl, rfl, fun i hij => ?_⟩
    rw [setAsync_async, if_neg hij]

theorem registers_same (w : World) (js : List ℕ) :
    (w.run E (js.map Event.register)).main = w.main ∧
      (w.run E (js.map Event.register)).sync = w.sync ∧
      (w.run E (js.map Event.register)).baselines = w.baselines ∧
      ∀ i ∉ js, (w.run E (js.map Event.register)).async i = w.async i := by
  induction js generalizing w with
  | nil => exact ⟨rfl, rfl, rfl, fun _ _ => rfl⟩
  | cons j js ih =>
    obtain ⟨h1, h2, h3, h4⟩ := register_same (E := E) w j
    obtain ⟨i1, i2, i3, i4⟩ := ih (w.step E (.register j))
    rw [List.map_cons, run_cons]
    refine ⟨i1.trans h1, i2.trans h2, i3.trans h3, fun i hi => ?_⟩
    rw [List.mem_cons, not_or] at hi
    exact (i4 i hi.2).trans (h4 i hi.1)

theorem openWorld_fetches (js : List ℕ) {i : ℕ} {cell : Cell} (hi : E.cfg.cells[i]? = some cell) :
    ((openWorld E).run E (js.map Event.register)).Fetches E i cell := by
  refine ⟨hi, ?_⟩
  unfold World.submitted
  rw [(registers_same _ js).1]
  rfl

theorem lonelyRun_split (regs : List ℕ) (i : ℕ) (msg : MqttMessage) : lonelyRun E regs i msg =
    [.readBaselines, .clear] ++ (regs.map Event.register ++ lonelyFetch E i msg) :=
  List.append_assoc ..

/-- The fetch is registered when its turn comes. -/
theorem registers_lonelyRun {i : ℕ} {cell : Cell} (hi : E.cfg.cells[i]? = some cell)
    {msg : MqttMessage} {regs : List ℕ} {r : ℕ} (hr : regs[r]? = some i) (hfirst : i ∉ regs.take r) :
    RegistersAt E (fullWorld E) (lonelyRun E regs i msg) (2 + r) i cell := by
  have hlt : r < regs.length := (List.getElem?_eq_some_iff.1 hr).1
  have hworld : worldAt E (fullWorld E) (lonelyRun E regs i msg) (2 + r) =
      (openWorld E).run E ((regs.take r).map Event.register) := by
    have hsub : 2 + r - [Event.readBaselines, Event.clear].length = r := by simp
    unfold worldAt
    rw [lonelyRun_split, List.take_append, run_append, List.take_of_length_le (by simp), hsub,
      List.take_append_of_le_length (by simpa using hlt.le), List.map_take]
    rfl
  refine ⟨?_, ?_, ?_⟩
  · rw [lonelyRun_split, List.getElem?_append_right (by simp),
      List.getElem?_append_left (by simp; omega)]
    simp [hr]
  · rw [hworld]
    exact openWorld_fetches _ hi
  · rw [hworld, (registers_same _ _).2.2.2 i hfirst]
    rfl

/-- The replay arrives in time after that. -/
theorem arrives_lonelyRun (hdead : 0 < deadlineS E.cfg) {i : ℕ} {cell : Cell} {msg : MqttMessage}
    (hind : indexesFor E cell msg = true) {regs : List ℕ} {r : ℕ} (hr : r < regs.length) :
    ReplayArrives E (fullWorld E) (lonelyRun E regs i msg) (2 + r) cell := by
  have hsub : 2 + regs.length + 5 -
      ([Event.readBaselines, Event.clear] ++ regs.map Event.register).length = 5 := by
    simp only [List.length_append, List.length_map, List.length_cons, List.length_nil]
    omega
  have hnow : (worldAt E (fullWorld E) (lonelyRun E regs i msg) (2 + regs.length + 5)).now =
      E.started := by
    have ht : (lonelyRun E regs i msg).take (2 + regs.length + 5) =
        [.readBaselines, .clear] ++ regs.map Event.register ++ (lonelyFetch E i msg).take 5 := by
      rw [lonelyRun, List.take_append, List.take_of_length_le (by simp; omega), hsub]
    unfold worldAt
    rw [ht, now_of_no_tick _ (by intro d hd; simp [lonelyFetch] at hd)]
    rfl
  refine ⟨2 + regs.length + 5, msg, by omega, ?_, ?_, hind⟩
  · rw [lonelyRun, List.getElem?_append_right (by simp; omega), hsub]
    rfl
  · rw [hnow]
    unfold Ctx.deadlineAt
    linarith

/-- Such a run loses the replay when the registry does not hand it to the counter of the fetch. -/
theorem lonelyRun_loses (hint : 0 < E.cfg.testInterval) {i : ℕ} {cell : Cell}
    (hi : E.cfg.cells[i]? = some cell) {msg : MqttMessage} (hind : indexesFor E cell msg = true)
    {regs : List ℕ} {r k : ℕ} (hr : regs[r]? = some i) (hfirst : i ∉ regs.take r)
    (ha : ((openWorld E).run E (regs.map Event.register)).async i = .registered k)
    (hroute : ((openWorld E).run E (regs.map Event.register)).reg.route E.L msg.topic ≠ some k)
    (hc : (((openWorld E).run E (regs.map Event.register)).reg.counters k).firstMonotonic = none) :
    ¬ ReplaysCounted E (fullWorld E) (lonelyRun E regs i msg) := by
  intro h
  have hdead : 0 < deadlineS E.cfg := by
    have : (0 : ℚ) < E.cfg.testInterval := by exact_mod_cast hint
    unfold deadlineS
    linarith
  have hlt : r < regs.length := (List.getElem?_eq_some_iff.1 hr).1
  have hbase : 0 < ((openWorld E).run E (regs.map Event.register)).baselineOf cell := by
    unfold World.baselineOf
    rw [(registers_same _ regs).2.2.1]
    exact lt_of_lt_of_eq Nat.zero_lt_one (openWorld_baseline hint hi).symm
  obtain ⟨res, hres, hab⟩ := lonelyFetch_aborts (openWorld_fetches regs hi) hdead.le
    (now_of_no_tick _ (by intro d hd; simp at hd)) (congrFun (registers_same _ regs).2.1 i) ha
    hbase hroute hc
  have hend : ((fullWorld E).run E (lonelyRun E regs i msg)).async i = .finished (.ok res) := by
    rw [lonelyRun_split, run_append, run_append]
    exact hres
  have hcounted := h _ i cell (registers_lonelyRun hi hr hfirst) (arrives_lonelyRun hdead hind hlt)
    res hend
  rw [hcounted.1] at hab
  cases hab

theorem deliver_lonelyRun {regs : List ℕ} {i : ℕ} {msg msg' : MqttMessage}
    (h : Event.deliver msg' ∈ lonelyRun E regs i msg) : msg' = msg := by
  simpa [lonelyRun, lonelyFetch] using h

/-- The world with the fetch of cell `i` registered. -/
def openOne (E : Ctx) (i : ℕ) (cell : Cell) : World :=
  ({ openWorld E with
      reg := ReplayRegistry.new.register (E.channel cell) }).setAsync i (.registered 0)

/-- The same, with the fetch of cell `j` registered after it. -/
def openTwo (E : Ctx) (i : ℕ) (cell : Cell) (j : ℕ) (cell' : Cell) : World :=
  ({ openOne E i cell with
      reg := (ReplayRegistry.new.register (E.channel cell)).register (E.channel cell')
    }).setAsync j (.registered 1)

theorem run_openOne {i : ℕ} {cell : Cell} (hi : E.cfg.cells[i]? = some cell) :
    (openWorld E).run E ([i].map Event.register) = openOne E i cell :=
  step_register (openWorld_fetches [] hi) rfl

theorem run_openTwo {i j : ℕ} {cell cell' : Cell} (hi : E.cfg.cells[i]? = some cell)
    (hj : E.cfg.cells[j]? = some cell') (hji : j ≠ i) :
    (openWorld E).run E ([i, j].map Event.register) = openTwo E i cell j cell' := by
  have hw := openWorld_fetches [i] hj
  have hone := run_openOne hi
  have hready : (openOne E i cell).async j = .ready := by
    unfold openOne
    rw [setAsync_async, if_neg hji]
    rfl
  rw [hone] at hw
  show ((openWorld E).run E ([i].map Event.register)).step E (.register j) = _
  rw [hone, step_register hw hready]
  rfl

/-- The counter of a fetch gets nothing on a channel that another fetch took over. -/
theorem route_taken_over {i j : ℕ} {cell cell' : Cell} (hch : E.channel cell' = E.channel cell)
    (topic : String) : (openTwo E i cell j cell').reg.route E.L topic ≠ some 0 := by
  intro hroute
  obtain ⟨ch, hget, -⟩ := route_mem hroute
  have hget : ((Dict.empty.set (E.channel cell) 0).set (E.channel cell') 1).get? ch = some 0 := hget
  rw [Dict.get?_set, hch] at hget
  split at hget
  · cases hget
  · rename_i hne
    rw [Dict.get?_set_ne _ hne] at hget
    cases hget

/-- A replay goes to the first channel that matches it. -/
theorem route_first {i j : ℕ} {cell cell' : Cell} (hch : E.channel cell' ≠ E.channel cell)
    {topic : String} (hm : channelMatches E.L (E.channel cell) topic = true) :
    (openTwo E i cell j cell').reg.route E.L topic = some 0 := by
  have hitems : ((Dict.empty.set (E.channel cell) 0).set (E.channel cell') 1).items =
      [(E.channel cell, 0), (E.channel cell', 1)] :=
    Dict.items_set_new (by rw [Dict.get?_set_ne _ hch]; rfl) 1
  show (((Dict.empty.set (E.channel cell) 0).set (E.channel cell') 1).items.find? fun item =>
    channelMatches E.L item.1 topic).map Prod.snd = some 0
  rw [hitems]
  simp [hm]

/-- A replay that does not match the only channel goes nowhere. -/
theorem route_unmatched {i : ℕ} {cell : Cell} {topic : String}
    (h : ¬ channelMatches E.L (E.channel cell) topic = true) :
    (openOne E i cell).reg.route E.L topic ≠ some 0 := by
  intro hroute
  obtain ⟨ch, hget, hm⟩ := route_mem hroute
  have hget : (Dict.empty.set (E.channel cell) 0).get? ch = some 0 := hget
  rw [Dict.get?_set] at hget
  split at hget
  · rename_i heq
    rw [heq] at hm
    exact h hm
  · cases hget

/-- **A replay that does not match just its own channel** has a run in which a fetch is aborted
though the replay arrived for it. -/
theorem exists_aborted (hint : 0 < E.cfg.testInterval) {msg : MqttMessage} (h : ¬ OneChannel E msg) :
    ∃ regs i, ¬ ReplaysCounted E (fullWorld E) (lonelyRun E regs i msg) := by
  unfold OneChannel at h
  push Not at h
  obtain ⟨i, cell, hi, hind, h⟩ := h
  by_cases hown : channelMatches E.L (E.channel cell) msg.topic = true
  · obtain ⟨j, cell', hj, hm, hji⟩ := h hown
    by_cases hch : E.channel cell' = E.channel cell
    · -- the other cell takes the channel over
      have htwo := run_openTwo hi hj hji
      refine ⟨[i, j], i, lonelyRun_loses hint hi hind (r := 0) (k := 0) rfl (by simp) ?_ ?_ ?_⟩
      · rw [htwo, openTwo, setAsync_async, if_neg (Ne.symm hji)]
        show (openOne E i cell).async i = _
        rw [openOne, setAsync_async, if_pos rfl]
      · rw [htwo]; exact route_taken_over hch _
      · rw [htwo]; rfl
    · -- the other channel comes first
      have htwo := run_openTwo hj hi (Ne.symm hji)
      refine ⟨[j, i], i, lonelyRun_loses hint hi hind (r := 1) (k := 1) rfl
        (by simpa using Ne.symm hji) ?_ ?_ ?_⟩
      · rw [htwo, openTwo, setAsync_async, if_pos rfl]
      · rw [htwo, route_first (Ne.symm hch) hm]
        decide
      · rw [htwo]; rfl
  · -- its own channel does not match
    have hone := run_openOne hi
    refine ⟨[i], i, lonelyRun_loses hint hi hind (r := 0) (k := 0) rfl (by simp) ?_ ?_ ?_⟩
    · rw [hone, openOne, setAsync_async, if_pos rfl]
    · rw [hone]; exact route_unmatched hown
    · rw [hone]; rfl

/-- **An mqtt test is never aborted when its replays arrived**, in any run that delivers some of
the given messages, iff each of these matches the channels of just the cells it is indexed for. -/
theorem replays_counted_iff {uuid : String} {env : String → Option String}
    (hcfg : Config.fromEnv E.L uuid env = .ok E.cfg) (Msgs : MqttMessage → Prop) :
    (∀ w₀ es, Fresh w₀ → OwnChannels E w₀.reg → Delivers Msgs es → ReplaysCounted E w₀ es) ↔
      ∀ msg, Msgs msg → OneChannel E msg := by
  have hint := (fromEnv_spec hcfg).testInterval_pos
  constructor
  · intro h msg hmsg
    by_contra hno
    obtain ⟨regs, i, hlost⟩ := exists_aborted hint hno
    refine hlost (h _ _ (fresh_init ..) ?_ ?_)
    · intro ch hch
      cases hch
    · intro msg' hmsg'
      rw [deliver_lonelyRun hmsg']
      exact hmsg
  · intro h w₀ es hf hr hd
    exact replaysCounted_of_oneChannel hf hr fun msg hmsg => h msg (hd msg hmsg)

/-! ## Overlapping topics -/

/-- One topic below the other. -/
def overlapConfig : Config :=
  sampleConfig ["cache/a/wis2/#", "cache/a/wis2/us/#"] ["ca-eccc"] ["https://x"]

/-- The cell of the topic below. -/
def overlapCell : Cell := ⟨"cache/a/wis2/us/#", "ca-eccc", "https://x"⟩

/-- The sample tables with a decoder that knows one message. -/
def messageTables : Tables :=
  { sampleTables with
    jsons := [("m", .ok (.obj [("id", .str "a"), ("time", .str "2024-01-01T00:01:00Z")]))] }

/-- A cycle ten minutes into the year. -/
def sampleCtx (cfg : Config) : Ctx := ⟨messageTables.lib, cfg, 0, newYear + 600⟩

/-- A cycle that begins with nothing stored. -/
def emptyWorld (cfg : Config) : World :=
  World.init (sampleCtx cfg) Redis.Db.empty ReplayRegistry.new Metrics.new

/-- A live message and its replay. -/
def liveMessage : MqttMessage := ⟨"cache/a/wis2/us/x", "m"⟩

def replayMessage : MqttMessage := ⟨"replay/a/wis2/ca-eccc/sub/cache/a/wis2/us/x", "m"⟩

/-- Both topics have a baseline, the services cannot be reached, and the replay arrives. -/
def overlapRun : List Event :=
  [.deliver liveMessage, .readBaselines, .clear, .register 0, .register 1, .syncBegin 0,
    .syncReply 0 .fails, .syncBegin 1, .syncReply 1 .fails, .post 0, .postReply 0 .fails, .post 1,
    .postReply 1 .fails, .decide 0, .decide 1, .deliver replayMessage, .tick 285, .finish 0,
    .finish 1, .collect, .collect, .collect, .collect, .publish]

/-- The world that run ends in. -/
def overlapEnd : World := (emptyWorld overlapConfig).run (sampleCtx overlapConfig) overlapRun

/-- Reads how a fetch ended off a run. -/
theorem ended_of {w : World} {i : ℕ} {ab : Bool}
    (h : (w.async i).outcome?.map (fun out => out.toOption.map FetchResult.aborted) =
      some (some ab)) : ∃ res, w.async i = .finished (.ok res) ∧ res.aborted = ab := by
  obtain ⟨out, hout, hsome⟩ := Option.map_eq_some_iff.1 h
  obtain ⟨res, hres, hab⟩ := Option.map_eq_some_iff.1 hsome
  refine ⟨res, ?_, hab⟩
  rw [async_outcome hout]
  cases out with
  | error e => cases hres
  | ok r => rw [Option.some.inj hres]

/-- The replay is indexed for both topics and handed to the fetch of the first, so the second
is aborted, and 0 is published for it though its replay set holds the message. -/
theorem replay_lost :
    Config.fromEnv messageTables.lib "sub"
        (sampleEnv "cache/a/wis2/#,cache/a/wis2/us/#" "ca-eccc" "https://x") = .ok overlapConfig ∧
      RegistersAt (sampleCtx overlapConfig) (emptyWorld overlapConfig) overlapRun 4 1 overlapCell ∧
      ReplayArrives (sampleCtx overlapConfig) (emptyWorld overlapConfig) overlapRun 4 overlapCell ∧
      countReplayMessages (newYear + 885) overlapEnd.db "ca-eccc" "cache/a/wis2/us/#"
        newYear (newYear + 300) = 1 ∧
      overlapEnd.metrics.messagesFetched (overlapCell.labels overlapConfig .mqtt) = 0 ∧
      overlapEnd.metrics.testAborted (overlapCell.labels overlapConfig .mqtt) = some 1 ∧
      ¬ ReplaysCounted (sampleCtx overlapConfig) (emptyWorld overlapConfig) overlapRun := by
  have hreg : RegistersAt (sampleCtx overlapConfig) (emptyWorld overlapConfig) overlapRun 4 1
      overlapCell := ⟨rfl, ⟨rfl, rfl⟩, rfl⟩
  have harr : ReplayArrives (sampleCtx overlapConfig) (emptyWorld overlapConfig) overlapRun 4
      overlapCell := ⟨15, replayMessage, by decide, rfl, by decide +kernel, by decide +kernel⟩
  refine ⟨by decide +kernel, hreg, harr, by decide +kernel, by decide +kernel, by decide +kernel, ?_⟩
  intro h
  have hend : ∃ res, overlapEnd.async 1 = .finished (.ok res) ∧ res.aborted = true :=
    ended_of (by decide +kernel)
  obtain ⟨res, hres, hab⟩ := hend
  rw [(h 4 1 overlapCell hreg harr res hres).1] at hab
  cases hab

/-- The replay of the sample, for the one topic of its configuration. -/
def oneTopicConfig : Config := sampleConfig ["cache/a/wis2/#"] ["ca-eccc"] ["https://x"]

theorem replays_counted_sample :
    ReplaysCounted (sampleCtx oneTopicConfig) (fullWorld (sampleCtx oneTopicConfig))
      (lonelyRun (sampleCtx oneTopicConfig) [0] 0 replayMessage) := by
  refine (replays_counted_iff (E := sampleCtx oneTopicConfig) (show Config.fromEnv messageTables.lib
    "sub" (sampleEnv "cache/a/wis2/#" "ca-eccc" "https://x") = .ok oneTopicConfig by decide +kernel)
    (· = replayMessage)).2 ?_ _ _ (fresh_init ..) (fun ch hch => by cases hch)
    (fun msg hmsg => deliver_lonelyRun hmsg)
  rintro msg rfl i cell hi -
  have hcell := List.mem_of_getElem? hi
  have hcells : (sampleCtx oneTopicConfig).cfg.cells = [⟨"cache/a/wis2/#", "ca-eccc", "https://x"⟩] := rfl
  rw [hcells] at hi hcell
  obtain rfl := List.mem_singleton.1 hcell
  refine ⟨by decide +kernel, fun j cell' hj _ => ?_⟩
  have h1 := (List.getElem?_eq_some_iff.1 hi).1
  rw [hcells] at hj
  have h2 := (List.getElem?_eq_some_iff.1 hj).1
  simp only [List.length_singleton] at h1 h2
  omega

end Scgrep
