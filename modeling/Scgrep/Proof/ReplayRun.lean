import Scgrep.Proof.SyncRun

/-!
# When the mqtt count is what was to be replayed

* `async_returns`, `waited`: a fetch whose POST can be decoded returns, and one that
  expects messages is not over before the deadline.
* `Replays.fetched`: **when every id of a set is replayed in time for a cell, and nothing
  else with a time in the window, the published count is the size of that set.** The
  replays may come in any order, any number of times, with others among them.
-/

namespace Scgrep

open Redis

variable {E : Ctx} {w₀ : World} {es : List Event}

/-! ## How the fetch ends -/

theorem asyncPost_returns {L : Lib} (c : FetchCall) (s : String) (auth : List String) (start now : ℚ)
    {x : Exchange} (hx : x.Decodes L) : ∃ a, asyncPost L c s auth start now x = .ok a := by
  unfold asyncPost
  cases x with
  | fails => exact ⟨_, rfl⟩
  | broken status => exact ⟨_, rfl⟩
  | answer status text =>
    have hdec := hx status text rfl
    dsimp only
    cases hl : L.loads text with
    | recursionError => exact absurd hl hdec
    | valueError => exact ⟨_, rfl⟩
    | ok v =>
      dsimp only
      split <;> exact ⟨_, rfl⟩

/-- A fetch returns when the answer to its POST can be decoded. -/
theorem async_returns (hf : Fresh w₀) {i : ℕ}
    (hpost : ∀ (n : ℕ) (x : Exchange), es[n]? = some (.postReply i x) → x.Decodes E.L) {n : ℕ} (hn : n ≤ es.length)
    {out : Outcome} (h : (worldAt E w₀ es n).async i = .finished out) : ∃ res, out = .ok res := by
  induction n generalizing out with
  | zero => rw [worldAt_zero, hf.async] at h; cases h
  | succ n ih =>
    obtain ⟨e, he⟩ : ∃ e, es[n]? = some e := ⟨es[n], List.getElem?_eq_getElem (by omega)⟩
    have hst := step_spec (E := E) (worldAt E w₀ es n) e
    rw [← worldAt_succ he] at hst
    have hold : (worldAt E w₀ es (n + 1)).async i = (worldAt E w₀ es n).async i → ∃ res, out = .ok res :=
      fun heq => ih (by omega) (by rw [← heq, h])
    generalize worldAt E w₀ es (n + 1) = w' at hst h hold
    -- only a step of the fetch itself can end it
    have hself : ∀ {j : ℕ} {s : AsyncState} {v : World}, w' = v.setAsync j s →
        v.async = (worldAt E w₀ es n).async → (j = i → s = .finished out → ∃ res, out = .ok res) →
          ∃ res, out = .ok res := by
      rintro j s v rfl hv hs
      by_cases hji : j = i
      · refine hs hji ?_
        rw [setAsync_async, if_pos hji.symm] at h
        exact h
      · refine hold ?_
        rw [setAsync_async, if_neg (Ne.symm hji), hv]
    cases hst with
    | register hi ha => exact hself rfl rfl fun _ hs => by cases hs
    | post hi ha => exact hself rfl rfl fun _ hs => by cases hs
    | @postReply j cell k start x hi ha =>
      refine hself rfl rfl fun hji hs => ?_
      subst hji
      obtain ⟨a, ha'⟩ := asyncPost_returns (E.call cell) E.cfg.subscriberId E.brokerAuthorities start
        (worldAt E w₀ es n).now (hpost n x he)
      rw [ha'] at hs
      cases hs
    | wait hi ha hs he => exact hself rfl rfl fun _ hs => by cases hs
    | skip hi ha hs he => exact hself rfl rfl fun _ hs => by cases hs; exact ⟨_, rfl⟩
    | finish hi ha hd => exact hself rfl rfl fun _ hs => by cases hs; exact ⟨_, rfl⟩
    | _ => exact hold rfl

/-- The synchronous fetch of the cell ended in a way that lets no messages be expected. -/
def NothingExpected (i : ℕ) (w : World) : Prop :=
  ∃ out b, w.sync i = .finished out ∧ expectMessages (numberMatchedFrom out) b = false

/-- A fetch that returns has waited for the deadline or expected nothing. -/
theorem waited_step {w : World} {i : ℕ}
    (h : ∀ res, w.async i = .finished (.ok res) → E.deadlineAt ≤ w.now ∨ NothingExpected i w)
    (e : Event) : ∀ res, (w.step E e).async i = .finished (.ok res) →
      E.deadlineAt ≤ (w.step E e).now ∨ NothingExpected i (w.step E e) := by
  intro res hres
  have hnow : w.now ≤ (w.step E e).now := by rw [now_step]; exact le_clock _ _
  have hstay : NothingExpected i w → NothingExpected i (w.step E e) := by
    rintro ⟨out, b, hs, hb⟩
    exact ⟨out, b, sync_finished_step hs e, hb⟩
  rcases async_moved (E := E) w e i with h' | ⟨cell, -, h'⟩
  · rcases h res (h' ▸ hres) with hd | hno
    · exact Or.inl (hd.trans hnow)
    · exact Or.inr (hstay hno)
  · rw [hres] at h'
    generalize w.async i = s at h'
    generalize ht : AsyncState.finished (.ok res) = t at h'
    cases h' with
    | reply k start x =>
      cases hr : asyncPost E.L (E.call cell) E.cfg.subscriberId E.brokerAuthorities start w.now x with
      | error e => rw [hr] at ht; cases ht
      | ok a => rw [hr] at ht; cases ht
    | skip k a out hs he => exact Or.inr (hstay ⟨out, _, sync_outcome hs, he⟩)
    | finish k a hd => exact Or.inl (hd.trans hnow)
    | register => cases ht
    | post k => cases ht
    | wait k a out hs he => cases ht

/-- **A fetch that expects messages waits for the deadline.** -/
theorem waited (hf : Fresh w₀) {n i : ℕ} {res : FetchResult}
    (hres : (worldAt E w₀ es n).async i = .finished (.ok res))
    (hexp : ∀ out, (worldAt E w₀ es n).sync i = .finished out →
      ∃ N, numberMatchedFrom out = some N ∧ 0 < N) : E.deadlineAt ≤ (worldAt E w₀ es n).now := by
  have hrun : ∀ res, (worldAt E w₀ es n).async i = .finished (.ok res) →
      E.deadlineAt ≤ (worldAt E w₀ es n).now ∨ NothingExpected i (worldAt E w₀ es n) := by
    refine run_keeps (P := fun w => ∀ res, w.async i = .finished (.ok res) →
      E.deadlineAt ≤ w.now ∨ NothingExpected i w) (fun w e h => waited_step h e) _ _ ?_
    intro res hres
    rw [hf.async] at hres
    cases hres
  rcases hrun res hres with h | ⟨out, b, hs, hb⟩
  · exact h
  · obtain ⟨N, hN, hpos⟩ := hexp out hs
    rw [hN] at hb
    exact absurd hpos (of_decide_eq_false hb)

/-! ## The count -/

/-- After event `r` and before the deadline the id is replayed for the cell alone. -/
def ReplayedIn (E : Ctx) (w₀ : World) (es : List Event) (r : ℕ) (cell : Cell) (x : String) : Prop :=
  ∃ d msg m, r < d ∧ es[d]? = some (.deliver msg) ∧ (worldAt E w₀ es d).now < E.deadlineAt ∧
    replayRecord E.L msg = some m ∧ m.msgId = x ∧ indexesFor E cell msg = true ∧ OneChannel E msg

/-- The ids of `D`, with times in the window, are replayed in time for the registered fetch of
cell `i`; no other id with a time in the window is indexed for it; an id has one time. -/
structure Replays (E : Ctx) (w₀ : World) (es : List Event) (i : ℕ) (cell : Cell) (τ : String → ℚ)
    (D : Finset String) : Prop where
  scored : ∀ msg m, Event.deliver msg ∈ es → replayRecord E.L msg = some m → m.epoch = τ m.msgId
  only : ∀ msg m, Event.deliver msg ∈ es → replayRecord E.L msg = some m →
    indexesFor E cell msg = true → (E.window.start : ℚ) ≤ m.epoch → m.epoch < (E.window.stop : ℚ) →
      m.msgId ∈ D
  within : ∀ x ∈ D, (E.window.start : ℚ) ≤ τ x ∧ τ x < (E.window.stop : ℚ)
  due : ∀ x ∈ D, ∃ r, RegistersAt E w₀ es r i cell ∧ ReplayedIn E w₀ es r cell x

/-- A delivered replay, as the set of a cell sees it. -/
theorem replay_delivery {q n : ℕ} {cell : Cell} {d : Retention.Delivery String String ℚ} :
    d ∈ replaysTo E (replayKey cell.centreId cell.topic) (deliveredIn E w₀ es q n) ↔
      ∃ k msg m, q < k ∧ k < n ∧ es[k]? = some (.deliver msg) ∧ replayRecord E.L msg = some m ∧
        d = ⟨E.wall (worldAt E w₀ es k).now, m.msgId, m.epoch, m.topic, indexesFor E cell msg⟩ := by
  have hhit : ∀ {msg : MqttMessage} {m : ReplayRecord}, replayRecord E.L msg = some m →
      indexesFor E cell msg =
        indexedUnder E.L E.cfg.store m.centreId m.topic (replayKey cell.centreId cell.topic) := by
    intro msg m hm
    unfold indexesFor
    rw [hm]
  rw [mem_replaysTo]
  constructor
  · rintro ⟨t, msg, m, hx, hm, rfl⟩
    obtain ⟨k, hq, hn, hk, rfl⟩ := mem_deliveredIn.1 hx
    exact ⟨k, msg, m, hq, hn, hk, hm, by rw [hhit hm]; rfl⟩
  · rintro ⟨k, msg, m, hq, hn, hk, hm, rfl⟩
    exact ⟨_, msg, m, mem_deliveredIn.2 ⟨k, hq, hn, hk, rfl⟩, hm, by rw [hhit hm]; rfl⟩

namespace Replays

variable {i : ℕ} {cell : Cell} {τ : String → ℚ} {D : Finset String} {q n : ℕ}

/-- What the replay set of the cell holds in the window. -/
theorem mem_set (h : Replays E w₀ es i cell τ D) (he : 0 ≤ E.cfg.redisExpiry)
    (hstart : w₀.now = E.started) (hi : E.cfg.cells[i]? = some cell) (hq : ClearsAt E w₀ es q)
    (hn : q < n) (hend : (worldAt E w₀ es n).now ≤ E.started + (E.cfg.redisExpiry : ℚ)) {x : String} :
    x ∈ zrange (E.wall (worldAt E w₀ es n).now) (E.window.start : ℚ) (E.window.stop : ℚ)
        ((worldAt E w₀ es n).db (replayKey cell.centreId cell.topic)) ↔
      ∃ k msg m, q < k ∧ k < n ∧ es[k]? = some (.deliver msg) ∧ replayRecord E.L msg = some m ∧
        m.msgId = x ∧ indexesFor E cell msg = true ∧ (E.window.start : ℚ) ≤ m.epoch ∧
          m.epoch < (E.window.stop : ℚ) := by
  have hwall : E.wall (worldAt E w₀ es n).now ≤ E.wall E.started + (E.cfg.redisExpiry : ℚ) := by
    unfold Ctx.wall
    linarith
  have hone : Retention.OneScore
      (replaysTo E (replayKey cell.centreId cell.topic) (deliveredIn E w₀ es q n)) := by
    intro d hd d' hd' hid
    obtain ⟨k, msg, m, -, -, hk, hm, rfl⟩ := replay_delivery.1 hd
    obtain ⟨k', msg', m', -, -, hk', hm', rfl⟩ := replay_delivery.1 hd'
    have h1 := h.scored msg m (List.mem_of_getElem? hk) hm
    have h2 := h.scored msg' m' (List.mem_of_getElem? hk') hm'
    have hid : m.msgId = m'.msgId := hid
    show m.epoch = m'.epoch
    rw [h1, h2, hid]
  have htimes : ∀ d ∈ replaysTo E (replayKey cell.centreId cell.topic) (deliveredIn E w₀ es q n),
      E.wall E.started ≤ d.now ∧ d.now ≤ E.wall E.started + (E.cfg.redisExpiry : ℚ) := by
    intro d hd
    obtain ⟨k, msg, m, -, hkn, -, -, rfl⟩ := replay_delivery.1 hd
    have h0 : w₀.now ≤ (worldAt E w₀ es k).now := now_start k
    have h1 : (worldAt E w₀ es k).now ≤ (worldAt E w₀ es n).now := now_mono hkn.le
    rw [hstart] at h0
    show E.wall E.started ≤ E.wall (worldAt E w₀ es k).now ∧ E.wall (worldAt E w₀ es k).now ≤ _
    unfold Ctx.wall at hwall ⊢
    constructor <;> linarith
  rw [replay_set he hq hn hi, Retention.mem_touched _ hone htimes hwall]
  constructor
  · rintro ⟨d, hd, hid, hhit, hlo, hhi⟩
    obtain ⟨k, msg, m, hqk, hkn, hk, hm, rfl⟩ := replay_delivery.1 hd
    exact ⟨k, msg, m, hqk, hkn, hk, hm, hid, hhit, hlo, hhi⟩
  · rintro ⟨k, msg, m, hqk, hkn, hk, hm, hid, hhit, hlo, hhi⟩
    exact ⟨_, replay_delivery.2 ⟨k, msg, m, hqk, hkn, hk, hm, rfl⟩, hid, hhit, hlo, hhi⟩

/-- It holds no others in the window than those of `D`. -/
theorem set_subset (h : Replays E w₀ es i cell τ D) (he : 0 ≤ E.cfg.redisExpiry)
    (hstart : w₀.now = E.started) (hi : E.cfg.cells[i]? = some cell) (hq : ClearsAt E w₀ es q)
    (hn : q < n) (hend : (worldAt E w₀ es n).now ≤ E.started + (E.cfg.redisExpiry : ℚ)) :
    zrange (E.wall (worldAt E w₀ es n).now) (E.window.start : ℚ) (E.window.stop : ℚ)
      ((worldAt E w₀ es n).db (replayKey cell.centreId cell.topic)) ⊆ D := by
  intro x hx
  obtain ⟨k, msg, m, -, -, hk, hm, rfl, hind, hlo, hhi⟩ :=
    (h.mem_set he hstart hi hq hn hend).1 hx
  exact h.only msg m (List.mem_of_getElem? hk) hm hind hlo hhi

/-- **From the deadline on it holds all of them**: each was replayed after the registration, which
comes after the clearing. -/
theorem set_eq (h : Replays E w₀ es i cell τ D) (he : 0 ≤ E.cfg.redisExpiry)
    (hstart : w₀.now = E.started) (hi : E.cfg.cells[i]? = some cell) (hq : ClearsAt E w₀ es q)
    (hn : q < n) (hend : (worldAt E w₀ es n).now ≤ E.started + (E.cfg.redisExpiry : ℚ))
    (hdead : E.deadlineAt ≤ (worldAt E w₀ es n).now) :
    zrange (E.wall (worldAt E w₀ es n).now) (E.window.start : ℚ) (E.window.stop : ℚ)
      ((worldAt E w₀ es n).db (replayKey cell.centreId cell.topic)) = D := by
  refine Finset.Subset.antisymm (h.set_subset he hstart hi hq hn hend) fun x hx => ?_
  obtain ⟨r, hreg, d, msg, m, hrd, hd, hdt, hm, rfl, hind, -⟩ := h.due x hx
  have hqr : q < r := by
    have hphase : (worldAt E w₀ es q).main.phase < (worldAt E w₀ es r).main.phase := by
      rw [hq.2, hreg.fetches.phase]
      exact Nat.one_lt_two
    exact lt_of_phase_lt hphase
  have hdn : d < n := lt_of_now_lt (lt_of_lt_of_le hdt hdead)
  have hepoch := h.scored msg m (List.mem_of_getElem? hd) hm
  obtain ⟨hlo, hhi⟩ := h.within _ hx
  rw [← hepoch] at hlo hhi
  exact (h.mem_set he hstart hi hq hn hend).2
    ⟨d, msg, m, hqr.trans hrd, hdn, hd, hm, rfl, hind, hlo, hhi⟩

/-- **What is published for the replays of a cell** is the number of ids that are due. -/
theorem fetched (h : Replays E w₀ es i cell τ D) (he : 0 ≤ E.cfg.redisExpiry) (hf : Fresh w₀)
    (hstart : w₀.now = E.started) (hr : OwnChannels E w₀.reg)
    (hpub : (w₀.run E es).main = .published) (hn : (E.cfg.cells.map Cell.pair).Nodup)
    (hi : E.cfg.cells[i]? = some cell)
    (hpost : ∀ (n : ℕ) (x : Exchange), es[n]? = some (.postReply i x) → x.Decodes E.L)
    (hexp : D.Nonempty → ∀ (n : ℕ) (out : Outcome), n ≤ es.length →
      (worldAt E w₀ es n).sync i = .finished out → ∃ N, numberMatchedFrom out = some N ∧ 0 < N)
    (hend : (w₀.run E es).now ≤ E.started + (E.cfg.redisExpiry : ℚ)) :
    fetchedIn E w₀ es cell .mqtt = D.card := by
  obtain ⟨b, c, hc⟩ := published_spec hf hpub
  have hlt : i < E.cfg.cells.length := (List.getElem?_eq_some_iff.1 hi).1
  -- the instant of the re-count
  obtain ⟨n, hcol⟩ : ∃ n, CollectsAt E w₀ es n (2 * i + 1) := ⟨_, hc.collects (2 * i + 1) (by omega)⟩
  obtain ⟨q, hq, hclear⟩ := cleared_before hf hcol
  have hle : n < es.length := (List.getElem?_eq_some_iff.1 hcol.1).1
  have hnow : (worldAt E w₀ es n).now ≤ E.started + (E.cfg.redisExpiry : ℚ) := (now_end n).trans hend
  obtain ⟨out, hout⟩ := hcol.2.2.2
  have hfin := future_async hout
  obtain ⟨res, rfl⟩ := async_returns hf hpost hle.le hfin
  rw [fetchedIn_replays hf hpub hn hi hcol (async_at_end hfin)]
  rcases D.eq_empty_or_nonempty with rfl | hne
  · -- nothing is due, and nothing is counted
    have hsub := h.set_subset he hstart hi hclear hq hnow
    rw [Finset.subset_empty.1 hsub, Finset.card_empty, ite_self]
  · have hdead : E.deadlineAt ≤ (worldAt E w₀ es n).now :=
      waited hf hfin fun out hs => hexp hne n out hle.le hs
    have hab : res.aborted = false := by
      obtain ⟨x, hx⟩ := hne
      obtain ⟨r, hreg, d, msg, m, hrd, hd, hdt, -, -, hind, hone⟩ := h.due x hx
      exact not_aborted_of_arrival hf hr hreg hrd hd hdt hind hone (async_at_end hfin)
    rw [if_neg (by rw [hab]; decide), h.set_eq he hstart hi hclear hq hnow hdead]

end Replays

end Scgrep
