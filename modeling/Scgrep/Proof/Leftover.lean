import Scgrep.Proof.Completion

/-!
# What a cycle leaves in the registry

A channel is registered by a fetch and given up by it, except when the fetch
raises. `leftover_channels`: after any number of completed cycles the only active
channels are those of fetches that raised in the last one, on an answer that is
nested too deeply; every other channel of an earlier cycle was registered again
and given up.
-/

namespace Scgrep

open World

variable {E : Ctx}

/-! ## A published cycle is over -/

/-- The first `k` fetches are over. -/
def World.Over (w : World) (k : ℕ) : Prop := ∀ j < k, w.future j ≠ none

theorem future_step {w : World} {j : ℕ} (h : w.future j ≠ none) (e : Event) :
    (w.step E e).future j = w.future j := by
  obtain ⟨out, hout⟩ := Option.ne_none_iff_exists'.1 h
  rw [hout]
  unfold World.future at hout ⊢
  split at hout
  · rename_i hj
    rw [if_pos hj, sync_finished_step (sync_outcome hout)]; rfl
  · rename_i hj
    rw [if_neg hj, async_finished_step (async_outcome hout)]; rfl

theorem over_step {w : World} {k : ℕ} (h : w.Over k) (e : Event) : (w.step E e).Over k := by
  intro j hj
  rw [future_step (h j hj)]
  exact h j hj

/-- The fetches the main thread has collected are over. -/
structure Collected (E : Ctx) (w : World) : Prop where
  collecting : ∀ k, w.main = .collecting k → w.Over k
  published : w.main = .published → w.Over (2 * E.cfg.cells.length)

theorem collected_step {w : World} (h : Collected E w) (e : Event) : Collected E (w.step E e) := by
  rcases main_moved (E := E) w e with hm | ⟨-, hm⟩ | ⟨-, hm⟩ | ⟨k, hk, -, hf, hm⟩ | ⟨hk, -, hm⟩
  · exact ⟨fun k hk => over_step (h.collecting k (hm ▸ hk)) e,
      fun hp => over_step (h.published (hm ▸ hp)) e⟩
  · exact ⟨fun k hk => (by rw [hm] at hk; cases hk), fun hp => (by rw [hm] at hp; cases hp)⟩
  · refine ⟨fun k hk => ?_, fun hp => by rw [hm] at hp; cases hp⟩
    rw [hm] at hk; cases hk
    intro j hj; omega
  · refine ⟨fun k' hk' => ?_, fun hp => by rw [hm] at hp; cases hp⟩
    rw [hm] at hk'; cases hk'
    refine over_step (fun j hj => ?_) e
    rcases Nat.lt_succ_iff_lt_or_eq.1 hj with hlt | rfl
    · exact h.collecting k hk j hlt
    · exact hf
  · exact ⟨fun k hk => (by rw [hm] at hk; cases hk), fun _ => over_step (h.collecting _ hk) e⟩

theorem async_over {w : World} (h : w.Over (2 * E.cfg.cells.length)) {i : ℕ}
    (hi : i < E.cfg.cells.length) : ∃ out, w.async i = .finished out := by
  have hf := h (2 * i + 1) (by omega)
  unfold World.future at hf
  rw [if_neg (by omega), show (2 * i + 1) / 2 = i by omega] at hf
  obtain ⟨out, hout⟩ := Option.ne_none_iff_exists'.1 hf
  exact ⟨out, async_outcome hout⟩

/-! ## Who holds a channel -/

/-- The fetch has registered its channel and not given it up. -/
def AsyncState.Holds (s : AsyncState) : Prop :=
  s.counter? ≠ none ∨ s = .finished (.error .recursionError)

/-- A fetch of the channel holds it. -/
def Held (E : Ctx) (w : World) (ch : String) : Prop :=
  ∃ i cell, E.cfg.cells[i]? = some cell ∧ E.channel cell = ch ∧ (w.async i).Holds

/-- The channel was active before, and no fetch of it has begun. -/
def Inherited (E : Ctx) (reg : ReplayRegistry) (w : World) (ch : String) : Prop :=
  reg.active.get? ch ≠ none ∧
    ∀ i cell, E.cfg.cells[i]? = some cell → E.channel cell = ch → w.async i = .ready

/-- Every active channel is held or inherited. -/
def Owned (E : Ctx) (reg : ReplayRegistry) (w : World) : Prop :=
  ∀ ch, w.reg.active.get? ch ≠ none → Held E w ch ∨ Inherited E reg w ch

theorem asyncPost_error {L : Lib} {c : FetchCall} {s : String} {authorities : List String}
    {start now : ℚ} {x : Exchange} {e : PyErr}
    (h : asyncPost L c s authorities start now x = .error e) : e = .recursionError := by
  unfold asyncPost at h
  cases x with
  | fails => cases h
  | broken s => cases h
  | answer s t =>
    dsimp only at h
    split at h
    · cases h
    · cases h; rfl
    · split at h <;> cases h

/-- A fetch that moves on without giving its channel up still holds it. -/
theorem owned_setAsync {reg : ReplayRegistry} {w : World} (h : Owned E reg w) {i : ℕ} {s : AsyncState}
    (hr : w.async i ≠ .ready) (hs : s.Holds) : Owned E reg (w.setAsync i s) := by
  intro ch hact
  rcases h ch hact with ⟨j, cell, hj, hch, hh⟩ | ⟨hin, hready⟩
  · refine Or.inl ⟨j, cell, hj, hch, ?_⟩
    rw [setAsync_async]
    split
    · exact hs
    · exact hh
  · refine Or.inr ⟨hin, fun j cell hj hch => ?_⟩
    rw [setAsync_async, if_neg]
    · exact hready j cell hj hch
    · rintro rfl; exact hr (hready _ cell hj hch)

/-- A fetch that ends gives its channel up. -/
theorem owned_leave {reg : ReplayRegistry} {w : World} (h : Owned E reg w) {i : ℕ} {cell : Cell}
    (hi : E.cfg.cells[i]? = some cell) (hr : w.async i ≠ .ready) (out : Outcome) :
    Owned E reg (({ w with reg := w.reg.unregister (E.channel cell) }).setAsync i (.finished out)) := by
  intro ch hact
  change (w.reg.active.erase (E.channel cell)).get? ch ≠ none at hact
  rw [Dict.get?_erase] at hact
  split at hact
  · exact absurd rfl hact
  rename_i hne
  -- the fetches of the other channels are where they were
  rcases h ch hact with ⟨j, cell', hj, hch, hh⟩ | ⟨hin, hready⟩
  · refine Or.inl ⟨j, cell', hj, hch, ?_⟩
    rw [setAsync_async, if_neg]
    · exact hh
    · rintro rfl
      obtain rfl : cell = cell' := Option.some.inj (hi.symm.trans hj)
      exact hne hch.symm
  · refine Or.inr ⟨hin, fun j cell' hj hch => ?_⟩
    rw [setAsync_async, if_neg]
    · exact hready j cell' hj hch
    · rintro rfl; exact hr (hready _ cell' hj hch)

/-- A fetch that begins takes its channel. -/
theorem owned_register {reg : ReplayRegistry} {w : World} (h : Owned E reg w) {i : ℕ} {cell : Cell}
    (hi : E.cfg.cells[i]? = some cell) :
    Owned E reg (({ w with reg := w.reg.register (E.channel cell) }).setAsync i
      (.registered w.reg.made)) := by
  have hholds : (AsyncState.registered w.reg.made).Holds :=
    Or.inl (Option.some_ne_none w.reg.made)
  intro ch hact
  by_cases hne : ch = E.channel cell
  · refine Or.inl ⟨i, cell, hi, hne.symm, ?_⟩
    rw [setAsync_async, if_pos rfl]
    exact hholds
  change (w.reg.active.set (E.channel cell) w.reg.made).get? ch ≠ none at hact
  rw [Dict.get?_set_ne _ hne] at hact
  rcases h ch hact with ⟨j, cell', hj, hch, hh⟩ | ⟨hin, hready⟩
  · refine Or.inl ⟨j, cell', hj, hch, ?_⟩
    rw [setAsync_async]
    split
    · exact hholds
    · exact hh
  · refine Or.inr ⟨hin, fun j cell' hj hch => ?_⟩
    rw [setAsync_async, if_neg]
    · exact hready j cell' hj hch
    · rintro rfl
      obtain rfl : cell = cell' := Option.some.inj (hi.symm.trans hj)
      exact hne hch.symm

/-- A message changes no channel. -/
theorem deliver_active (w : World) (msg : MqttMessage) :
    (w.deliver E msg).reg.active = w.reg.active := by
  rw [deliver_reg]
  split
  · unfold ReplayRegistry.handleReplay
    split <;> rfl
  · rfl

theorem owned_step {reg : ReplayRegistry} {w : World} (h : Owned E reg w) (e : Event) :
    Owned E reg (w.step E e) := by
  have hs := step_spec (E := E) w e
  generalize w.step E e = w' at hs
  have hcounter : ∀ {s : AsyncState} {k : ℕ}, s.counter? = some k → s.Holds :=
    fun hk => Or.inl (by rw [hk]; exact Option.some_ne_none _)
  cases hs with
  | deliver msg =>
    intro ch hact
    rw [deliver_active] at hact
    exact h ch hact
  | register hi ha => exact owned_register h hi.1
  | post hi ha => exact owned_setAsync h (by rw [ha]; exact fun h => by cases h) (hcounter rfl)
  | @postReply i cell k start x hi ha =>
    refine owned_setAsync h (by rw [ha]; exact fun h => by cases h) ?_
    cases hr : asyncPost E.L (E.call cell) E.cfg.subscriberId E.brokerAuthorities start w.now x with
    | error e => rw [asyncPost_error hr]; exact Or.inr rfl
    | ok a => exact hcounter rfl
  | wait hi ha hs he => exact owned_setAsync h (by rw [ha]; exact fun h => by cases h) (hcounter rfl)
  | skip hi ha hs he => exact owned_leave h hi.1 (by rw [ha]; exact fun h => by cases h) _
  | finish hi ha hd => exact owned_leave h hi.1 (by rw [ha]; exact fun h => by cases h) _
  | _ => exact h

/-! ## Cycle after cycle -/

/-- The states of the completed cycles of a process, each with the registry the one before left.
What is delivered between two cycles is delivered at the end of the first. -/
inductive Completed (L : Lib) (cfg : Config) : Ctx → World → Prop
  | first {E : Ctx} (hL : E.L = L) (hcfg : E.cfg = cfg) (db : Db) (m : Metrics) (es : List Event)
      (hpub : ((World.init E db .new m).run E es).main = .published) :
      Completed L cfg E ((World.init E db .new m).run E es)
  | next {E₀ E : Ctx} {w : World} (h : Completed L cfg E₀ w) (hL : E.L = L) (hcfg : E.cfg = cfg)
      (db : Db) (m : Metrics) (es : List Event)
      (hpub : ((World.init E db w.reg m).run E es).main = .published) :
      Completed L cfg E ((World.init E db w.reg m).run E es)

/-- After one cycle. -/
theorem leftover_cycle {db : Db} {reg : ReplayRegistry} {m : Metrics} {es : List Event}
    (hpub : ((World.init E db reg m).run E es).main = .published) {ch : String}
    (hact : ((World.init E db reg m).run E es).reg.active.get? ch ≠ none) :
    (∃ i cell, E.cfg.cells[i]? = some cell ∧ E.channel cell = ch ∧
        ((World.init E db reg m).run E es).async i = .finished (.error .recursionError)) ∨
      reg.active.get? ch ≠ none ∧ ∀ cell ∈ E.cfg.cells, E.channel cell ≠ ch := by
  have hcoll : Collected E ((World.init E db reg m).run E es) :=
    run_keeps (P := Collected E) (fun w e h => collected_step h e) es _
      ⟨fun k hk => (by cases hk), fun hp => (by cases hp)⟩
  have hover := hcoll.published hpub
  have howned : Owned E reg ((World.init E db reg m).run E es) :=
    run_keeps (P := Owned E reg) (fun w e h => owned_step h e) es _ fun ch hch => Or.inr ⟨hch, fun _ _ _ _ => rfl⟩
  rcases howned ch hact with ⟨i, cell, hi, hch, hh⟩ | ⟨hin, hready⟩
  · refine Or.inl ⟨i, cell, hi, hch, ?_⟩
    obtain ⟨out, hout⟩ := async_over hover (List.getElem?_eq_some_iff.1 hi).1
    rcases hh with hc | hh
    · rw [hout] at hc; exact absurd rfl hc
    · exact hh
  · refine Or.inr ⟨hin, fun cell hcell hch => ?_⟩
    obtain ⟨i, hi⟩ := List.mem_iff_getElem?.1 hcell
    obtain ⟨out, hout⟩ := async_over hover (List.getElem?_eq_some_iff.1 hi).1
    rw [hready i cell hi hch] at hout
    cases hout

/-- The channels are the same in every cycle. -/
theorem channel_cfg {E₀ : Ctx} (h : E.cfg = E₀.cfg) (cell : Cell) :
    E.channel cell = E₀.channel cell := by
  unfold Ctx.channel FetchCall.expectedChannel FetchCall.channelPrefix Ctx.call
  rw [h]

/-- **Nothing is left registered** after a completed cycle but the channels of fetches that
raised in it. -/
theorem leftover_channels {L : Lib} {cfg : Config} {w : World} (h : Completed L cfg E w)
    (ch : String) (hact : w.reg.active.get? ch ≠ none) :
    ∃ i cell, cfg.cells[i]? = some cell ∧ E.channel cell = ch ∧
      w.async i = .finished (.error .recursionError) := by
  induction h generalizing ch with
  | @first E hL hcfg db m es hpub =>
    rw [← hcfg]
    rcases leftover_cycle hpub hact with h | ⟨hin, -⟩
    · exact h
    · exact absurd rfl hin
  | @next E₀ E w h hL hcfg db m es hpub ih =>
    rcases leftover_cycle hpub hact with h' | ⟨hin, hno⟩
    · rw [← hcfg]; exact h'
    -- a channel an earlier cycle left is that of a cell of this one
    · obtain ⟨i, cell, hi, hch, -⟩ := ih ch hin
      have hcfg₀ : E₀.cfg = cfg := by cases h <;> assumption
      refine absurd ?_ (hno cell (hcfg ▸ List.mem_of_getElem? hi))
      rw [channel_cfg (hcfg.trans hcfg₀.symm)]
      exact hch

/-- A body nested too deeply. -/
def deepTables : Tables := { sampleTables with jsons := [("[[[", .recursionError)] }

/-- Two topics are tested against one service. -/
def deepCtx (started : ℚ) : Ctx :=
  ⟨deepTables.lib, sampleConfig ["cache/a/wis2/#", "origin/a/wis2/#"] ["ca-eccc"] ["https://x"], started, newYear⟩

/-- A cycle in which the POST of one cell is answered with that body; all other requests fail. -/
def deepCycle (deep : ℕ) : List Event :=
  let reply (i : ℕ) : Exchange := if i = deep then .answer 201 "[[[" else .fails
  [.readBaselines, .clear, .syncBegin 0, .syncReply 0 .fails, .register 0, .post 0, .postReply 0 (reply 0),
    .syncBegin 1, .syncReply 1 .fails, .register 1, .post 1, .postReply 1 (reply 1), .decide 0, .decide 1,
    .collect, .collect, .collect, .collect, .tick 285, .publish, .tick 15]

/-- At the end of the first cycle. -/
def deepWorld : World := (World.init (deepCtx 0) Redis.Db.empty .new Metrics.new).run (deepCtx 0) (deepCycle 0)

/-- At the end of the next one, in which the other cell's answer is nested too deeply. -/
def deeperWorld : World :=
  (World.init (deepCtx 300) Redis.Db.empty deepWorld.reg Metrics.new).run (deepCtx 300) (deepCycle 1)

-- the channel that the first cycle leaves is given up in the second
example : deepWorld.reg.active.items.map Prod.fst = ["replay/a/wis2/ca-eccc/sub/cache/a/wis2/#"] ∧
    deeperWorld.reg.active.items.map Prod.fst = ["replay/a/wis2/ca-eccc/sub/origin/a/wis2/#"] := by decide +kernel

theorem deepWorld_completed : Completed deepTables.lib (deepCtx 0).cfg (deepCtx 0) deepWorld :=
  .first (E := deepCtx 0) rfl rfl Redis.Db.empty Metrics.new (deepCycle 0) (by decide +kernel)

theorem deeperWorld_completed : Completed deepTables.lib (deepCtx 0).cfg (deepCtx 300) deeperWorld :=
  .next (E := deepCtx 300) deepWorld_completed rfl rfl Redis.Db.empty Metrics.new (deepCycle 1) (by decide +kernel)

theorem leftover_sample :
    ∃ i cell, (deepCtx 0).cfg.cells[i]? = some cell ∧
      (deepCtx 300).channel cell = "replay/a/wis2/ca-eccc/sub/origin/a/wis2/#" ∧
      deeperWorld.async i = .finished (.error .recursionError) :=
  leftover_channels deeperWorld_completed _ (by decide +kernel)

end Scgrep
