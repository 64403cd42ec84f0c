import Scgrep.Proof.CycleRun

/-!
# Which counter a replay goes to

* `replayRecord`, `replay_deliver`: what the handling of a replay does to a replay set.
* `RegOK`: while an asynchronous fetch holds a counter, its channel is active with
  that counter, unless another cell has the same channel (`regOK_run`).
* `route_own`: a replay that only the channel of a cell matches goes to its counter.
* `recorded_step`: a counter that has recorded a replay keeps it.
-/

namespace Scgrep

open Redis

/-! ## Replays -/

/-- What a replay message stores: for which centre, which id, at which time, on which topic. -/
structure ReplayRecord where
  centreId : String
  msgId : String
  epoch : ℚ
  topic : String
deriving DecidableEq

/-- The record of a message that is a replay with an id and a time. -/
def replayRecord (L : Lib) (msg : MqttMessage) : Option ReplayRecord :=
  if Text.startsWith msg.topic "replay/" then
    match replayParts msg.topic, parseMessage L msg.payload with
    | some (centreId, originalTopic), .ok (some (msgId, timeValue)) =>
      if refuses L msgId timeValue then none
      else (parseTimeToEpoch L timeValue).map fun epoch => ⟨centreId, msgId, epoch, originalTopic⟩
    | _, _ => none
  else none

/-- Whether a replay message is indexed under the replay key of a cell. -/
def indexesFor (E : Ctx) (cell : Cell) (msg : MqttMessage) : Bool :=
  match replayRecord E.L msg with
  | some r => indexedUnder E.L E.cfg.store r.centreId r.topic (replayKey cell.centreId cell.topic)
  | none => false

variable {E : Ctx}

/-- A record as the set under a key sees it. -/
def ReplayRecord.delivery (E : Ctx) (t : ℚ) (k : String) (r : ReplayRecord) :
    Retention.Delivery String String ℚ :=
  ⟨E.wall t, r.msgId, r.epoch, r.topic, indexedUnder E.L E.cfg.store r.centreId r.topic k⟩

/-- **A message, as a replay set sees it**, is scored and renews the set. -/
theorem replay_deliver (he : 0 ≤ E.cfg.redisExpiry) {w : World} {k : String}
    (hk : keyFamily k = some 'r') (hns : NotStr (w.db k)) (msg : MqttMessage) :
    (w.deliver E msg).db k = ((replayRecord E.L msg).map (ReplayRecord.delivery E w.now k)).toList.foldl
      (Retention.touchStep (E.cfg.redisExpiry : ℚ)) (w.db k) := by
  rw [deliver_db]
  unfold messageOp replayRecord
  by_cases hr : Text.startsWith msg.topic "replay/" = true
  · simp only [hr, if_true]
    cases hm : parseMessage E.L msg.payload with
    | error e => cases replayParts msg.topic <;> rfl
    | ok o =>
      cases o with
      | none => cases replayParts msg.topic <;> rfl
      | some m =>
        obtain ⟨msgId, timeValue⟩ := m
        cases hp : replayParts msg.topic with
        | none =>
          dsimp only
          split <;> rfl
        | some parts =>
          obtain ⟨c, t⟩ := parts
          dsimp only
          split
          · rfl
          simp only [Option.map_some, Option.toList_some, List.foldl_cons, List.foldl_nil,
            StoreOp.run]
          cases ht : parseTimeToEpoch E.L timeValue with
          | none => rw [storeReplayMessage_unparsed ht]; rfl
          | some τ => rw [storeReplayMessage_at he hns _ _ _ ht]; rfl
  · -- a live message does not touch the replay sets
    have hr' : Text.startsWith msg.topic "replay/" = false := by simpa using hr
    simp only [hr', Bool.false_eq_true, if_false]
    cases hm : parseMessage E.L msg.payload with
    | error e => rfl
    | ok o =>
      cases o with
      | none => rfl
      | some m =>
        dsimp only
        split
        · rfl
        · exact storeMessage_frame (by rw [hk]; decide) (by rw [hk]; decide) _ _ _ _ _

theorem startsWith_of_indexesFor {cell : Cell} {msg : MqttMessage} (h : indexesFor E cell msg = true) :
    Text.startsWith msg.topic "replay/" = true := by
  unfold indexesFor replayRecord at h
  by_contra hr
  rw [if_neg hr] at h
  cases h

/-! ## Routing -/

/-- A replay goes to the only matching channel. -/
theorem route_own {L : Lib} {reg : ReplayRegistry} {topic ch : String} {k : ℕ}
    (hk : reg.active.get? ch = some k) (hm : channelMatches L ch topic = true)
    (hu : ∀ ch' ∈ reg.active.items.map Prod.fst, channelMatches L ch' topic = true → ch' = ch) :
    reg.route L topic = some k := by
  unfold ReplayRegistry.route
  cases hf : reg.active.items.find? fun item => channelMatches L item.1 topic with
  | none =>
    have hno := List.find?_eq_none.1 hf (ch, k) (Dict.get?_eq_some.1 hk)
    exact absurd hm hno
  | some item =>
    obtain ⟨ch', k'⟩ := item
    have hmem := List.mem_of_find?_eq_some hf
    have hch' : channelMatches L ch' topic = true :=
      List.find?_some (p := fun item : String × ℕ => channelMatches L item.1 topic) hf
    have hch : ch' = ch := hu ch' (List.mem_map_of_mem hmem) hch'
    subst hch
    rw [Dict.get?_eq_some.2 hmem] at hk
    rw [Option.map_some, hk]

/-- A replay goes to the counter of a matching channel. -/
theorem route_mem {L : Lib} {reg : ReplayRegistry} {topic : String} {k : ℕ}
    (h : reg.route L topic = some k) :
    ∃ ch, reg.active.get? ch = some k ∧ channelMatches L ch topic = true := by
  unfold ReplayRegistry.route at h
  obtain ⟨⟨ch, k'⟩, hf, rfl⟩ := Option.map_eq_some_iff.1 h
  exact ⟨ch, Dict.get?_eq_some.2 (List.mem_of_find?_eq_some hf),
    List.find?_some (p := fun item : String × ℕ => channelMatches L item.1 topic) hf⟩

/-- No other cell has the channel of cell `i`. -/
def SoleChannel (E : Ctx) (i : ℕ) (cell : Cell) : Prop :=
  ∀ (j : ℕ) (cell' : Cell), E.cfg.cells[j]? = some cell' → E.channel cell' = E.channel cell → j = i

/-- The active channels are channels of cells. -/
def OwnChannels (E : Ctx) (reg : ReplayRegistry) : Prop :=
  ∀ ch ∈ reg.active.items.map Prod.fst,
    ∃ (j : ℕ) (cell : Cell), E.cfg.cells[j]? = some cell ∧ E.channel cell = ch

/-- What holds of the registry during a cycle. -/
structure RegOK (E : Ctx) (w : World) : Prop where
  channels : OwnChannels E w.reg
  own : ∀ (i : ℕ) (cell : Cell) (k : ℕ), E.cfg.cells[i]? = some cell → SoleChannel E i cell →
    (w.async i).counter? = some k → w.reg.active.get? (E.channel cell) = some k ∧ k < w.reg.made

/-- A step of another fetch, or one that registers nothing, keeps the registry in order. -/
theorem RegOK.of_eq {w w' : World} (h : RegOK E w) (hr : w'.reg = w.reg)
    (ha : ∀ i k, (w'.async i).counter? = some k → (w.async i).counter? = some k) : RegOK E w' := by
  refine ⟨by rw [hr]; exact h.channels, fun i cell k hi hs hc => ?_⟩
  rw [hr]
  exact h.own i cell k hi hs (ha i k hc)

/-- A fetch that moves on without its channel changing. -/
theorem RegOK.setAsync {w : World} (h : RegOK E w) {i : ℕ} {s : AsyncState}
    (hs : ∀ k, s.counter? = some k → (w.async i).counter? = some k) : RegOK E (w.setAsync i s) := by
  refine h.of_eq rfl fun j k hk => ?_
  rw [setAsync_async] at hk
  by_cases hj : j = i
  · rw [if_pos hj] at hk; rw [hj]; exact hs k hk
  · rw [if_neg hj] at hk; exact hk

/-- A fetch that ends and gives its channel up. -/
theorem RegOK.leave {w : World} (h : RegOK E w) {i : ℕ} {cell : Cell}
    (hi : E.cfg.cells[i]? = some cell) (out : Outcome) :
    RegOK E (({ w with reg := w.reg.unregister (E.channel cell) }).setAsync i (.finished out)) := by
  refine ⟨fun ch hch => h.channels ch (Dict.mem_keys_erase hch), fun j cell' k hj hs hk => ?_⟩
  rw [setAsync_async] at hk
  by_cases hji : j = i
  · rw [if_pos hji] at hk; cases hk
  · rw [if_neg hji] at hk
    obtain ⟨h1, h2⟩ := h.own j cell' k hj hs hk
    -- the channel given up is another one
    have hne : E.channel cell' ≠ E.channel cell := fun heq => hji (hs i cell hi heq.symm).symm
    refine ⟨?_, h2⟩
    show (w.reg.active.erase (E.channel cell)).get? (E.channel cell') = some k
    rw [Dict.get?_erase, if_neg hne, h1]

/-- A message changes counters, but no channel. -/
theorem RegOK.deliver {w : World} (h : RegOK E w) (msg : MqttMessage) : RegOK E (w.deliver E msg) := by
  have hact : (w.deliver E msg).reg.active = w.reg.active ∧
      (w.deliver E msg).reg.made = w.reg.made := by
    rw [deliver_reg]
    split
    · unfold ReplayRegistry.handleReplay
      split <;> exact ⟨rfl, rfl⟩
    · exact ⟨rfl, rfl⟩
  refine ⟨?_, fun i cell k hi hs hc => ?_⟩
  · unfold OwnChannels
    rw [hact.1]
    exact h.channels
  · rw [hact.1, hact.2]
    exact h.own i cell k hi hs hc

/-- A fetch that takes its channel: the new counter is no other fetch's. -/
theorem RegOK.register {w : World} (h : RegOK E w) {i : ℕ} {cell : Cell}
    (hi : E.cfg.cells[i]? = some cell) :
    RegOK E (({ w with reg := w.reg.register (E.channel cell) }).setAsync i
      (.registered w.reg.made)) := by
  refine ⟨fun ch hch => ?_, fun j cell' k hj hs hk => ?_⟩
  · rcases Dict.mem_keys_set hch with rfl | hch
    · exact ⟨i, cell, hi, rfl⟩
    · exact h.channels ch hch
  · rw [setAsync_async] at hk
    show (w.reg.active.set (E.channel cell) w.reg.made).get? (E.channel cell') = some k ∧
      k < w.reg.made + 1
    by_cases hji : j = i
    · subst hji
      rw [if_pos rfl] at hk
      obtain rfl := Option.some.inj hk
      obtain rfl : cell = cell' := Option.some.inj (hi.symm.trans hj)
      exact ⟨Dict.get?_set_self _ _ _, by omega⟩
    · rw [if_neg hji] at hk
      obtain ⟨h1, h2⟩ := h.own j cell' k hj hs hk
      -- a sole channel is not the one taken
      have hne : E.channel cell' ≠ E.channel cell := fun heq => hji (hs i cell hi heq.symm).symm
      exact ⟨by rw [Dict.get?_set_ne _ hne, h1], by omega⟩

theorem RegOK.step {w w' : World} {e : Event} (hw : RegOK E w) (h : StepTo E w e w') :
    RegOK E w' := by
  cases h with
  | deliver msg => exact hw.deliver msg
  | register hi ha => exact hw.register hi.1
  | post hi ha => exact hw.setAsync fun k hk => by rw [ha]; exact hk
  | @postReply i cell k start x hi ha =>
    refine hw.setAsync fun k' hk => ?_
    rw [ha]
    cases hr : asyncPost E.L (E.call cell) E.cfg.subscriberId E.brokerAuthorities start w.now x with
    | error e => rw [hr] at hk; cases hk
    | ok a => rw [hr] at hk; exact hk
  | wait hi ha hs he => exact hw.setAsync fun k hk => by rw [ha]; exact hk
  | skip hi ha hs he => exact hw.leave hi.1 _
  | finish hi ha hd => exact hw.leave hi.1 _
  | _ => exact hw.of_eq rfl fun _ _ h => h

/-- **The registry is in order** at every instant of a cycle. -/
theorem regOK_run {w₀ : World} (hf : Fresh w₀) (hr : OwnChannels E w₀.reg) (es : List Event) (n : ℕ) :
    RegOK E (worldAt E w₀ es n) := by
  refine run_keeps (fun w e h => h.step (step_spec w e)) _ _ ⟨hr, fun i cell k _ _ h => ?_⟩
  rw [hf.async] at h
  cases h

/-! ## Counters -/

/-- The counter was made and has recorded a replay. -/
def Recorded (w : World) (k : ℕ) : Prop :=
  k < w.reg.made ∧ (w.reg.counters k).firstMonotonic ≠ none

theorem record_ne_none (now : ℚ) (c : ReplayCounter) : (c.record now).firstMonotonic ≠ none :=
  Option.some_ne_none _

/-- A counter that has recorded a replay keeps it. -/
theorem recorded_step {w : World} {k : ℕ} (h : Recorded w k) (e : Event) :
    Recorded (w.step E e) k := by
  have hst := step_spec (E := E) w e
  generalize w.step E e = w' at hst
  obtain ⟨hk, hc⟩ := h
  cases hst with
  | deliver msg =>
    unfold Recorded
    rw [deliver_reg]
    split
    · unfold ReplayRegistry.handleReplay
      split
      · exact ⟨hk, hc⟩
      · rename_i k' hr
        refine ⟨hk, ?_⟩
        by_cases hkk : k = k'
        · rw [hkk]
          show (Function.update w.reg.counters k' _ k').firstMonotonic ≠ none
          rw [Function.update_self]; exact record_ne_none _ _
        · show (Function.update w.reg.counters k' _ k).firstMonotonic ≠ none
          rw [Function.update_of_ne hkk]; exact hc
    · exact ⟨hk, hc⟩
  | register hi ha =>
    -- the new counter is another one
    have hk' : k ≠ w.reg.made := by omega
    refine ⟨Nat.lt_succ_of_lt hk, ?_⟩
    show (Function.update w.reg.counters w.reg.made ReplayCounter.new k).firstMonotonic ≠ none
    rw [Function.update_of_ne hk']
    exact hc
  | _ => exact ⟨hk, hc⟩

/-- A routed replay is recorded. -/
theorem recorded_of_route {w : World} {k : ℕ} (hk : k < w.reg.made) {msg : MqttMessage}
    (hr : Text.startsWith msg.topic "replay/" = true) (hroute : w.reg.route E.L msg.topic = some k) :
    Recorded (w.step E (.deliver msg)) k := by
  show Recorded (w.deliver E msg) k
  unfold Recorded
  rw [deliver_reg, if_pos hr]
  unfold ReplayRegistry.handleReplay
  rw [hroute]
  refine ⟨hk, ?_⟩
  show (Function.update w.reg.counters k _ k).firstMonotonic ≠ none
  rw [Function.update_self]
  exact record_ne_none _ _

end Scgrep
