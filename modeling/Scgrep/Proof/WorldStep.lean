import Scgrep.Proof.FetchSpec
import Scgrep.Proof.History
import Scgrep.Spec.World

/-!
# What a step of a cycle can do

* `step_spec`: every step is one of the moves of `StepTo`, with the state in which its
  thread can make it; every other event changes nothing.
* `sync_moved`, `async_moved`: the same, as seen from one fetch. A fetch that is over
  stays over (`sync_finished_step`, `async_finished_step`).
* `now_step`: only a tick moves the clock, and never back.
* `deliver_db`, `deliver_reg`: what a message does to the store and to the registry.
-/

namespace Scgrep

/-- The state a synchronous fetch reaches with a response. -/
def SyncState.reached : Outcome ⊕ PageLoop × Json → SyncState
  | .inl out => .finished out
  | .inr (p, q) => .page p q

/-- The state a synchronous fetch reaches with a turn of its loop. -/
def SyncState.turned : Outcome ⊕ PageLoop × String → SyncState
  | .inl out => .finished out
  | .inr (p, nextUrl) => .waiting p nextUrl

/-- The state an asynchronous fetch reaches with the response to its POST. -/
def AsyncState.replied (counter : ℕ) : Except PyErr PostState → AsyncState
  | .error e => .finished (.error e)
  | .ok a => .posted counter a

/-- The counter an asynchronous fetch holds. -/
def AsyncState.counter? : AsyncState → Option ℕ
  | .registered k => some k
  | .started k _ => some k
  | .posted k _ => some k
  | .waiting k _ => some k
  | _ => none

/-- The keyspace after a turn of a page loop. -/
def turnDb (E : Ctx) (cell : Cell) (w : World) (p : PageLoop) (page : Json) : Db :=
  if maxPages ≤ p.turns then w.db
  else (processFeatures E.L E.cfg.store (E.wall w.now) cell.centreId cell.topic page w.db).2

namespace World

/-- The fetches of cell `i` are submitted. -/
def Fetches (E : Ctx) (w : World) (i : ℕ) (cell : Cell) : Prop :=
  E.cfg.cells[i]? = some cell ∧ w.submitted = true

/-- The baseline count a fetch of the cell is given. -/
def baselineOf (w : World) (cell : Cell) : ℕ := (w.baselines.get? cell.topic).getD 0

end World

open World

/-- Everything a step can do. -/
inductive StepTo (E : Ctx) (w : World) : Event → World → Prop
  | idle (e : Event) : StepTo E w e w
  | tick {d : ℚ} (hd : 0 ≤ d) : StepTo E w (.tick d) { w with now := w.now + d }
  | deliver (msg : MqttMessage) : StepTo E w (.deliver msg) (w.deliver E msg)
  | readBaselines (hm : w.main = .begin) :
      StepTo E w .readBaselines
        { w with main := .counted, baselines := baselineDict (w.baselineCounts E) }
  | clear (hm : w.main = .counted) :
      StepTo E w .clear
        { w with
          main := .collecting 0
          db := clearSync E.cfg.store E.cfg.replayCentreIds
            (clearReplay E.cfg.store E.cfg.replayCentreIds w.db) }
  | syncBegin {i : ℕ} {cell : Cell} (hi : w.Fetches E i cell) (hs : w.sync i = .ready) :
      StepTo E w (.syncBegin i) (w.setSync i (.requested w.now))
  | syncFirst {i : ℕ} {cell : Cell} {start : ℚ} (x : Exchange) (hi : w.Fetches E i cell)
      (hs : w.sync i = .requested start) :
      StepTo E w (.syncReply i x)
        (w.setSync i (.reached (Scgrep.syncFirst E.L (E.call cell) start w.now x)))
  | syncNext {i : ℕ} {cell : Cell} {p : PageLoop} {nextUrl : String} (x : Exchange)
      (hi : w.Fetches E i cell) (hs : w.sync i = .waiting p nextUrl) :
      StepTo E w (.syncReply i x) (w.setSync i (.reached (Scgrep.syncNext E.L p nextUrl x)))
  | syncTurn {i : ℕ} {cell : Cell} {p : PageLoop} {page : Json} (hi : w.Fetches E i cell)
      (hs : w.sync i = .page p page) :
      StepTo E w (.syncTurn i)
        (({ w with db := turnDb E cell w p page }).setSync i
          (.turned (Scgrep.syncTurn E.L (E.call cell) w.now p page)))
  | register {i : ℕ} {cell : Cell} (hi : w.Fetches E i cell) (ha : w.async i = .ready) :
      StepTo E w (.register i)
        (({ w with reg := w.reg.register (E.channel cell) }).setAsync i (.registered w.reg.made))
  | post {i : ℕ} {cell : Cell} {k : ℕ} (hi : w.Fetches E i cell) (ha : w.async i = .registered k) :
      StepTo E w (.post i) (w.setAsync i (.started k w.now))
  | postReply {i : ℕ} {cell : Cell} {k : ℕ} {start : ℚ} (x : Exchange) (hi : w.Fetches E i cell)
      (ha : w.async i = .started k start) :
      StepTo E w (.postReply i x)
        (w.setAsync i (.replied k (asyncPost E.L (E.call cell) E.cfg.subscriberId
          E.brokerAuthorities start w.now x)))
  | wait {i : ℕ} {cell : Cell} {k : ℕ} {a : PostState} {out : Outcome} (hi : w.Fetches E i cell)
      (ha : w.async i = .posted k a) (hs : (w.sync i).outcome? = some out)
      (he : expectMessages (numberMatchedFrom out) (w.baselineOf cell) = true) :
      StepTo E w (.decide i) (w.setAsync i (.waiting k a))
  | skip {i : ℕ} {cell : Cell} {k : ℕ} {a : PostState} {out : Outcome} (hi : w.Fetches E i cell)
      (ha : w.async i = .posted k a) (hs : (w.sync i).outcome? = some out)
      (he : expectMessages (numberMatchedFrom out) (w.baselineOf cell) = false) :
      StepTo E w (.decide i)
        (({ w with reg := w.reg.unregister (E.channel cell) }).setAsync i
          (.finished (.ok (unexpectedResult a))))
  | finish {i : ℕ} {cell : Cell} {k : ℕ} {a : PostState} (hi : w.Fetches E i cell)
      (ha : w.async i = .waiting k a) (hd : E.deadlineAt ≤ w.now) :
      StepTo E w (.finish i)
        (({ w with reg := w.reg.unregister (E.channel cell) }).setAsync i
          (.finished (.ok (asyncFinish (E.call cell) a (w.reg.counters k)))))
  | collect {k : ℕ} {cell : Cell} {out : Outcome} (hm : w.main = .collecting k)
      (hc : E.cfg.cells[k / 2]? = some cell) (hf : w.future k = some out) :
      StepTo E w .collect
        { w with
          main := .collecting (k + 1)
          results := w.results ++ Scgrep.collect E.window (w.view E) cell out }
  | publish {k : ℕ} (hm : w.main = .collecting k) (hk : k = 2 * E.cfg.cells.length)
      (hd : E.deadlineAt ≤ w.now) :
      StepTo E w .publish
        { w with main := .published, metrics := publishAll E.cfg w.baselines w.results w.metrics }

variable {E : Ctx}

/-- A step on a cell leaves the world alone or is taken by a submitted fetch. -/
theorem onCell_spec (i : ℕ) (f : Cell → World → World) (w : World) :
    w.onCell E i f = w ∨ ∃ cell, w.Fetches E i cell ∧ w.onCell E i f = f cell w := by
  unfold World.onCell
  cases hc : E.cfg.cells[i]? with
  | none => exact Or.inl rfl
  | some cell =>
    by_cases hs : w.submitted = true
    · exact Or.inr ⟨cell, ⟨hc, hs⟩, if_pos hs⟩
    · exact Or.inl (if_neg hs)

/-- The moves of a cell, once each is one of a submitted fetch. -/
theorem stepTo_onCell {i : ℕ} {f : Cell → World → World} {w : World} {e : Event}
    (h : ∀ cell, w.Fetches E i cell → StepTo E w e (f cell w)) :
    StepTo E w e (w.onCell E i f) := by
  rcases onCell_spec (E := E) i f w with h' | ⟨cell, hi, h'⟩
  · rw [h']; exact StepTo.idle e
  · rw [h']; exact h cell hi

theorem stepTo_syncReply {i : ℕ} {x : Exchange} {w : World} {cell : Cell}
    (hi : w.Fetches E i cell) : StepTo E w (.syncReply i x) (World.syncReply E i x cell w) := by
  unfold World.syncReply
  cases hs : w.sync i with
  | requested start =>
    have := StepTo.syncFirst x hi hs
    dsimp only
    cases hr : Scgrep.syncFirst E.L (E.call cell) start w.now x with
    | inl out => rw [hr] at this; exact this
    | inr q => rw [hr] at this; exact this
  | waiting p nextUrl =>
    have := StepTo.syncNext x hi hs
    dsimp only
    cases hr : Scgrep.syncNext E.L p nextUrl x with
    | inl out => rw [hr] at this; exact this
    | inr q => rw [hr] at this; exact this
  | ready => exact StepTo.idle _
  | page p page => exact StepTo.idle _
  | finished out => exact StepTo.idle _

theorem stepTo_syncTurn {i : ℕ} {w : World} {cell : Cell} (hi : w.Fetches E i cell) :
    StepTo E w (.syncTurn i) (World.syncTurn E i cell w) := by
  unfold World.syncTurn
  cases hs : w.sync i with
  | page p page =>
    have := StepTo.syncTurn hi hs
    have hdb : { w with db := turnDb E cell w p page } = if maxPages ≤ p.turns then w else
        { w with db := (processFeatures E.L E.cfg.store (E.wall w.now) cell.centreId cell.topic page
            w.db).2 } := by
      unfold turnDb
      by_cases h : maxPages ≤ p.turns
      · rw [if_pos h, if_pos h]
      · rw [if_neg h, if_neg h]
    rw [hdb] at this
    have hnow : (if maxPages ≤ p.turns then w else { w with
        db := (processFeatures E.L E.cfg.store (E.wall w.now) cell.centreId cell.topic page w.db).2 }).now =
          w.now := by split <;> rfl
    dsimp only
    rw [hnow]
    cases hr : Scgrep.syncTurn E.L (E.call cell) w.now p page with
    | inl out => rw [hr] at this; exact this
    | inr q => rw [hr] at this; exact this
  | ready => exact StepTo.idle _
  | requested start => exact StepTo.idle _
  | waiting p nextUrl => exact StepTo.idle _
  | finished out => exact StepTo.idle _

theorem stepTo_decide {i : ℕ} {w : World} {cell : Cell} (hi : w.Fetches E i cell) :
    StepTo E w (.decide i) (World.decide E i cell w) := by
  unfold World.decide
  cases ha : w.async i with
  | posted k a =>
    cases hs : (w.sync i).outcome? with
    | none => exact StepTo.idle _
    | some out =>
      dsimp only
      by_cases he : expectMessages (numberMatchedFrom out) (w.baselineOf cell) = true
      · exact (if_pos he).symm ▸ StepTo.wait hi ha hs he
      · exact (if_neg he).symm ▸ StepTo.skip hi ha hs (by simpa using he)
  | ready => exact StepTo.idle _
  | registered k => exact StepTo.idle _
  | started k start => exact StepTo.idle _
  | waiting k a => exact StepTo.idle _
  | finished out => exact StepTo.idle _

/-- **Every step is one of the moves.** -/
theorem step_spec (w : World) (e : Event) : StepTo E w e (w.step E e) := by
  cases e with
  | tick d =>
    simp only [World.step]
    split
    · rename_i hd; exact StepTo.tick hd
    · exact StepTo.idle _
  | deliver msg => exact StepTo.deliver msg
  | readBaselines =>
    simp only [World.step, World.readBaselines]
    split
    · rename_i hm; exact StepTo.readBaselines hm
    · exact StepTo.idle _
  | clear =>
    simp only [World.step, World.clear]
    split
    · rename_i hm; exact StepTo.clear hm
    · exact StepTo.idle _
  | syncBegin i =>
    refine stepTo_onCell fun cell hi => ?_
    unfold World.syncBegin
    split
    · rename_i hs; exact StepTo.syncBegin hi hs
    · exact StepTo.idle _
  | syncReply i x => exact stepTo_onCell fun cell hi => stepTo_syncReply hi
  | syncTurn i => exact stepTo_onCell fun cell hi => stepTo_syncTurn hi
  | register i =>
    refine stepTo_onCell fun cell hi => ?_
    unfold World.register
    split
    · rename_i ha; exact StepTo.register hi ha
    · exact StepTo.idle _
  | post i =>
    refine stepTo_onCell fun cell hi => ?_
    unfold World.post
    split
    · rename_i k ha; exact StepTo.post hi ha
    · exact StepTo.idle _
  | postReply i x =>
    refine stepTo_onCell fun cell hi => ?_
    unfold World.postReply
    split
    · rename_i k start ha
      have := StepTo.postReply x hi ha
      cases hr : asyncPost E.L (E.call cell) E.cfg.subscriberId E.brokerAuthorities start w.now x with
      | error e => rw [hr] at this; exact this
      | ok a => rw [hr] at this; exact this
    · exact StepTo.idle _
  | decide i => exact stepTo_onCell fun cell hi => stepTo_decide hi
  | finish i =>
    refine stepTo_onCell fun cell hi => ?_
    unfold World.finish
    split
    · rename_i k a ha
      split
      · rename_i hd; exact StepTo.finish hi ha hd
      · exact StepTo.idle _
    · exact StepTo.idle _
  | collect =>
    simp only [World.step, World.collect]
    split
    · rename_i k hm
      split
      · rename_i cell out hc hf; exact StepTo.collect hm hc hf
      · exact StepTo.idle _
    · exact StepTo.idle _
  | publish =>
    simp only [World.step, World.publish]
    split
    · rename_i k hm
      split
      · rename_i h; exact StepTo.publish hm h.1 h.2
      · exact StepTo.idle _
    · exact StepTo.idle _

/-! ## Runs -/

theorem run_append (w : World) (es es' : List Event) :
    w.run E (es ++ es') = (w.run E es).run E es' := by
  simp [World.run, List.foldl_append]

theorem run_snoc (w : World) (es : List Event) (e : Event) :
    w.run E (es ++ [e]) = (w.run E es).step E e := by
  rw [run_append]; rfl

theorem run_cons (w : World) (e : Event) (es : List Event) :
    w.run E (e :: es) = (w.step E e).run E es := rfl

/-- What every step keeps, every run keeps. -/
theorem run_keeps {P : World → Prop} (hstep : ∀ w e, P w → P (w.step E e)) (es : List Event) :
    ∀ w, P w → P (w.run E es) := by
  induction es with
  | nil => intro w h; exact h
  | cons e es ih => intro w h; exact ih _ (hstep w e h)

/-! ## The clock -/

/-- The clock after an event. -/
def Event.clock (t : ℚ) : Event → ℚ
  | .tick d => if 0 ≤ d then t + d else t
  | _ => t

theorem StepTo.now {w w' : World} {e : Event} (h : StepTo E w e w') (he : ∀ d, e ≠ .tick d) :
    w'.now = w.now := by
  cases h with
  | tick hd => exact absurd rfl (he _)
  | _ => rfl

/-- Only a tick moves the clock. -/
theorem now_step (w : World) (e : Event) : (w.step E e).now = e.clock w.now := by
  cases e with
  | tick d => simp only [World.step, Event.clock]; split <;> rfl
  | _ => exact (step_spec w _).now (by intro d h; cases h)

theorem le_clock (t : ℚ) (e : Event) : t ≤ e.clock t := by
  cases e with
  | tick d =>
    simp only [Event.clock]
    split
    · linarith
    · exact le_rfl
  | _ => exact le_rfl

theorem now_run (w : World) (es : List Event) : w.now ≤ (w.run E es).now := by
  refine run_keeps (P := fun v => w.now ≤ v.now) (fun v e h => ?_) es w le_rfl
  rw [now_step]
  exact h.trans (le_clock _ _)

/-! ## One fetch -/

/-- What a step can do to a synchronous fetch. -/
inductive SyncMove (E : Ctx) (w : World) (cell : Cell) : SyncState → SyncState → Prop
  | start : SyncMove E w cell .ready (.requested w.now)
  | first (start : ℚ) (x : Exchange) :
      SyncMove E w cell (.requested start)
        (.reached (Scgrep.syncFirst E.L (E.call cell) start w.now x))
  | next (p : PageLoop) (nextUrl : String) (x : Exchange) :
      SyncMove E w cell (.waiting p nextUrl) (.reached (Scgrep.syncNext E.L p nextUrl x))
  | turn (p : PageLoop) (q : Json) :
      SyncMove E w cell (.page p q) (.turned (Scgrep.syncTurn E.L (E.call cell) w.now p q))

/-- What a step can do to the asynchronous fetch of a cell. -/
inductive AsyncMove (E : Ctx) (w : World) (i : ℕ) (cell : Cell) : AsyncState → AsyncState → Prop
  | register : AsyncMove E w i cell .ready (.registered w.reg.made)
  | post (k : ℕ) : AsyncMove E w i cell (.registered k) (.started k w.now)
  | reply (k : ℕ) (start : ℚ) (x : Exchange) :
      AsyncMove E w i cell (.started k start)
        (.replied k (asyncPost E.L (E.call cell) E.cfg.subscriberId E.brokerAuthorities start
          w.now x))
  | wait (k : ℕ) (a : PostState) (out : Outcome) (hs : (w.sync i).outcome? = some out)
      (he : expectMessages (numberMatchedFrom out) (w.baselineOf cell) = true) :
      AsyncMove E w i cell (.posted k a) (.waiting k a)
  | skip (k : ℕ) (a : PostState) (out : Outcome) (hs : (w.sync i).outcome? = some out)
      (he : expectMessages (numberMatchedFrom out) (w.baselineOf cell) = false) :
      AsyncMove E w i cell (.posted k a) (.finished (.ok (unexpectedResult a)))
  | finish (k : ℕ) (a : PostState) (hd : E.deadlineAt ≤ w.now) :
      AsyncMove E w i cell (.waiting k a)
        (.finished (.ok (asyncFinish (E.call cell) a (w.reg.counters k))))

theorem setSync_sync (i j : ℕ) (s : SyncState) (w : World) :
    (w.setSync i s).sync j = if j = i then s else w.sync j := by
  by_cases h : j = i
  · rw [if_pos h, h]; exact Function.update_self ..
  · rw [if_neg h]; exact Function.update_of_ne h ..

theorem setAsync_async (i j : ℕ) (s : AsyncState) (w : World) :
    (w.setAsync i s).async j = if j = i then s else w.async j := by
  by_cases h : j = i
  · rw [if_pos h, h]; exact Function.update_self ..
  · rw [if_neg h]; exact Function.update_of_ne h ..

theorem StepTo.sync {w w' : World} {e : Event} (h : StepTo E w e w') (i : ℕ) :
    w'.sync i = w.sync i ∨
      ∃ cell, E.cfg.cells[i]? = some cell ∧ SyncMove E w cell (w.sync i) (w'.sync i) := by
  have key : ∀ {j : ℕ} {cell : Cell} {s : SyncState} {v : World}, v.sync = w.sync →
      w.Fetches E j cell → SyncMove E w cell (w.sync j) s → (v.setSync j s).sync i = w.sync i ∨
        ∃ cell, E.cfg.cells[i]? = some cell ∧
          SyncMove E w cell (w.sync i) ((v.setSync j s).sync i) := by
    intro j cell s v hv hj hm
    rw [setSync_sync]
    by_cases h : i = j
    · rw [if_pos h, h]; exact Or.inr ⟨cell, hj.1, hm⟩
    · rw [if_neg h, hv]; exact Or.inl rfl
  cases h with
  | syncBegin hi hs => exact key rfl hi (by rw [hs]; exact .start)
  | syncFirst x hi hs => exact key rfl hi (by rw [hs]; exact .first _ x)
  | syncNext x hi hs => exact key rfl hi (by rw [hs]; exact .next _ _ x)
  | syncTurn hi hs => exact key rfl hi (by rw [hs]; exact .turn _ _)
  | _ => exact Or.inl rfl

theorem StepTo.async {w w' : World} {e : Event} (h : StepTo E w e w') (i : ℕ) :
    w'.async i = w.async i ∨
      ∃ cell, E.cfg.cells[i]? = some cell ∧ AsyncMove E w i cell (w.async i) (w'.async i) := by
  have key : ∀ {j : ℕ} {cell : Cell} {s : AsyncState} {v : World}, v.async = w.async →
      w.Fetches E j cell → AsyncMove E w j cell (w.async j) s →
      (v.setAsync j s).async i = w.async i ∨ ∃ cell, E.cfg.cells[i]? = some cell ∧
        AsyncMove E w i cell (w.async i) ((v.setAsync j s).async i) := by
    intro j cell s v hv hj hm
    rw [setAsync_async]
    by_cases h : i = j
    · subst h; rw [if_pos rfl]; exact Or.inr ⟨cell, hj.1, hm⟩
    · rw [if_neg h, hv]; exact Or.inl rfl
  cases h with
  | register hi ha => exact key rfl hi (by rw [ha]; exact .register)
  | post hi ha => exact key rfl hi (by rw [ha]; exact .post _)
  | postReply x hi ha => exact key rfl hi (by rw [ha]; exact .reply _ _ x)
  | wait hi ha hs he => exact key rfl hi (by rw [ha]; exact .wait _ _ _ hs he)
  | skip hi ha hs he => exact key rfl hi (by rw [ha]; exact .skip _ _ _ hs he)
  | finish hi ha hd => exact key rfl hi (by rw [ha]; exact .finish _ _ hd)
  | _ => exact Or.inl rfl

/-- A step moves a synchronous fetch or leaves it alone. -/
theorem sync_moved (w : World) (e : Event) (i : ℕ) : (w.step E e).sync i = w.sync i ∨
    ∃ cell, E.cfg.cells[i]? = some cell ∧ SyncMove E w cell (w.sync i) ((w.step E e).sync i) :=
  (step_spec w e).sync i

/-- A step moves an asynchronous fetch or leaves it alone. -/
theorem async_moved (w : World) (e : Event) (i : ℕ) : (w.step E e).async i = w.async i ∨
    ∃ cell, E.cfg.cells[i]? = some cell ∧
      AsyncMove E w i cell (w.async i) ((w.step E e).async i) :=
  (step_spec w e).async i

theorem sync_finished_step {w : World} {i : ℕ} {out : Outcome} (h : w.sync i = .finished out)
    (e : Event) : (w.step E e).sync i = .finished out := by
  rcases sync_moved (E := E) w e i with h' | ⟨cell, -, h'⟩
  · rw [h', h]
  · rw [h] at h'; cases h'

theorem async_finished_step {w : World} {i : ℕ} {out : Outcome} (h : w.async i = .finished out)
    (e : Event) : (w.step E e).async i = .finished out := by
  rcases async_moved (E := E) w e i with h' | ⟨cell, -, h'⟩
  · rw [h', h]
  · rw [h] at h'; cases h'

theorem sync_outcome {s : SyncState} {out : Outcome} (h : s.outcome? = some out) :
    s = .finished out := by
  cases s with
  | finished out' => exact congrArg _ (Option.some.inj h)
  | _ => cases h

theorem async_outcome {s : AsyncState} {out : Outcome} (h : s.outcome? = some out) :
    s = .finished out := by
  cases s with
  | finished out' => exact congrArg _ (Option.some.inj h)
  | _ => cases h

/-- Every fetch ends with an outcome of its protocol. -/
theorem outcomes_proper (w : World) (e : Event) (i : ℕ)
    (h : (∀ out, w.sync i = .finished out → OutcomeOf .http out) ∧
      ∀ out, w.async i = .finished out → OutcomeOf .mqtt out) :
    (∀ out, (w.step E e).sync i = .finished out → OutcomeOf .http out) ∧
      ∀ out, (w.step E e).async i = .finished out → OutcomeOf .mqtt out := by
  constructor
  · intro out hout
    rcases sync_moved (E := E) w e i with h' | ⟨cell, -, h'⟩
    · exact h.1 out (h' ▸ hout)
    rw [hout] at h'
    generalize hs : w.sync i = s at h'
    generalize ht : SyncState.finished out = t at h'
    cases h' with
    | start => cases ht
    | first start x =>
      cases hr : Scgrep.syncFirst E.L (E.call cell) start w.now x with
      | inl o => rw [hr] at ht; cases ht; exact syncFirst_inl hr
      | inr q => rw [hr] at ht; cases ht
    | next p nextUrl x =>
      cases hr : Scgrep.syncNext E.L p nextUrl x with
      | inl o => rw [hr] at ht; cases ht; exact syncNext_inl hr
      | inr q => rw [hr] at ht; cases ht
    | turn p q =>
      cases hr : Scgrep.syncTurn E.L (E.call cell) w.now p q with
      | inl o => rw [hr] at ht; cases ht; exact syncTurn_inl hr
      | inr q => rw [hr] at ht; cases ht
  · intro out hout
    rcases async_moved (E := E) w e i with h' | ⟨cell, -, h'⟩
    · exact h.2 out (h' ▸ hout)
    rw [hout] at h'
    generalize hs : w.async i = s at h'
    generalize ht : AsyncState.finished out = t at h'
    cases h' with
    | register => cases ht
    | post k => cases ht
    | reply k start x =>
      cases hr : asyncPost E.L (E.call cell) E.cfg.subscriberId E.brokerAuthorities start w.now x with
      | error e => rw [hr] at ht; cases ht; exact outcomeOf_error _ _
      | ok a => rw [hr] at ht; cases ht
    | wait k a out' hs he => cases ht
    | skip k a out' hs he =>
      cases ht; intro r hr; cases hr; exact resultOf_unexpected a
    | finish k a hd =>
      cases ht; intro r hr; cases hr; exact resultOf_asyncFinish _ _ _

/-! ## Messages -/

/-- What the handling of a message does to the store: nothing when its id is refused. -/
def messageOp (L : Lib) (wall : ℚ) (msg : MqttMessage) : Option StoreOp :=
  match parseMessage L msg.payload with
  | .ok (some (msgId, timeValue)) =>
    if refuses L msgId timeValue then none
    else if Text.startsWith msg.topic "replay/" then
      (replayParts msg.topic).map fun (centreId, originalTopic) =>
        .replay wall centreId msgId timeValue originalTopic
    else some (.message wall msgId timeValue msg.topic)
  | _ => none

theorem deliver_db (w : World) (msg : MqttMessage) :
    (w.deliver E msg).db = ((messageOp E.L (E.wall w.now) msg).toList).foldl
      (StoreOp.run E.L E.cfg.store) w.db := by
  unfold World.deliver onMessage messageOp
  by_cases hr : Text.startsWith msg.topic "replay/" = true
  · simp only [hr, if_true, handleReplayMessage]
    cases hp : replayParts msg.topic with
    | none =>
      cases hm : parseMessage E.L msg.payload with
      | error e => rfl
      | ok o =>
        cases o with
        | none => rfl
        | some m =>
          dsimp only
          split <;> rfl
    | some parts =>
      cases hm : parseMessage E.L msg.payload with
      | error e => rfl
      | ok o =>
        cases o with
        | none => rfl
        | some m =>
          dsimp only
          cases href : refuses E.L m.1 m.2 with
          | false =>
            rw [refusesReplay_of_refuses href parts.2]
            rfl
          | true =>
            -- it raises, or no set is written
            cases hany : E.cfg.store.topics.any (topicMatches E.L · parts.2) with
            | false =>
              rw [refusesReplay_unmatched hany m.1 m.2]
              exact storeReplayMessage_unmatched hany _ _ _ _ _
            | true =>
              have hrep : refusesReplay E.L E.cfg.store m.1 m.2 parts.2 = true := by
                unfold refusesReplay
                rw [hany, href]
                rfl
              rw [hrep]
              rfl
  · have hr' : Text.startsWith msg.topic "replay/" = false := by simpa using hr
    simp only [hr', Bool.false_eq_true, if_false]
    cases hm : parseMessage E.L msg.payload with
    | error e => rfl
    | ok o =>
      cases o with
      | none => rfl
      | some m =>
        dsimp only
        split <;> rfl

theorem deliver_reg (w : World) (msg : MqttMessage) :
    (w.deliver E msg).reg =
      if Text.startsWith msg.topic "replay/" then w.reg.handleReplay E.L w.now msg.topic else w.reg := by
  unfold World.deliver onMessage
  by_cases hr : Text.startsWith msg.topic "replay/" = true
  · simp only [hr, if_true, handleReplayMessage]
    cases hp : replayParts msg.topic with
    | none => rfl
    | some parts =>
      cases hm : parseMessage E.L msg.payload with
      | error e => rfl
      | ok o =>
        cases o with
        | none => rfl
        | some m =>
          dsimp only
          split <;> rfl
  · have hr' : Text.startsWith msg.topic "replay/" = false := by simpa using hr
    simp only [hr', Bool.false_eq_true, if_false]
    cases hm : parseMessage E.L msg.payload with
    | error e => rfl
    | ok o =>
      cases o with
      | none => rfl
      | some m =>
        dsimp only
        split <;> rfl

end Scgrep
