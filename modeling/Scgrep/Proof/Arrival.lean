import Scgrep.Spec.Arrival
import Scgrep.Spec.Tables

/-!
# The delay of an asynchronous fetch

* `step_moves`: what a step of the fetches and of the threads of `handle_replay` can do.
* `handle_steps`, `outcome_asyncFetch`: the steps put together are `handleReplay` and
  `asyncFetch`.
* `delay_nonneg_iff`: **the delay of a fetch that waits is not negative iff the first
  call to record in its counter has not read its clock before the start instant.**
* `timelyRun_of_quiet`: so it is when no message comes in before the start.

The channel is registered before the start instant is read, so a message can be earlier.
-/

namespace Scgrep

namespace Arrivals

variable {L : Lib} {f : ℕ → AsyncCall}

/-! ## What a step can do -/

/-- The steps that change something. -/
inductive Moves (L : Lib) (f : ℕ → AsyncCall) (w : Arrivals) : ArrivalEvent → Arrivals → Prop where
  | tick (d : ℚ) (hd : 0 ≤ d) : Moves L f w (.tick d) { w with now := w.now + d }
  | register (i : ℕ) (hs : w.fetch i = .ready) : Moves L f w (.register i)
      ((w.setReg (w.reg.register (f i).channel)).setFetch i (.registered w.reg.made))
  | start (i k : ℕ) (hs : w.fetch i = .registered k) :
      Moves L f w (.start i) (w.setFetch i (.started k w.now))
  | raised (i : ℕ) (x : Exchange) (k : ℕ) (start : ℚ) (e : PyErr) (hs : w.fetch i = .started k start)
      (hx : asyncPost L (f i).call (f i).subscriberId (f i).brokerAuthorities start w.now x = .error e) :
      Moves L f w (.postReply i x) (w.setFetch i (.finished (.error e)))
  | posted (i : ℕ) (x : Exchange) (k : ℕ) (start : ℚ) (a : PostState) (hs : w.fetch i = .started k start)
      (hx : asyncPost L (f i).call (f i).subscriberId (f i).brokerAuthorities start w.now x = .ok a) :
      Moves L f w (.postReply i x) (w.setFetch i (.posted k a))
  | expects (i k : ℕ) (a : PostState) (hs : w.fetch i = .posted k a) (he : (f i).expects = true) :
      Moves L f w (.decide i) (w.setFetch i (.polling k a))
  | unexpected (i k : ℕ) (a : PostState) (hs : w.fetch i = .posted k a) (he : (f i).expects = false) :
      Moves L f w (.decide i) (w.setFetch i (.returning (unexpectedResult a)))
  | polled (i k : ℕ) (a : PostState) (hs : w.fetch i = .polling k a)
      (hk : (f i).call.deadlineAt ≤ w.now ∨ (w.reg.counters k).firstMonotonic ≠ none) :
      Moves L f w (.poll i) (w.setFetch i (.polled k a))
  | aborted (i k : ℕ) (a : PostState) (hs : w.fetch i = .polled k a)
      (hk : (w.reg.counters k).firstMonotonic = none) : Moves L f w (.snapshot i)
      (w.setFetch i (.returning (asyncFinish (f i).call a (w.reg.counters k))))
  | arrived (i k : ℕ) (a : PostState) (t : ℚ) (hs : w.fetch i = .polled k a)
      (hk : (w.reg.counters k).firstMonotonic = some t) :
      Moves L f w (.snapshot i) (w.setFetch i (.counting k a t))
  | counted (i k : ℕ) (a : PostState) (t : ℚ) (hs : w.fetch i = .counting k a t)
      (hd : (f i).call.deadlineAt ≤ w.now) : Moves L f w (.count i)
      (w.setFetch i (.returning (asyncFinish (f i).call a ⟨(w.reg.counters k).count, some t⟩)))
  | returned (i : ℕ) (result : FetchResult) (hs : w.fetch i = .returning result) :
      Moves L f w (.unregister i)
      ((w.setReg (w.reg.unregister (f i).channel)).setFetch i (.finished (.ok result)))
  | call (j : ℕ) (topic : String) (hs : w.thread j = .idle) :
      Moves L f w (.call j topic) (w.setThread j (.called w.now topic))
  | copy (j : ℕ) (now : ℚ) (topic : String) (hs : w.thread j = .called now topic) :
      Moves L f w (.copy j) (w.setThread j (.copied now topic w.reg.active.items))
  | dropped (j : ℕ) (now : ℚ) (topic : String) (items : List (String × ℕ))
      (hs : w.thread j = .copied now topic items) (hr : routeItems L items topic = none) :
      Moves L f w (.record j) (w.setThread j .idle)
  | recorded (j : ℕ) (now : ℚ) (topic : String) (items : List (String × ℕ)) (k : ℕ)
      (hs : w.thread j = .copied now topic items) (hr : routeItems L items topic = some k) :
      Moves L f w (.record j) ((w.setReg (w.reg.record k now)).setThread j .idle)

theorem step_moves (w : Arrivals) (e : ArrivalEvent) :
    w.step L f e = w ∨ Moves L f w e (w.step L f e) := by
  cases e with
  | tick d =>
    by_cases hd : 0 ≤ d
    · refine .inr ?_
      change Moves L f w _ (if 0 ≤ d then _ else _)
      rw [if_pos hd]
      exact .tick d hd
    · exact .inl (if_neg hd)
  | register i =>
    change w.register f i = w ∨ Moves L f w _ (w.register f i)
    unfold register
    split
    · rename_i hs
      exact .inr (.register i hs)
    · exact .inl rfl
  | start i =>
    change w.start i = w ∨ Moves L f w _ (w.start i)
    unfold start
    split
    · rename_i k hs
      exact .inr (.start i k hs)
    · exact .inl rfl
  | postReply i x =>
    change w.postReply L f i x = w ∨ Moves L f w _ (w.postReply L f i x)
    unfold postReply
    split
    · rename_i k start hs
      cases hx : asyncPost L (f i).call (f i).subscriberId (f i).brokerAuthorities start w.now x with
      | error e => exact .inr (.raised i x k start e hs hx)
      | ok a => exact .inr (.posted i x k start a hs hx)
    · exact .inl rfl
  | decide i =>
    change w.decide f i = w ∨ Moves L f w _ (w.decide f i)
    unfold decide
    split
    · rename_i k a hs
      by_cases he : (f i).expects = true
      · rw [if_pos he]
        exact .inr (.expects i k a hs he)
      · rw [if_neg he]
        exact .inr (.unexpected i k a hs (Bool.eq_false_of_not_eq_true he))
    · exact .inl rfl
  | poll i =>
    change w.poll f i = w ∨ Moves L f w _ (w.poll f i)
    unfold poll
    split
    · rename_i k a hs
      split
      · exact .inl rfl
      · rename_i hk
        rw [not_and_or, not_lt] at hk
        exact .inr (.polled i k a hs hk)
    · exact .inl rfl
  | snapshot i =>
    change w.snapshot f i = w ∨ Moves L f w _ (w.snapshot f i)
    unfold snapshot
    split
    · rename_i k a hs
      cases hk : (w.reg.counters k).firstMonotonic with
      | none => exact .inr (.aborted i k a hs hk)
      | some t => exact .inr (.arrived i k a t hs hk)
    · exact .inl rfl
  | count i =>
    change w.count f i = w ∨ Moves L f w _ (w.count f i)
    unfold count
    split
    · rename_i k a t hs
      split
      · exact .inl rfl
      · rename_i hd
        exact .inr (.counted i k a t hs (not_lt.1 hd))
    · exact .inl rfl
  | unregister i =>
    change w.unregister f i = w ∨ Moves L f w _ (w.unregister f i)
    unfold unregister
    split
    · rename_i result hs
      exact .inr (.returned i result hs)
    · exact .inl rfl
  | call j topic =>
    change w.call j topic = w ∨ Moves L f w _ (w.call j topic)
    unfold call
    split
    · rename_i hs
      exact .inr (.call j topic hs)
    · exact .inl rfl
  | copy j =>
    change w.copy j = w ∨ Moves L f w _ (w.copy j)
    unfold copy
    split
    · rename_i now topic hs
      exact .inr (.copy j now topic hs)
    · exact .inl rfl
  | record j =>
    change w.record L j = w ∨ Moves L f w _ (w.record L j)
    unfold record
    split
    · rename_i now topic items hs
      cases hr : routeItems L items topic with
      | none => exact .inr (.dropped j now topic items hs hr)
      | some k => exact .inr (.recorded j now topic items k hs hr)
    · exact .inl rfl

/-! ## The steps put together -/

/-- **The three steps of a thread**, with nothing between them, are `handleReplay`. -/
theorem handle_steps {w : Arrivals} {j : ℕ} (hj : w.thread j = .idle) (topic : String) :
    w.run L f [.call j topic, .copy j, .record j] = w.setReg (w.reg.handleReplay L w.now topic) := by
  -- the thread is idle again, so that only the registry differs
  have hback : ∀ w' : Arrivals, w'.thread j = .idle → ∀ s, (w'.setThread j s).setThread j .idle = w' := by
    intro w' hw s
    unfold setThread
    rw [Function.update_idem, ← hw, Function.update_eq_self]
  have hcall : w.call j topic = w.setThread j (.called w.now topic) := by
    unfold call
    rw [hj]
  have hcopy : (w.setThread j (.called w.now topic)).copy j =
      w.setThread j (.copied w.now topic w.reg.active.items) := by
    unfold copy setThread
    dsimp only
    rw [Function.update_self]
    dsimp only
    rw [Function.update_idem]
  have hrecord : (w.setThread j (.copied w.now topic w.reg.active.items)).record L j =
      w.setReg (w.reg.handleReplay L w.now topic) := by
    have hroute : routeItems L w.reg.active.items topic = w.reg.route L topic := rfl
    have hthread : (w.setThread j (.copied w.now topic w.reg.active.items)).thread j =
        .copied w.now topic w.reg.active.items := Function.update_self _ _ _
    unfold record
    rw [hthread]
    dsimp only
    rw [hroute]
    unfold ReplayRegistry.handleReplay
    cases w.reg.route L topic with
    | none => exact hback w hj _
    | some k => exact hback (w.setReg (w.reg.record k w.now)) hj _
  change ((w.call j topic).copy j).record L j = _
  rw [hcall, hcopy, hrecord]

/-- What `asyncFetch` gives for the arguments. -/
def Fetched (L : Lib) (f : AsyncCall) (out : Outcome) : Prop :=
  ∃ σ : AsyncScript, asyncFetch L f.call f.subscriberId f.brokerAuthorities f.baseline f.numberMatched σ = out

/-- What the POST of the fetch gives. -/
def Posted (L : Lib) (f : AsyncCall) (a : PostState) : Prop :=
  ∃ start now x, asyncPost L f.call f.subscriberId f.brokerAuthorities start now x = .ok a

/-- How far the fetch has followed `asyncFetch`. -/
def StageFollows (L : Lib) (f : AsyncCall) : FetchStage → Prop
  | .posted _ a => Posted L f a
  | .polling _ a => Posted L f a ∧ f.expects = true
  | .polled _ a => Posted L f a ∧ f.expects = true
  | .counting _ a _ => Posted L f a ∧ f.expects = true
  | .returning r => Fetched L f (.ok r)
  | .finished out => Fetched L f out
  | _ => True

theorem fetched_raised {f : AsyncCall} {start now : ℚ} {x : Exchange} {e : PyErr}
    (h : asyncPost L f.call f.subscriberId f.brokerAuthorities start now x = .error e) :
    Fetched L f (.error e) := by
  refine ⟨⟨start, now, x, .new⟩, ?_⟩
  unfold asyncFetch
  rw [h]

theorem fetched_unexpected {f : AsyncCall} {a : PostState} (h : Posted L f a) (he : f.expects = false) :
    Fetched L f (.ok (unexpectedResult a)) := by
  obtain ⟨start, now, x, hx⟩ := h
  refine ⟨⟨start, now, x, .new⟩, ?_⟩
  unfold AsyncCall.expects at he
  unfold asyncFetch
  rw [hx, he]
  rfl

theorem fetched_finish {f : AsyncCall} {a : PostState} (h : Posted L f a ∧ f.expects = true)
    (counter : ReplayCounter) : Fetched L f (.ok (asyncFinish f.call a counter)) := by
  obtain ⟨⟨start, now, x, hx⟩, he⟩ := h
  refine ⟨⟨start, now, x, counter⟩, ?_⟩
  unfold AsyncCall.expects at he
  unfold asyncFetch
  rw [hx, he]
  rfl

theorem follows_update {w : Arrivals} {i i' : ℕ} {s : FetchStage} (h : StageFollows L (f i) (w.fetch i))
    (hs : i' = i → StageFollows L (f i) s) : StageFollows L (f i) (Function.update w.fetch i' s i) := by
  rcases eq_or_ne i i' with rfl | hne
  · rw [Function.update_self]
    exact hs rfl
  · rw [Function.update_of_ne hne]
    exact h

theorem follows_moves {w w' : Arrivals} {e : ArrivalEvent} (hm : Moves L f w e w') {i : ℕ}
    (h : StageFollows L (f i) (w.fetch i)) : StageFollows L (f i) (w'.fetch i) := by
  have hstage : ∀ {i' s}, w.fetch i' = s → i' = i → StageFollows L (f i) s := by
    rintro i' s rfl rfl
    exact h
  cases hm with
  | tick => exact h
  | register i' hs => exact follows_update h fun _ => trivial
  | start i' k hs => exact follows_update h fun _ => trivial
  | raised i' x k start e hs hx =>
    refine follows_update h ?_
    rintro rfl
    exact fetched_raised hx
  | posted i' x k start a hs hx =>
    refine follows_update h ?_
    rintro rfl
    exact ⟨_, _, _, hx⟩
  | expects i' k a hs he =>
    refine follows_update h ?_
    rintro rfl
    exact ⟨hstage hs rfl, he⟩
  | unexpected i' k a hs he =>
    refine follows_update h ?_
    rintro rfl
    exact fetched_unexpected (hstage hs rfl) he
  | polled i' k a hs hk =>
    refine follows_update h ?_
    intro heq
    have hfollows := hstage hs heq
    exact hfollows
  | aborted i' k a hs hk =>
    refine follows_update h ?_
    rintro rfl
    exact fetched_finish (hstage hs rfl) _
  | arrived i' k a t hs hk =>
    refine follows_update h ?_
    intro heq
    have hfollows := hstage hs heq
    exact hfollows
  | counted i' k a t hs hd =>
    refine follows_update h ?_
    rintro rfl
    exact fetched_finish (hstage hs rfl) _
  | returned i' result hs =>
    refine follows_update h ?_
    intro heq
    have hfollows := hstage hs heq
    exact hfollows
  | call => exact h
  | copy => exact h
  | dropped => exact h
  | recorded => exact h

/-- **What a fetch returns or raises**, however it is interleaved, is what `asyncFetch` does for
some clock readings, reply and counter. -/
theorem outcome_asyncFetch {now : ℚ} (es : List ArrivalEvent) {i : ℕ} {out : Outcome}
    (h : ((init now).run L f es).fetch i = .finished out) : Fetched L (f i) out := by
  have hrun : ∀ (es : List ArrivalEvent) (w : Arrivals), StageFollows L (f i) (w.fetch i) →
      StageFollows L (f i) ((w.run L f es).fetch i) := by
    intro es
    induction es with
    | nil =>
      intro w hw
      exact hw
    | cons e es ih =>
      intro w hw
      refine ih (w.step L f e) ?_
      rcases step_moves w e with heq | hm
      · rw [heq]
        exact hw
      · exact follows_moves hm hw
  have hfinished := hrun es (init now) trivial
  rw [h] at hfinished
  exact hfinished

/-! ## The first arrival -/

/-- The first arrival of each counter. -/
def firsts (w : Arrivals) (k : ℕ) : Option ℚ := (w.reg.counters k).firstMonotonic

/-- The counter has an arrival from before the instant. -/
def Early (first : ℕ → Option ℚ) (k : ℕ) (start : ℚ) : Prop := ∃ t, first k = some t ∧ t < start

end Arrivals

/-- The counter and the start instant of a fetch that has read it. -/
def FetchStage.startOf : FetchStage → Option (ℕ × ℚ)
  | .started k start => some (k, start)
  | .posted k a => some (k, a.start)
  | .polling k a => some (k, a.start)
  | .polled k a => some (k, a.start)
  | .counting k a _ => some (k, a.start)
  | _ => none

/-- The clock reading of a thread in `handle_replay`. -/
def ReplayStage.clock? : ReplayStage → Option ℚ
  | .idle => none
  | .called now _ => some now
  | .copied now _ _ => some now

namespace Arrivals

/-- The fetch does not read its start instant when its counter already has an earlier arrival, and no
call that read its clock before that instant is the first to record in the counter. -/
def Timely (L : Lib) (i : ℕ) (w : Arrivals) : ArrivalEvent → Prop
  | .start i' => i' = i → ∀ k t, w.fetch i = .registered k →
      (w.reg.counters k).firstMonotonic = some t → w.now ≤ t
  | .record j => ∀ now topic items k start, w.thread j = .copied now topic items →
      routeItems L items topic = some k → (w.fetch i).startOf = some (k, start) →
      (w.reg.counters k).firstMonotonic = none → start ≤ now
  | _ => True

/-- Every step of a run is timely. -/
def TimelyRun (L : Lib) (f : ℕ → AsyncCall) (i : ℕ) : Arrivals → List ArrivalEvent → Prop
  | _, [] => True
  | w, e :: es => w.Timely L i e ∧ TimelyRun L f i (w.step L f e) es

/-- What holds of a fetch; `late` says that a step has not been timely. -/
def StageInv (f : AsyncCall) (now : ℚ) (made : ℕ) (first : ℕ → Option ℚ) (late : Prop) : FetchStage → Prop
  | .ready => ¬ late
  | .registered k => k < made ∧ ¬ late
  | .started k start => k < made ∧ start ≤ now ∧ (late ↔ Early first k start)
  | .posted k a => k < made ∧ a.start ≤ a.httpResponseAt ∧ (late ↔ Early first k a.start)
  | .polling k a => k < made ∧ f.expects = true ∧ (late ↔ Early first k a.start)
  | .polled k a => k < made ∧ f.expects = true ∧ (late ↔ Early first k a.start)
  | .counting k a t => k < made ∧ f.expects = true ∧ first k = some t ∧ (late ↔ t < a.start)
  | .returning r => r.fetchDelayMs < 0 ↔ f.expects = true ∧ late
  | .finished (.ok r) => r.fetchDelayMs < 0 ↔ f.expects = true ∧ late
  | .finished (.error _) => True

/-- What the others do leaves it true. -/
theorem StageInv.frame {f : AsyncCall} {now now' : ℚ} {made made' : ℕ} {first first' : ℕ → Option ℚ}
    {late : Prop} {s : FetchStage} (h : StageInv f now made first late s) (hnow : now ≤ now')
    (hmade : made ≤ made') (hfirst : ∀ k < made, first' k = first k) :
    StageInv f now' made' first' late s := by
  have hearly : ∀ {k start}, k < made → (Early first' k start ↔ Early first k start) := by
    intro k start hk
    unfold Early
    rw [hfirst k hk]
  cases s with
  | ready => exact h
  | registered k => exact ⟨by have := h.1; omega, h.2⟩
  | started k start =>
    obtain ⟨hk, hstart, hlate⟩ := h
    exact ⟨by omega, hstart.trans hnow, hlate.trans (hearly hk).symm⟩
  | posted k a =>
    obtain ⟨hk, hstart, hlate⟩ := h
    exact ⟨by omega, hstart, hlate.trans (hearly hk).symm⟩
  | polling k a =>
    obtain ⟨hk, he, hlate⟩ := h
    exact ⟨by omega, he, hlate.trans (hearly hk).symm⟩
  | polled k a =>
    obtain ⟨hk, he, hlate⟩ := h
    exact ⟨by omega, he, hlate.trans (hearly hk).symm⟩
  | counting k a t =>
    obtain ⟨hk, he, hfirst', hlate⟩ := h
    exact ⟨by omega, he, (hfirst k hk).trans hfirst', hlate⟩
  | returning r => exact h
  | finished out =>
    cases out with
    | ok r => exact h
    | error e => exact h

/-- The invariant of fetch `i`. -/
def FetchInv (f : ℕ → AsyncCall) (i : ℕ) (w : Arrivals) (late : Prop) : Prop :=
  StageInv (f i) w.now w.reg.made w.firsts late (w.fetch i)

theorem FetchInv.other {w w' : Arrivals} {i : ℕ} {late : Prop} (h : FetchInv f i w late)
    (hs : w'.fetch i = w.fetch i) (hnow : w.now ≤ w'.now) (hmade : w.reg.made ≤ w'.reg.made)
    (hfirst : ∀ k < w.reg.made, w'.firsts k = w.firsts k) : FetchInv f i w' late := by
  unfold FetchInv
  rw [hs]
  exact StageInv.frame h hnow hmade hfirst

/-- A fetch that is not `i` takes a step on its own. -/
theorem FetchInv.setFetch_of_ne {w : Arrivals} {i i' : ℕ} {late : Prop} (h : FetchInv f i w late)
    (hne : i' ≠ i) (s : FetchStage) : FetchInv f i (w.setFetch i' s) late :=
  h.other (Function.update_of_ne hne.symm _ _) le_rfl le_rfl fun _ _ => rfl

theorem register_firsts {w : Arrivals} (channel : String) :
    ∀ k < w.reg.made, (w.setReg (w.reg.register channel)).firsts k = w.firsts k := by
  intro k hk
  change (Function.update w.reg.counters w.reg.made ReplayCounter.new k).firstMonotonic = _
  rw [Function.update_of_ne hk.ne]
  rfl

theorem record_firsts (w : Arrivals) (k : ℕ) (now : ℚ) (k' : ℕ) :
    (w.setReg (w.reg.record k now)).firsts k' =
      if k' = k then some ((w.firsts k).getD now) else w.firsts k' := by
  change (Function.update w.reg.counters k ((w.reg.counters k).record now) k').firstMonotonic = _
  rcases eq_or_ne k' k with rfl | hne
  · rw [Function.update_self, if_pos rfl]
    rfl
  · rw [Function.update_of_ne hne, if_neg hne]
    rfl

/-- An arrival is the first and early iff its step is not timely. -/
theorem record_early {w : Arrivals} {i j k k' : ℕ} {now start : ℚ} {topic : String}
    {items : List (String × ℕ)} (hs : w.thread j = .copied now topic items)
    (hr : routeItems L items topic = some k') (hstart : (w.fetch i).startOf = some (k, start)) :
    Early (w.setReg (w.reg.record k' now)).firsts k start ↔
      Early w.firsts k start ∨ ¬ w.Timely L i (.record j) := by
  have htimely : w.Timely L i (.record j) ↔ (k' = k → w.firsts k = none → start ≤ now) := by
    constructor
    · rintro h rfl hnone
      exact h now topic items _ start hs hr hstart hnone
    · intro h now' topic' items' k₁ start' hs' hr' hstart' hnone
      rw [hs] at hs'
      cases hs'
      rw [hr] at hr'
      cases hr'
      rw [hstart] at hstart'
      cases hstart'
      exact h rfl hnone
  rw [htimely]
  unfold Early
  rw [record_firsts]
  -- only the first arrival of a counter is kept
  rcases eq_or_ne k k' with rfl | hne
  · rw [if_pos rfl]
    cases hfirst : w.firsts k with
    | none => simp
    | some t => simp
  · rw [if_neg hne]
    simp [hne.symm]

theorem timely_or {w : Arrivals} {i : ℕ} {e : ArrivalEvent} (h : w.Timely L i e) (late : Prop) :
    (late ∨ ¬ w.Timely L i e) = late := by
  rw [eq_true h, not_true_eq_false, or_false]

/-- An arrival at a counter. -/
theorem inv_recorded {w : Arrivals} {i j k : ℕ} {now : ℚ} {topic : String} {items : List (String × ℕ)}
    {late : Prop} (h : FetchInv f i w late) (hs : w.thread j = .copied now topic items)
    (hr : routeItems L items topic = some k) :
    FetchInv f i ((w.setReg (w.reg.record k now)).setThread j .idle) (late ∨ ¬ w.Timely L i (.record j)) := by
  have hidle : (w.fetch i).startOf = none → (late ∨ ¬ w.Timely L i (.record j)) = late := by
    intro hnone
    refine timely_or ?_ late
    intro _ _ _ _ _ _ _ hstart _
    rw [hnone] at hstart
    cases hstart
  have hlate : ∀ {k₀ start}, (w.fetch i).startOf = some (k₀, start) → (late ↔ Early w.firsts k₀ start) →
      (late ∨ ¬ w.Timely L i (.record j) ↔ Early (w.setReg (w.reg.record k now)).firsts k₀ start) := by
    intro k₀ start hstart hlate
    rw [hlate]
    exact (record_early hs hr hstart).symm
  unfold FetchInv at h ⊢
  change StageInv (f i) w.now w.reg.made (w.setReg (w.reg.record k now)).firsts _ (w.fetch i)
  cases hstage : w.fetch i with
  | ready =>
    rw [hstage] at h hidle
    rw [hidle rfl]
    exact h
  | registered k₀ =>
    rw [hstage] at h hidle
    rw [hidle rfl]
    exact h
  | started k₀ start =>
    rw [hstage] at h hlate
    exact ⟨h.1, h.2.1, hlate rfl h.2.2⟩
  | posted k₀ a =>
    rw [hstage] at h hlate
    exact ⟨h.1, h.2.1, hlate rfl h.2.2⟩
  | polling k₀ a =>
    rw [hstage] at h hlate
    exact ⟨h.1, h.2.1, hlate rfl h.2.2⟩
  | polled k₀ a =>
    rw [hstage] at h hlate
    exact ⟨h.1, h.2.1, hlate rfl h.2.2⟩
  | counting k₀ a t =>
    rw [hstage] at h hlate
    obtain ⟨hk, he, hfirst, hl⟩ := h
    have hfirst' : (w.setReg (w.reg.record k now)).firsts k₀ = some t := by
      rw [record_firsts]
      split
      · rename_i heq
        rw [← heq, hfirst]
        rfl
      · exact hfirst
    have hearly : ∀ {first : ℕ → Option ℚ}, first k₀ = some t → (Early first k₀ a.start ↔ t < a.start) := by
      intro first h
      unfold Early
      rw [h]
      simp
    refine ⟨hk, he, hfirst', ?_⟩
    rw [hlate rfl (hl.trans (hearly hfirst).symm), hearly hfirst']
  | returning r =>
    rw [hstage] at h hidle
    rw [hidle rfl]
    exact h
  | finished out =>
    rw [hstage] at h hidle
    rw [hidle rfl]
    cases out with
    | ok r => exact h
    | error e => exact h

/-! ## Steps and runs -/

theorem post_instants {c : FetchCall} {subscriberId : String} {authorities : List String} {start now : ℚ}
    {x : Exchange} {a : PostState} (h : asyncPost L c subscriberId authorities start now x = .ok a) :
    a.start = start ∧ a.httpResponseAt = now := by
  unfold asyncPost at h
  split at h
  · cases h
    exact ⟨rfl, rfl⟩
  · cases h
    exact ⟨rfl, rfl⟩
  · split at h
    · cases h
      exact ⟨rfl, rfl⟩
    · cases h
    · split at h
      · cases h
        exact ⟨rfl, rfl⟩
      · cases h
        exact ⟨rfl, rfl⟩

/-- The start instant is read. -/
theorem inv_start {w : Arrivals} {i k : ℕ} {late : Prop} (h : FetchInv f i w late)
    (hs : w.fetch i = .registered k) :
    FetchInv f i (w.setFetch i (.started k w.now)) (late ∨ ¬ w.Timely L i (.start i)) := by
  unfold FetchInv at h ⊢
  rw [hs] at h
  obtain ⟨hk, hlate⟩ := h
  change StageInv (f i) w.now w.reg.made w.firsts _ (Function.update w.fetch i _ i)
  rw [Function.update_self]
  refine ⟨hk, le_rfl, ?_⟩
  -- nothing was late before, so what counts is the arrival that the counter has now
  rw [or_iff_right hlate]
  have htimely : w.Timely L i (.start i) ↔ ∀ t, w.firsts k = some t → w.now ≤ t := by
    constructor
    · intro h t ht
      exact h rfl k t hs ht
    · intro h _ k' t hs' ht
      rw [hs] at hs'
      cases hs'
      exact h t ht
  rw [htimely]
  unfold Early
  push Not
  rfl

/-- A step of fetch `i` after its start. -/
theorem FetchInv.setFetch {w : Arrivals} {i : ℕ} {late : Prop} {s : FetchStage}
    (h : StageInv (f i) w.now w.reg.made w.firsts late s) : FetchInv f i (w.setFetch i s) late := by
  unfold FetchInv
  change StageInv (f i) w.now w.reg.made w.firsts late (Function.update w.fetch i s i)
  rw [Function.update_self]
  exact h

/-- A step of some fetch: only if it is `i` there is something to show. -/
theorem FetchInv.update {w : Arrivals} {i i' : ℕ} {late : Prop} {s : FetchStage} (h : FetchInv f i w late)
    (hs : i' = i → StageInv (f i) w.now w.reg.made w.firsts late s) : FetchInv f i (w.setFetch i' s) late := by
  rcases eq_or_ne i' i with rfl | hne
  · exact FetchInv.setFetch (hs rfl)
  · exact h.setFetch_of_ne hne s

theorem FetchInv.stage {w : Arrivals} {i : ℕ} {late : Prop} {s : FetchStage} (h : FetchInv f i w late)
    (hs : w.fetch i = s) : StageInv (f i) w.now w.reg.made w.firsts late s := by
  unfold FetchInv at h
  rw [hs] at h
  exact h

theorem FetchInv.timely {w w' : Arrivals} {i : ℕ} {e : ArrivalEvent} {late : Prop}
    (h : FetchInv f i w' late) (ht : w.Timely L i e) : FetchInv f i w' (late ∨ ¬ w.Timely L i e) := by
  rw [timely_or ht]
  exact h

/-- A fetch that waits in vain has no early arrival. -/
theorem aborted_delay {c : FetchCall} {a : PostState} {counter : ReplayCounter}
    (h : counter.firstMonotonic = none) (hc : 0 ≤ c.deadlineS) : 0 ≤ (asyncFinish c a counter).fetchDelayMs := by
  unfold asyncFinish
  rw [h]
  change 0 ≤ c.deadlineS * 1000
  linarith

/-- **What a step preserves.** -/
theorem inv_moves {w w' : Arrivals} {e : ArrivalEvent} (hm : Moves L f w e w') {i : ℕ} {late : Prop}
    (h : FetchInv f i w late) : FetchInv f i w' (late ∨ ¬ w.Timely L i e) := by
  cases hm with
  | tick d hd =>
    refine FetchInv.timely ?_ trivial
    exact h.other rfl (by change w.now ≤ w.now + d; linarith) le_rfl fun _ _ => rfl
  | register i' hs =>
    refine FetchInv.timely ?_ trivial
    -- the counters made before keep their arrivals
    have hmade : w.reg.made ≤ w.reg.made + 1 := Nat.le_succ _
    rcases eq_or_ne i' i with rfl | hne
    · have hlate : ¬ late := h.stage hs
      exact FetchInv.setFetch ⟨Nat.lt_succ_self _, hlate⟩
    · have hreg : FetchInv f i (w.setReg (w.reg.register (f i').channel)) late :=
        h.other rfl le_rfl hmade (register_firsts _)
      exact hreg.setFetch_of_ne hne _
  | start i' k hs =>
    rcases eq_or_ne i' i with rfl | hne
    · exact inv_start h hs
    · refine FetchInv.timely ?_ fun heq => absurd heq hne
      exact h.setFetch_of_ne hne _
  | raised i' x k start e hs hx =>
    refine FetchInv.timely (h.update ?_) trivial
    intro _
    trivial
  | posted i' x k start a hs hx =>
    refine FetchInv.timely (h.update ?_) trivial
    rintro rfl
    obtain ⟨hk, hstart, hlate⟩ := h.stage hs
    obtain ⟨rfl, hat⟩ := post_instants hx
    exact ⟨hk, hstart.trans hat.ge, hlate⟩
  | expects i' k a hs he =>
    refine FetchInv.timely (h.update ?_) trivial
    rintro rfl
    obtain ⟨hk, -, hlate⟩ := h.stage hs
    exact ⟨hk, he, hlate⟩
  | unexpected i' k a hs he =>
    refine FetchInv.timely (h.update ?_) trivial
    rintro rfl
    obtain ⟨-, hstart, -⟩ := h.stage hs
    -- the response comes after the start instant
    have hdelay : 0 ≤ (unexpectedResult a).fetchDelayMs := by
      change 0 ≤ (a.httpResponseAt - a.start) * 1000
      linarith
    refine iff_of_false hdelay.not_gt ?_
    rw [he]
    exact fun hno => absurd hno.1 Bool.false_ne_true
  | polled i' k a hs hk =>
    refine FetchInv.timely (h.update ?_) trivial
    rintro rfl
    have hpolling := h.stage hs
    exact hpolling
  | aborted i' k a hs hk =>
    refine FetchInv.timely (h.update ?_) trivial
    rintro rfl
    obtain ⟨-, -, hlate⟩ := h.stage hs
    refine iff_of_false (aborted_delay hk (f i').deadline_nonneg).not_gt ?_
    -- without an arrival there is no early one
    rintro ⟨-, hl⟩
    obtain ⟨t, ht, -⟩ := hlate.1 hl
    rw [firsts, hk] at ht
    cases ht
  | arrived i' k a t hs hk =>
    refine FetchInv.timely (h.update ?_) trivial
    rintro rfl
    obtain ⟨hmade, he, hlate⟩ := h.stage hs
    refine ⟨hmade, he, hk, hlate.trans ?_⟩
    unfold Early firsts
    rw [hk]
    simp
  | counted i' k a t hs hd =>
    refine FetchInv.timely (h.update ?_) trivial
    rintro rfl
    obtain ⟨-, he, -, hlate⟩ := h.stage hs
    -- the arrival that was read stays the first of the counter
    change (t - a.start) * 1000 < 0 ↔ _
    rw [and_iff_right he, hlate]
    constructor
    · intro h
      linarith
    · intro h
      linarith
  | returned i' result hs =>
    have hreg : FetchInv f i (w.setReg (w.reg.unregister (f i').channel)) late :=
      h.other rfl le_rfl le_rfl fun _ _ => rfl
    refine FetchInv.timely (hreg.update ?_) trivial
    rintro rfl
    have hreturning := hreg.stage hs
    exact hreturning
  | call j topic hs =>
    refine FetchInv.timely ?_ trivial
    exact h.other rfl le_rfl le_rfl fun _ _ => rfl
  | copy j now topic hs =>
    refine FetchInv.timely ?_ trivial
    exact h.other rfl le_rfl le_rfl fun _ _ => rfl
  | dropped j now topic items hs hr =>
    have htimely : w.Timely L i (.record j) := by
      intro _ _ _ _ _ hs' hr' _ _
      rw [hs] at hs'
      cases hs'
      rw [hr] at hr'
      cases hr'
    refine FetchInv.timely ?_ htimely
    exact h.other rfl le_rfl le_rfl fun _ _ => rfl
  | recorded j now topic items k hs hr => exact inv_recorded h hs hr

/-- A step that its thread cannot take is timely. -/
theorem timely_of_stuck {w : Arrivals} {e : ArrivalEvent} (h : w.step L f e = w) (i : ℕ) :
    w.Timely L i e := by
  cases e with
  | start i' =>
    rintro rfl k t hs -
    have hstep : w.start i' = w := h
    have hstage := congrArg (fun w => w.fetch i') hstep
    unfold start at hstage
    rw [hs] at hstage
    change Function.update w.fetch i' (.started k w.now) i' = .registered k at hstage
    rw [Function.update_self] at hstage
    cases hstage
  | record j =>
    intro now topic items k start hs hr _ _
    have hstep : w.record L j = w := h
    have hstage := congrArg (fun w => w.thread j) hstep
    unfold record at hstage
    rw [hs] at hstage
    dsimp only at hstage
    rw [hr] at hstage
    change Function.update w.thread j .idle j = .copied now topic items at hstage
    rw [Function.update_self] at hstage
    cases hstage
  | _ => trivial

theorem inv_step {w : Arrivals} {i : ℕ} {late : Prop} (h : FetchInv f i w late) (e : ArrivalEvent) :
    FetchInv f i (w.step L f e) (late ∨ ¬ w.Timely L i e) := by
  rcases step_moves w e with heq | hm
  · rw [heq]
    exact h.timely (timely_of_stuck heq i)
  · exact inv_moves hm h

/-- **What a run preserves.** -/
theorem inv_run {i : ℕ} (es : List ArrivalEvent) : ∀ {w : Arrivals} {late : Prop}, FetchInv f i w late →
    FetchInv f i (w.run L f es) (late ∨ ¬ TimelyRun L f i w es) := by
  induction es with
  | nil =>
    intro w late h
    unfold TimelyRun
    rw [not_true_eq_false, or_false]
    exact h
  | cons e es ih =>
    intro w late h
    have hrun := ih (inv_step (L := L) h e)
    unfold TimelyRun
    rw [not_and_or, ← or_assoc]
    exact hrun

/-- **The delay of a fetch that waits is not negative iff every step is timely for it.** -/
theorem delay_nonneg_iff (L : Lib) (f : ℕ → AsyncCall) (now : ℚ) (es : List ArrivalEvent) (i : ℕ)
    (r : FetchResult) (hr : ((init now).run L f es).fetch i = .finished (.ok r)) :
    0 ≤ r.fetchDelayMs ↔ ((f i).expects = true → TimelyRun L f i (init now) es) := by
  have hinit : FetchInv f i (init now) False := not_false
  have hrun := (inv_run (L := L) es hinit).stage hr
  have hneg : r.fetchDelayMs < 0 ↔ (f i).expects = true ∧ (False ∨ ¬ TimelyRun L f i (init now) es) := hrun
  rw [← not_lt, hneg, false_or, not_and, not_not]

/-! ## No message before the start -/

/-- When the fetch reads its start instant, no thread is in `handle_replay` and its counter has no arrival. -/
def Quiet (i : ℕ) (w : Arrivals) : ArrivalEvent → Prop
  | .start i' => i' = i → (∀ j, w.thread j = .idle) ∧
      ∀ k, w.fetch i = .registered k → (w.reg.counters k).firstMonotonic = none
  | _ => True

/-- The start instant that the fetch has read is not after any clock reading. -/
def AfterStart (i : ℕ) (w : Arrivals) : Prop := ∀ k start, (w.fetch i).startOf = some (k, start) →
  start ≤ w.now ∧ ∀ j now, (w.thread j).clock? = some now → start ≤ now

theorem AfterStart.setFetch {w : Arrivals} {i i' : ℕ} {s : FetchStage} (h : AfterStart i w)
    (hs : i' = i → s.startOf = none ∨ s.startOf = (w.fetch i).startOf) : AfterStart i (w.setFetch i' s) := by
  intro k start hstart
  refine h k start ?_
  have hfetch : (Function.update w.fetch i' s i).startOf = some (k, start) := hstart
  rcases eq_or_ne i i' with rfl | hne
  · rw [Function.update_self] at hfetch
    rcases hs rfl with hnone | hsame
    · rw [hnone] at hfetch
      cases hfetch
    · exact hsame.symm.trans hfetch
  · rw [Function.update_of_ne hne] at hfetch
    exact hfetch

theorem AfterStart.setThread {w : Arrivals} {i j : ℕ} {s : ReplayStage} (h : AfterStart i w)
    (hs : ∀ now, s.clock? = some now → now = w.now ∨ (w.thread j).clock? = some now) :
    AfterStart i (w.setThread j s) := by
  intro k start hstart
  obtain ⟨hnow, hthreads⟩ := h k start hstart
  refine ⟨hnow, ?_⟩
  intro j' now hclock
  have hthread : (Function.update w.thread j s j').clock? = some now := hclock
  rcases eq_or_ne j' j with rfl | hne
  · rw [Function.update_self] at hthread
    rcases hs now hthread with rfl | hold
    · exact hnow
    · exact hthreads j' now hold
  · rw [Function.update_of_ne hne] at hthread
    exact hthreads j' now hthread

theorem afterStart_moves {w w' : Arrivals} {e : ArrivalEvent} (hm : Moves L f w e w') {i : ℕ}
    (h : AfterStart i w) (hq : w.Quiet i e) : AfterStart i w' := by
  cases hm with
  | tick d hd =>
    intro k start hstart
    obtain ⟨hnow, hthreads⟩ := h k start hstart
    exact ⟨by change start ≤ w.now + d; linarith, hthreads⟩
  | register i' hs => exact AfterStart.setFetch (w := w.setReg _) h fun _ => .inl rfl
  | start i' k hs =>
    rcases eq_or_ne i' i with rfl | hne
    · -- all threads are idle, so that none has a clock reading
      intro k' start hstart
      have hfetch : (Function.update w.fetch i' (.started k w.now) i').startOf = some (k', start) := hstart
      rw [Function.update_self] at hfetch
      obtain ⟨rfl, rfl⟩ := Prod.mk.inj (Option.some.inj hfetch)
      refine ⟨le_rfl, ?_⟩
      intro j now hclock
      have hidle : (w.thread j).clock? = some now := hclock
      rw [(hq rfl).1 j] at hidle
      cases hidle
    · exact h.setFetch fun heq => absurd heq hne
  | raised i' x k start e hs hx => exact h.setFetch fun _ => .inl rfl
  | posted i' x k start a hs hx =>
    refine h.setFetch ?_
    rintro rfl
    obtain ⟨rfl, -⟩ := post_instants hx
    exact .inr (by rw [hs]; rfl)
  | expects i' k a hs he =>
    refine h.setFetch ?_
    rintro rfl
    exact .inr (by rw [hs]; rfl)
  | unexpected i' k a hs he => exact h.setFetch fun _ => .inl rfl
  | polled i' k a hs hk =>
    refine h.setFetch ?_
    rintro rfl
    exact .inr (by rw [hs]; rfl)
  | aborted i' k a hs hk => exact h.setFetch fun _ => .inl rfl
  | arrived i' k a t hs hk =>
    refine h.setFetch ?_
    rintro rfl
    exact .inr (by rw [hs]; rfl)
  | counted i' k a t hs hd => exact h.setFetch fun _ => .inl rfl
  | returned i' result hs => exact AfterStart.setFetch (w := w.setReg _) h fun _ => .inl rfl
  | call j topic hs =>
    refine h.setThread ?_
    intro now hclock
    exact .inl (Option.some.inj hclock).symm
  | copy j now topic hs =>
    refine h.setThread ?_
    intro now' hclock
    exact .inr (by rw [hs]; exact hclock)
  | dropped j now topic items hs hr =>
    refine h.setThread ?_
    intro now' hclock
    cases hclock
  | recorded j now topic items k hs hr =>
    refine AfterStart.setThread (w := w.setReg _) h ?_
    intro now' hclock
    cases hclock

theorem timely_of_quiet {w : Arrivals} {i : ℕ} (h : AfterStart i w) {e : ArrivalEvent} (hq : w.Quiet i e) :
    w.Timely L i e := by
  cases e with
  | start i' =>
    intro heq k t hs ht
    rw [(hq heq).2 k hs] at ht
    cases ht
  | record j =>
    intro now topic items k start hs _ hstart _
    exact (h k start hstart).2 j now (by rw [hs]; rfl)
  | _ => trivial

/-- **A fetch that starts in quiet has no negative delay**: every run is timely for it in which no message
comes in between its registration and its start. -/
theorem timelyRun_of_quiet {i : ℕ} (es : List ArrivalEvent) : ∀ {w : Arrivals}, AfterStart i w →
    (∀ es₁ e es₂, es = es₁ ++ e :: es₂ → (w.run L f es₁).Quiet i e) → TimelyRun L f i w es := by
  induction es with
  | nil =>
    intro w _ _
    trivial
  | cons e es ih =>
    intro w h hquiet
    have hq : w.Quiet i e := hquiet [] e es rfl
    refine ⟨timely_of_quiet h hq, ih ?_ ?_⟩
    · rcases step_moves (L := L) (f := f) w e with heq | hm
      · rw [heq]
        exact h
      · exact afterStart_moves hm h hq
    · intro es₁ e' es₂ heq
      exact hquiet (e :: es₁) e' es₂ (by rw [heq, List.cons_append])

/-! ## An early arrival -/

/-- A fetch for one topic, whose service has one message. -/
def sampleCall : AsyncCall where
  call := ⟨"https://wis2-grep.weather.gc.ca", "ca-eccc-msc-global-replay", "cache/a/wis2/ca-eccc-msc",
    "2024-01-01T00:00:00Z", "2024-01-01T00:05:00Z", 285, 285⟩
  subscriberId := "int-wmo"
  brokerAuthorities := []
  baseline := 1
  numberMatched := some 1
  deadline_nonneg := by decide +kernel

/-- A message that comes in a second after the start instant. -/
def timelyEvents : List ArrivalEvent :=
  [.register 0, .start 0, .postReply 0 .fails, .decide 0, .tick 1, .call 0 sampleCall.channel, .copy 0,
    .record 0, .poll 0, .snapshot 0, .tick 284, .count 0, .unregister 0]

/-- A replay of the last cycle that comes in on the registered channel, a second before the start
instant is read. -/
def earlyEvents : List ArrivalEvent :=
  [.register 0, .call 0 sampleCall.channel, .copy 0, .record 0, .tick 1, .start 0, .postReply 0 .fails,
    .decide 0, .poll 0, .snapshot 0, .tick 284, .count 0, .unregister 0]

/-- The result of a fetch that has one. -/
def result? : FetchStage → Option FetchResult
  | .finished (.ok r) => some r
  | _ => none

theorem finished_of_result? {s : FetchStage} {r : FetchResult} (h : result? s = some r) :
    s = .finished (.ok r) := by
  unfold result? at h
  split at h
  · rw [Option.some.inj h]
  · cases h

/-- A run of one fetch. -/
def sampleRun (es : List ArrivalEvent) : Arrivals := (init 0).run sampleTables.lib (fun _ => sampleCall) es

theorem timely_sample : TimelyRun sampleTables.lib (fun _ => sampleCall) 0 (init 0) timelyEvents := by
  have hdelay : (result? ((sampleRun timelyEvents).fetch 0)).map FetchResult.fetchDelayMs = some 1000 := by
    decide +kernel
  obtain ⟨r, hr, hms⟩ := Option.map_eq_some_iff.1 hdelay
  have hiff := delay_nonneg_iff sampleTables.lib (fun _ => sampleCall) 0 timelyEvents 0 r
    (finished_of_result? hr)
  refine hiff.1 ?_ rfl
  rw [hms]
  norm_num

/-- **The delay of the early arrival is −1000 ms.** -/
theorem delay_negative : ∃ r, ((init 0).run sampleTables.lib (fun _ => sampleCall) earlyEvents).fetch 0 =
    .finished (.ok r) ∧ r.fetchDelayMs < 0 := by
  have hdelay : (result? ((sampleRun earlyEvents).fetch 0)).map FetchResult.fetchDelayMs = some (-1000) := by
    decide +kernel
  obtain ⟨r, hr, hms⟩ := Option.map_eq_some_iff.1 hdelay
  refine ⟨r, finished_of_result? hr, ?_⟩
  rw [hms]
  norm_num

end Arrivals

end Scgrep
