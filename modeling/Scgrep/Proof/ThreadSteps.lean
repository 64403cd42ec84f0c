import Scgrep.Proof.StoreSpec
import Scgrep.Spec.Threads

/-!
# The steps of overlapping calls

* `serial`: the calls of `store_message` in the order of their `SET`s, each at the clock
  reading of that.
* `step_moves`: what a step does to markers, baseline sets and returns.
* `thread_untouched`: a thread stands still while the others move.
* `message_alone`: a call that nothing overlaps is `store_message`.
-/

namespace Scgrep

open Redis

namespace StoreWorld

variable {L : Lib} {S : RedisStore}

@[simp] theorem setThread_now (w : StoreWorld) (j : ℕ) (s : StoreStage) : (w.setThread j s).now = w.now := rfl
@[simp] theorem setThread_db (w : StoreWorld) (j : ℕ) (s : StoreStage) : (w.setThread j s).db = w.db := rfl
@[simp] theorem setThread_returned (w : StoreWorld) (j : ℕ) (s : StoreStage) :
    (w.setThread j s).returned = w.returned := rfl
@[simp] theorem setDb_now (w : StoreWorld) (db : Db) : (w.setDb db).now = w.now := rfl
@[simp] theorem setDb_db (w : StoreWorld) (db : Db) : (w.setDb db).db = db := rfl
@[simp] theorem setDb_thread (w : StoreWorld) (db : Db) : (w.setDb db).thread = w.thread := rfl
@[simp] theorem setDb_returned (w : StoreWorld) (db : Db) : (w.setDb db).returned = w.returned := rfl
@[simp] theorem ret_now (w : StoreWorld) (j : ℕ) (c : StoreCall) (b : Bool) : (w.ret j c b).now = w.now := rfl
@[simp] theorem ret_db (w : StoreWorld) (j : ℕ) (c : StoreCall) (b : Bool) : (w.ret j c b).db = w.db := rfl
@[simp] theorem ret_returned (w : StoreWorld) (j : ℕ) (c : StoreCall) (b : Bool) :
    (w.ret j c b).returned = w.returned ++ [⟨j, c, b⟩] := rfl

theorem setThread_thread (w : StoreWorld) (j j' : ℕ) (s : StoreStage) :
    (w.setThread j s).thread j' = if j' = j then s else w.thread j' := Function.update_apply _ _ _ _

theorem ret_thread (w : StoreWorld) (j j' : ℕ) (c : StoreCall) (b : Bool) :
    (w.ret j c b).thread j' = if j' = j then .idle else w.thread j' := Function.update_apply _ _ _ _

end StoreWorld

/-! ## The calls in order -/

/-- A call of `store_message` with the clock reading at which it takes effect. -/
structure SerialCall where
  thread : ℕ
  now : ℚ
  msgId : String
  timeValue : String
  receivedTopic : String
deriving DecidableEq

/-- The keyspace and the returns after some calls. -/
structure SerialState where
  db : Db
  returned : List StoreReturn

def SerialState.init : SerialState := ⟨Db.empty, []⟩

variable (L : Lib) (S : RedisStore)

/-- One call after the other. -/
def SerialState.step (s : SerialState) (c : SerialCall) : SerialState :=
  let r := storeMessage L S c.now c.msgId c.timeValue c.receivedTopic s.db
  ⟨r.2, s.returned ++ [⟨c.thread, .message c.msgId c.timeValue c.receivedTopic, r.1⟩]⟩

def SerialState.run (s : SerialState) (cs : List SerialCall) : SerialState := cs.foldl (step L S) s

namespace StoreWorld

/-- The call that takes effect in a step: at its `SET`, or where its time cannot be parsed. -/
def serialOf (w : StoreWorld) : StoreEvent → List SerialCall
  | .call j (.message msgId timeValue receivedTopic) =>
    if w.thread j = .idle ∧ parseTimeToEpoch L timeValue = none then
      [⟨j, w.now, msgId, timeValue, receivedTopic⟩]
    else []
  | .advance j =>
    match w.thread j with
    | .marking msgId timeValue receivedTopic _ => [⟨j, w.now, msgId, timeValue, receivedTopic⟩]
    | _ => []
  | _ => []

/-- **The serial order**: the calls of a run in the order in which they take effect. -/
def serial : StoreWorld → List StoreEvent → List SerialCall
  | _, [] => []
  | w, e :: es => w.serialOf L e ++ serial (w.step L S e) es

end StoreWorld

/-! ## What a step can do -/

namespace StoreStage

/-- A call of `store_message` between its `SET` and its return; `idle` when there is none. -/
def inCall : StoreStage → StoreStage
  | marked msgId timeValue receivedTopic epoch => marked msgId timeValue receivedTopic epoch
  | indexing msgId timeValue receivedTopic epoch cutoff patterns =>
    indexing msgId timeValue receivedTopic epoch cutoff patterns
  | _ => idle

/-- What the call is going to return. -/
def pendingReturn (j : ℕ) : StoreStage → List StoreReturn
  | marked msgId timeValue receivedTopic _ => [⟨j, .message msgId timeValue receivedTopic, true⟩]
  | indexing msgId timeValue receivedTopic _ _ _ => [⟨j, .message msgId timeValue receivedTopic, true⟩]
  | _ => []

/-- What the call is going to index under `P`. -/
def Pends (L : Lib) (P msgId : String) (epoch : ℚ) : StoreStage → Prop
  | marked m _ receivedTopic τ => m = msgId ∧ τ = epoch ∧ topicMatches L P receivedTopic = true
  | indexing m _ receivedTopic τ _ patterns =>
    m = msgId ∧ τ = epoch ∧ topicMatches L P receivedTopic = true ∧ P ∈ patterns
  | _ => False

/-- The epoch is that of the time. -/
def Parsed (L : Lib) : StoreStage → Prop
  | marking _ timeValue _ epoch => parseTimeToEpoch L timeValue = some epoch
  | marked _ timeValue _ epoch => parseTimeToEpoch L timeValue = some epoch
  | indexing _ timeValue _ epoch _ _ => parseTimeToEpoch L timeValue = some epoch
  | _ => True

/-- The cutoff is of a reading before `now`. -/
def CutBefore (S : RedisStore) (now : ℚ) : StoreStage → Prop
  | indexing _ _ _ _ cutoff _ => cutoff ≤ now - S.expiry
  | _ => True

theorem pendingReturn_inCall (j : ℕ) (s : StoreStage) : s.inCall.pendingReturn j = s.pendingReturn j := by
  cases s with
  | _ => rfl

theorem pends_inCall (L : Lib) (P msgId : String) (epoch : ℚ) (s : StoreStage) :
    s.inCall.Pends L P msgId epoch ↔ s.Pends L P msgId epoch := by
  cases s with
  | _ => exact Iff.rfl

theorem cutBefore_inCall (S : RedisStore) (now : ℚ) (s : StoreStage) :
    s.inCall.CutBefore S now ↔ s.CutBefore S now := by
  cases s with
  | _ => exact Iff.rfl

end StoreStage

/-- A call of `store_message`. -/
def StoreCall.isMessage : StoreCall → Bool
  | message _ _ _ => true
  | _ => false

/-- What the calls of `store_message` of a thread have returned, in their order. -/
def returnsOf (j : ℕ) (rs : List StoreReturn) : List StoreReturn :=
  rs.filter fun r => r.thread == j && r.call.isMessage

theorem returnsOf_append (j : ℕ) (rs : List StoreReturn) (r : StoreReturn) :
    returnsOf j (rs ++ [r]) =
      returnsOf j rs ++ if r.thread = j ∧ r.call.isMessage = true then [r] else [] := by
  unfold returnsOf
  rw [List.filter_append]
  by_cases h : r.thread = j ∧ r.call.isMessage = true
  · rw [if_pos h]
    simp [h.1, h.2]
  · rw [if_neg h]
    simpa using h

namespace StoreWorld

variable {L S}

/-- The steps, as the calls of `store_message` see them. -/
inductive Moves (L : Lib) (S : RedisStore) (w : StoreWorld) (e : StoreEvent) : StoreWorld → Prop where
  /-- no call of `store_message` moves -/
  | other {w' : StoreWorld} (hserial : w.serialOf L e = []) (hnow : w.now ≤ w'.now)
      (hdb : ∀ k, keyFamily k = some 'm' ∨ keyFamily k = some 't' → w'.db k = w.db k)
      (hcall : ∀ j, (w'.thread j).inCall = (w.thread j).inCall)
      (hparsed : (∀ j, (w.thread j).Parsed L) → ∀ j, (w'.thread j).Parsed L)
      (hret : ∀ j, returnsOf j w'.returned = returnsOf j w.returned) : Moves L S w e w'
  /-- a call returns `False` -/
  | fails (j : ℕ) (msgId timeValue topic : String)
      (hserial : w.serialOf L e = [⟨j, w.now, msgId, timeValue, topic⟩])
      (hcall : (w.thread j).inCall = .idle)
      (hfail : parseTimeToEpoch L timeValue = none ∨ ∃ x, purge w.now (w.db (msgKey msgId)) = some x) :
      Moves L S w e (w.ret j (.message msgId timeValue topic) false)
  /-- a `SET` succeeds -/
  | marks (j : ℕ) (msgId timeValue topic : String) (epoch : ℚ)
      (hserial : w.serialOf L e = [⟨j, w.now, msgId, timeValue, topic⟩])
      (hs : w.thread j = .marking msgId timeValue topic epoch) (hm : purge w.now (w.db (msgKey msgId)) = none) :
      Moves L S w e ((w.setDb (w.db.at (msgKey msgId) fun _ =>
        some ⟨.str topic, some (w.now + S.expiry)⟩)).setThread j (.marked msgId timeValue topic epoch))
  | cutoff (j : ℕ) (msgId timeValue topic : String) (epoch : ℚ) (hserial : w.serialOf L e = [])
      (hs : w.thread j = .marked msgId timeValue topic epoch) : Moves L S w e
      (w.setThread j (.indexing msgId timeValue topic epoch (w.now - S.expiry) S.topics))
  | indexes (j : ℕ) (msgId timeValue topic : String) (epoch cutoff : ℚ) (P : String) (Ps : List String)
      (hserial : w.serialOf L e = []) (hs : w.thread j = .indexing msgId timeValue topic epoch cutoff (P :: Ps))
      (ht : topicMatches L P topic = true) : Moves L S w e
      ((w.setDb (w.db.at (topicKey P) (index w.now msgId epoch cutoff S.expiry))).setThread j
        (.indexing msgId timeValue topic epoch cutoff Ps))
  | skips (j : ℕ) (msgId timeValue topic : String) (epoch cutoff : ℚ) (P : String) (Ps : List String)
      (hserial : w.serialOf L e = []) (hs : w.thread j = .indexing msgId timeValue topic epoch cutoff (P :: Ps))
      (ht : topicMatches L P topic = false) : Moves L S w e
      (w.setThread j (.indexing msgId timeValue topic epoch cutoff Ps))
  | stored (j : ℕ) (msgId timeValue topic : String) (epoch cutoff : ℚ) (hserial : w.serialOf L e = [])
      (hs : w.thread j = .indexing msgId timeValue topic epoch cutoff []) : Moves L S w e
      (w.ret j (.message msgId timeValue topic) true)

/-- A thread goes from one stage outside `store_message` to another. -/
theorem Moves.outside {w w' : StoreWorld} {e : StoreEvent} {j : ℕ} {s : StoreStage}
    (hserial : w.serialOf L e = []) (hnow : w'.now = w.now)
    (hdb : ∀ k, keyFamily k = some 'm' ∨ keyFamily k = some 't' → w'.db k = w.db k)
    (hthread : w'.thread = Function.update w.thread j s) (hold : (w.thread j).inCall = .idle)
    (hnew : s.inCall = .idle) (hparsed : s.Parsed L)
    (hret : ∀ j, returnsOf j w'.returned = returnsOf j w.returned) : Moves L S w e w' := by
  refine .other hserial hnow.ge hdb ?_ ?_ hret
  · intro j'
    rw [hthread, Function.update_apply]
    split
    · rename_i heq
      rw [hnew, heq, hold]
    · rfl
  · intro h j'
    rw [hthread, Function.update_apply]
    split
    · exact hparsed
    · exact h j'

theorem setNxEx_none {now ttl : ℚ} {x : String} {o : Slot} (h : purge now o = none) :
    setNxEx now x ttl o = (true, some ⟨.str x, some (now + ttl)⟩) := by
  unfold setNxEx
  rw [h]

theorem setNxEx_some {now ttl : ℚ} {x : String} {o : Slot} {e : Entry String String ℚ}
    (h : purge now o = some e) : setNxEx now x ttl o = (false, some e) := by
  unfold setNxEx
  rw [h]

theorem returnsOf_ret_of_not_message (w : StoreWorld) (j : ℕ) {c : StoreCall} (b : Bool)
    (hc : c.isMessage = false) (j' : ℕ) : returnsOf j' (w.ret j c b).returned = returnsOf j' w.returned := by
  rw [ret_returned, returnsOf_append, if_neg, List.append_nil]
  rintro ⟨-, h⟩
  rw [hc] at h
  cases h

theorem call_moves (w : StoreWorld) (j : ℕ) (c : StoreCall) : Moves L S w (.call j c) (w.call L S j c) := by
  by_cases hs : w.thread j = .idle
  · have hold : (w.thread j).inCall = .idle := by
      rw [hs]
      rfl
    unfold call
    rw [hs]
    dsimp only
    cases hp : parseTimeToEpoch L c.timeValue with
    | none =>
      dsimp only
      cases c with
      | message msgId timeValue topic =>
        have hserial : w.serialOf L (.call j (.message msgId timeValue topic)) =
            [⟨j, w.now, msgId, timeValue, topic⟩] := if_pos ⟨hs, hp⟩
        exact .fails j msgId timeValue topic hserial hold (.inl hp)
      | replay centreId msgId timeValue originalTopic =>
        exact Moves.outside rfl rfl (fun _ _ => rfl) rfl hold rfl trivial
          (returnsOf_ret_of_not_message w j false rfl)
      | sync centreId pattern msgId timeValue =>
        exact Moves.outside rfl rfl (fun _ _ => rfl) rfl hold rfl trivial
          (returnsOf_ret_of_not_message w j false rfl)
    | some epoch =>
      dsimp only
      cases c with
      | message msgId timeValue topic =>
        have hserial : w.serialOf L (.call j (.message msgId timeValue topic)) = [] := by
          refine if_neg ?_
          rintro ⟨-, hnone⟩
          have hsome : parseTimeToEpoch L timeValue = some epoch := hp
          rw [hsome] at hnone
          cases hnone
        exact Moves.outside hserial rfl (fun _ _ => rfl) rfl hold rfl hp fun _ => rfl
      | replay centreId msgId timeValue originalTopic =>
        exact Moves.outside rfl rfl (fun _ _ => rfl) rfl hold rfl trivial fun _ => rfl
      | sync centreId pattern msgId timeValue =>
        exact Moves.outside rfl rfl (fun _ _ => rfl) rfl hold rfl trivial fun _ => rfl
  · -- a thread makes one call at a time
    have hcall : w.call L S j c = w := by
      unfold call
      split
      · rename_i h
        exact absurd h hs
      · rfl
    have hserial : w.serialOf L (.call j c) = [] := by
      cases c with
      | message msgId timeValue topic => exact if_neg fun h => hs h.1
      | replay centreId msgId timeValue originalTopic => rfl
      | sync centreId pattern msgId timeValue => rfl
    rw [hcall]
    exact .other hserial le_rfl (fun _ _ => rfl) (fun _ => rfl) id fun _ => rfl

/-- A key of another family. -/
theorem ne_of_family {k k' : String} {a : Char} (hk : keyFamily k = some 'm' ∨ keyFamily k = some 't')
    (hk' : keyFamily k' = some a) (hm : a ≠ 'm') (ht : a ≠ 't') : k ≠ k' := by
  rcases hk with hk | hk
  · exact keys_ne hk hk' hm.symm
  · exact keys_ne hk hk' ht.symm

theorem advance_moves (w : StoreWorld) (j : ℕ) : Moves L S w (.advance j) (w.advance L S j) := by
  have hserial : ∀ {s}, w.thread j = s → (∀ m v t τ, s ≠ .marking m v t τ) →
      w.serialOf L (.advance j) = [] := by
    intro s hs hne
    unfold serialOf
    dsimp only
    rw [hs]
    cases s with
    | marking m v t τ => exact absurd rfl (hne m v t τ)
    | _ => rfl
  have hold : ∀ {s}, w.thread j = s → s.inCall = .idle → (w.thread j).inCall = .idle := by
    intro s hs h
    rw [hs, h]
  unfold advance
  cases hs : w.thread j with
  | idle =>
    exact .other (hserial hs (by intro _ _ _ _ h; cases h)) le_rfl (fun _ _ => rfl) (fun _ => rfl) id fun _ => rfl
  | marking m v t τ =>
    have hmark : w.serialOf L (.advance j) = [⟨j, w.now, m, v, t⟩] := by
      unfold serialOf
      dsimp only
      rw [hs]
    dsimp only
    cases hp : purge w.now (w.db (msgKey m)) with
    | some e =>
      rw [setNxEx_some hp]
      exact .fails j m v t hmark (hold hs rfl) (.inr ⟨e, hp⟩)
    | none =>
      rw [setNxEx_none hp]
      exact .marks j m v t τ hmark hs hp
  | marked m v t τ => exact .cutoff j m v t τ (hserial hs (by intro _ _ _ _ h; cases h)) hs
  | indexing m v t τ cutoff patterns =>
    cases patterns with
    | nil => exact .stored j m v t τ cutoff (hserial hs (by intro _ _ _ _ h; cases h)) hs
    | cons P Ps =>
      dsimp only
      cases ht : topicMatches L P t with
      | true => exact .indexes j m v t τ cutoff P Ps (hserial hs (by intro _ _ _ _ h; cases h)) hs ht
      | false => exact .skips j m v t τ cutoff P Ps (hserial hs (by intro _ _ _ _ h; cases h)) hs ht
  | replaying c m v t τ newlyAdded patterns =>
    have hserial' := hserial hs (by intro _ _ _ _ h; cases h)
    cases patterns with
    | nil =>
      exact Moves.outside hserial' rfl (fun _ _ => rfl) rfl (hold hs rfl) rfl trivial
        (returnsOf_ret_of_not_message w j newlyAdded rfl)
    | cons P Ps =>
      dsimp only
      split
      · refine Moves.outside hserial' rfl ?_ rfl (hold hs rfl) rfl trivial fun _ => rfl
        intro k hk
        exact Db.at_ne _ (ne_of_family hk (keyFamily_replayKey c P) (by decide) (by decide)) _
      · exact Moves.outside hserial' rfl (fun _ _ => rfl) rfl (hold hs rfl) rfl trivial fun _ => rfl
  | syncing c P m v τ =>
    refine Moves.outside (hserial hs (by intro _ _ _ _ h; cases h)) rfl ?_ rfl (hold hs rfl) rfl trivial
      (returnsOf_ret_of_not_message _ j _ rfl)
    intro k hk
    exact Db.at_ne _ (ne_of_family hk (keyFamily_syncKey c P) (by decide) (by decide)) _

theorem step_moves (w : StoreWorld) (e : StoreEvent) : Moves L S w e (w.step L S e) := by
  cases e with
  | tick d =>
    change Moves L S w (.tick d) (if 0 ≤ d then { w with now := w.now + d } else w)
    split
    · rename_i hd
      exact .other rfl (le_add_of_nonneg_right hd) (fun _ _ => rfl) (fun _ => rfl) id fun _ => rfl
    · exact .other rfl le_rfl (fun _ _ => rfl) (fun _ => rfl) id fun _ => rfl
  | call j c => exact call_moves w j c
  | advance j => exact advance_moves w j
  | clearReplay centreIds =>
    refine .other rfl le_rfl ?_ (fun _ => rfl) id fun _ => rfl
    rintro k (hk | hk)
    · exact clearReplay_frame S centreIds (by rw [hk]; decide) w.db
    · exact clearReplay_frame S centreIds (by rw [hk]; decide) w.db
  | clearSync centreIds =>
    refine .other rfl le_rfl ?_ (fun _ => rfl) id fun _ => rfl
    rintro k (hk | hk)
    · exact clearSync_frame S centreIds (by rw [hk]; decide) w.db
    · exact clearSync_frame S centreIds (by rw [hk]; decide) w.db

/-- The clock never goes back. -/
theorem now_step (w : StoreWorld) (e : StoreEvent) : w.now ≤ (w.step L S e).now := by
  have hm := step_moves (L := L) (S := S) w e
  generalize w.step L S e = w' at hm
  cases hm with
  | other hserial hnow hdb hcall hparsed hret => exact hnow
  | _ => exact le_rfl

theorem run_cons (w : StoreWorld) (e : StoreEvent) (es : List StoreEvent) :
    w.run L S (e :: es) = (w.step L S e).run L S es := rfl

theorem now_run (es : List StoreEvent) : ∀ w : StoreWorld, w.now ≤ (w.run L S es).now := by
  induction es with
  | nil =>
    intro w
    exact le_rfl
  | cons e es ih =>
    intro w
    exact (now_step w e).trans (ih _)

/-- A step moves its own thread only. -/
theorem step_thread {e : StoreEvent} {j : ℕ} (hcall : ∀ c, e ≠ .call j c) (hadvance : e ≠ .advance j)
    (w : StoreWorld) : (w.step L S e).thread j = w.thread j := by
  have hset : ∀ {j'} (w : StoreWorld) (s : StoreStage), j ≠ j' → (w.setThread j' s).thread j = w.thread j := by
    intro j' w s hne
    rw [setThread_thread, if_neg hne]
  have hret : ∀ {j'} (w : StoreWorld) (c : StoreCall) (b : Bool), j ≠ j' →
      (w.ret j' c b).thread j = w.thread j := by
    intro j' w c b hne
    rw [ret_thread, if_neg hne]
  cases e with
  | tick d =>
    change (if 0 ≤ d then ({ w with now := w.now + d } : StoreWorld) else w).thread j = w.thread j
    split
    · rfl
    · rfl
  | call j' c =>
    have hne : j ≠ j' := by
      rintro rfl
      exact hcall c rfl
    change (w.call L S j' c).thread j = w.thread j
    unfold call
    split
    · split
      · exact hret w c false hne
      · exact hset w _ hne
    · rfl
  | advance j' =>
    have hne : j ≠ j' := by
      rintro rfl
      exact hadvance rfl
    change (w.advance L S j').thread j = w.thread j
    unfold advance
    split
    · rfl
    · split
      · exact hret w _ _ hne
      · exact hset (w.setDb _) _ hne
    · exact hset w _ hne
    · exact hret w _ _ hne
    · dsimp only
      split
      · exact hset (w.setDb _) _ hne
      · exact hset w _ hne
    · exact hret w _ _ hne
    · split
      · exact hset (w.setDb _) _ hne
      · exact hset w _ hne
    · exact hret (w.setDb _) _ _ hne
  | clearReplay centreIds => rfl
  | clearSync centreIds => rfl

/-- A pattern that is skipped is none that the topic matches. -/
theorem mem_cons_of_skipped {P Q t : String} {Qs : List String} (ht : topicMatches L Q t = false)
    (hmatch : topicMatches L P t = true) : P ∈ Q :: Qs ↔ P ∈ Qs := by
  rw [List.mem_cons]
  refine or_iff_right ?_
  rintro rfl
  rw [ht] at hmatch
  cases hmatch

theorem thread_untouched {j : ℕ} (es : List StoreEvent)
    (h : ∀ e ∈ es, (∀ c, e ≠ .call j c) ∧ e ≠ .advance j) : ∀ w : StoreWorld,
      (w.run L S es).thread j = w.thread j := by
  induction es with
  | nil =>
    intro w
    rfl
  | cons e es ih =>
    intro w
    obtain ⟨hcall, hadvance⟩ := h e List.mem_cons_self
    rw [run_cons, ih fun e' he' => h e' (List.mem_cons_of_mem _ he'), step_thread hcall hadvance]

/-! ## A call alone -/

theorem ret_setThread (w : StoreWorld) (j : ℕ) (s : StoreStage) (c : StoreCall) (b : Bool) :
    (w.setThread j s).ret j c b = w.ret j c b := by
  unfold setThread ret
  rw [Function.update_idem]

/-- The loop of `store_message` with nothing in between. -/
theorem indexing_alone (j : ℕ) (m v t : String) (epoch cutoff : ℚ) (patterns : List String) :
    ∀ w : StoreWorld, w.thread j = .indexing m v t epoch cutoff patterns →
      w.run L S (List.replicate (patterns.length + 1) (.advance j)) =
        (w.setDb (patterns.foldl (fun (db : Db) P => if topicMatches L P t then
          db.at (topicKey P) (index w.now m epoch cutoff S.expiry) else db) w.db)).ret j (.message m v t) true := by
  induction patterns with
  | nil =>
    intro w hs
    change w.advance L S j = w.ret j (.message m v t) true
    unfold advance
    rw [hs]
  | cons P Ps ih =>
    intro w hs
    rw [List.length_cons, List.replicate_succ]
    change (w.advance L S j).run L S _ = _
    have hstep : w.advance L S j = ((w.setDb (if topicMatches L P t then
        w.db.at (topicKey P) (index w.now m epoch cutoff S.expiry) else w.db)).setThread j
          (.indexing m v t epoch cutoff Ps)) := by
      unfold advance
      rw [hs]
      dsimp only
      split
      · rfl
      · rfl
    rw [hstep, ih _ (Function.update_self _ _ _), List.foldl_cons]
    exact ret_setThread (setDb _ w) j _ _ _

theorem call_refused {w : StoreWorld} {j : ℕ} {c : StoreCall} (hj : w.thread j = .idle)
    (hp : parseTimeToEpoch L c.timeValue = none) : w.call L S j c = w.ret j c false := by
  unfold call
  rw [hj]
  dsimp only
  rw [hp]

theorem call_entered {w : StoreWorld} {j : ℕ} {c : StoreCall} {epoch : ℚ} (hj : w.thread j = .idle)
    (hp : parseTimeToEpoch L c.timeValue = some epoch) : w.call L S j c = w.setThread j (c.entered S epoch) := by
  unfold call
  rw [hj]
  dsimp only
  rw [hp]

/-- **A call that nothing overlaps is `store_message`.** -/
theorem message_alone {w : StoreWorld} {j : ℕ} (hj : w.thread j = .idle) (m v t : String) :
    ∃ n, w.run L S (.call j (.message m v t) :: List.replicate n (.advance j)) =
      (w.setDb (storeMessage L S w.now m v t w.db).2).ret j (.message m v t)
        (storeMessage L S w.now m v t w.db).1 := by
  cases hp : parseTimeToEpoch L v with
  | none =>
    refine ⟨0, ?_⟩
    have hstore : storeMessage L S w.now m v t w.db = (false, w.db) := by
      unfold storeMessage
      rw [hp]
    rw [hstore]
    exact call_refused hj hp
  | some epoch =>
    have hcall : w.call L S j (.message m v t) = w.setThread j (.marking m v t epoch) := call_entered hj hp
    cases hm : purge w.now (w.db (msgKey m)) with
    | some e =>
      refine ⟨1, ?_⟩
      have hstore : storeMessage L S w.now m v t w.db = (false, w.db) := by
        unfold storeMessage
        rw [hp]
        dsimp only
        rw [setNxEx_some hm]
      rw [hstore]
      change (w.call L S j (.message m v t)).advance L S j = _
      rw [hcall]
      unfold advance
      rw [setThread_thread, if_pos rfl]
      dsimp only
      rw [setThread_now, setThread_db, setNxEx_some hm]
      exact ret_setThread w j _ _ _
    | none =>
      -- the `SET`, the cutoff, the patterns, the return
      refine ⟨S.topics.length + 1 + 1 + 1, ?_⟩
      have hfst : (storeMessage L S w.now m v t w.db).1 = true := by
        unfold storeMessage
        rw [hp]
        dsimp only
        rw [setNxEx_none hm]
      rw [hfst, storeMessage_new t hp hm, List.replicate_succ, List.replicate_succ]
      change (((w.call L S j (.message m v t)).advance L S j).advance L S j).run L S _ = _
      have hset : (w.call L S j (.message m v t)).advance L S j =
          (w.setDb (w.db.at (msgKey m) fun _ => some ⟨.str t, some (w.now + S.expiry)⟩)).setThread j
            (.marked m v t epoch) := by
        rw [hcall]
        unfold advance
        rw [setThread_thread, if_pos rfl]
        dsimp only
        rw [setThread_now, setThread_db, setNxEx_none hm]
        unfold setThread setDb
        dsimp only
        rw [Function.update_idem]
      have hcut : ((w.call L S j (.message m v t)).advance L S j).advance L S j =
          (w.setDb (w.db.at (msgKey m) fun _ => some ⟨.str t, some (w.now + S.expiry)⟩)).setThread j
            (.indexing m v t epoch (w.now - S.expiry) S.topics) := by
        rw [hset]
        unfold advance
        rw [setThread_thread, if_pos rfl]
        dsimp only
        unfold setThread setDb
        dsimp only
        rw [Function.update_idem]
      rw [hcut, indexing_alone j m v t epoch (w.now - S.expiry) S.topics _ (Function.update_self _ _ _)]
      exact ret_setThread (setDb _ w) j _ _ _

end StoreWorld

end Scgrep
