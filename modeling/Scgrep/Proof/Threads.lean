import Scgrep.Lib.IndexLog
import Scgrep.Proof.ThreadSteps
import Scgrep.Spec.Tables

/-!
# Overlapping calls of `store_message`

The `SET` of a call decides what it returns; its pipelines may come much later, between
those of other calls.

* `Linked`, `Indexing`: against the calls one after the other, the markers are the same, the
  returns of each thread too, and the sets lack the pipelines that are still to come.
* `store_message_serialisable`: **overlapping calls return and count what the same calls
  return and count one after the other.**
* `returned_new_iff`: deduplication is exact, whatever overlaps.
-/

namespace Scgrep

open Redis IndexLog

namespace StoreWorld

variable {L : Lib} {S : RedisStore}

/-! ## Markers and returns -/

theorem serialState_run_append (s : SerialState) (cs ds : List SerialCall) :
    s.run L S (cs ++ ds) = (s.run L S cs).run L S ds := List.foldl_append

/-- A call that returns `False` stores nothing. -/
theorem serial_fails (s : SerialState) {c : SerialCall}
    (h : parseTimeToEpoch L c.timeValue = none ∨ ∃ x, purge c.now (s.db (msgKey c.msgId)) = some x) :
    s.step L S c =
      ⟨s.db, s.returned ++ [⟨c.thread, .message c.msgId c.timeValue c.receivedTopic, false⟩]⟩ := by
  have hstore : storeMessage L S c.now c.msgId c.timeValue c.receivedTopic s.db = (false, s.db) := by
    unfold storeMessage
    cases hp : parseTimeToEpoch L c.timeValue with
    | none => rfl
    | some epoch =>
      rcases h with h | ⟨x, h⟩
      · rw [hp] at h
        cases h
      · dsimp only
        rw [setNxEx_some h]
  unfold SerialState.step
  rw [hstore]

/-- A call that stores returns `True`. -/
theorem serial_marks (s : SerialState) {c : SerialCall} {epoch : ℚ}
    (hp : parseTimeToEpoch L c.timeValue = some epoch) (hm : purge c.now (s.db (msgKey c.msgId)) = none) :
    (s.step L S c).returned =
      s.returned ++ [⟨c.thread, .message c.msgId c.timeValue c.receivedTopic, true⟩] := by
  unfold SerialState.step storeMessage
  rw [hp]
  dsimp only
  rw [setNxEx_none hm]

/-- The marker that it leaves. -/
theorem serial_marker (s : SerialState) {c : SerialCall} {epoch : ℚ}
    (hp : parseTimeToEpoch L c.timeValue = some epoch) (hm : purge c.now (s.db (msgKey c.msgId)) = none)
    (m : String) : (s.step L S c).db (msgKey m) =
      s.db.at (msgKey c.msgId) (fun _ => some ⟨.str c.receivedTopic, some (c.now + S.expiry)⟩) (msgKey m) := by
  have hstore : (s.step L S c).db = (storeMessage L S c.now c.msgId c.timeValue c.receivedTopic s.db).2 := rfl
  rw [hstore, storeMessage_new _ hp hm]
  exact foldl_at_ne topicKey _ _ _ (fun Q => keys_ne (keyFamily_topicKey Q) (keyFamily_msgKey m) (by decide)) _ _

/-- **The same calls one after the other** have left the same markers, and return the same. -/
structure Linked (L : Lib) (S : RedisStore) (w : StoreWorld) (s : SerialState) : Prop where
  parsed : ∀ j, (w.thread j).Parsed L
  marks : ∀ m, s.db (msgKey m) = w.db (msgKey m)
  returns : ∀ j, returnsOf j s.returned = returnsOf j w.returned ++ (w.thread j).pendingReturn j

theorem linked_init (now : ℚ) : Linked L S (init now) SerialState.init :=
  ⟨fun _ => trivial, fun _ => rfl, fun _ => rfl⟩

/-- One more return. -/
theorem returnsOf_snoc (rs : List StoreReturn) (j j' : ℕ) (m v t : String) (b : Bool) :
    returnsOf j' (rs ++ [⟨j, .message m v t, b⟩]) =
      returnsOf j' rs ++ if j' = j then [⟨j, .message m v t, b⟩] else [] := by
  rw [returnsOf_append]
  simp [StoreCall.isMessage, eq_comm]

/-- A stage with the same return to come. -/
theorem Linked.setThread {w : StoreWorld} {s : SerialState} (h : Linked L S w s) {j : ℕ} {x : StoreStage}
    (hparsed : x.Parsed L) (hpend : x.pendingReturn j = (w.thread j).pendingReturn j) :
    Linked L S (w.setThread j x) s where
  parsed := by
    intro j'
    rw [setThread_thread]
    split
    · exact hparsed
    · exact h.parsed j'
  marks := h.marks
  returns := by
    intro j'
    rw [setThread_thread, setThread_returned, h.returns j']
    split
    · rename_i heq
      rw [heq, hpend]
    · rfl

/-- Other keys may change. -/
theorem Linked.setDb {w : StoreWorld} {s : SerialState} (h : Linked L S w s) {db : Db}
    (hdb : ∀ m, db (msgKey m) = w.db (msgKey m)) : Linked L S (w.setDb db) s :=
  ⟨h.parsed, fun m => (h.marks m).trans (hdb m).symm, h.returns⟩

/-- A call that returns `False`, at once. -/
theorem Linked.fails {w : StoreWorld} {s : SerialState} (h : Linked L S w s) {j : ℕ} {m v t : String}
    (hcall : (w.thread j).inCall = .idle)
    (hfail : parseTimeToEpoch L v = none ∨ ∃ x, purge w.now (w.db (msgKey m)) = some x) :
    Linked L S (w.ret j (.message m v t) false) (s.step L S ⟨j, w.now, m, v, t⟩) := by
  have hnone : (w.thread j).pendingReturn j = [] := by
    rw [← StoreStage.pendingReturn_inCall, hcall]
    rfl
  have hfail' : parseTimeToEpoch L v = none ∨ ∃ x, purge w.now (s.db (msgKey m)) = some x := by
    rw [h.marks]
    exact hfail
  rw [serial_fails (c := ⟨j, w.now, m, v, t⟩) s hfail']
  refine ⟨?_, h.marks, ?_⟩
  · intro j'
    rw [ret_thread]
    split
    · trivial
    · exact h.parsed j'
  · intro j'
    dsimp only
    rw [ret_returned, ret_thread, returnsOf_snoc, returnsOf_snoc, h.returns j']
    by_cases heq : j' = j
    · rw [if_pos heq, if_pos heq, heq, hnone, List.append_nil]
      exact (List.append_nil _).symm
    · rw [if_neg heq, if_neg heq, List.append_nil, List.append_nil]

/-- A call whose `SET` succeeds. -/
theorem Linked.marked {w : StoreWorld} {s : SerialState} (h : Linked L S w s) {j : ℕ} {m v t : String}
    {epoch : ℚ} (hs : w.thread j = .marking m v t epoch) (hm : purge w.now (w.db (msgKey m)) = none) :
    Linked L S ((w.setDb (w.db.at (msgKey m) fun _ => some ⟨.str t, some (w.now + S.expiry)⟩)).setThread j
      (.marked m v t epoch)) (s.step L S ⟨j, w.now, m, v, t⟩) := by
  have hp : parseTimeToEpoch L v = some epoch := by
    have hparsed := h.parsed j
    rw [hs] at hparsed
    exact hparsed
  have hsm : purge w.now (s.db (msgKey m)) = none := by
    rw [h.marks]
    exact hm
  refine ⟨?_, ?_, ?_⟩
  · intro j'
    rw [setThread_thread]
    split
    · exact hp
    · exact h.parsed j'
  · intro m'
    rw [serial_marker (c := ⟨j, w.now, m, v, t⟩) s hp hsm, setThread_db, setDb_db]
    by_cases hm' : m' = m
    · rw [hm', Db.at_self, Db.at_self]
    · have hne : msgKey m' ≠ msgKey m := fun heq => hm' (msgKey_injective heq)
      rw [Db.at_ne _ hne, Db.at_ne _ hne, h.marks]
  · intro j'
    rw [serial_marks (c := ⟨j, w.now, m, v, t⟩) s hp hsm, setThread_thread, setThread_returned,
      setDb_returned, setDb_thread, returnsOf_snoc, h.returns j']
    by_cases heq : j' = j
    · rw [if_pos heq, if_pos heq, heq, hs]
      exact congrArg (· ++ _) (List.append_nil _)
    · rw [if_neg heq, if_neg heq, List.append_nil]

/-- A call that returns `True`, at its end. -/
theorem Linked.stored {w : StoreWorld} {s : SerialState} (h : Linked L S w s) {j : ℕ} {m v t : String}
    {epoch cutoff : ℚ} (hs : w.thread j = .indexing m v t epoch cutoff []) :
    Linked L S (w.ret j (.message m v t) true) s := by
  refine ⟨?_, h.marks, ?_⟩
  · intro j'
    rw [ret_thread]
    split
    · trivial
    · exact h.parsed j'
  · intro j'
    rw [ret_returned, ret_thread, returnsOf_snoc, h.returns j']
    by_cases heq : j' = j
    · rw [if_pos heq, if_pos heq, heq, hs]
      exact (List.append_nil _).symm
    · rw [if_neg heq, if_neg heq, List.append_nil]

theorem linked_moves {w w' : StoreWorld} {e : StoreEvent} (hm : Moves L S w e w') {s : SerialState}
    (h : Linked L S w s) : Linked L S w' (s.run L S (w.serialOf L e)) := by
  have hpast : ∀ {j x}, w.thread j = x → x.Parsed L := by
    rintro j x rfl
    exact h.parsed j
  cases hm with
  | other hserial hnow hdb hcall hparsed hret =>
    rw [hserial]
    refine ⟨hparsed h.parsed, ?_, ?_⟩
    · intro m
      exact (h.marks m).trans (hdb _ (.inl (keyFamily_msgKey m))).symm
    · intro j
      have hpend : (w'.thread j).pendingReturn j = (w.thread j).pendingReturn j := by
        rw [← StoreStage.pendingReturn_inCall, hcall, StoreStage.pendingReturn_inCall]
      rw [hret j, hpend]
      exact h.returns j
  | fails j m v t hserial hcall hfail =>
    rw [hserial]
    exact h.fails hcall hfail
  | marks j m v t epoch hserial hs hm =>
    rw [hserial]
    exact h.marked hs hm
  | cutoff j m v t epoch hserial hs =>
    rw [hserial]
    have hparsed := hpast hs
    exact h.setThread hparsed (by rw [hs]; rfl)
  | indexes j m v t epoch cutoff Q Qs hserial hs ht =>
    rw [hserial]
    have hparsed := hpast hs
    have hdb : Linked L S (w.setDb (w.db.at (topicKey Q) (index w.now m epoch cutoff S.expiry))) s :=
      h.setDb fun m' => Db.at_ne _ (keys_ne (keyFamily_msgKey m') (keyFamily_topicKey Q) (by decide)) _
    exact hdb.setThread hparsed (by rw [setDb_thread, hs]; rfl)
  | skips j m v t epoch cutoff Q Qs hserial hs ht =>
    rw [hserial]
    have hparsed := hpast hs
    exact h.setThread hparsed (by rw [hs]; rfl)
  | stored j m v t epoch cutoff hserial hs =>
    rw [hserial]
    exact h.stored hs

/-! ## Baseline sets -/

/-- **The set of a topic**: what the pipelines have made of it, and what it is after the same calls one
after the other. The latter has what is still to come. -/
structure Indexing (L : Lib) (S : RedisStore) (P : String) (w : StoreWorld) (s : SerialState)
    (cs : List SerialCall) (done serialDone : List (Command String ℚ)) : Prop where
  set : w.db (topicKey P) = indexed (S.expiry : ℚ) done
  serialSet : s.db (topicKey P) = indexed (S.expiry : ℚ) serialDone
  orderly : Orderly (S.expiry : ℚ) w.now done
  serialOrderly : Orderly (S.expiry : ℚ) w.now serialDone
  same : ∀ m x, (∃ c ∈ serialDone, c.id = m ∧ c.score = x) ↔
    (∃ c ∈ done, c.id = m ∧ c.score = x) ∨ ∃ j, (w.thread j).Pends L P m x
  /-- a pipeline comes after the `SET` of its call -/
  late : ∀ c ∈ done, ∃ d ∈ serialDone, d.id = c.id ∧ d.score = c.score ∧ d.now ≤ c.now
  origin : ∀ d ∈ serialDone, ∃ c ∈ cs, c.msgId = d.id ∧ parseTimeToEpoch L c.timeValue = some d.score ∧
    c.now = d.now
  cut : ∀ j, (w.thread j).CutBefore S w.now

theorem indexing_init (P : String) (now : ℚ) :
    Indexing L S P (init now) SerialState.init [] [] [] where
  set := rfl
  serialSet := rfl
  orderly := ⟨List.Pairwise.nil, by nofun, by nofun⟩
  serialOrderly := ⟨List.Pairwise.nil, by nofun, by nofun⟩
  same := by
    intro m x
    refine iff_of_false (by rintro ⟨c, hc, -⟩; cases hc) ?_
    rintro (⟨c, hc, -⟩ | ⟨j, hj⟩)
    · cases hc
    · exact hj
  late := by nofun
  origin := by nofun
  cut := fun _ => trivial

/-- What is still to come, of one thread and of the others. -/
theorem exists_pends {w : StoreWorld} (j : ℕ) (s : StoreStage) (P m : String) (x : ℚ) :
    (∃ j', (Function.update w.thread j s j').Pends L P m x) ↔
      s.Pends L P m x ∨ ∃ j', j' ≠ j ∧ (w.thread j').Pends L P m x := by
  constructor
  · rintro ⟨j', h⟩
    rcases eq_or_ne j' j with rfl | hne
    · rw [Function.update_self] at h
      exact .inl h
    · rw [Function.update_of_ne hne] at h
      exact .inr ⟨j', hne, h⟩
  · rintro (h | ⟨j', hne, h⟩)
    · exact ⟨j, by rw [Function.update_self]; exact h⟩
    · exact ⟨j', by rw [Function.update_of_ne hne]; exact h⟩

theorem exists_pends_self {w : StoreWorld} (j : ℕ) (P m : String) (x : ℚ) :
    (∃ j', (w.thread j').Pends L P m x) ↔
      (w.thread j).Pends L P m x ∨ ∃ j', j' ≠ j ∧ (w.thread j').Pends L P m x := by
  have h := exists_pends (L := L) (w := w) j (w.thread j) P m x
  rw [Function.update_eq_self] at h
  exact h

variable {P : String} {cs : List SerialCall} {done serialDone : List (Command String ℚ)}

/-- A stage with the same pipelines to come. -/
theorem Indexing.setThread {w : StoreWorld} {s : SerialState} (h : Indexing L S P w s cs done serialDone)
    {j : ℕ} {x : StoreStage} (hpend : ∀ m τ, x.Pends L P m τ ↔ (w.thread j).Pends L P m τ)
    (hcut : x.CutBefore S w.now) : Indexing L S P (w.setThread j x) s cs done serialDone where
  set := h.set
  serialSet := h.serialSet
  orderly := h.orderly
  serialOrderly := h.serialOrderly
  same := by
    intro m τ
    change _ ↔ _ ∨ ∃ j', (Function.update w.thread j x j').Pends L P m τ
    rw [h.same, exists_pends, exists_pends_self j, hpend]
  late := h.late
  origin := h.origin
  cut := by
    intro j'
    rw [setThread_thread]
    split
    · exact hcut
    · exact h.cut j'

/-- A return changes no set. -/
theorem Indexing.ret {w : StoreWorld} {s : SerialState} (h : Indexing L S P w s cs done serialDone)
    {j : ℕ} (hpend : ∀ m τ, ¬ (w.thread j).Pends L P m τ) (c : StoreCall) (b : Bool) :
    Indexing L S P (w.ret j c b) s cs done serialDone := by
  have hidle := h.setThread (j := j) (x := .idle) (fun m τ => iff_of_false not_false (hpend m τ)) trivial
  exact ⟨hidle.set, hidle.serialSet, hidle.orderly, hidle.serialOrderly, hidle.same, hidle.late,
    hidle.origin, hidle.cut⟩

/-- Other keys may change. -/
theorem Indexing.setDb {w : StoreWorld} {s : SerialState} (h : Indexing L S P w s cs done serialDone)
    {db : Db} (hdb : db (topicKey P) = w.db (topicKey P)) : Indexing L S P (w.setDb db) s cs done serialDone :=
  ⟨hdb.trans h.set, h.serialSet, h.orderly, h.serialOrderly, h.same, h.late, h.origin, h.cut⟩

/-- A serial call that does not index. -/
theorem Indexing.serial {w : StoreWorld} {s s' : SerialState} (h : Indexing L S P w s cs done serialDone)
    (hdb : s'.db (topicKey P) = s.db (topicKey P)) (c : SerialCall) :
    Indexing L S P w s' (cs ++ [c]) done serialDone :=
  ⟨h.set, hdb.trans h.serialSet, h.orderly, h.serialOrderly, h.same, h.late, fun d hd => by
    obtain ⟨c', hc', hrest⟩ := h.origin d hd
    exact ⟨c', List.mem_append_left _ hc', hrest⟩, h.cut⟩

/-- What a serial call that stores makes of the set. -/
theorem serial_set (he : 0 ≤ S.expiry) (hP : P ∈ S.topics) {s : SerialState} {c : SerialCall} {epoch : ℚ}
    (hns : NotStr (s.db (topicKey P))) (hp : parseTimeToEpoch L c.timeValue = some epoch)
    (hm : purge c.now (s.db (msgKey c.msgId)) = none) :
    (s.step L S c).db (topicKey P) = if topicMatches L P c.receivedTopic then
      index c.now c.msgId epoch (c.now - S.expiry) S.expiry (s.db (topicKey P)) else s.db (topicKey P) := by
  have hbase := congrArg Retention.State.set
    (baseline_storeMessage (L := L) he hP hns c.now c.msgId hp c.receivedTopic)
  have hmark : purge c.now ((baseline s.db P).marks c.msgId) = none := hm
  rw [Retention.step_unmarked hmark] at hbase
  exact hbase

/-- A `SET` that succeeds: its call indexes at once in the serial order, and later here. -/
theorem Indexing.marked (he : 0 ≤ S.expiry) (hP : P ∈ S.topics) {w : StoreWorld} {s : SerialState}
    (hl : Linked L S w s) (h : Indexing L S P w s cs done serialDone) {j : ℕ} {m v t : String} {epoch : ℚ}
    (hs : w.thread j = .marking m v t epoch) (hm : purge w.now (w.db (msgKey m)) = none) :
    ∃ serialDone', Indexing L S P ((w.setDb (w.db.at (msgKey m) fun _ =>
        some ⟨.str t, some (w.now + S.expiry)⟩)).setThread j (.marked m v t epoch))
      (s.step L S ⟨j, w.now, m, v, t⟩) (cs ++ [⟨j, w.now, m, v, t⟩]) done serialDone' := by
  have hp : parseTimeToEpoch L v = some epoch := by
    have hparsed := hl.parsed j
    rw [hs] at hparsed
    exact hparsed
  have hsm : purge w.now (s.db (msgKey m)) = none := by
    rw [hl.marks]
    exact hm
  have hns : NotStr (s.db (topicKey P)) := by
    rw [h.serialSet]
    exact notStr_indexed _ _
  have hset := serial_set (c := ⟨j, w.now, m, v, t⟩) he hP hns hp hsm
  have hdb : w.db.at (msgKey m) (fun _ => some ⟨.str t, some (w.now + S.expiry)⟩) (topicKey P) =
      w.db (topicKey P) :=
    Db.at_ne _ (keys_ne (keyFamily_topicKey P) (keyFamily_msgKey m) (by decide)) _
  have hold : ∀ m' τ, ¬ (w.thread j).Pends L P m' τ := by
    intro m' τ
    rw [hs]
    exact not_false
  by_cases ht : topicMatches L P t = true
  · rw [if_pos ht] at hset
    refine ⟨serialDone ++ [⟨w.now, m, epoch, w.now - S.expiry⟩], ?_⟩
    refine ⟨hdb.trans h.set, ?_, h.orderly, h.serialOrderly.append rfl le_rfl, ?_, ?_, ?_, ?_⟩
    · rw [hset, h.serialSet, indexed_append]
      rfl
    · intro m' τ
      change _ ↔ _ ∨ ∃ j', (Function.update w.thread j (.marked m v t epoch) j').Pends L P m' τ
      have hsame := h.same m' τ
      rw [exists_pends_self j, or_iff_right (hold m' τ)] at hsame
      have hnew : StoreStage.Pends L P m' τ (.marked m v t epoch) ↔ m = m' ∧ epoch = τ :=
        ⟨fun h => ⟨h.1, h.2.1⟩, fun h => ⟨h.1, h.2, ht⟩⟩
      rw [exists_pends, hnew, or_left_comm, ← hsame]
      simp [List.mem_append, or_and_right, exists_or, or_comm]
    · intro c hc
      obtain ⟨d, hd, hrest⟩ := h.late c hc
      exact ⟨d, List.mem_append_left _ hd, hrest⟩
    · intro d hd
      rcases List.mem_append.1 hd with hd | hd
      · obtain ⟨c, hc, hrest⟩ := h.origin d hd
        exact ⟨c, List.mem_append_left _ hc, hrest⟩
      · rw [List.mem_singleton.1 hd]
        exact ⟨_, List.mem_append_right _ (List.mem_singleton_self _), rfl, hp, rfl⟩
    · intro j'
      rw [setThread_thread]
      split
      · trivial
      · exact h.cut j'
  · rw [if_neg ht] at hset
    refine ⟨serialDone, ((h.setDb hdb).setThread (x := .marked m v t epoch) ?_ trivial).serial hset _⟩
    intro m' τ
    refine iff_of_false ?_ (hold m' τ)
    rintro ⟨-, -, h⟩
    exact ht h

/-- A pipeline that runs. -/
theorem Indexing.indexes {w : StoreWorld} {s : SerialState} (h : Indexing L S P w s cs done serialDone)
    {j : ℕ} {m v t : String} {epoch cutoff : ℚ} {Q : String} {Qs : List String}
    (hs : w.thread j = .indexing m v t epoch cutoff (Q :: Qs)) (ht : topicMatches L Q t = true) :
    ∃ done', Indexing L S P ((w.setDb (w.db.at (topicKey Q) (index w.now m epoch cutoff S.expiry))).setThread j
      (.indexing m v t epoch cutoff Qs)) s cs done' serialDone := by
  have hcut : cutoff ≤ w.now - S.expiry := by
    have hcut := h.cut j
    rw [hs] at hcut
    exact hcut
  rcases eq_or_ne Q P with rfl | hne
  · have hpends : (w.thread j).Pends L Q m epoch := by
      rw [hs]
      exact ⟨rfl, rfl, ht, List.mem_cons_self⟩
    refine ⟨done ++ [⟨w.now, m, epoch, cutoff⟩], ?_⟩
    refine ⟨?_, h.serialSet, h.orderly.append rfl hcut, h.serialOrderly, ?_, ?_, h.origin, ?_⟩
    · rw [setThread_db, setDb_db, Db.at_self, h.set, indexed_append]
      rfl
    · intro m' τ
      change _ ↔ _ ∨ ∃ j', (Function.update w.thread j (.indexing m v t epoch cutoff Qs) j').Pends L Q m' τ
      have hsame := h.same m' τ
      rw [exists_pends_self j] at hsame
      -- what is done now was to come before
      have hold : (w.thread j).Pends L Q m' τ ↔
          (m = m' ∧ epoch = τ) ∨ StoreStage.Pends L Q m' τ (.indexing m v t epoch cutoff Qs) := by
        rw [hs]
        constructor
        · rintro ⟨hm, hτ, -, -⟩
          exact .inl ⟨hm, hτ⟩
        · rintro (⟨hm, hτ⟩ | ⟨hm, hτ, -, -⟩)
          · exact ⟨hm, hτ, ht, List.mem_cons_self⟩
          · exact ⟨hm, hτ, ht, List.mem_cons_self⟩
      rw [hsame, exists_pends, hold]
      simp [List.mem_append, or_and_right, exists_or, or_assoc]
    · intro c hc
      rcases List.mem_append.1 hc with hc | hc
      · exact h.late c hc
      · obtain ⟨d, hd, hid, hscore⟩ := (h.same m epoch).2 (.inr ⟨j, hpends⟩)
        rw [List.mem_singleton.1 hc]
        exact ⟨d, hd, hid, hscore, h.serialOrderly.upTo d hd⟩
    · intro j'
      rw [setThread_thread]
      split
      · exact hcut
      · exact h.cut j'
  · have hdb : w.db.at (topicKey Q) (index w.now m epoch cutoff S.expiry) (topicKey P) = w.db (topicKey P) :=
      Db.at_ne _ (fun heq => hne (topicKey_injective heq).symm) _
    refine ⟨done, (h.setDb hdb).setThread ?_ hcut⟩
    intro m' τ
    rw [setDb_thread, hs]
    simp [StoreStage.Pends, hne.symm]

theorem indexing_moves (he : 0 ≤ S.expiry) (hP : P ∈ S.topics) {w w' : StoreWorld} {e : StoreEvent}
    (hm : Moves L S w e w') {s : SerialState} (hl : Linked L S w s)
    (h : Indexing L S P w s cs done serialDone) : ∃ done' serialDone',
      Indexing L S P w' (s.run L S (w.serialOf L e)) (cs ++ w.serialOf L e) done' serialDone' := by
  cases hm with
  | other hserial hnow hdb hcall hparsed hret =>
    rw [hserial, List.append_nil]
    refine ⟨done, serialDone, ?_⟩
    have hpends : ∀ m x j, (w'.thread j).Pends L P m x ↔ (w.thread j).Pends L P m x := by
      intro m x j
      rw [← StoreStage.pends_inCall, hcall, StoreStage.pends_inCall]
    refine ⟨(hdb _ (.inr (keyFamily_topicKey P))).trans h.set, h.serialSet, h.orderly.later hnow,
      h.serialOrderly.later hnow, ?_, h.late, h.origin, ?_⟩
    · intro m x
      rw [h.same]
      simp only [hpends]
    · intro j
      have hcut := h.cut j
      rw [← StoreStage.cutBefore_inCall, hcall, StoreStage.cutBefore_inCall]
      -- an old cutoff stays old
      cases hs : w.thread j with
      | indexing m v t epoch cutoff patterns =>
        rw [hs] at hcut
        have hcut' : cutoff ≤ w.now - S.expiry := hcut
        change cutoff ≤ w'.now - S.expiry
        linarith
      | _ => trivial
  | fails j m v t hserial hcall hfail =>
    have hfail' : parseTimeToEpoch L v = none ∨ ∃ x, purge w.now (s.db (msgKey m)) = some x := by
      rw [hl.marks]
      exact hfail
    have hold : ∀ m' x, ¬ (w.thread j).Pends L P m' x := by
      intro m' x
      rw [← StoreStage.pends_inCall, hcall]
      exact not_false
    rw [hserial]
    refine ⟨done, serialDone, (h.ret hold _ _).serial ?_ _⟩
    exact congrArg (fun s => s.db (topicKey P)) (serial_fails (c := ⟨j, w.now, m, v, t⟩) s hfail')
  | marks j m v t epoch hserial hs hm =>
    rw [hserial]
    exact ⟨done, h.marked he hP hl hs hm⟩
  | cutoff j m v t epoch hserial hs =>
    rw [hserial, List.append_nil]
    refine ⟨done, serialDone, h.setThread ?_ le_rfl⟩
    intro m' x
    rw [hs]
    simp [StoreStage.Pends, hP]
  | indexes j m v t epoch cutoff Q Qs hserial hs ht =>
    rw [hserial, List.append_nil]
    obtain ⟨done', hdone⟩ := h.indexes hs ht
    exact ⟨done', serialDone, hdone⟩
  | skips j m v t epoch cutoff Q Qs hserial hs ht =>
    have hcut := h.cut j
    rw [hs] at hcut
    rw [hserial, List.append_nil]
    refine ⟨done, serialDone, h.setThread ?_ hcut⟩
    intro m' x
    rw [hs]
    constructor
    · rintro ⟨hm, hx, hmatch, hmem⟩
      exact ⟨hm, hx, hmatch, (mem_cons_of_skipped ht hmatch).2 hmem⟩
    · rintro ⟨hm, hx, hmatch, hmem⟩
      exact ⟨hm, hx, hmatch, (mem_cons_of_skipped ht hmatch).1 hmem⟩
  | stored j m v t epoch cutoff hserial hs =>
    rw [hserial, List.append_nil]
    refine ⟨done, serialDone, h.ret ?_ _ _⟩
    intro m' x
    rw [hs]
    simp [StoreStage.Pends]

/-! ## Runs -/

theorem linked_run (es : List StoreEvent) : ∀ {w : StoreWorld} {s : SerialState}, Linked L S w s →
    Linked L S (w.run L S es) (s.run L S (serial L S w es)) := by
  induction es with
  | nil =>
    intro w s h
    exact h
  | cons e es ih =>
    intro w s h
    rw [run_cons, serial, serialState_run_append]
    exact ih (linked_moves (step_moves w e) h)

theorem indexing_run (he : 0 ≤ S.expiry) (hP : P ∈ S.topics) (es : List StoreEvent) :
    ∀ {w : StoreWorld} {s : SerialState} {cs : List SerialCall} {done serialDone : List (Command String ℚ)},
      Linked L S w s → Indexing L S P w s cs done serialDone → ∃ done' serialDone',
        Indexing L S P (w.run L S es) (s.run L S (serial L S w es)) (cs ++ serial L S w es) done' serialDone' := by
  induction es with
  | nil =>
    intro w s cs done serialDone _ h
    refine ⟨done, serialDone, ?_⟩
    rw [serial, List.append_nil]
    exact h
  | cons e es ih =>
    intro w s cs done serialDone hl h
    obtain ⟨done', serialDone', h'⟩ := indexing_moves he hP (step_moves w e) hl h
    rw [run_cons, serial, serialState_run_append, ← List.append_assoc]
    exact ih (linked_moves (step_moves w e) hl) h'

/-- No call of `store_message` is between its `SET` and its return. -/
def Settled (w : StoreWorld) : Prop := ∀ j, (w.thread j).inCall = .idle

/-- Each id comes with one time. -/
def OneTimeCalls (L : Lib) (cs : List SerialCall) : Prop :=
  ∀ c ∈ cs, ∀ d ∈ cs, c.msgId = d.msgId → parseTimeToEpoch L c.timeValue = parseTimeToEpoch L d.timeValue

/-- No time is more than `slack` ahead of its `SET`. -/
def AheadBy (L : Lib) (slack : ℚ) (cs : List SerialCall) : Prop :=
  ∀ c ∈ cs, ∀ τ, parseTimeToEpoch L c.timeValue = some τ → τ ≤ c.now + slack

/-- **Overlapping calls of `store_message` are serialisable.** Whatever else the threads do, each thread is
returned what the same calls return one after the other; and when all are done, the baseline counts of
recent windows are the same too, if every id has one time. -/
theorem store_message_serialisable (he : 0 ≤ S.expiry) (now : ℚ) (es : List StoreEvent)
    (hdone : ((init now).run L S es).Settled) :
    (∀ j, returnsOf j ((init now).run L S es).returned =
      returnsOf j (SerialState.init.run L S (serial L S (init now) es)).returned) ∧
    ∀ slack : ℚ, 0 ≤ slack → OneTimeCalls L (serial L S (init now) es) →
      AheadBy L slack (serial L S (init now) es) →
      ∀ P ∈ S.topics, ∀ lo hi : ℤ, ((init now).run L S es).now - S.expiry + slack < lo →
        countMessages ((init now).run L S es).now ((init now).run L S es).db P lo hi =
          countMessages ((init now).run L S es).now
            (SerialState.init.run L S (serial L S (init now) es)).db P lo hi := by
  have hl := linked_run (L := L) (S := S) es (linked_init now)
  constructor
  · intro j
    rw [hl.returns j, ← StoreStage.pendingReturn_inCall, hdone j]
    exact (List.append_nil _).symm
  · intro slack hslack hone hahead P hP lo hi hlo
    obtain ⟨done, serialDone, h⟩ := indexing_run he hP es (linked_init now) (indexing_init P now)
    rw [List.nil_append] at h
    have hnone : ∀ m x, ¬ ∃ j, (((init now).run L S es).thread j).Pends L P m x := by
      rintro m x ⟨j, hj⟩
      rw [← StoreStage.pends_inCall, hdone j] at hj
      exact hj
    have hsame : ∀ m x, (∃ c ∈ serialDone, c.id = m ∧ c.score = x) ↔ ∃ c ∈ done, c.id = m ∧ c.score = x :=
      fun m x => (h.same m x).trans (or_iff_left (hnone m x))
    -- an id has the score of its time, which is not far ahead of its `SET`
    have hscores : OneScore serialDone := by
      intro c hc d hd hid
      obtain ⟨c', hc', hcid, hcp, -⟩ := h.origin c hc
      obtain ⟨d', hd', hdid, hdp, -⟩ := h.origin d hd
      have hparse := hone c' hc' d' hd' (by rw [hcid, hdid, hid])
      rw [hcp, hdp] at hparse
      exact Option.some.inj hparse
    have hserialAhead : ∀ c ∈ serialDone, c.score ≤ c.now + slack := by
      intro c hc
      obtain ⟨c', hc', -, hcp, hcnow⟩ := h.origin c hc
      rw [← hcnow]
      exact hahead c' hc' c.score hcp
    have hdoneAhead : ∀ c ∈ done, c.score ≤ c.now + slack := by
      intro c hc
      obtain ⟨d, hd, -, hscore, hnow⟩ := h.late c hc
      have hd' := hserialAhead d hd
      linarith
    unfold countMessages
    rw [h.set, h.serialSet, zcount_eq_card, zcount_eq_card]
    exact congrArg Finset.card (zrange_eq_of_same hslack hscores hserialAhead hdoneAhead h.serialOrderly
      h.orderly hsame hlo hi).symm

/-- Two brokers deliver one message, and one of them another while the first call is not over. -/
def overlapping : List StoreEvent :=
  [.call 0 (.message "m" "2024-01-01T00:00:00Z" "cache/a/wis2/x"),
    .call 1 (.message "m" "2024-01-01T00:00:00Z" "cache/a/wis2/x"), .advance 0, .advance 1,
    .call 1 (.message "n" "2024-01-01T00:01:00Z" "cache/a/wis2/y"), .advance 1, .advance 0, .advance 1,
    .advance 1, .advance 0, .advance 0, .advance 1]

def overlappingStore : RedisStore := ⟨660, ["cache/a/wis2/#"]⟩

/-- The clock at which they come in. -/
def overlappingNow : ℚ := newYear + 310

/-- The calls in the order of their `SET`s. -/
def overlappingCalls : List SerialCall :=
  [⟨0, overlappingNow, "m", "2024-01-01T00:00:00Z", "cache/a/wis2/x"⟩,
    ⟨1, overlappingNow, "m", "2024-01-01T00:00:00Z", "cache/a/wis2/x"⟩,
    ⟨1, overlappingNow, "n", "2024-01-01T00:01:00Z", "cache/a/wis2/y"⟩]

theorem overlapping_serial :
    serial sampleTables.lib overlappingStore (init overlappingNow) overlapping = overlappingCalls := by
  decide +kernel

theorem overlapping_settled :
    ((init overlappingNow).run sampleTables.lib overlappingStore overlapping).Settled := by
  intro j
  by_cases h₀ : j = 0
  · rw [h₀]
    decide +kernel
  by_cases h₁ : j = 1
  · rw [h₁]
    decide +kernel
  rw [thread_untouched overlapping ?_ (init overlappingNow)]
  · rfl
  · intro e he
    simp only [overlapping, List.mem_cons, List.not_mem_nil, or_false] at he
    rcases he with rfl | rfl | rfl | rfl | rfl | rfl | rfl | rfl | rfl | rfl | rfl | rfl
    all_goals simp [Ne.symm h₀, Ne.symm h₁]

theorem store_message_serialisable_sample :
    countMessages overlappingNow ((init overlappingNow).run sampleTables.lib overlappingStore overlapping).db
      "cache/a/wis2/#" newYear (newYear + 300) = 2 := by
  have hepochs : ∀ c ∈ overlappingCalls, parseTimeToEpoch sampleTables.lib c.timeValue = some (newYear : ℚ) ∨
      parseTimeToEpoch sampleTables.lib c.timeValue = some ((newYear : ℚ) + 60) := by decide +kernel
  have hserialisable := (store_message_serialisable (L := sampleTables.lib) (S := overlappingStore)
    (by decide) overlappingNow overlapping overlapping_settled).2
  have hcounts := hserialisable 0 le_rfl
    (by unfold OneTimeCalls; rw [overlapping_serial]; decide +kernel) ?_
    "cache/a/wis2/#" (by decide) newYear (newYear + 300) (by decide +kernel)
  · have hnow : ((init overlappingNow).run sampleTables.lib overlappingStore overlapping).now =
        overlappingNow := by decide +kernel
    rw [hnow] at hcounts
    rw [hcounts, overlapping_serial]
    decide +kernel
  · rw [overlapping_serial]
    intro c hc τ hτ
    have hnows : ∀ d ∈ overlappingCalls, d.now = overlappingNow := by decide +kernel
    rw [hnows c hc]
    rcases hepochs c hc with h | h
    · rw [h] at hτ
      rw [← Option.some.inj hτ]
      decide +kernel
    · rw [h] at hτ
      rw [← Option.some.inj hτ]
      decide +kernel

/-! ## Deduplication -/

theorem serialOf_now (S : RedisStore) {w : StoreWorld} {e : StoreEvent} {c : SerialCall} (hc : c ∈ w.serialOf L e) :
    w.serialOf L e = [c] ∧ c.now = w.now := by
  have hm := step_moves (L := L) (S := S) w e
  generalize w.step L S e = w' at hm
  cases hm with
  | fails j m v t hserial hcall hfail =>
    rw [hserial] at hc ⊢
    rw [List.mem_singleton.1 hc]
    exact ⟨rfl, rfl⟩
  | marks j m v t epoch hserial hs hm =>
    rw [hserial] at hc ⊢
    rw [List.mem_singleton.1 hc]
    exact ⟨rfl, rfl⟩
  | other hserial hnow hdb hcall hparsed hret =>
    rw [hserial] at hc
    cases hc
  | cutoff j m v t epoch hserial hs =>
    rw [hserial] at hc
    cases hc
  | indexes j m v t epoch cutoff Q Qs hserial hs ht =>
    rw [hserial] at hc
    cases hc
  | skips j m v t epoch cutoff Q Qs hserial hs ht =>
    rw [hserial] at hc
    cases hc
  | stored j m v t epoch cutoff hserial hs =>
    rw [hserial] at hc
    cases hc

/-- The serial order is in the order of the clock. -/
theorem serial_clocked (es : List StoreEvent) : ∀ w : StoreWorld,
    (∀ c ∈ serial L S w es, w.now ≤ c.now) ∧ (serial L S w es).Pairwise fun a b => a.now ≤ b.now := by
  induction es with
  | nil =>
    intro w
    exact ⟨by nofun, List.Pairwise.nil⟩
  | cons e es ih =>
    intro w
    obtain ⟨hfrom, hpair⟩ := ih (w.step L S e)
    have hstep := now_step (L := L) (S := S) w e
    have hrest : ∀ c ∈ serial L S (w.step L S e) es, w.now ≤ c.now :=
      fun c hc => hstep.trans (hfrom c hc)
    rw [serial]
    constructor
    · intro c hc
      rcases List.mem_append.1 hc with hc | hc
      · exact (serialOf_now S hc).2.ge
      · exact hrest c hc
    · refine List.pairwise_append.2 ⟨?_, hpair, ?_⟩
      · cases hs : w.serialOf L e with
        | nil => exact List.Pairwise.nil
        | cons c cs =>
          have hc : c ∈ w.serialOf L e := by
            rw [hs]
            exact List.mem_cons_self
          rw [← hs, (serialOf_now S hc).1]
          exact List.pairwise_singleton _ _
      · intro c hc d hd
        rw [(serialOf_now S hc).2]
        exact hrest d hd

end StoreWorld

variable {L S}

/-- What a call returns after some others. -/
def SerialCall.isNew (L : Lib) (S : RedisStore) (before : List SerialCall) (c : SerialCall) : Bool :=
  (storeMessage L S c.now c.msgId c.timeValue c.receivedTopic (SerialState.init.run L S before).db).1

theorem isNew_iff_unmarked (before : List SerialCall) (c : SerialCall) :
    c.isNew L S before = true ↔ (∃ epoch, parseTimeToEpoch L c.timeValue = some epoch) ∧
      purge c.now ((SerialState.init.run L S before).db (msgKey c.msgId)) = none := by
  unfold SerialCall.isNew storeMessage
  cases hp : parseTimeToEpoch L c.timeValue with
  | none => simp
  | some epoch =>
    dsimp only
    cases hm : purge c.now ((SerialState.init.run L S before).db (msgKey c.msgId)) with
    | none =>
      rw [StoreWorld.setNxEx_none hm]
      simp
    | some e =>
      rw [StoreWorld.setNxEx_some hm]
      simp

/-- `c` is one of the calls, and it returned `True`. -/
def NewIn (L : Lib) (S : RedisStore) (cs : List SerialCall) (c : SerialCall) : Prop :=
  ∃ before after, cs = before ++ c :: after ∧ c.isNew L S before = true

theorem newIn_append {cs : List SerialCall} {c d : SerialCall} :
    NewIn L S (cs ++ [d]) c ↔ NewIn L S cs c ∨ c = d ∧ d.isNew L S cs = true := by
  constructor
  · rintro ⟨before, after, heq, hnew⟩
    rcases List.eq_nil_or_concat after with rfl | ⟨after', x, rfl⟩
    · obtain ⟨rfl, hcd⟩ := List.append_inj' heq rfl
      obtain ⟨rfl, -⟩ := List.cons.inj hcd
      exact .inr ⟨rfl, hnew⟩
    · rw [List.concat_eq_append, ← List.cons_append, ← List.append_assoc] at heq
      obtain ⟨hcs, -⟩ := List.append_inj' heq rfl
      exact .inl ⟨before, after', hcs, hnew⟩
  · rintro (⟨before, after, rfl, hnew⟩ | ⟨rfl, hnew⟩)
    · exact ⟨before, after ++ [d], by rw [List.append_assoc, List.cons_append], hnew⟩
    · exact ⟨cs, [], rfl, hnew⟩

/-- **The marker of an id** is that of the last call that returned `True` for it. -/
theorem marker_run (cs : List SerialCall) (hc : cs.Pairwise fun a b => a.now ≤ b.now) (m : String) :
    ((SerialState.init.run L S cs).db (msgKey m) = none ∧ ∀ d, NewIn L S cs d → d.msgId ≠ m) ∨
    ∃ d text, NewIn L S cs d ∧ d.msgId = m ∧
      (SerialState.init.run L S cs).db (msgKey m) = some ⟨.str text, some (d.now + S.expiry)⟩ ∧
      ∀ d', NewIn L S cs d' → d'.msgId = m → d'.now ≤ d.now := by
  induction cs using List.reverseRecOn with
  | nil =>
    refine .inl ⟨rfl, ?_⟩
    rintro d ⟨before, after, heq, -⟩
    have hlen := congrArg List.length heq
    simp at hlen
  | append_singleton cs c ih =>
    obtain ⟨hcs, -, hlast⟩ := List.pairwise_append.1 hc
    have hnew : ∀ {d}, NewIn L S (cs ++ [c]) d ↔ NewIn L S cs d ∨ d = c ∧ c.isNew L S cs = true := newIn_append
    rw [StoreWorld.serialState_run_append]
    set s := SerialState.init.run L S cs with hs
    change ((s.step L S c).db (msgKey m) = none ∧ _) ∨ ∃ d text, _ ∧ _ ∧ (s.step L S c).db (msgKey m) = _ ∧ _
    by_cases hn : c.isNew L S cs = true
    · obtain ⟨⟨epoch, hp⟩, hm⟩ := (isNew_iff_unmarked cs c).1 hn
      rw [StoreWorld.serial_marker s hp hm]
      by_cases hid : c.msgId = m
      · -- the marker is set again
        refine .inr ⟨c, c.receivedTopic, hnew.2 (.inr ⟨rfl, hn⟩), hid, ?_, ?_⟩
        · rw [hid, Db.at_self]
        · intro d' hd' _
          rcases hnew.1 hd' with ⟨before, after, heq, -⟩ | ⟨rfl, -⟩
          · refine hlast d' ?_ c (List.mem_singleton_self _)
            rw [heq]
            exact List.mem_append_right _ List.mem_cons_self
          · exact le_rfl
      · have hne : msgKey m ≠ msgKey c.msgId := fun heq => hid (msgKey_injective heq).symm
        rw [Db.at_ne _ hne]
        rcases ih hcs with ⟨hnone, hall⟩ | ⟨d, text, hd, hdm, hdb, hmax⟩
        · refine .inl ⟨hnone, ?_⟩
          intro d hd
          rcases hnew.1 hd with hd | ⟨rfl, -⟩
          · exact hall d hd
          · exact hid
        · refine .inr ⟨d, text, hnew.2 (.inl hd), hdm, hdb, ?_⟩
          intro d' hd' hdm'
          rcases hnew.1 hd' with hd' | ⟨rfl, -⟩
          · exact hmax d' hd' hdm'
          · exact absurd hdm' hid
    · have hsame : (s.step L S c).db = s.db := by
        have hfail : parseTimeToEpoch L c.timeValue = none ∨
            ∃ x, purge c.now (s.db (msgKey c.msgId)) = some x := by
          rw [isNew_iff_unmarked] at hn
          cases hp : parseTimeToEpoch L c.timeValue with
          | none => exact .inl rfl
          | some epoch =>
            refine .inr (Option.ne_none_iff_exists'.1 ?_)
            intro hnone
            exact hn ⟨⟨epoch, hp⟩, hnone⟩
        rw [StoreWorld.serial_fails s hfail]
      have hold : ∀ {d}, NewIn L S (cs ++ [c]) d ↔ NewIn L S cs d := by
        intro d
        rw [hnew, or_iff_left]
        rintro ⟨-, h⟩
        exact hn h
      rw [hsame]
      simp only [hold]
      exact ih hcs

namespace StoreWorld

/-- A call returns `True` in the serial order iff its time can be parsed and the expiry has passed since
every earlier call that returned `True` for its id. -/
theorem isNew_iff (now : ℚ) (es : List StoreEvent) {before after : List SerialCall} {c : SerialCall}
    (hserial : serial L S (init now) es = before ++ c :: after) :
    c.isNew L S before = true ↔ (∃ epoch, parseTimeToEpoch L c.timeValue = some epoch) ∧
      ∀ d, NewIn L S before d → d.msgId = c.msgId → d.now + S.expiry < c.now := by
  have hclocked := (serial_clocked (L := L) (S := S) es (init now)).2
  rw [hserial] at hclocked
  rw [isNew_iff_unmarked]
  refine and_congr_right fun _ => ?_
  rcases marker_run before (List.pairwise_append.1 hclocked).1 c.msgId with
    ⟨hnone, hall⟩ | ⟨d, text, hd, hdm, hdb, hmax⟩
  · rw [hnone]
    exact iff_of_true rfl fun d hd hdm => absurd hdm (hall d hd)
  · rw [hdb]
    constructor
    · intro hpurge d' hd' hdm'
      by_contra hle
      have hmax' := hmax d' hd' hdm'
      rw [purge_of_le (by linarith)] at hpurge
      cases hpurge
    · intro h
      exact purge_of_lt (h d hd hdm)

/-! ## What is returned -/

theorem length_returnsOf_serial (j : ℕ) (cs : List SerialCall) :
    (returnsOf j (SerialState.init.run L S cs).returned).length =
      (cs.filter fun c => c.thread = j).length := by
  induction cs using List.reverseRecOn with
  | nil => rfl
  | append_singleton cs c ih =>
    rw [serialState_run_append, List.filter_append, List.length_append, ← ih]
    change (returnsOf j ((SerialState.init.run L S cs).returned ++ [_])).length = _
    rw [returnsOf_snoc, List.length_append]
    by_cases hj : c.thread = j
    · simp [hj]
    · simp [hj, Ne.symm hj]

/-- The `k`-th return of a thread is that of its `k`-th call. -/
theorem returnsOf_serial {j k : ℕ} {r : StoreReturn} (cs : List SerialCall)
    (h : (returnsOf j (SerialState.init.run L S cs).returned)[k]? = some r) :
    ∃ before c after, cs = before ++ c :: after ∧ c.thread = j ∧
      (before.filter fun d => d.thread = j).length = k ∧
      r = ⟨j, .message c.msgId c.timeValue c.receivedTopic, c.isNew L S before⟩ := by
  induction cs using List.reverseRecOn with
  | nil => cases h
  | append_singleton cs c ih =>
    rw [serialState_run_append] at h
    change (returnsOf j ((SerialState.init.run L S cs).returned ++ [_]))[k]? = some r at h
    rw [returnsOf_snoc] at h
    rcases Nat.lt_or_ge k (returnsOf j (SerialState.init.run L S cs).returned).length with hlt | hge
    · rw [List.getElem?_append_left hlt] at h
      obtain ⟨before, d, after, rfl, hrest⟩ := ih h
      exact ⟨before, d, after ++ [c], by rw [List.append_assoc, List.cons_append], hrest⟩
    · rw [List.getElem?_append_right hge] at h
      by_cases hj : j = c.thread
      · rw [if_pos hj, List.getElem?_singleton] at h
        split at h
        · rename_i hk
          refine ⟨cs, c, [], rfl, hj.symm, ?_, ?_⟩
          · rw [← length_returnsOf_serial (L := L) (S := S)]
            omega
          · rw [hj]
            exact (Option.some.inj h).symm
        · cases h
      · rw [if_neg hj] at h
        cases h

/-- **Deduplication is exact, whatever overlaps**: the `k`-th call of `store_message` that a thread makes
is the `k`-th of the thread in the order of the `SET`s, and it has returned `True` iff its time can be
parsed and the expiry has passed since every call before it in that order that stored its id. -/
theorem returned_new_iff (now : ℚ) (es : List StoreEvent) {j k : ℕ} {r : StoreReturn}
    (hr : (returnsOf j ((init now).run L S es).returned)[k]? = some r) :
    ∃ before c after, serial L S (init now) es = before ++ c :: after ∧ c.thread = j ∧
      (before.filter fun d => d.thread = j).length = k ∧
      r.call = .message c.msgId c.timeValue c.receivedTopic ∧
      (r.isNew = true ↔ (∃ epoch, parseTimeToEpoch L c.timeValue = some epoch) ∧
        ∀ d, NewIn L S before d → d.msgId = c.msgId → d.now + S.expiry < c.now) := by
  have hlinked := (linked_run (L := L) (S := S) es (linked_init now)).returns j
  have hserial : (returnsOf j (SerialState.init.run L S (serial L S (init now) es)).returned)[k]? = some r := by
    obtain ⟨hlt, -⟩ := List.getElem?_eq_some_iff.1 hr
    rw [hlinked, List.getElem?_append_left hlt]
    exact hr
  obtain ⟨before, c, after, hsplit, hthread, hcount, rfl⟩ := returnsOf_serial _ hserial
  exact ⟨before, c, after, hsplit, hthread, hcount, rfl, isNew_iff now es hsplit⟩

/-- The copy from the second broker is no new message. -/
theorem returned_new_sample : ∃ before c after,
    serial sampleTables.lib overlappingStore (init overlappingNow) overlapping = before ++ c :: after ∧
    c.thread = 1 ∧ (before.filter fun d => d.thread = 1).length = 0 ∧
    StoreCall.message "m" "2024-01-01T00:00:00Z" "cache/a/wis2/x" =
      .message c.msgId c.timeValue c.receivedTopic ∧
    (false = true ↔ (∃ epoch, parseTimeToEpoch sampleTables.lib c.timeValue = some epoch) ∧
      ∀ d, NewIn sampleTables.lib overlappingStore before d → d.msgId = c.msgId →
        d.now + overlappingStore.expiry < c.now) :=
  returned_new_iff overlappingNow overlapping
    (r := ⟨1, .message "m" "2024-01-01T00:00:00Z" "cache/a/wis2/x", false⟩) (by decide +kernel)

end StoreWorld

end Scgrep
