import Scgrep.Proof.ConfigSpec
import Scgrep.Spec.Restarts

/-!
# What the restart history shows

The loop goes through the restarts and the connections in turn. `groups` puts each
connection to the restart before it; `showGroups` is what is printed of a group.

* `loop_groups`: the loop prints group by group.
* `restart_history_shown`: **each event of the lines is printed or counted once, below
  its restart.**
-/

namespace Scgrep

variable {args : HistoryArgs}

/-! ## Groups -/

/-- The connections before the first restart, and each restart with those after it. -/
def groups : List HistoryEvent → List HistoryEvent × List (HistoryEvent × List HistoryEvent)
  | [] => ([], [])
  | e :: es =>
    if e.kind = .start then ([], (e, (groups es).1) :: (groups es).2)
    else (e :: (groups es).1, (groups es).2)

/-- The events of some groups. -/
def flatGroups (gs : List (HistoryEvent × List HistoryEvent)) : List HistoryEvent := gs.flatMap fun g => g.1 :: g.2

theorem groups_flat (es : List HistoryEvent) : (groups es).1 ++ flatGroups (groups es).2 = es := by
  induction es with
  | nil => rfl
  | cons e es ih =>
    unfold groups
    split
    · exact congrArg (e :: ·) ih
    · exact congrArg (e :: ·) ih

theorem groups_kind (es : List HistoryEvent) : (∀ e ∈ (groups es).1, e.kind ≠ .start) ∧
    ∀ g ∈ (groups es).2, g.1.kind = .start ∧ ∀ e ∈ g.2, e.kind ≠ .start := by
  induction es with
  | nil => exact ⟨fun _ h => (by cases h), fun _ h => (by cases h)⟩
  | cons e es ih =>
    unfold groups
    split
    · next hstart =>
      refine ⟨fun _ h => (by cases h), fun g hg => ?_⟩
      rcases List.mem_cons.1 hg with rfl | hg
      · exact ⟨hstart, ih.1⟩
      · exact ih.2 g hg
    · next hother =>
      refine ⟨fun e' he' => ?_, ih.2⟩
      rcases List.mem_cons.1 he' with rfl | he'
      · exact hother
      · exact ih.1 e' he'

/-! ## The loop -/

/-- A connection is printed below a restart at `prev`. -/
def Below (args : HistoryArgs) (prev : ℤ) (e : HistoryEvent) : Bool :=
  decide (e.time - prev ≤ args.settle ∨ args.connections = true)

/-- What is printed of the connections after a restart. -/
def showBelow (args : HistoryArgs) (g : HistoryEvent × List HistoryEvent) : List HistoryItem :=
  (g.2.filter (Below args g.1.time)).map .below ++
    if g.2.countP (fun e => !Below args g.1.time e) = 0 then []
    else [.later (g.2.countP fun e => !Below args g.1.time e)]

/-- What is printed of the restarts after one at `prev`. -/
def showGroups (args : HistoryArgs) : Option ℤ → List (HistoryEvent × List HistoryEvent) → List HistoryItem
  | _, [] => []
  | prev, g :: gs =>
    .restart g.1.time g.1.detail (prev.map fun prev => g.1.time - prev) :: showBelow args g ++
      showGroups args (some g.1.time) gs

theorem loop_orphans (es : List HistoryEvent) : ∀ s : HistoryLoop, s.prev = none → (∀ e ∈ es, e.kind ≠ .start) →
    es.foldl (HistoryLoop.turn args) s = { s with
      orphans := s.orphans + es.length
      printed := s.printed ++ if args.connections then es.map .orphan else [] } := by
  induction es with
  | nil =>
    intro s _ _
    simp
  | cons e es ih =>
    intro s hprev hes
    have hturn : HistoryLoop.turn args s e = { s with
        orphans := s.orphans + 1
        printed := if args.connections then s.printed ++ [.orphan e] else s.printed } := by
      unfold HistoryLoop.turn
      rw [if_neg (hes e List.mem_cons_self), hprev]
    rw [List.foldl_cons, hturn, ih { s with
        orphans := s.orphans + 1
        printed := if args.connections then s.printed ++ [.orphan e] else s.printed } hprev
      fun e' he' => hes e' (List.mem_cons_of_mem _ he')]
    cases args.connections with
    | false => simp [Nat.add_assoc, Nat.add_comm 1]
    | true => simp [Nat.add_assoc, Nat.add_comm 1]

theorem loop_below {prev : ℤ} (es : List HistoryEvent) : ∀ s : HistoryLoop, s.prev = some prev →
    (∀ e ∈ es, e.kind ≠ .start) → es.foldl (HistoryLoop.turn args) s = { s with
      later := s.later + es.countP fun e => !Below args prev e
      printed := s.printed ++ (es.filter (Below args prev)).map .below } := by
  induction es with
  | nil =>
    intro s _ _
    simp
  | cons e es ih =>
    intro s hprev hes
    have hrest : ∀ e' ∈ es, e'.kind ≠ .start := fun e' he' => hes e' (List.mem_cons_of_mem _ he')
    have hturn : HistoryLoop.turn args s e = if e.time - prev ≤ args.settle ∨ args.connections = true then
        { s with printed := s.printed ++ [.below e] } else { s with later := s.later + 1 } := by
      unfold HistoryLoop.turn
      rw [if_neg (hes e List.mem_cons_self), hprev]
    rw [List.foldl_cons, hturn]
    by_cases hbelow : e.time - prev ≤ args.settle ∨ args.connections = true
    · have hb : Below args prev e = true := decide_eq_true hbelow
      rw [if_pos hbelow, ih { s with printed := s.printed ++ [.below e] } hprev hrest]
      simp [hb]
    · have hb : Below args prev e = false := decide_eq_false hbelow
      rw [if_neg hbelow, ih { s with later := s.later + 1 } hprev hrest]
      simp [hb, Nat.add_assoc, Nat.add_comm 1]

theorem flushLater_printed (s : HistoryLoop) : (s.flushLater args).printed = s.printed ++
    if s.later ≠ 0 ∧ args.connections = false then [.later s.later] else [] := by
  unfold HistoryLoop.flushLater
  dsimp only
  split
  · rfl
  · exact (List.append_nil _).symm

/-- With `--connections` all are printed. -/
theorem countP_below (prev : ℤ) (es : List HistoryEvent) (h : args.connections = true) :
    es.countP (fun e => !Below args prev e) = 0 := by
  rw [List.countP_eq_zero]
  intro e _
  have hb : Below args prev e = true := decide_eq_true (.inr h)
  rw [hb]
  exact Bool.false_ne_true

/-- **The loop prints group by group.** -/
theorem loop_groups (gs : List (HistoryEvent × List HistoryEvent)) : ∀ s : HistoryLoop,
    (∀ g ∈ gs, g.1.kind = .start ∧ ∀ e ∈ g.2, e.kind ≠ .start) →
      (((flatGroups gs).foldl (HistoryLoop.turn args) s).flushLater args).printed =
        (s.flushLater args).printed ++ showGroups args s.prev gs ∧
      ((flatGroups gs).foldl (HistoryLoop.turn args) s).orphans = s.orphans := by
  induction gs with
  | nil => intro s _; exact ⟨(List.append_nil _).symm, rfl⟩
  | cons g gs ih =>
    intro s hgs
    obtain ⟨hstart, hother⟩ := hgs g List.mem_cons_self
    have hturn : HistoryLoop.turn args s g.1 = { s.flushLater args with
        printed := (s.flushLater args).printed ++
          [.restart g.1.time g.1.detail (s.prev.map fun prev => g.1.time - prev)]
        prev := some g.1.time } := by
      unfold HistoryLoop.turn
      rw [if_pos hstart]
      rfl
    have hflat : flatGroups (g :: gs) = g.1 :: (g.2 ++ flatGroups gs) := rfl
    rw [hflat, List.foldl_cons, List.foldl_append, hturn, loop_below g.2 _ rfl hother]
    obtain ⟨hprinted, horphans⟩ := ih _ fun g' hg' => hgs g' (List.mem_cons_of_mem _ hg')
    refine ⟨hprinted.trans ?_, horphans.trans rfl⟩
    -- what is left over is told before the next restart, or at the end
    have hlater : (if g.2.countP (fun e => !Below args g.1.time e) ≠ 0 ∧ args.connections = false then
        [HistoryItem.later (g.2.countP fun e => !Below args g.1.time e)] else []) =
        if g.2.countP (fun e => !Below args g.1.time e) = 0 then []
        else [.later (g.2.countP fun e => !Below args g.1.time e)] := by
      by_cases hzero : g.2.countP (fun e => !Below args g.1.time e) = 0
      · rw [if_pos hzero, if_neg fun h => h.1 hzero]
      · have hfew : args.connections = false := by
          cases hall : args.connections with
          | false => rfl
          | true => exact absurd (countP_below _ _ hall) hzero
        rw [if_neg hzero, if_pos ⟨hzero, hfew⟩]
    have hbegin : (s.flushLater args).later = 0 := rfl
    rw [flushLater_printed]
    dsimp only
    rw [hbegin, Nat.zero_add, hlater]
    rw [showGroups, showBelow]
    simp only [List.append_assoc, List.cons_append, List.nil_append]

/-! ## The events of the lines -/

/-- The event of a line, if it has one. -/
def eventOf? (zone : ℤ → ℤ) (wanted : List String) (line : String) : Option HistoryEvent :=
  (historyEvent zone wanted line).toOption.join

theorem mapM_events {zone : ℤ → ℤ} {wanted : List String} (lines : List String) :
    ∀ {events : List (Option HistoryEvent)}, lines.mapM (historyEvent zone wanted) = .ok events →
      events.reduceOption = lines.filterMap (eventOf? zone wanted) := by
  induction lines with
  | nil =>
    intro events h
    cases h
    rfl
  | cons line lines ih =>
    intro events h
    rw [List.mapM_cons] at h
    obtain ⟨event, hline, h⟩ := bind_eq_ok.1 h
    obtain ⟨rest, hrest, h⟩ := bind_eq_ok.1 h
    cases h
    have hevent : eventOf? zone wanted line = event := by
      unfold eventOf?
      rw [hline]
      rfl
    rw [List.filterMap_cons, hevent, ← ih hrest]
    cases event <;> rfl

theorem collect_events {zone : ℤ → ℤ} {wanted lines : List String} {events : List HistoryEvent}
    (h : collectHistory zone wanted lines = .ok events) :
    events.Perm (lines.filterMap (eventOf? zone wanted)) ∧ events.Pairwise fun e e' => e.time ≤ e'.time := by
  unfold collectHistory at h
  cases hmap : lines.mapM (historyEvent zone wanted) with
  | error err => rw [hmap] at h; cases h
  | ok found =>
    rw [hmap] at h
    cases h
    rw [← mapM_events lines hmap]
    have : Std.Total fun e e' : HistoryEvent => e.time ≤ e'.time := ⟨fun e e' => le_total _ _⟩
    have : IsTrans HistoryEvent fun e e' => e.time ≤ e'.time := ⟨fun _ _ _ h h' => h.trans h'⟩
    exact ⟨List.perm_insertionSort _ _, List.pairwise_insertionSort _ _⟩

theorem length_starts (es : List HistoryEvent) :
    (es.filter fun e => e.kind = .start).length = (groups es).2.length := by
  induction es with
  | nil => rfl
  | cons e es ih =>
    unfold groups
    by_cases hstart : e.kind = .start
    · rw [if_pos hstart, List.filter_cons, if_pos (decide_eq_true hstart), List.length_cons, ih]
      rfl
    · rw [if_neg hstart, List.filter_cons,
        if_neg (by rw [decide_eq_false hstart]; exact Bool.false_ne_true), ih]

/-- The loop over all events. -/
theorem loop_events (es : List HistoryEvent) :
    ((es.foldl (HistoryLoop.turn args) ⟨[], none, 0, 0⟩).flushLater args).printed =
        (if args.connections then (groups es).1.map .orphan else []) ++ showGroups args none (groups es).2 ∧
      ((es.foldl (HistoryLoop.turn args) ⟨[], none, 0, 0⟩).flushLater args).orphans = (groups es).1.length := by
  obtain ⟨hbefore, hgroups⟩ := groups_kind es
  obtain ⟨hprinted, horphans⟩ := @loop_groups args (groups es).2
    (((groups es).1).foldl (HistoryLoop.turn args) ⟨[], none, 0, 0⟩) hgroups
  rw [← List.foldl_append, groups_flat] at hprinted horphans
  rw [loop_orphans _ ⟨[], none, 0, 0⟩ rfl hbefore] at hprinted horphans
  refine ⟨hprinted.trans ?_, horphans.trans (Nat.zero_add _)⟩
  have hnone : ¬ ((0 : ℕ) ≠ 0 ∧ args.connections = false) := fun h => h.1 rfl
  rw [flushLater_printed]
  dsimp only
  rw [if_neg hnone, List.append_nil, List.nil_append]

/-- **The restart history.** The events of the distinct lines of both sources are taken in the order of
time. Those before the first restart are counted (and printed with `--connections`); after each restart
come the connections of its first seconds, in their order, and how many more there were before the next
one. It does not matter in which source a line is, nor how often. -/
theorem restart_history_shown {zone : ℤ → ℤ} {today : ℕ} {docker file : Option (List String)}
    {printed : List HistoryItem} {orphans restarts : ℕ} {last : Option ℤ}
    (h : restartHistory zone today args docker file = .ok (.shown printed orphans restarts last)) :
    ∃ (wanted : List String) (events : List HistoryEvent), wantedDates args today = .ok wanted ∧
      events.Pairwise (fun e e' => e.time ≤ e'.time) ∧
      events.Perm (((readSources docker file).filterMap (eventOf? zone wanted)).filter
        fun e => args.disconnects || e.kind ≠ .disconnect) ∧
      printed = (if args.connections then (groups events).1.map .orphan else []) ++
        showGroups args none (groups events).2 ∧
      orphans = (groups events).1.length ∧ restarts = (groups events).2.length ∧
      ∀ docker' file', (∀ line, line ∈ docker'.getD [] ++ file'.getD [] ↔ line ∈ docker.getD [] ++ file.getD []) →
        restartHistory zone today args docker' file' = .ok (.shown printed orphans restarts last) := by
  have hsame : ∀ docker' file',
      (∀ line, line ∈ docker'.getD [] ++ file'.getD [] ↔ line ∈ docker.getD [] ++ file.getD []) →
        restartHistory zone today args docker' file' = restartHistory zone today args docker file := by
    intro docker' file' hlines
    unfold restartHistory readSources
    rw [SortedSet.congr hlines]
  obtain ⟨wanted, hwanted, hmain⟩ := bind_eq_ok.1 h
  cases hcollect : collectHistory zone wanted (readSources docker file) with
  | error err =>
    rw [hcollect] at hmain
    cases hmain
  | ok collected =>
    obtain ⟨hperm, hsorted⟩ := collect_events hcollect
    have hfilter : (if args.disconnects then collected else collected.filter fun e => e.kind ≠ .disconnect) =
        collected.filter fun e => args.disconnects || e.kind ≠ .disconnect := by
      cases args.disconnects with
      | true => exact (List.filter_eq_self.2 fun _ _ => rfl).symm
      | false => rfl
    rw [hcollect] at hmain
    have hshown : historyOf args collected = .shown printed orphans restarts last := Except.ok.inj hmain
    unfold historyOf at hshown
    dsimp only at hshown
    rw [hfilter] at hshown
    split at hshown
    · cases hshown
    · obtain ⟨hprinted, horphans⟩ := @loop_events args
        (collected.filter fun e => args.disconnects || e.kind ≠ .disconnect)
      cases hshown
      exact ⟨wanted, _, hwanted, hsorted.filter _, hperm.filter _, hprinted, horphans, length_starts _,
        fun docker' file' hlines => (hsame docker' file' hlines).trans h⟩

/-- Two restarts, and one line that is in both sources. -/
def historySample : List String :=
  ["2026-08-18 06:00:00,120 INFO [scgrep] Starting SCGRep sensor centre de-dwd (subscriber-id=abc)",
    "2026-08-18 06:00:03,001 INFO [scgrep] Connected to Redis at redis:6379",
    "2026-08-18 07:30:00,000 WARNING [scgrep.mqtt_client] Disconnected from gb.example; will auto-reconnect",
    "2026-08-18 07:30:09,500 INFO [scgrep.mqtt_client] Connected to Global Broker gb.example",
    "2026-08-18 08:00:00,120 INFO [scgrep] Starting SCGRep sensor centre de-dwd (subscriber-id=abc)"]

/-- What is printed of them: the reconnection is not of the first seconds. -/
def historySampleShown : History :=
  .shown [.restart 1787032800 "de-dwd  subscriber-id=abc" none,
    .below ⟨.connect, 1787032803, "Redis at redis:6379"⟩, .later 1,
    .restart 1787040000 "de-dwd  subscriber-id=abc" (some 7200)] 0 2 (some 1787040000)

theorem restart_history_shown_sample :
    restartHistory (fun _ => 0) 0 ⟨true, none, none, false, false, 60⟩ (some (historySample.take 3))
        (some (historySample.drop 2)) = .ok historySampleShown ∧
      restartHistory (fun _ => 0) 0 ⟨true, none, none, false, false, 60⟩ none (some historySample) =
        .ok historySampleShown := by
  have hboth : restartHistory (fun _ => 0) 0 ⟨true, none, none, false, false, 60⟩ (some (historySample.take 3))
      (some (historySample.drop 2)) = .ok historySampleShown := by decide +kernel
  obtain ⟨_, _, _, _, _, _, _, _, hsame⟩ := restart_history_shown hboth
  refine ⟨hboth, hsame none (some historySample) fun line => ?_⟩
  rw [Option.getD_none, Option.getD_some, Option.getD_some, List.nil_append, List.mem_append]
  constructor
  · intro hline
    rw [← List.take_append_drop 3 historySample, List.mem_append] at hline
    exact hline.imp_right fun hline => List.mem_of_mem_drop (i := 1) hline
  · rintro (hline | hline)
    · exact List.mem_of_mem_take hline
    · exact List.mem_of_mem_drop hline

end Scgrep
