import Mathlib.Data.List.Count
import Mathlib.Tactic.Linarith
import Mathlib.Tactic.NormNum
import Scgrep.Spec.Logging
import Scgrep.Spec.Tables

/-!
# The log file follows the stream

`Ordered`: of the records that UTF-8 can encode, what the stream has of a thread, the file,
the buffer and the hand of the thread have in the same order.

* `log_file_run`: **the file is the stream with a delay**, up to the order between threads
  and without the records that it cannot write.
* `log_file_prompt`: **no record is later than `interval`**, if that is a time to sleep for.
-/

namespace Scgrep

namespace Logging

variable {L : Lib} {interval : PyFloat}

/-- The records of a thread. -/
def of (j : ℕ) (l : List LogEntry) : List LogEntry := l.filter fun r => r.thread = j

theorem of_append (j : ℕ) (l l' : List LogEntry) : of j (l ++ l') = of j l ++ of j l' := List.filter_append _ _

theorem of_own {j : ℕ} {l : List LogEntry} (h : ∀ r ∈ l, r.thread = j) : of j l = l :=
  List.filter_eq_self.2 fun r hr => decide_eq_true (h r hr)

theorem of_others {j : ℕ} {l : List LogEntry} (h : ∀ r ∈ l, r.thread ≠ j) : of j l = [] :=
  List.filter_eq_nil_iff.2 fun r hr => by rw [decide_eq_false (h r hr)]; exact Bool.false_ne_true

theorem mem_of {j : ℕ} {r : LogEntry} {l : List LogEntry} : r ∈ of j l ↔ r ∈ l ∧ r.thread = j := by
  unfold of
  rw [List.mem_filter, decide_eq_true_eq]

theorem writable_append (l l' : List LogEntry) :
    writable L (l ++ l') = writable L l ++ writable L l' := List.filter_append _ _

theorem mem_writable {r : LogEntry} {l : List LogEntry} :
    r ∈ writable L l ↔ r ∈ l ∧ L.encodes r.line = true := List.mem_filter

theorem memoryCapacity_pos : 0 < memoryCapacity := by decide

/-- What all runs keep. -/
structure Ordered (L : Lib) (s : Logging) : Prop where
  threads : ∀ j, of j (writable L s.stream) =
    of j (s.file ++ writable L s.buffer) ++ writable L (s.inHand j).toList
  own : ∀ j r, s.inHand j = some r → r.thread = j ∧ r ∈ s.stream
  small : s.closed = false → s.buffer.length < memoryCapacity ∧ ∀ r ∈ s.buffer, r.levelno < errorLevel

theorem ordered_init (interval : PyFloat) (now : ℚ) : (init interval now).Ordered L :=
  ⟨fun _ => rfl, fun _ _ h => (by cases h), fun _ => ⟨memoryCapacity_pos, fun _ h => (by cases h)⟩⟩

theorem ordered_flush {s : Logging} (h : s.Ordered L) : (s.flush L).Ordered L := by
  unfold flush
  split
  · exact h
  · refine ⟨fun j => ?_, h.own, fun _ => ⟨memoryCapacity_pos, fun _ hr => (by cases hr)⟩⟩
    rw [h.threads]
    exact congrArg (fun l => of j l ++ _) (List.append_nil _).symm

theorem ordered_sleep {s : Logging} (h : s.Ordered L) : (s.sleep interval).Ordered L :=
  ⟨h.threads, h.own, h.small⟩

/-- The record in the hand of a thread goes to the buffer, and on when it must. -/
theorem ordered_hand {s : Logging} (h : s.Ordered L) {j : ℕ} {r : LogEntry} (hr : s.inHand j = some r) :
    (emit L r { s with inHand := Function.update s.inHand j none }).Ordered L := by
  have hown : ∀ r' ∈ writable L [r], r'.thread = j := by
    intro r' hr'
    rw [List.mem_singleton.1 (mem_writable.1 hr').1]
    exact (h.own j r hr).1
  have hthreads : ∀ k, of k (writable L s.stream) = of k (s.file ++ writable L (s.buffer ++ [r])) ++
      writable L (Function.update s.inHand j none k).toList := by
    intro k
    rw [h.threads, writable_append, ← List.append_assoc s.file, of_append k (s.file ++ writable L s.buffer)]
    by_cases hk : k = j
    · subst hk
      rw [Function.update_self, hr, of_own hown]
      exact (List.append_nil _).symm
    · have hother : of k (writable L [r]) = [] :=
        of_others fun r' hr' => by rw [hown r' hr']; exact Ne.symm hk
      rw [Function.update_of_ne hk, hother, List.append_nil]
  have hownAfter : ∀ k r', Function.update s.inHand j none k = some r' → r'.thread = k ∧ r' ∈ s.stream := by
    intro k r' hk
    by_cases hkj : k = j
    · subst hkj
      rw [Function.update_self] at hk
      cases hk
    · rw [Function.update_of_ne hkj] at hk
      exact h.own k r' hk
  unfold emit
  dsimp only
  split
  · unfold flush
    dsimp only
    split
    · next hclosed =>
      exact ⟨hthreads, hownAfter, fun hopen => absurd hclosed (by rw [hopen]; exact Bool.false_ne_true)⟩
    · refine ⟨fun k => ?_, hownAfter, fun _ => ⟨memoryCapacity_pos, fun _ hr' => (by cases hr')⟩⟩
      rw [hthreads]
      exact congrArg (fun l => of k l ++ _) (List.append_nil _).symm
  · next hkeep =>
    rw [not_or, not_le, not_le] at hkeep
    refine ⟨hthreads, hownAfter, fun hopen => ⟨hkeep.1, fun r' hr' => ?_⟩⟩
    rcases List.mem_append.1 hr' with hr' | hr'
    · exact (h.small hopen).2 r' hr'
    · rw [List.mem_singleton.1 hr']
      exact hkeep.2

theorem ordered_log {s : Logging} (h : s.Ordered L) {j : ℕ} (hj : s.inHand j = none) {r : LogEntry}
    (hr : r.thread = j) :
    ({ s with stream := s.stream ++ [r], inHand := Function.update s.inHand j (some r) } : Logging).Ordered L := by
  have hown : ∀ r' ∈ writable L [r], r'.thread = j := by
    intro r' hr'
    rw [List.mem_singleton.1 (mem_writable.1 hr').1]
    exact hr
  refine ⟨fun k => ?_, fun k r' hk => ?_, h.small⟩
  · dsimp only
    rw [writable_append, of_append, h.threads]
    by_cases hk : k = j
    · subst hk
      rw [Function.update_self, hj, of_own hown]
      exact congrArg (· ++ _) (List.append_nil _)
    · have hother : of k (writable L [r]) = [] :=
        of_others fun r' hr' => by rw [hown r' hr']; exact Ne.symm hk
      rw [Function.update_of_ne hk, hother, List.append_nil]
  · dsimp only at hk
    by_cases hkj : k = j
    · subst hkj
      rw [Function.update_self] at hk
      rw [← Option.some.inj hk]
      exact ⟨hr, List.mem_append_right _ (List.mem_singleton_self r)⟩
    · rw [Function.update_of_ne hkj] at hk
      exact ⟨(h.own k r' hk).1, List.mem_append_left _ (h.own k r' hk).2⟩

/-- **A step keeps the order.** -/
theorem ordered_step {s : Logging} (h : s.Ordered L) (e : LoggingEvent) : (s.step L interval e).Ordered L := by
  unfold step
  cases e with
  | tick d =>
    dsimp only
    split
    · exact ⟨h.threads, h.own, h.small⟩
    · exact h
  | log j levelno line =>
    dsimp only
    split
    · exact h
    · next hj => exact ordered_log h hj rfl
  | hand j =>
    dsimp only
    split
    · exact h
    · next r hr => exact ordered_hand h hr
  | flushPeriodically =>
    dsimp only
    split
    · exact h
    · split
      · exact ordered_sleep (ordered_flush h)
      · exact h
  | exitFlush => exact ordered_flush h
  | exitClose => exact ⟨h.threads, h.own, fun hopen => (by cases hopen)⟩

theorem ordered_run (es : List LoggingEvent) : ∀ s : Logging, s.Ordered L → (s.run L interval es).Ordered L := by
  induction es with
  | nil => intro s h; exact h
  | cons e es ih => intro s h; exact ih _ (ordered_step h e)

/-! ## The file only grows -/

theorem flush_file (s : Logging) : s.file <+: (s.flush L).file := by
  unfold flush
  split
  · exact List.prefix_rfl
  · exact List.prefix_append _ _

theorem step_file (s : Logging) (e : LoggingEvent) : s.file <+: (s.step L interval e).file := by
  unfold step
  cases e with
  | tick d => dsimp only; split <;> exact List.prefix_rfl
  | log j levelno line => dsimp only; split <;> exact List.prefix_rfl
  | hand j =>
    dsimp only
    split
    · exact List.prefix_rfl
    · next r hr =>
      unfold emit
      dsimp only
      split
      · exact flush_file { s with buffer := s.buffer ++ [r], inHand := Function.update s.inHand j none }
      · exact List.prefix_rfl
  | flushPeriodically =>
    dsimp only
    split
    · exact List.prefix_rfl
    · split
      · exact flush_file s
      · exact List.prefix_rfl
  | exitFlush => exact flush_file s
  | exitClose => exact List.prefix_rfl

theorem run_file (es : List LoggingEvent) : ∀ s : Logging, s.file <+: (s.run L interval es).file := by
  induction es with
  | nil => intro s; exact List.prefix_rfl
  | cons e es ih => intro s; exact (step_file s e).trans (ih _)

/-! ## What the file has -/

/-- A record of the stream that can be written is in the file, in the buffer or in the hand of its
thread. -/
theorem Ordered.mem {s : Logging} (h : s.Ordered L) {r : LogEntry} (hr : r ∈ s.stream)
    (hline : L.encodes r.line = true) : r ∈ s.file ∨ r ∈ s.buffer ∨ s.inHand r.thread = some r := by
  have hof : r ∈ of r.thread (writable L s.stream) := mem_of.2 ⟨mem_writable.2 ⟨hr, hline⟩, rfl⟩
  rw [h.threads] at hof
  rcases List.mem_append.1 hof with hof | hof
  · exact (List.mem_append.1 (mem_of.1 hof).1).imp_right fun hr => .inl (mem_writable.1 hr).1
  · exact .inr (.inr (Option.mem_toList.1 (mem_writable.1 hof).1))

/-- Lists with the same records of each thread are the same up to order. -/
theorem perm_of_threads {l l' : List LogEntry} (h : ∀ j, of j l = of j l') : l.Perm l' := by
  rw [List.perm_iff_count]
  intro r
  have hcount : ∀ l : List LogEntry, (of r.thread l).count r = l.count r := by
    intro l
    unfold of
    exact List.count_filter (decide_eq_true (Eq.refl r.thread))
  rw [← hcount l, ← hcount l', h]

/-- **The file is the stream with a delay.** Whatever the threads do and in whatever order: of each
thread, the file and then the buffer have what the stream has, in the same order, but for one record
that the thread is about to hand on and for those that UTF-8 cannot encode. The buffer is never full and
has no error, so that an error is in the file once its call returns. The file only grows. When no thread
is logging, the flush at exit leaves what the stream has. -/
theorem log_file_run (L : Lib) (interval : PyFloat) (now : ℚ) (es : List LoggingEvent) :
    let s := (init interval now).run L interval es
    (∀ j, of j (writable L s.stream) =
      of j (s.file ++ writable L s.buffer) ++ writable L (s.inHand j).toList) ∧
      (∀ es', s.file <+: (s.run L interval es').file) ∧
      (s.closed = false →
        s.buffer.length < memoryCapacity ∧
        (∀ r ∈ writable L s.stream, errorLevel ≤ r.levelno → s.inHand r.thread ≠ some r → r ∈ s.file) ∧
        ((∀ r ∈ s.stream, s.inHand r.thread = none) →
          (s.step L interval .exitFlush).file.Perm (writable L s.stream))) := by
  intro s
  have h : s.Ordered L := ordered_run es _ (ordered_init interval now)
  refine ⟨h.threads, fun es' => run_file es' s, fun hopen => ⟨(h.small hopen).1, fun r hr hlevel hhand => ?_,
    fun hnone => ?_⟩⟩
  · obtain ⟨hr, hline⟩ := mem_writable.1 hr
    rcases h.mem hr hline with hfile | hbuffer | hin
    · exact hfile
    · exact absurd hlevel (not_le.2 ((h.small hopen).2 r hbuffer))
    · exact absurd hin hhand
  · have hfile : (s.step L interval .exitFlush).file = s.file ++ writable L s.buffer := by
      unfold step flush
      dsimp only
      rw [if_neg (by rw [hopen]; exact Bool.false_ne_true)]
    rw [hfile]
    refine perm_of_threads fun j => ?_
    have hj : s.inHand j = none := by
      cases hin : s.inHand j with
      | none => rfl
      | some r =>
        -- what a thread has in its hand, it has written to the stream
        obtain ⟨rfl, hr⟩ := h.own j r hin
        rw [hnone r hr] at hin
        cases hin
    rw [h.threads, hj]
    exact (List.append_nil _).symm

/-! ## Prompt runs -/

variable {seconds : ℚ}

/-- How late the records of the buffer may be, when the flush thread sleeps for `seconds`. -/
structure Timely (seconds : ℚ) (s : Logging) : Prop where
  flushAt : ∃ till, s.flushAt = some till ∧ s.now ≤ till ∧ till ≤ s.now + seconds ∧
    (s.closed = false → ∀ r ∈ s.buffer, till ≤ r.created + seconds)
  inHand : ∀ j r, s.inHand j = some r → r.created = s.now

theorem timely_init (hsleep : sleepSeconds interval = some seconds) (hpos : 0 ≤ seconds) (now : ℚ) :
    (init interval now).Timely seconds := by
  refine ⟨⟨now + seconds, ?_, le_add_of_nonneg_right hpos, le_rfl, fun _ _ h => (by cases h)⟩,
    fun _ _ h => (by cases h)⟩
  unfold init sleep
  rw [hsleep]
  rfl

/-- What a flush leaves in the buffer. -/
theorem mem_flush {s : Logging} {r : LogEntry} (hopen : (s.flush L).closed = false)
    (hr : r ∈ (s.flush L).buffer) : False := by
  unfold flush at hopen hr
  split at hopen
  · next hclosed =>
    rw [hclosed] at hopen
    cases hopen
  · next hclosed =>
    rw [if_neg hclosed] at hr
    cases hr

theorem flush_rest (s : Logging) : (s.flush L).now = s.now ∧ (s.flush L).flushAt = s.flushAt ∧
    (s.flush L).inHand = s.inHand := by
  unfold flush
  split <;> exact ⟨rfl, rfl, rfl⟩

theorem timely_flush {s : Logging} (h : s.Timely seconds) : (s.flush L).Timely seconds := by
  obtain ⟨till, htill, hnow, hlate, -⟩ := h.flushAt
  obtain ⟨hsame, hflushAt, hinHand⟩ := flush_rest (L := L) s
  refine ⟨⟨till, hflushAt.trans htill, by rw [hsame]; exact hnow, by rw [hsame]; exact hlate,
    fun hopen r hr => (mem_flush hopen hr).elim⟩, ?_⟩
  rw [hinHand, hsame]
  exact h.inHand

/-- **A step keeps the times.** -/
theorem timely_step (hsleep : sleepSeconds interval = some seconds) (hpos : 0 ≤ seconds) {s : Logging}
    (h : s.Timely seconds) (e : LoggingEvent)
    (hpass : 0 < e.takes → (∀ till ∈ s.flushAt, s.now + e.takes ≤ till) ∧
      ∀ r ∈ s.stream, s.inHand r.thread = none)
    (hown : ∀ j r, s.inHand j = some r → r.thread = j ∧ r ∈ s.stream) :
    (s.step L interval e).Timely seconds := by
  obtain ⟨till, htill, hnow, hlate, hbuffer⟩ := h.flushAt
  unfold step
  cases e with
  | tick d =>
    dsimp only
    split
    · next hd =>
      rcases hd.eq_or_lt with rfl | hlt
      · rw [add_zero]
        exact h
      · obtain ⟨hle, hnone⟩ := hpass hlt
        refine ⟨⟨till, htill, hle till htill, by dsimp only; linarith, hbuffer⟩, fun j r hr => ?_⟩
        -- no thread has a record in its hand
        obtain ⟨rfl, hmem⟩ := hown j r hr
        cases (hnone r hmem).symm.trans hr
    · exact h
  | log j levelno line =>
    dsimp only
    split
    · exact h
    · next hj =>
      refine ⟨⟨till, htill, hnow, hlate, hbuffer⟩, fun k r hr => ?_⟩
      dsimp only at hr ⊢
      by_cases hk : k = j
      · subst hk
        rw [Function.update_self] at hr
        rw [← Option.some.inj hr]
      · rw [Function.update_of_ne hk] at hr
        exact h.inHand k r hr
  | hand j =>
    dsimp only
    split
    · exact h
    · next r hr =>
      have hbuffered : ({ s with inHand := Function.update s.inHand j none, buffer := s.buffer ++ [r] } :
          Logging).Timely seconds := by
        refine ⟨⟨till, htill, hnow, hlate, fun hopen r' hr' => ?_⟩, fun k r' hk => ?_⟩
        · rcases List.mem_append.1 hr' with hr' | hr'
          · exact hbuffer hopen r' hr'
          · rw [List.mem_singleton.1 hr', h.inHand j r hr]
            exact hlate
        · dsimp only at hk
          by_cases hkj : k = j
          · subst hkj
            rw [Function.update_self] at hk
            cases hk
          · rw [Function.update_of_ne hkj] at hk
            exact h.inHand k r' hk
      unfold emit
      dsimp only
      split
      · exact timely_flush hbuffered
      · exact hbuffered
  | flushPeriodically =>
    dsimp only
    rw [htill]
    dsimp only
    split
    · have hflush := timely_flush (L := L) h
      refine ⟨⟨(s.flush L).now + seconds, ?_, le_add_of_nonneg_right hpos, le_rfl,
        fun hopen r hr => (mem_flush hopen hr).elim⟩, hflush.inHand⟩
      unfold sleep
      rw [hsleep]
      rfl
    · exact h
  | exitFlush => exact timely_flush h
  | exitClose => exact ⟨⟨till, htill, hnow, hlate, fun hopen => (by cases hopen)⟩, h.inHand⟩

theorem timely_run (hsleep : sleepSeconds interval = some seconds) (hpos : 0 ≤ seconds)
    (es : List LoggingEvent) : ∀ s : Logging, s.Ordered L → s.Timely seconds → s.Prompt L interval es →
      (s.run L interval es).Timely seconds := by
  induction es with
  | nil => intro s _ h _; exact h
  | cons e es ih =>
    intro s hord h hes
    exact ih _ (ordered_step hord e) (timely_step hsleep hpos h e hes.1 hord.own) hes.2

/-- The default is a time to sleep for, and so is every value that is no larger than 292 years. -/
theorem sleepSeconds_flushInterval {value : Option PyFloat}
    (h : ∀ x ∈ value, x = .negInf ∨ ∃ q : ℚ, x = .finite q ∧ q * 10 ^ 9 < 2 ^ 63) :
    ∃ seconds, flushInterval value = .finite seconds ∧ 0 < seconds ∧
      sleepSeconds (flushInterval value) = some seconds := by
  have hdefault : sleepSeconds (.finite 60) = some 60 := if_pos (by norm_num)
  cases value with
  | none => exact ⟨60, rfl, by norm_num, hdefault⟩
  | some x =>
    rcases h x rfl with rfl | ⟨q, rfl, hq⟩
    · exact ⟨60, rfl, by norm_num, hdefault⟩
    · unfold flushInterval
      dsimp only
      split
      · exact ⟨60, rfl, by norm_num, hdefault⟩
      · next hpos =>
        exact ⟨q, rfl, not_le.1 hpos, if_pos ⟨(not_le.1 hpos).le, hq⟩⟩

/-- `nan` passes the check of the interval, and ends the flush thread. -/
example : (init (flushInterval (some .nan)) 0).flushAt = none := rfl

/-- **No record is late.** When `LOG_FILE_FLUSH_INTERVAL` is not set, is no number, or is a number that
`time.sleep` takes or that is not positive, the flush thread wakes as it should and threads are not held
up between their handlers, then what the stream had an interval ago and UTF-8 can encode is in the
file, as long as the process runs. -/
theorem log_file_prompt (value : Option PyFloat)
    (hvalue : ∀ x ∈ value, x = .negInf ∨ ∃ q : ℚ, x = .finite q ∧ q * 10 ^ 9 < 2 ^ 63) (now : ℚ)
    (es : List LoggingEvent) (hes : (init (flushInterval value) now).Prompt L (flushInterval value) es)
    (hopen : ((init (flushInterval value) now).run L (flushInterval value) es).closed = false) :
    ∃ seconds, flushInterval value = .finite seconds ∧
      ∀ r ∈ writable L ((init (flushInterval value) now).run L (flushInterval value) es).stream,
        r.created + seconds < ((init (flushInterval value) now).run L (flushInterval value) es).now →
          r ∈ ((init (flushInterval value) now).run L (flushInterval value) es).file := by
  obtain ⟨seconds, hinterval, hpos, hsleep⟩ := sleepSeconds_flushInterval hvalue
  refine ⟨seconds, hinterval, fun r hr hlate => ?_⟩
  have hord := @ordered_run L (flushInterval value) es _ (ordered_init (flushInterval value) now)
  have htime := timely_run hsleep hpos.le es _ (ordered_init _ now) (timely_init hsleep hpos.le now) hes
  obtain ⟨till, -, hnow, -, hbuffer⟩ := htime.flushAt
  obtain ⟨hr, hline⟩ := mem_writable.1 hr
  rcases hord.mem hr hline with hfile | hbuffered | hin
  · exact hfile
  · have := hbuffer hopen r hbuffered
    linarith
  · have := htime.inHand _ r hin
    linarith

/-- One record, which the flush thread finds in the buffer. -/
def oneRecord : List LoggingEvent :=
  [.tick 5, .log 0 20 "started", .hand 0, .tick 55, .flushPeriodically, .tick 6]

theorem log_file_prompt_sample : ∃ seconds, flushInterval none = .finite seconds ∧
    ∀ r ∈ writable sampleTables.lib ((init (flushInterval none) 0).run sampleTables.lib (flushInterval none)
        oneRecord).stream,
      r.created + seconds < ((init (flushInterval none) 0).run sampleTables.lib (flushInterval none)
        oneRecord).now →
        r ∈ ((init (flushInterval none) 0).run sampleTables.lib (flushInterval none) oneRecord).file :=
  log_file_prompt none (fun _ h => by cases h) 0 oneRecord (by decide +kernel) (by decide +kernel)

/-- It is in the file. -/
example : (⟨0, 5, 20, "started"⟩ : LogEntry) ∈
    ((init (.finite 60) 0).run sampleTables.lib (.finite 60) oneRecord).file := by decide +kernel

end Logging

end Scgrep
