import Scgrep.Spec.World

/-!
# The time a cycle takes

The runs of `Spec/World.lean` let the clock move at any point. Here it moves only
while every thread waits, and no longer than the wait lasts (`Prompt`): a request
takes at most `R` seconds, a `sleep` until an instant ends there, and the wait for
the first replay message looks again after `pollInterval`. Computing and Redis
take no time.

`Fair` is about infinite runs instead: the clock goes on, and every thread comes
to its turn again and again.
-/

namespace Scgrep

/-- `poll_interval`. -/
def pollInterval : ℚ := 1 / 20

/-- What a thread of a cycle does, whatever the service answers. -/
inductive Act where
  | readBaselines
  | clear
  | collect
  | publish
  | syncBegin (i : ℕ)
  | syncReply (i : ℕ)
  | syncTurn (i : ℕ)
  | register (i : ℕ)
  | post (i : ℕ)
  | postReply (i : ℕ)
  | decide (i : ℕ)
  | finish (i : ℕ)
deriving DecidableEq

/-- The act of an event; the passing of time and the messages are no thread's of the cycle. -/
def Event.act? : Event → Option Act
  | .tick _ => none
  | .deliver _ => none
  | .readBaselines => some .readBaselines
  | .clear => some .clear
  | .collect => some .collect
  | .publish => some .publish
  | .syncBegin i => some (.syncBegin i)
  | .syncReply i _ => some (.syncReply i)
  | .syncTurn i => some (.syncTurn i)
  | .register i => some (.register i)
  | .post i => some (.post i)
  | .postReply i _ => some (.postReply i)
  | .decide i => some (.decide i)
  | .finish i => some (.finish i)

/-- A world, and when each page loop sent its last request. -/
structure Timed where
  world : World
  sent : ℕ → ℚ

namespace Timed

variable (E : Ctx)

def init (db : Db) (reg : ReplayRegistry) (m : Metrics) : Timed :=
  ⟨World.init E db reg m, fun _ => E.started⟩

/-- The turn that ends with a request reads the clock for its timeout. -/
def sends (T : Timed) : Event → ℕ → ℚ
  | .syncTurn i =>
    match T.world.sync i with
    | .page _ _ => Function.update T.sent i T.world.now
    | _ => T.sent
  | _ => T.sent

def step (T : Timed) (e : Event) : Timed := ⟨T.world.step E e, T.sends e⟩

def run (T : Timed) (es : List Event) : Timed := es.foldl (step E) T

end Timed

/-! ## Waiting -/

/-- The main thread waits, and not longer than to `t`. -/
def World.mainWaits (E : Ctx) (w : World) (t : ℚ) : Prop :=
  match w.main with
  | .begin => False
  | .counted => False
  | .collecting k => if k = 2 * E.cfg.cells.length then t ≤ E.deadlineAt else w.future k = none
  | .published => True

/-- A synchronous fetch waits for its response, and not longer than to `t`. -/
def SyncState.waits (R sent t : ℚ) : SyncState → Prop
  | .ready => False
  | .requested start => t ≤ start + R
  | .page _ _ => False
  | .waiting _ _ => t ≤ sent + R
  | .finished _ => True

/-- An asynchronous fetch waits for its response, for the synchronous fetch `sync` of its cell,
or for the deadline, and not longer than to `t`. -/
def AsyncState.waits (R deadlineAt t : ℚ) (sync : SyncState) : AsyncState → Prop
  | .ready => False
  | .registered _ => False
  | .started _ start => t ≤ start + R
  | .posted _ _ => sync.outcome? = none
  | .waiting _ _ => t ≤ deadlineAt + pollInterval
  | .finished _ => True

/-- The clock may move to `t`: every thread waits until then. -/
structure Timed.MayPass (E : Ctx) (R : ℚ) (T : Timed) (t : ℚ) : Prop where
  main : T.world.mainWaits E t
  sync : ∀ i < E.cfg.cells.length, (T.world.sync i).waits R (T.sent i) t
  async : ∀ i < E.cfg.cells.length,
    (T.world.async i).waits R E.deadlineAt t (T.world.sync i)

/-- The time an event takes. -/
def Event.takes : Event → ℚ
  | .tick d => d
  | _ => 0

/-- The clock moves only when it may. -/
def Timed.Prompt (E : Ctx) (R : ℚ) : Timed → List Event → Prop
  | _, [] => True
  | T, e :: es => (0 < e.takes → T.MayPass E R (T.world.now + e.takes)) ∧ Prompt E R (T.step E e) es

instance (E : Ctx) (w : World) (t : ℚ) : Decidable (w.mainWaits E t) :=
  match h : w.main with
  | .begin => .isFalse (by unfold World.mainWaits; rw [h]; exact id)
  | .counted => .isFalse (by unfold World.mainWaits; rw [h]; exact id)
  | .collecting k => decidable_of_iff
      (if k = 2 * E.cfg.cells.length then t ≤ E.deadlineAt else w.future k = none)
      (by unfold World.mainWaits; rw [h])
  | .published => .isTrue (by unfold World.mainWaits; rw [h]; trivial)

instance (R sent t : ℚ) : DecidablePred (SyncState.waits R sent t)
  | .ready => inferInstanceAs (Decidable False)
  | .requested start => inferInstanceAs (Decidable (t ≤ start + R))
  | .page _ _ => inferInstanceAs (Decidable False)
  | .waiting _ _ => inferInstanceAs (Decidable (t ≤ sent + R))
  | .finished _ => inferInstanceAs (Decidable True)

instance (R deadlineAt t : ℚ) (sync : SyncState) : DecidablePred (AsyncState.waits R deadlineAt t sync)
  | .ready => inferInstanceAs (Decidable False)
  | .registered _ => inferInstanceAs (Decidable False)
  | .started _ start => inferInstanceAs (Decidable (t ≤ start + R))
  | .posted _ _ => inferInstanceAs (Decidable (sync.outcome? = none))
  | .waiting _ _ => inferInstanceAs (Decidable (t ≤ deadlineAt + pollInterval))
  | .finished _ => inferInstanceAs (Decidable True)

instance (E : Ctx) (R : ℚ) (T : Timed) (t : ℚ) : Decidable (T.MayPass E R t) :=
  decidable_of_iff (T.world.mainWaits E t ∧
      (∀ i < E.cfg.cells.length, (T.world.sync i).waits R (T.sent i) t) ∧
      ∀ i < E.cfg.cells.length, (T.world.async i).waits R E.deadlineAt t (T.world.sync i))
    ⟨fun h => ⟨h.1, h.2.1, h.2.2⟩, fun h => ⟨h.main, h.sync, h.async⟩⟩

instance decidablePrompt (E : Ctx) (R : ℚ) : ∀ (es : List Event) (T : Timed), Decidable (T.Prompt E R es)
  | [], _ => inferInstanceAs (Decidable True)
  | e :: es, T =>
    have := decidablePrompt E R es (T.step E e)
    inferInstanceAs (Decidable ((0 < e.takes → T.MayPass E R (T.world.now + e.takes)) ∧
      (T.step E e).Prompt E R es))

/-! ## Fairness -/

/-- The threads of a cycle over `n` cells take these acts. -/
def Act.Of (n : ℕ) : Act → Prop
  | .readBaselines => True
  | .clear => True
  | .collect => True
  | .publish => True
  | .syncBegin i => i < n
  | .syncReply i => i < n
  | .syncTurn i => i < n
  | .register i => i < n
  | .post i => i < n
  | .postReply i => i < n
  | .decide i => i < n
  | .finish i => i < n

/-- The first `m` steps of an infinite run. -/
def World.runTo (E : Ctx) (w : World) (σ : ℕ → Event) (m : ℕ) : World :=
  w.run E ((List.range m).map σ)

/-- **A fair schedule**: the clock passes every instant, and each act is tried again and again. -/
structure Fair (E : Ctx) (w : World) (σ : ℕ → Event) : Prop where
  clock : ∀ t, ∃ m, t ≤ (w.runTo E σ m).now
  again : ∀ a : Act, a.Of E.cfg.cells.length → ∀ m, ∃ n, m ≤ n ∧ (σ n).act? = some a

end Scgrep
