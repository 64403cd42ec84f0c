import Mathlib.Algebra.Order.Group.Unbundled.Int
import Scgrep.Spec.Scheduler
import Scgrep.Spec.Store

/-!
# `main.py`: the life of the process

`main` from its first ping on, as steps of its main thread between which time passes and
signals arrive: `_wait_for_redis`, the start of the clients, `Scheduler.run` with its event
`_stop`, and the end. What comes before, and may raise, is in `serve`. `Spec/Scheduler.lean`
has the loop by itself, without pings and stops.
-/

namespace Scgrep

/-- Where the main thread is. -/
inductive Phase where
  /-- in `store.ping()`, since then -/
  | pinging (since : ℚ)
  /-- in `time.sleep(interval)`, until then -/
  | sleeping (till : ℚ)
  /-- Redis has answered; the clients are to be started -/
  | connecting
  /-- the handlers of the signals are installed; the first `self._stop.wait` is next -/
  | entering
  /-- in `self._stop.wait(..)`, which times out then -/
  | waiting (till : ℚ)
  /-- the next cycle is to start -/
  | ready
  /-- in `run_cycle`, since then -/
  | cycling (started : ℚ)
  /-- `run` has returned or raised; the clients are to be stopped -/
  | stopping (code : ℤ)
  | exited (code : ℤ)
  /-- by a signal before there were handlers -/
  | killed
deriving DecidableEq

structure Process where
  now : ℚ
  /-- of `_wait_for_redis` -/
  deadline : ℚ
  phase : Phase
  /-- the pings that were answered or failed -/
  attempt : ℕ
  /-- when `_stop` was set -/
  stopAt : Option ℚ
  /-- `mqtt.start` has returned, and `mqtt.stop` has not been called -/
  clients : Bool
  /-- the starts of the cycles -/
  starts : List ℚ
deriving DecidableEq

inductive ProcessEvent where
  /-- time passes -/
  | tick (d : ℚ)
  /-- a ping is answered, or raises -/
  | ping (answers : Bool)
  /-- a sleep is over; or a wait, which has timed out or finds `_stop` set -/
  | wake (timedOut : Bool)
  /-- `mqtt.start` returns, or raises -/
  | connect (raises : Bool)
  | enter
  | begin
  /-- `run_cycle` returns, or raises what is logged -/
  | cycleEnds
  /-- `SIGTERM` or `SIGINT` -/
  | signal
  | disconnect

/-- The `interval` of `_wait_for_redis`. -/
def pingInterval : ℚ := 2

/-- `threading.TIMEOUT_MAX`. Waiting for longer raises `OverflowError`. -/
def timeoutMax : ℤ := 9223372036

namespace Process

variable (cfg : Config)

/-- `main` calls `_wait_for_redis`. -/
def init (now : ℚ) : Process :=
  ⟨now, now + cfg.redisStartupTimeout, .pinging now, 0, none, false, []⟩

/-- A ping of `_wait_for_redis` returns or raises. -/
def ping (answers : Bool) (s : Process) : Process :=
  match s.phase with
  | .pinging _ =>
    if answers then { s with attempt := s.attempt + 1, phase := .connecting }
    else if s.deadline ≤ s.now then { s with attempt := s.attempt + 1, phase := .exited 3 }
    else { s with attempt := s.attempt + 1, phase := .sleeping (s.now + pingInterval) }
  | _ => s

/-- A sleep or a wait returns. A wait that has timed out does not look at `_stop` again. -/
def wake (timedOut : Bool) (s : Process) : Process :=
  match s.phase with
  | .sleeping till => if till ≤ s.now then { s with phase := .pinging s.now } else s
  | .waiting till =>
    if timedOut then
      if till ≤ s.now ∧ ∀ t ∈ s.stopAt, till ≤ t then { s with phase := .ready } else s
    else if s.stopAt.isSome then { s with phase := .stopping 0 }
    else s
  | _ => s

/-- `mqtt.start()`, and the handlers of the signals. -/
def connect (raises : Bool) (s : Process) : Process :=
  match s.phase with
  | .connecting =>
    if raises then { s with phase := .exited 1 }
    else { s with clients := true, phase := .entering }
  | _ => s

/-- `Scheduler.run` up to its first wait. -/
def enter (s : Process) : Process :=
  match s.phase with
  | .entering =>
    -- with `_stop` set the time out is not looked at
    if s.stopAt.isSome then { s with phase := .stopping 0 }
    else if timeoutMax < cfg.testInterval then { s with phase := .stopping 1 }
    else { s with phase := .waiting (s.now + cfg.testInterval) }
  | _ => s

/-- `started = time.monotonic()`, and `run_cycle` is called. -/
def begin (s : Process) : Process :=
  match s.phase with
  | .ready => { s with starts := s.starts ++ [s.now], phase := .cycling s.now }
  | _ => s

/-- The rest of the loop of `Scheduler.run`. What is left of the interval is not too long to wait for,
as the whole was not. -/
def cycleEnds (s : Process) : Process :=
  match s.phase with
  | .cycling started =>
    let elapsed := s.now - started
    if cfg.testInterval < elapsed then
      if s.stopAt.isSome then { s with phase := .stopping 0 }
      else { s with phase := .ready }
    else { s with phase := .waiting (s.now + (cfg.testInterval - elapsed)) }
  | _ => s

/-- `_handle_signal`, once it is installed. -/
def signal (s : Process) : Process :=
  match s.phase with
  | .pinging _ => { s with phase := .killed }
  | .sleeping _ => { s with phase := .killed }
  | .connecting => { s with phase := .killed }
  | .exited _ => s
  | .killed => s
  | _ => { s with stopAt := some (s.stopAt.getD s.now) }

/-- `mqtt.stop()`, and `main` returns or raises. -/
def disconnect (s : Process) : Process :=
  match s.phase with
  | .stopping code => { s with clients := false, phase := .exited code }
  | _ => s

/-- One step. -/
def step (s : Process) : ProcessEvent → Process
  | .tick d => if 0 ≤ d then { s with now := s.now + d } else s
  | .ping answers => s.ping answers
  | .wake timedOut => s.wake timedOut
  | .connect raises => s.connect raises
  | .enter => s.enter cfg
  | .begin => s.begin
  | .cycleEnds => s.cycleEnds cfg
  | .signal => s.signal
  | .disconnect => s.disconnect

/-- A run. -/
def run (s : Process) (es : List ProcessEvent) : Process := es.foldl (step cfg) s

end Process

/-- An integer that `float` raises `OverflowError` for. -/
def floatOverflows (n : ℤ) : Bool := decide (2 ^ 1024 - 2 ^ 970 ≤ |n|)

/-- `main` comes from its configuration to the first ping, if the metrics server gets its port
(`binds`): the port is one, Redis has an address, and the deadline can be computed. -/
def startsUp (L : Lib) (cfg : Config) (binds : Bool) : Bool :=
  binds && decide (0 ≤ cfg.metricsPort ∧ cfg.metricsPort ≤ 65535) &&
    (parseRedisUrl L cfg.redisUrl).isOk && !floatOverflows cfg.redisStartupTimeout

/-- A process that ends with the code before its first ping. -/
def Process.ended (now : ℚ) (code : ℤ) : Process := ⟨now, now, .exited code, 0, none, false, []⟩

/-- `main`, for what `Config.from_env` returns or raises. -/
def serve (L : Lib) (binds : Bool) (config : Except PyErr Config) (now : ℚ) (es : List ProcessEvent) :
    Process :=
  match config with
  | .ok cfg => if startsUp L cfg binds then (Process.init cfg now).run cfg es else .ended now 1
  | .error (.configError _) => .ended now 2
  -- what `main` does not catch
  | .error _ => .ended now 1

/-! ## The time it takes -/

/-- The clock may move to `t`: the main thread waits until then. A ping takes at most `P` seconds
and a cycle at most `C`. -/
def Process.MayPass (P C : ℚ) (s : Process) (t : ℚ) : Prop :=
  match s.phase with
  | .pinging since => t ≤ since + P
  | .sleeping till => t ≤ till
  | .connecting => False
  | .entering => False
  | .waiting till => s.stopAt = none ∧ t ≤ till
  | .ready => False
  | .cycling started => t ≤ started + C
  | .stopping _ => False
  | .exited _ => True
  | .killed => True

/-- The time an event takes. -/
def ProcessEvent.takes : ProcessEvent → ℚ
  | .tick d => d
  | _ => 0

/-- The clock moves only when it may. -/
def Process.Prompt (cfg : Config) (P C : ℚ) : Process → List ProcessEvent → Prop
  | _, [] => True
  | s, e :: es => (0 < e.takes → s.MayPass P C (s.now + e.takes)) ∧ Prompt cfg P C (s.step cfg e) es

instance decidableProcessMayPass (P C : ℚ) (s : Process) (t : ℚ) : Decidable (s.MayPass P C t) :=
  match h : s.phase with
  | .pinging since => decidable_of_iff (t ≤ since + P) (by unfold Process.MayPass; rw [h])
  | .sleeping till => decidable_of_iff (t ≤ till) (by unfold Process.MayPass; rw [h])
  | .connecting => .isFalse (by unfold Process.MayPass; rw [h]; exact id)
  | .entering => .isFalse (by unfold Process.MayPass; rw [h]; exact id)
  | .waiting till => decidable_of_iff (s.stopAt = none ∧ t ≤ till) (by unfold Process.MayPass; rw [h])
  | .ready => .isFalse (by unfold Process.MayPass; rw [h]; exact id)
  | .cycling started => decidable_of_iff (t ≤ started + C) (by unfold Process.MayPass; rw [h])
  | .stopping _ => .isFalse (by unfold Process.MayPass; rw [h]; exact id)
  | .exited _ => .isTrue (by unfold Process.MayPass; rw [h]; trivial)
  | .killed => .isTrue (by unfold Process.MayPass; rw [h]; trivial)

instance decidableProcessPrompt (cfg : Config) (P C : ℚ) : ∀ (es : List ProcessEvent) (s : Process),
    Decidable (s.Prompt cfg P C es)
  | [], _ => inferInstanceAs (Decidable True)
  | e :: es, s =>
    have := decidableProcessPrompt cfg P C es (s.step cfg e)
    inferInstanceAs (Decidable ((0 < e.takes → s.MayPass P C (s.now + e.takes)) ∧
      (s.step cfg e).Prompt cfg P C es))

end Scgrep
