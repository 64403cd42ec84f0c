import Scgrep.Spec.Registry
import Scgrep.Spec.Fetch

/-!
# Asynchronous fetches and replay arrivals

`async_fetch` and `handle_replay`, cut wherever another thread can come between: at
every reading of the clock and every access to the registry or a counter. Any number
of fetches and of threads that call `handle_replay` share one registry. As in
`Spec/World.lean` a step that its thread cannot take changes nothing.
-/

namespace Scgrep

/-- The arguments of an asynchronous fetch, with what its `number_matched_provider` returns. -/
structure AsyncCall where
  call : FetchCall
  subscriberId : String
  brokerAuthorities : List String
  baseline : ℕ
  numberMatched : Option ℤ
  /-- `deadline_s` is a share of `TEST_INTERVAL` -/
  deadline_nonneg : 0 ≤ call.deadlineS

/-- The channel that the fetch registers. -/
def AsyncCall.channel (f : AsyncCall) : String := f.call.expectedChannel f.subscriberId

/-- Whether the fetch waits for replay messages. -/
def AsyncCall.expects (f : AsyncCall) : Bool := expectMessages f.numberMatched f.baseline

/-- Where an `async_fetch` stands, with the number of its counter. -/
inductive FetchStage where
  | ready
  | registered (counter : ℕ)
  | started (counter : ℕ) (start : ℚ)
  | posted (counter : ℕ) (a : PostState)
  /-- in the loop that waits for the first message -/
  | polling (counter : ℕ) (a : PostState)
  /-- after the loop -/
  | polled (counter : ℕ) (a : PostState)
  /-- the first message is known; the counter runs until the deadline -/
  | counting (counter : ℕ) (a : PostState) (firstMonotonic : ℚ)
  /-- the result is known, the channel still registered -/
  | returning (result : FetchResult)
  | finished (out : Outcome)

/-- Where a thread stands in `handle_replay`: it has read the clock, it has copied the map. -/
inductive ReplayStage where
  | idle
  | called (now : ℚ) (topic : String)
  | copied (now : ℚ) (topic : String) (items : List (String × ℕ))

/-- The shared registry, the clock, and where everyone stands. -/
structure Arrivals where
  now : ℚ
  reg : ReplayRegistry
  fetch : ℕ → FetchStage
  thread : ℕ → ReplayStage

/-- Nothing has begun. -/
def Arrivals.init (now : ℚ) : Arrivals := ⟨now, .new, fun _ => .ready, fun _ => .idle⟩

inductive ArrivalEvent where
  /-- time passes -/
  | tick (d : ℚ)
  /-- fetch `i`: the channel is registered -/
  | register (i : ℕ)
  /-- fetch `i`: the start instant is read and the POST sent -/
  | start (i : ℕ)
  /-- fetch `i`: the POST ends -/
  | postReply (i : ℕ) (x : Exchange)
  /-- fetch `i`: the provider has returned and it is decided whether to wait -/
  | decide (i : ℕ)
  /-- fetch `i`: one turn of the loop -/
  | poll (i : ℕ)
  /-- fetch `i`: the snapshot after the loop -/
  | snapshot (i : ℕ)
  /-- fetch `i`: the snapshot at the deadline -/
  | count (i : ℕ)
  /-- fetch `i`: the channel is unregistered and the result returned -/
  | unregister (i : ℕ)
  /-- thread `j`: a replay message comes in and the clock is read -/
  | call (j : ℕ) (topic : String)
  /-- thread `j`: the map of channels is copied -/
  | copy (j : ℕ)
  /-- thread `j`: the counter of the first matching channel records -/
  | record (j : ℕ)

/-- The loop of `handle_replay` over the copied items: the counter that records. -/
def routeItems (L : Lib) (items : List (String × ℕ)) (topic : String) : Option ℕ :=
  (items.find? fun item => channelMatches L item.1 topic).map Prod.snd

/-- `counter.record(now)`. -/
def ReplayRegistry.record (k : ℕ) (now : ℚ) (reg : ReplayRegistry) : ReplayRegistry :=
  { reg with counters := Function.update reg.counters k ((reg.counters k).record now) }

namespace Arrivals

variable (L : Lib) (f : ℕ → AsyncCall)

def setFetch (i : ℕ) (s : FetchStage) (w : Arrivals) : Arrivals :=
  { w with fetch := Function.update w.fetch i s }

def setThread (j : ℕ) (s : ReplayStage) (w : Arrivals) : Arrivals :=
  { w with thread := Function.update w.thread j s }

def setReg (reg : ReplayRegistry) (w : Arrivals) : Arrivals := { w with reg := reg }

def register (i : ℕ) (w : Arrivals) : Arrivals :=
  match w.fetch i with
  | .ready => (w.setReg (w.reg.register (f i).channel)).setFetch i (.registered w.reg.made)
  | _ => w

def start (i : ℕ) (w : Arrivals) : Arrivals :=
  match w.fetch i with
  | .registered k => w.setFetch i (.started k w.now)
  | _ => w

def postReply (i : ℕ) (x : Exchange) (w : Arrivals) : Arrivals :=
  match w.fetch i with
  | .started k start =>
    match asyncPost L (f i).call (f i).subscriberId (f i).brokerAuthorities start w.now x with
    -- what is raised here leaves the channel registered
    | .error e => w.setFetch i (.finished (.error e))
    | .ok a => w.setFetch i (.posted k a)
  | _ => w

def decide (i : ℕ) (w : Arrivals) : Arrivals :=
  match w.fetch i with
  | .posted k a =>
    if (f i).expects then w.setFetch i (.polling k a)
    else w.setFetch i (.returning (unexpectedResult a))
  | _ => w

def poll (i : ℕ) (w : Arrivals) : Arrivals :=
  match w.fetch i with
  | .polling k a =>
    if w.now < (f i).call.deadlineAt ∧ (w.reg.counters k).firstMonotonic = none then w
    else w.setFetch i (.polled k a)
  | _ => w

def snapshot (i : ℕ) (w : Arrivals) : Arrivals :=
  match w.fetch i with
  | .polled k a =>
    match (w.reg.counters k).firstMonotonic with
    | none => w.setFetch i (.returning (asyncFinish (f i).call a (w.reg.counters k)))
    | some firstMonotonic => w.setFetch i (.counting k a firstMonotonic)
  | _ => w

def count (i : ℕ) (w : Arrivals) : Arrivals :=
  match w.fetch i with
  | .counting k a firstMonotonic =>
    if w.now < (f i).call.deadlineAt then w
    else w.setFetch i
      (.returning (asyncFinish (f i).call a ⟨(w.reg.counters k).count, some firstMonotonic⟩))
  | _ => w

def unregister (i : ℕ) (w : Arrivals) : Arrivals :=
  match w.fetch i with
  | .returning result =>
    (w.setReg (w.reg.unregister (f i).channel)).setFetch i (.finished (.ok result))
  | _ => w

def call (j : ℕ) (topic : String) (w : Arrivals) : Arrivals :=
  match w.thread j with
  | .idle => w.setThread j (.called w.now topic)
  | _ => w

def copy (j : ℕ) (w : Arrivals) : Arrivals :=
  match w.thread j with
  | .called now topic => w.setThread j (.copied now topic w.reg.active.items)
  | _ => w

def record (j : ℕ) (w : Arrivals) : Arrivals :=
  match w.thread j with
  | .copied now topic items =>
    match routeItems L items topic with
    | none => w.setThread j .idle
    | some k => (w.setReg (w.reg.record k now)).setThread j .idle
  | _ => w

/-- One step. -/
def step (w : Arrivals) : ArrivalEvent → Arrivals
  | .tick d => if 0 ≤ d then { w with now := w.now + d } else w
  | .register i => w.register f i
  | .start i => w.start i
  | .postReply i x => w.postReply L f i x
  | .decide i => w.decide f i
  | .poll i => w.poll f i
  | .snapshot i => w.snapshot f i
  | .count i => w.count f i
  | .unregister i => w.unregister f i
  | .call j topic => w.call j topic
  | .copy j => w.copy j
  | .record j => w.record L j

/-- A run. -/
def run (w : Arrivals) (es : List ArrivalEvent) : Arrivals := es.foldl (step L f) w

end Arrivals

end Scgrep
