import Scgrep.Spec.Cycle

/-!
# One cycle, interleaved

During a cycle three kinds of threads work on the store and the registry: the
main thread of `run_cycle`, the fetches in its thread pool (which has a worker
for each of them) and the MQTT threads that call `on_message`. `World` is the
state they share together with where each of them stands, and an `Event` is one
step of one of them, or the passing of time. An event that its thread cannot
take changes nothing, so every list of events is a run.

A fetch waits only at the points where `Spec/Fetch.lean` cuts it. The main
thread reads the baselines, clears the replay and sync sets, submits all
fetches, collects them in the order of submission, and publishes. No Redis command
fails here, and `epoch_to_iso` has a text for the bounds of the window.
-/

namespace Scgrep

open FloorWindow

/-- What does not change during a cycle: its start on the monotonic clock, and the
offset of the wall clock (which Redis shares) to it. -/
structure Ctx where
  L : Lib
  cfg : Config
  started : ℚ
  offset : ℚ

namespace Ctx

variable (E : Ctx)

def wall (t : ℚ) : ℚ := t + E.offset

def window : Window := cycleWindow E.cfg (E.wall E.started)

def deadlineAt : ℚ := E.started + deadlineS E.cfg

/-- The authorities of the Global Brokers, whose URLs `BrokerConfig.from_url` has read. -/
def brokerAuthorities : List String :=
  E.cfg.brokers.map fun b => (brokerAuthority E.L b.url).getD ""

/-- The arguments of the fetches of a cell. -/
def call (cell : Cell) : FetchCall where
  replayUrl := cell.replayUrl
  centreId := cell.centreId
  topic := cell.topic
  startIso := epochToIso E.L E.window.start
  endIso := epochToIso E.L E.window.stop
  deadlineS := deadlineS E.cfg
  deadlineAt := E.deadlineAt

def channel (cell : Cell) : String := (E.call cell).expectedChannel E.cfg.subscriberId

end Ctx

/-- Where the main thread stands: `collecting k` waits for the `k`-th future. -/
inductive MainState where
  | begin
  | counted
  | collecting (k : ℕ)
  | published
deriving DecidableEq

/-- Where a synchronous fetch stands. -/
inductive SyncState where
  | ready
  | requested (start : ℚ)
  | page (p : PageLoop) (page : Json)
  | waiting (p : PageLoop) (nextUrl : String)
  | finished (out : Outcome)

/-- Where an asynchronous fetch stands, with the number of its counter. -/
inductive AsyncState where
  | ready
  | registered (counter : ℕ)
  | started (counter : ℕ) (start : ℚ)
  | posted (counter : ℕ) (a : PostState)
  | waiting (counter : ℕ) (a : PostState)
  | finished (out : Outcome)

def SyncState.outcome? : SyncState → Option Outcome
  | .finished out => some out
  | _ => none

def AsyncState.outcome? : AsyncState → Option Outcome
  | .finished out => some out
  | _ => none

/-- The state of a cycle. -/
structure World where
  now : ℚ
  db : Db
  reg : ReplayRegistry
  main : MainState
  baselines : Dict String ℕ
  results : List CellResult
  sync : ℕ → SyncState
  async : ℕ → AsyncState
  metrics : Metrics

/-- A cycle about to begin, on a store, a registry and metrics as the past left them. -/
def World.init (E : Ctx) (db : Db) (reg : ReplayRegistry) (m : Metrics) : World :=
  ⟨E.started, db, reg, .begin, Dict.empty, [], fun _ => .ready, fun _ => .ready, m⟩

inductive Event where
  /-- time passes -/
  | tick (d : ℚ)
  /-- an MQTT thread handles a message -/
  | deliver (msg : MqttMessage)
  /-- main: the baseline counts -/
  | readBaselines
  /-- main: `clear_replay`, `clear_sync` and the submission of the fetches -/
  | clear
  /-- sync fetch `i`: the first request -/
  | syncBegin (i : ℕ)
  /-- sync fetch `i`: a request ends -/
  | syncReply (i : ℕ) (x : Exchange)
  /-- sync fetch `i`: a page is processed, up to the next request -/
  | syncTurn (i : ℕ)
  /-- async fetch `i`: the channel is registered -/
  | register (i : ℕ)
  /-- async fetch `i`: the start instant is read and the POST sent -/
  | post (i : ℕ)
  /-- async fetch `i`: the POST ends -/
  | postReply (i : ℕ) (x : Exchange)
  /-- async fetch `i`: the sync fetch of its cell is over and it is decided whether to wait -/
  | decide (i : ℕ)
  /-- async fetch `i`: the wait is over -/
  | finish (i : ℕ)
  /-- main: the next future is done, its result re-counted -/
  | collect
  /-- main: all metrics are published -/
  | publish

namespace World

variable (E : Ctx)

/-- Whether the fetches are submitted. -/
def submitted (w : World) : Bool :=
  match w.main with
  | .collecting _ => true
  | _ => false

def view (w : World) : View := ⟨w.db, E.wall w.now⟩

def setSync (i : ℕ) (s : SyncState) (w : World) : World :=
  { w with sync := Function.update w.sync i s }

def setAsync (i : ℕ) (s : AsyncState) (w : World) : World :=
  { w with async := Function.update w.async i s }

def deliver (msg : MqttMessage) (w : World) : World :=
  -- what the handler raises is dropped; what it did before stays
  let s := (onMessage E.L E.cfg.store (E.wall w.now) w.now msg ⟨w.reg, w.db⟩).2
  { w with reg := s.reg, db := s.db }

/-- The baselines a world would read. -/
def baselineCounts (w : World) : List (String × ℕ) :=
  E.cfg.subscriptionTopics.map fun topic =>
    (topic, countMessages (E.wall w.now) w.db topic E.window.start E.window.stop)

def readBaselines (w : World) : World :=
  match w.main with
  | .begin => { w with main := .counted, baselines := baselineDict (w.baselineCounts E) }
  | _ => w

def clear (w : World) : World :=
  match w.main with
  | .counted => { w with
      main := .collecting 0
      db := clearSync E.cfg.store E.cfg.replayCentreIds
        (clearReplay E.cfg.store E.cfg.replayCentreIds w.db) }
  | _ => w

/-- A step of the fetches of cell `i`, which must be submitted. -/
def onCell (i : ℕ) (f : Cell → World → World) (w : World) : World :=
  match E.cfg.cells[i]? with
  | none => w
  | some cell => if w.submitted then f cell w else w

def syncBegin (i : ℕ) (_cell : Cell) (w : World) : World :=
  match w.sync i with
  | .ready => w.setSync i (.requested w.now)
  | _ => w

def syncReply (i : ℕ) (x : Exchange) (cell : Cell) (w : World) : World :=
  match w.sync i with
  | .requested start =>
    match syncFirst E.L (E.call cell) start w.now x with
    | .inl out => w.setSync i (.finished out)
    | .inr (p, page) => w.setSync i (.page p page)
  | .waiting p nextUrl =>
    match syncNext E.L p nextUrl x with
    | .inl out => w.setSync i (.finished out)
    | .inr (p, page) => w.setSync i (.page p page)
  | _ => w

def syncTurn (i : ℕ) (cell : Cell) (w : World) : World :=
  match w.sync i with
  | .page p page =>
    -- the features are processed unless the loop has had all its turns
    let w := if maxPages ≤ p.turns then w else { w with
      db := (processFeatures E.L E.cfg.store (E.wall w.now) cell.centreId cell.topic page w.db).2 }
    match Scgrep.syncTurn E.L (E.call cell) w.now p page with
    | .inl out => w.setSync i (.finished out)
    | .inr (p, nextUrl) => w.setSync i (.waiting p nextUrl)
  | _ => w

def register (i : ℕ) (cell : Cell) (w : World) : World :=
  match w.async i with
  | .ready =>
    -- the counter of the fetch is the next one made
    { w with reg := w.reg.register (E.channel cell) }.setAsync i (.registered w.reg.made)
  | _ => w

def post (i : ℕ) (_cell : Cell) (w : World) : World :=
  match w.async i with
  | .registered counter => w.setAsync i (.started counter w.now)
  | _ => w

def postReply (i : ℕ) (x : Exchange) (cell : Cell) (w : World) : World :=
  match w.async i with
  | .started counter start =>
    match asyncPost E.L (E.call cell) E.cfg.subscriberId E.brokerAuthorities start w.now x with
    | .error e => w.setAsync i (.finished (.error e))
    | .ok a => w.setAsync i (.posted counter a)
  | _ => w

def decide (i : ℕ) (cell : Cell) (w : World) : World :=
  match w.async i, (w.sync i).outcome? with
  -- the provider has returned: the synchronous fetch is over
  | .posted counter a, some out =>
    if expectMessages (numberMatchedFrom out) ((w.baselines.get? cell.topic).getD 0) then
      w.setAsync i (.waiting counter a)
    else
      { w with reg := w.reg.unregister (E.channel cell) }.setAsync i
        (.finished (.ok (unexpectedResult a)))
  | _, _ => w

def finish (i : ℕ) (cell : Cell) (w : World) : World :=
  match w.async i with
  | .waiting counter a =>
    if E.deadlineAt ≤ w.now then
      { w with reg := w.reg.unregister (E.channel cell) }.setAsync i
        (.finished (.ok (asyncFinish (E.call cell) a (w.reg.counters counter))))
    else w
  | _ => w

/-- The outcome of the `k`-th future, once it is done. -/
def future (w : World) (k : ℕ) : Option Outcome :=
  -- each cell submits its synchronous fetch, then its asynchronous one
  if k % 2 = 0 then (w.sync (k / 2)).outcome? else (w.async (k / 2)).outcome?

def collect (w : World) : World :=
  match w.main with
  | .collecting k =>
    match E.cfg.cells[k / 2]?, w.future k with
    | some cell, some out => { w with
        main := .collecting (k + 1)
        results := w.results ++ Scgrep.collect E.window (w.view E) cell out }
    | _, _ => w
  | _ => w

def publish (w : World) : World :=
  match w.main with
  | .collecting k =>
    -- publication is held to the deadline
    if k = 2 * E.cfg.cells.length ∧ E.deadlineAt ≤ w.now then
      { w with main := .published, metrics := publishAll E.cfg w.baselines w.results w.metrics }
    else w
  | _ => w

/-- One step. -/
def step (w : World) : Event → World
  | .tick d => if 0 ≤ d then { w with now := w.now + d } else w
  | .deliver msg => w.deliver E msg
  | .readBaselines => w.readBaselines E
  | .clear => w.clear E
  | .syncBegin i => w.onCell E i (syncBegin i)
  | .syncReply i x => w.onCell E i (syncReply E i x)
  | .syncTurn i => w.onCell E i (syncTurn E i)
  | .register i => w.onCell E i (register E i)
  | .post i => w.onCell E i (post i)
  | .postReply i x => w.onCell E i (postReply E i x)
  | .decide i => w.onCell E i (decide E i)
  | .finish i => w.onCell E i (finish E i)
  | .collect => w.collect E
  | .publish => w.publish E

/-- A run. -/
def run (w : World) (es : List Event) : World := es.foldl (step E) w

end World

end Scgrep
