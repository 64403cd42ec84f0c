import Scgrep.Spec.Cycle
import Scgrep.Spec.Manager

/-!
# `mqtt_client.py`: the clients at work

What `MqttManager` does from `start` on: it begins its clients one by one, and
each client that is connecting has a network thread that calls back when a
connection succeeds or fails, when it is lost, and when a message arrives. The
series and the arrival times of all brokers are kept in dictionaries by broker
URL. The clock is `time.time()`.
-/

namespace Scgrep

/-- What the clients share, and the `subscribe` calls of each. -/
structure BrokerWorld where
  now : ℚ
  /-- how many clients `start` has begun -/
  begun : ℕ
  /-- whose network threads run -/
  running : ℕ → Bool
  /-- `broker_status` by its `url` label -/
  status : Dict String ℚ
  /-- the `url` labels of `broker_last_message_age` whose function is set -/
  aged : Dict String Unit
  /-- `_last_message_at` -/
  lastMessageAt : Dict String ℚ
  subscribed : ℕ → List (List (String × ℕ))

inductive BrokerEvent where
  /-- time passes -/
  | tick (d : ℚ)
  /-- `start` begins the next client; `connect_async` may raise -/
  | begin (raises : Bool)
  /-- `on_connect` of client `k` -/
  | connect (k : ℕ) (reasonCode : ℤ)
  /-- `on_disconnect` of client `k` -/
  | disconnect (k : ℕ)
  /-- `on_message` of client `k` -/
  | message (k : ℕ)

namespace BrokerWorld

variable (cfg : Config)

/-- Before `start`. -/
def init (now : ℚ) : BrokerWorld :=
  ⟨now, 0, fun _ => false, Dict.empty, Dict.empty, Dict.empty, fun _ => []⟩

/-- `_set_broker_status`. -/
def setBrokerStatus (url : String) (connected : Bool) (w : BrokerWorld) : BrokerWorld :=
  { w with status := w.status.set url (flag connected) }

/-- `_track_message_age`. -/
def trackMessageAge (url : String) (w : BrokerWorld) : BrokerWorld :=
  { w with
    -- `setdefault`
    lastMessageAt := if w.lastMessageAt.contains url then w.lastMessageAt else w.lastMessageAt.set url w.now
    aged := w.aged.set url () }

/-- `_connect` of the next client. -/
def begin (raises : Bool) (w : BrokerWorld) : BrokerWorld :=
  match (MqttManager.start cfg)[w.begun]? with
  | none => w
  | some client =>
    let w' := (w.setBrokerStatus client.userData false).trackMessageAge client.userData
    { w' with
      begun := w.begun + 1
      running := Function.update w.running w.begun !raises }

/-- A callback of client `k`, which has a running network thread. -/
def onClient (k : ℕ) (f : Client → BrokerWorld → BrokerWorld) (w : BrokerWorld) : BrokerWorld :=
  match (MqttManager.start cfg)[k]? with
  | none => w
  | some client => if w.running k then f client w else w

/-- `on_connect`. -/
def onConnect (k : ℕ) (reasonCode : ℤ) (client : Client) (w : BrokerWorld) : BrokerWorld :=
  if reasonCode ≠ 0 then w.setBrokerStatus client.userData false
  else
    let w' := w.setBrokerStatus client.userData true
    -- subscribed again on every (re)connect
    { w' with
      subscribed := Function.update w.subscribed k
        (w.subscribed k ++ [client.subscriptions.map fun topic => (topic, 1)]) }

/-- `on_disconnect`. -/
def onDisconnect (client : Client) (w : BrokerWorld) : BrokerWorld :=
  w.setBrokerStatus client.userData false

/-- The wrapper of `_track_messages` around the handler. -/
def onMessage (client : Client) (w : BrokerWorld) : BrokerWorld :=
  { w with lastMessageAt := w.lastMessageAt.set client.userData w.now }

/-- One step. -/
def step (w : BrokerWorld) : BrokerEvent → BrokerWorld
  | .tick d => if 0 ≤ d then { w with now := w.now + d } else w
  | .begin raises => w.begin cfg raises
  | .connect k reasonCode => w.onClient cfg k (onConnect k reasonCode)
  | .disconnect k => w.onClient cfg k onDisconnect
  | .message k => w.onClient cfg k onMessage

/-- A run. -/
def run (w : BrokerWorld) (es : List BrokerEvent) : BrokerWorld := es.foldl (step cfg) w

/-- `broker_last_message_age` of a URL, as a scrape evaluates it. -/
def messageAge (w : BrokerWorld) (url : String) : Option ℚ :=
  if w.aged.contains url then (w.lastMessageAt.get? url).map fun last => w.now - last else none

end BrokerWorld

/-! ## One broker by itself -/

/-- What there is to know of one broker: whether its client is connected, when the last message
arrived from it (or when its client was begun), and how often it was subscribed to. -/
structure BrokerRecord where
  now : ℚ
  begun : ℕ
  running : Bool
  connected : Bool
  lastAt : ℚ
  subscribes : ℕ

namespace BrokerRecord

def init (now : ℚ) : BrokerRecord := ⟨now, 0, false, false, now, 0⟩

/-- A step as the broker of client `k` sees it, among `n` clients. -/
def step (n k : ℕ) (r : BrokerRecord) : BrokerEvent → BrokerRecord
  | .tick d => if 0 ≤ d then { r with now := r.now + d } else r
  | .begin raises =>
    if n ≤ r.begun then r
    else if r.begun = k then { r with begun := r.begun + 1, running := !raises, lastAt := r.now }
    else { r with begun := r.begun + 1 }
  | .connect j reasonCode =>
    if j = k ∧ r.running then
      if reasonCode = 0 then { r with connected := true, subscribes := r.subscribes + 1 }
      else { r with connected := false }
    else r
  | .disconnect j => if j = k ∧ r.running then { r with connected := false } else r
  | .message j => if j = k ∧ r.running then { r with lastAt := r.now } else r

def run (n k : ℕ) (r : BrokerRecord) (es : List BrokerEvent) : BrokerRecord := es.foldl (step n k) r

end BrokerRecord

end Scgrep
