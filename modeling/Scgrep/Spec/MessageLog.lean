import Scgrep.Spec.Fetch
import Scgrep.Spec.Handler
import Scgrep.Spec.Log

/-!
# What `on_message` and `_process_features` log

A `Handled` is one call of `MessageHandler.on_message` or one turn of the loop of
`_process_features`. `handledStates` are the calls of a run, in their order, each with
the state it finds; `LogRecord`s are what a call logs.
-/

namespace Scgrep

/-- The kind that a replay line names. -/
inductive ReplayKind where
  | synchronous
  | asynchronous
deriving DecidableEq

def ReplayKind.name : ReplayKind → String
  | .synchronous => "synchronous"
  | .asynchronous => "asynchronous"

inductive LogRecord where
  /-- `on_message`, `_handle_replay`: a new message, at `INFO` -/
  | received (topic msgId timeValue : String)
  /-- `_handle_replay`, `_process_features`: a replayed message, at `INFO` -/
  | replayed (kind : ReplayKind) (centreId topic msgId timeValue : String)
  /-- `store_message`: a time that cannot be read, at `WARNING` -/
  | discarded (msgId timeValue : String)
  /-- `_process_features`: no id or no time, at `WARNING` -/
  | missing (centreId topic : String)
  /-- `on_message`, `_handle_replay`: a payload that cannot be read, at `DEBUG` -/
  | unparseable (brokerUrl topic reason : String)
  /-- `_log_received`, at `DEBUG` -/
  | arrived (brokerUrl topic msgId timeValue : String) (isNew : Bool)
deriving DecidableEq

def LogRecord.isDebug : LogRecord → Bool
  | .unparseable _ _ _ => true
  | .arrived _ _ _ _ _ => true
  | _ => false

/-- The level and the name of the logger, as the formatter puts them. -/
def LogRecord.head : LogRecord → String
  | .received _ _ _ => " INFO [scgrep.mqtt_client] "
  | .replayed .asynchronous _ _ _ _ => " INFO [scgrep.mqtt_client] "
  | .replayed .synchronous _ _ _ _ => " INFO [scgrep.replay_tester] "
  | .discarded _ _ => " WARNING [scgrep.redis_store] "
  | .missing _ _ => " WARNING [scgrep.replay_tester] "
  | .unparseable _ _ _ => " DEBUG [scgrep.mqtt_client] "
  | .arrived _ _ _ _ _ => " DEBUG [scgrep.mqtt_client] "

variable (L : Lib)

/-- The text of the message. -/
def LogRecord.text : LogRecord → String
  | .received topic msgId timeValue =>
    "Global Broker message: topic=" ++ topic ++ " id=" ++ msgId ++ " time=" ++ timeValue
  | .replayed kind centreId topic msgId timeValue =>
    "Replay message (" ++ kind.name ++ "): centre_id=" ++ centreId ++ " topic=" ++ topic ++ " id=" ++
      msgId ++ " time=" ++ timeValue
  | .discarded msgId timeValue =>
    "Discarding message " ++ msgId ++ ": unparseable time " ++ L.repr timeValue
  | .missing centreId topic =>
    "Global Replay synchronous feature missing id/time: centre_id=" ++ centreId ++ " topic=" ++ topic
  | .unparseable brokerUrl topic reason =>
    "MQTT message received: broker=" ++ brokerUrl ++ " topic=" ++ topic ++ " (" ++ reason ++ ")"
  | .arrived brokerUrl topic msgId timeValue isNew =>
    "MQTT message received: broker=" ++ brokerUrl ++ " topic=" ++ topic ++ " id=" ++ msgId ++ " time=" ++
      timeValue ++ " Duplicate?=" ++ (if isNew then "false" else "true")

/-- A line of the file. -/
def LogRecord.line (s : LogStamp) (r : LogRecord) : String := s.text ++ r.head ++ r.text L ++ "\n"

variable (S : RedisStore)

/-- What `on_message` logs. -/
def onMessageRecords (wall : ℚ) (brokerUrl : String) (msg : MqttMessage) (db : Db) : List LogRecord :=
  if Text.startsWith msg.topic "replay/" then
    match replayParts msg.topic with
    | none => []
    | some (centreId, originalTopic) =>
      match parseMessage L msg.payload with
      | .error _ => []
      | .ok none => [.unparseable brokerUrl msg.topic "replay, unparseable"]
      | .ok (some (msgId, timeValue)) =>
        if refusesReplay L S msgId timeValue originalTopic then [] else
        let isNew := (storeReplayMessage L S wall centreId msgId timeValue originalTopic db).1
        (if isNew then [.replayed .asynchronous centreId originalTopic msgId timeValue] else []) ++
          [.arrived brokerUrl msg.topic msgId timeValue isNew]
  else
    match parseMessage L msg.payload with
    | .error _ => []
    | .ok none => [.unparseable brokerUrl msg.topic "unparseable: not JSON / missing id/time"]
    | .ok (some (msgId, timeValue)) =>
      if refuses L msgId timeValue then [] else
      let isNew := (storeMessage L S wall msgId timeValue msg.topic db).1
      (if parseTimeToEpoch L timeValue = none then [.discarded msgId timeValue] else []) ++
        (if isNew then [.received msg.topic msgId timeValue] else []) ++
          [.arrived brokerUrl msg.topic msgId timeValue isNew]

/-- What `_process_features` logs of a feature: also of one that is not newly stored. -/
def featureRecords (centreId topic : String) (feature : Json) : List LogRecord :=
  if !feature.isDict then []
  else
    match featureRecord L feature with
    | none => [.missing centreId topic]
    | some (msgId, timeValue) =>
      if refuses L msgId timeValue then [] else [.replayed .synchronous centreId topic msgId timeValue]

/-- A message that `on_message` is called with, or a feature of a page. -/
inductive Handled where
  | message (wall mono : ℚ) (brokerUrl : String) (msg : MqttMessage)
  | feature (wall : ℚ) (centreId topic : String) (item : Json)

namespace Handled

/-- The state it leaves. -/
def handle (s : HandlerState) : Handled → HandlerState
  | .message wall mono _ msg => (onMessage L S wall mono msg s).2
  | .feature wall centreId topic item =>
    match featureRecord L item with
    | none => s
    | some (msgId, timeValue) =>
      if refuses L msgId timeValue then s
      else { s with db := (storeSyncMessage L S wall centreId topic msgId timeValue s.db).2 }

/-- What it logs. -/
def records (s : HandlerState) : Handled → List LogRecord
  | .message wall _ brokerUrl msg => onMessageRecords L S wall brokerUrl msg s.db
  | .feature _ centreId topic item => featureRecords L centreId topic item

end Handled

/-- The calls of a run, each with the state it finds. -/
def handledStates : List Handled → HandlerState → List (Handled × HandlerState)
  | [], _ => []
  | h :: hs, s => (h, s) :: handledStates hs (h.handle L S s)

/-- What a run logs, at level `DEBUG` or at `INFO`. -/
def loggedRecords (debug : Bool) (hs : List Handled) (s : HandlerState) : List LogRecord :=
  ((handledStates L S hs s).flatMap fun x => x.1.records L S x.2).filter fun r => debug || !r.isDebug

end Scgrep
