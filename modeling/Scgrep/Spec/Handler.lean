import Scgrep.Spec.Store
import Scgrep.Spec.Registry

/-!
# `mqtt_client.py`: `MessageHandler`

`onMessage` routes one broker message: replay messages to the registry and to
the replay sets, all others to the baseline.
-/

namespace Scgrep

/-- A received MQTT message. -/
structure MqttMessage where
  topic : String
  payload : String
deriving DecidableEq

variable (L : Lib) (S : RedisStore)

/-- The value `_parse_message` and `_process_features` read a time from: `time`, or the
`pubtime` of the properties when it is absent. -/
def timeValueOf (data : Json) : Json :=
  let timeValue := data.get "time"
  if timeValue.isNone then
    let props := data.get "properties"
    if props.isDict then props.get "pubtime" else timeValue
  else timeValue

/-- `_parse_message`. A value that is not an object has no `get`. -/
def parseMessage (payload : String) : Except PyErr (Option (String × String)) :=
  match L.loads payload with
  | .valueError => .ok none
  | .recursionError => .error .recursionError
  | .ok data =>
    -- `data.get` is outside the `try`
    if !data.isDict then .error .attributeError
    else
      let msgId := data.get "id"
      let timeValue := timeValueOf data
      if !msgId.truthy || !timeValue.truthy then .ok none
      else .ok (some (pyStr L msgId, pyStr L timeValue))

/-- The state `MessageHandler` works on. -/
structure HandlerState where
  reg : ReplayRegistry
  db : Db

/-- The centre and the original topic in a replay topic. -/
def replayParts (topic : String) : Option (String × String) :=
  let parts := Text.split '/' topic
  if parts.length < 6 then none
  else some (parts.getD 3 "", Text.join '/' (parts.drop 5))

/-- `_handle_replay`. -/
def handleReplayMessage (wall mono : ℚ) (msg : MqttMessage) (s : HandlerState) :
    Except PyErr Unit × HandlerState :=
  -- the counter hears of every arrival, also of one that is not stored
  let s := { s with reg := s.reg.handleReplay L mono msg.topic }
  match replayParts msg.topic with
  | none => (.ok (), s)
  | some (centreId, originalTopic) =>
    match parseMessage L msg.payload with
    | .error e => (.error e, s)
    | .ok none => (.ok (), s)
    | .ok (some (msgId, timeValue)) =>
      if refusesReplay L S msgId timeValue originalTopic then (.error .unicodeEncodeError, s)
      else
        (.ok (), { s with
          db := (storeReplayMessage L S wall centreId msgId timeValue originalTopic s.db).2 })

/-- `on_message`: what it returns or raises, and the state it leaves. -/
def onMessage (wall mono : ℚ) (msg : MqttMessage) (s : HandlerState) :
    Except PyErr Unit × HandlerState :=
  if Text.startsWith msg.topic "replay/" then handleReplayMessage L S wall mono msg s
  else
    match parseMessage L msg.payload with
    | .error e => (.error e, s)
    | .ok none => (.ok (), s)
    | .ok (some (msgId, timeValue)) =>
      if refuses L msgId timeValue then (.error .unicodeEncodeError, s)
      else (.ok (), { s with db := (storeMessage L S wall msgId timeValue msg.topic s.db).2 })

end Scgrep
