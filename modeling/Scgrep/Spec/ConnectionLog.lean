import Scgrep.Spec.Log
import Scgrep.Spec.Manager

/-!
# What a process logs of its start and its connections

The records of `main`, `_wait_for_redis` and the callbacks of the clients that
`restart_history.py` looks for, under the formatter of the service.
-/

namespace Scgrep

inductive ConnectionRecord where
  /-- `main` -/
  | starting
  /-- `_wait_for_redis`, when a ping is answered -/
  | redis
  /-- `on_connect` of a client, for the reason code 0 -/
  | connected (client : Client)
  /-- `on_disconnect` of a client, a warning -/
  | disconnected (client : Client)
deriving DecidableEq

/-- The level and the name of the logger, as the formatter puts them. -/
def ConnectionRecord.head : ConnectionRecord → String
  | .starting => "INFO [scgrep] "
  | .redis => "INFO [scgrep] "
  | .connected _ => "INFO [scgrep.mqtt_client] "
  | .disconnected _ => "WARNING [scgrep.mqtt_client] "

/-- The text of the message. -/
def ConnectionRecord.text (cfg : Config) : ConnectionRecord → String
  | .starting =>
    "Starting SCGRep sensor centre " ++ cfg.sensorCentreId ++ " (subscriber-id=" ++ cfg.subscriberId ++ ")"
  | .redis => "Connected to Redis at " ++ cfg.redisUrl
  | .connected client => "Connected to " ++ client.role ++ " " ++ client.host
  | .disconnected client => "Disconnected from " ++ client.host ++ "; will auto-reconnect"

/-- A line of the log, as `splitlines` gives it. -/
def ConnectionRecord.line (cfg : Config) (s : LogStamp) (r : ConnectionRecord) : String :=
  s.text ++ " " ++ r.head ++ r.text cfg

end Scgrep
