import Scgrep.Spec.Python

/-!
# `util.py`

Time conversion, topic matching, the collection and query of a topic, and broker
authorities.
-/

namespace Scgrep

/-- `parse_time_to_epoch`: the UTC epoch of an ISO 8601 text, `none` for `ValueError`. -/
def parseTimeToEpoch (L : Lib) (value : String) : Option ℚ :=
  let text := Text.strip value
  let text := if Text.endsWith text "Z" || Text.endsWith text "z" then
      Text.dropEnd 1 text ++ "+00:00"
    else text
  (L.fromisoformat text).map fun parsed => parsed.fields - parsed.offset.getD 0

/-- `epoch_to_iso`. -/
def epochToIso (L : Lib) (epoch : ℤ) : String := L.utcIso epoch

/-- `topic_matches`. -/
def topicMatches (L : Lib) (subscription topic : String) : Bool :=
  L.topicMatchesSub subscription topic

def notificationCollection : String := "wis2-notification-messages"

def monitoringCollection : String := "wis2-monitoring-event-messages"

def monitoringTopicPrefixes : List String := ["monitor/a/wis2"]

/-- `topic_to_collection`. -/
def topicToCollection (topic : String) : String :=
  let text := Text.strip topic
  if monitoringTopicPrefixes.any fun pre => Text.startsWith text pre then monitoringCollection
  else notificationCollection

/-- `topic_to_query`. -/
def topicToQuery (topic : String) : String :=
  let query := Text.strip topic
  if query = "#" then ""
  else
    let query := if Text.endsWith query "/#" then Text.dropEnd 2 query else query
    Text.rstrip '/' query

/-- `broker_authority`: `none` for the `ValueError` of a URL or port it cannot read. -/
def brokerAuthority (L : Lib) (url : String) : Option String :=
  match L.urlparse url with
  | none => none
  | some parsed =>
    let host := (parsed.hostname.getD "").toLower
    match parsed.port with
    | none => none
    | some (some port) => some (host ++ ":" ++ toString port)
    | some none =>
      let port := if parsed.scheme = "mqtts" then 8883 else 1883
      some (host ++ ":" ++ toString port)

end Scgrep
