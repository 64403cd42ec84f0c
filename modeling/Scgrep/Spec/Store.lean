import Scgrep.Lib.Redis
import Scgrep.Spec.Util

/-!
# `redis_store.py`

`RedisStore` over one Redis keyspace. Scores and the clock are exact rationals.
A call works at one clock reading `now`.

Three families of keys hold sorted sets: `topicKey` (baseline), `replayKey` and
`syncKey` (per centre); `msgKey` holds the deduplication markers.
-/

namespace Scgrep

/-- The Redis keyspace: text keys, text values and members, rational clock and scores. -/
abbrev Db := Redis.Db String String String ℚ

/-- What is stored under one key. -/
abbrev Slot := Redis.Slot String String ℚ

/-- The fields of `RedisStore` besides the connection. -/
structure RedisStore where
  expiry : ℤ
  topics : List String

def msgKey (msgId : String) : String := "scgrep:msg:" ++ msgId

def topicKey (pattern : String) : String := "scgrep:topic:" ++ pattern

/-- `_replay_key`. -/
def replayKey (centreId pattern : String) : String :=
  "scgrep:replay:" ++ (centreId ++ ":" ++ pattern)

/-- `_sync_key`. -/
def syncKey (centreId pattern : String) : String :=
  "scgrep:sync:" ++ (centreId ++ ":" ++ pattern)

/-- One command (or one pipeline on one key) of the keyspace. -/
def Db.at (db : Db) (key : String) (f : Slot → Slot) : Db := Function.update db key (f (db key))

/-- `DEL keys`. -/
def Db.delete (db : Db) (keys : List String) : Db := fun k => if k ∈ keys then none else db k

variable (L : Lib) (S : RedisStore)

/-- `_parse_redis_url`. -/
def parseRedisUrl (url : String) : Except PyErr (String × ℤ) :=
  let orRedis := fun host : String => if host = "" then "redis" else host
  if Text.within "://" url then
    match L.urlparse url with
    | none => .error .valueError
    | some parsed =>
      match parsed.port with
      | none => .error .valueError
      | some port => .ok (orRedis (parsed.hostname.getD ""), if port.getD 0 = 0 then 6379 else port.getD 0)
  else
    -- `url.partition(":")`
    let host := String.ofList (url.toList.takeWhile (· ≠ ':'))
    let port := String.ofList ((url.toList.dropWhile (· ≠ ':')).drop 1)
    if port = "" then .ok (orRedis host, 6379)
    else match L.intOfStr port with
      | some n => .ok (orRedis host, n)
      | none => .error .valueError

/-! ## Commands that raise -/

/-- redis-py encodes an id before it sends the command, and raises for one that UTF-8 cannot encode.
A time that is none is found before. -/
def refuses (msgId timeValue : String) : Bool :=
  (parseTimeToEpoch L timeValue).isSome && !L.encodes msgId

/-- `store_replay_message` sends a command for the topics that match only. -/
def refusesReplay (msgId timeValue originalTopic : String) : Bool :=
  S.topics.any (topicMatches L · originalTopic) && refuses L msgId timeValue

/-! ## The commands -/

/-- `store_message`, for an id that is not refused. -/
def storeMessage (now : ℚ) (msgId timeValue receivedTopic : String) (db : Db) : Bool × Db :=
  match parseTimeToEpoch L timeValue with
  | none => (false, db)
  | some epoch =>
    match Redis.setNxEx now receivedTopic (S.expiry : ℚ) (db (msgKey msgId)) with
    -- the id has its marker: a duplicate, whatever its time and topic
    | (false, _) => (false, db)
    | (true, slot) =>
      let db := db.at (msgKey msgId) fun _ => slot
      let cutoff := now - S.expiry
      (true, S.topics.foldl (fun db pattern =>
        if topicMatches L pattern receivedTopic then
          db.at (topicKey pattern) (Redis.index now msgId epoch cutoff S.expiry)
        else db) db)

/-- `count_messages`. -/
def countMessages (now : ℚ) (db : Db) (pattern : String) (startEpoch endEpoch : ℤ) : ℕ :=
  Redis.zcount now (startEpoch : ℚ) (endEpoch : ℚ) (db (topicKey pattern))

/-- `store_replay_message`, for an id that is not refused. -/
def storeReplayMessage (now : ℚ) (centreId msgId timeValue originalTopic : String) (db : Db) :
    Bool × Db :=
  match parseTimeToEpoch L timeValue with
  | none => (false, db)
  | some epoch =>
    S.topics.foldl (fun (newlyAdded, db) pattern =>
      if topicMatches L pattern originalTopic then
        -- no cutoff here, and the expiry is only a safety net
        let key := replayKey centreId pattern
        let added := Redis.zadded now msgId (db key)
        (newlyAdded || added, db.at key (Redis.touch now msgId epoch S.expiry))
      else (newlyAdded, db)) (false, db)

/-- `count_replay_messages`. -/
def countReplayMessages (now : ℚ) (db : Db) (centreId pattern : String)
    (startEpoch endEpoch : ℤ) : ℕ :=
  Redis.zcount now (startEpoch : ℚ) (endEpoch : ℚ) (db (replayKey centreId pattern))

/-- `clear_replay`. -/
def clearReplay (centreIds : List String) (db : Db) : Db :=
  db.delete (centreIds.flatMap fun centreId => S.topics.map (replayKey centreId))

/-- `store_sync_message`, for an id that is not refused. -/
def storeSyncMessage (now : ℚ) (centreId pattern msgId timeValue : String) (db : Db) :
    Bool × Db :=
  match parseTimeToEpoch L timeValue with
  | none => (false, db)
  | some epoch =>
    let key := syncKey centreId pattern
    (Redis.zadded now msgId (db key), db.at key (Redis.touch now msgId epoch S.expiry))

/-- `count_sync_messages`. -/
def countSyncMessages (now : ℚ) (db : Db) (centreId pattern : String)
    (startEpoch endEpoch : ℤ) : ℕ :=
  Redis.zcount now (startEpoch : ℚ) (endEpoch : ℚ) (db (syncKey centreId pattern))

/-- `clear_sync`. -/
def clearSync (centreIds : List String) (db : Db) : Db :=
  db.delete (centreIds.flatMap fun centreId => S.topics.map (syncKey centreId))

end Scgrep
