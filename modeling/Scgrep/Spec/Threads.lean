import Scgrep.Spec.Store

/-!
# `redis_store.py` under several threads

Each MQTT client has a network thread of its own, and so has each fetch, so that calls of
the storing methods overlap. A call is cut into its Redis commands, each of which runs as a
whole (the pipelines are transactions), and the reading of the clock between them. Redis
and the process read one clock.
-/

namespace Scgrep

/-- A call of `store_message`, `store_replay_message` or `store_sync_message`, for an id that is not
refused. -/
inductive StoreCall where
  | message (msgId timeValue receivedTopic : String)
  | replay (centreId msgId timeValue originalTopic : String)
  | sync (centreId pattern msgId timeValue : String)
deriving DecidableEq

/-- Where a thread stands in its call, whose time is parsed. -/
inductive StoreStage where
  | idle
  /-- `store_message`: the `SET` is next -/
  | marking (msgId timeValue receivedTopic : String) (epoch : ℚ)
  /-- the id is marked, the cutoff is to be computed -/
  | marked (msgId timeValue receivedTopic : String) (epoch : ℚ)
  /-- the loop over the patterns, with those that are left -/
  | indexing (msgId timeValue receivedTopic : String) (epoch cutoff : ℚ) (patterns : List String)
  /-- the loop of `store_replay_message` -/
  | replaying (centreId msgId timeValue originalTopic : String) (epoch : ℚ) (newlyAdded : Bool)
    (patterns : List String)
  /-- `store_sync_message`: its pipeline is next -/
  | syncing (centreId pattern msgId timeValue : String) (epoch : ℚ)
deriving DecidableEq

/-- The id of the message. -/
def StoreCall.msgId : StoreCall → String
  | message msgId _ _ => msgId
  | replay _ msgId _ _ => msgId
  | sync _ _ msgId _ => msgId

/-- The argument of `parse_time_to_epoch`. -/
def StoreCall.timeValue : StoreCall → String
  | message _ timeValue _ => timeValue
  | replay _ _ timeValue _ => timeValue
  | sync _ _ _ timeValue => timeValue

/-- Where a call stands once its time is parsed. -/
def StoreCall.entered (S : RedisStore) (epoch : ℚ) : StoreCall → StoreStage
  | message msgId timeValue receivedTopic => .marking msgId timeValue receivedTopic epoch
  | replay centreId msgId timeValue originalTopic =>
    .replaying centreId msgId timeValue originalTopic epoch false S.topics
  | sync centreId pattern msgId timeValue => .syncing centreId pattern msgId timeValue epoch

/-- A return: the thread, the call, and what it has returned. -/
structure StoreReturn where
  thread : ℕ
  call : StoreCall
  isNew : Bool
deriving DecidableEq

/-- The keyspace, the clock, where each thread stands, and the returns so far. -/
structure StoreWorld where
  now : ℚ
  db : Db
  thread : ℕ → StoreStage
  returned : List StoreReturn

inductive StoreEvent where
  /-- time passes -/
  | tick (d : ℚ)
  /-- thread `j` makes a call -/
  | call (j : ℕ) (c : StoreCall)
  /-- thread `j` goes on with its call -/
  | advance (j : ℕ)
  /-- `clear_replay` -/
  | clearReplay (centreIds : List String)
  /-- `clear_sync` -/
  | clearSync (centreIds : List String)

namespace StoreWorld

variable (L : Lib) (S : RedisStore)

/-- Nothing stored, nothing called. -/
def init (now : ℚ) : StoreWorld := ⟨now, Redis.Db.empty, fun _ => .idle, []⟩

def setThread (j : ℕ) (s : StoreStage) (w : StoreWorld) : StoreWorld :=
  { w with thread := Function.update w.thread j s }

def setDb (db : Db) (w : StoreWorld) : StoreWorld := { w with db := db }

/-- Thread `j` returns. -/
def ret (j : ℕ) (c : StoreCall) (isNew : Bool) (w : StoreWorld) : StoreWorld :=
  { w with thread := Function.update w.thread j .idle, returned := w.returned ++ [⟨j, c, isNew⟩] }

/-- A call up to its first command: a time that cannot be parsed makes it return. -/
def call (j : ℕ) (c : StoreCall) (w : StoreWorld) : StoreWorld :=
  match w.thread j with
  | .idle =>
    match parseTimeToEpoch L c.timeValue with
    | none => w.ret j c false
    | some epoch => w.setThread j (c.entered S epoch)
  | _ => w

/-- The next step of a call. -/
def advance (j : ℕ) (w : StoreWorld) : StoreWorld :=
  match w.thread j with
  | .idle => w
  | .marking msgId timeValue receivedTopic epoch =>
    match Redis.setNxEx w.now receivedTopic (S.expiry : ℚ) (w.db (msgKey msgId)) with
    | (false, _) => w.ret j (.message msgId timeValue receivedTopic) false
    | (true, slot) =>
      (w.setDb (w.db.at (msgKey msgId) fun _ => slot)).setThread j
        (.marked msgId timeValue receivedTopic epoch)
  | .marked msgId timeValue receivedTopic epoch =>
    -- `time.time()` is read once, before the loop
    w.setThread j (.indexing msgId timeValue receivedTopic epoch (w.now - S.expiry) S.topics)
  | .indexing msgId timeValue receivedTopic _ _ [] =>
    w.ret j (.message msgId timeValue receivedTopic) true
  | .indexing msgId timeValue receivedTopic epoch cutoff (pattern :: patterns) =>
    let next := StoreStage.indexing msgId timeValue receivedTopic epoch cutoff patterns
    if topicMatches L pattern receivedTopic then
      (w.setDb (w.db.at (topicKey pattern) (Redis.index w.now msgId epoch cutoff S.expiry))).setThread j next
    else w.setThread j next
  | .replaying centreId msgId timeValue originalTopic _ newlyAdded [] =>
    w.ret j (.replay centreId msgId timeValue originalTopic) newlyAdded
  | .replaying centreId msgId timeValue originalTopic epoch newlyAdded (pattern :: patterns) =>
    if topicMatches L pattern originalTopic then
      let key := replayKey centreId pattern
      let added := Redis.zadded w.now msgId (w.db key)
      (w.setDb (w.db.at key (Redis.touch w.now msgId epoch S.expiry))).setThread j
        (.replaying centreId msgId timeValue originalTopic epoch (newlyAdded || added) patterns)
    else
      w.setThread j (.replaying centreId msgId timeValue originalTopic epoch newlyAdded patterns)
  | .syncing centreId pattern msgId timeValue epoch =>
    let key := syncKey centreId pattern
    let added := Redis.zadded w.now msgId (w.db key)
    (w.setDb (w.db.at key (Redis.touch w.now msgId epoch S.expiry))).ret j
      (.sync centreId pattern msgId timeValue) added

/-- One step. -/
def step (w : StoreWorld) : StoreEvent → StoreWorld
  | .tick d => if 0 ≤ d then { w with now := w.now + d } else w
  | .call j c => w.call L S j c
  | .advance j => w.advance L S j
  | .clearReplay centreIds => w.setDb (clearReplay S centreIds w.db)
  | .clearSync centreIds => w.setDb (clearSync S centreIds w.db)

/-- A run. -/
def run (w : StoreWorld) (es : List StoreEvent) : StoreWorld := es.foldl (step L S) w

end StoreWorld

end Scgrep
