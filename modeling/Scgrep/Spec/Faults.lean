import Scgrep.Spec.Store

/-!
# `store_message` when Redis fails

`storeMessageFailing` is `store_message` with one of its commands raising. The
commands of a call are numbered: the `SET` is number 0, the pipelines of the
matching patterns follow in the order of the loop. A command may raise before or
after the server has run it (a lost connection, a lost reply); a pipeline is one
transaction, so it runs as a whole.
-/

namespace Scgrep

/-- A command that raises: its number, and whether the server had run it. -/
structure Fault where
  command : ℕ
  executed : Bool
deriving DecidableEq

/-- How many commands of the call the server runs. -/
def Fault.ran (f : Fault) : ℕ := if f.executed then f.command + 1 else f.command

/-- The fault as the commands after the first see it. -/
def Fault.next (f : Fault) : Fault := ⟨f.command - 1, f.executed⟩

variable (L : Lib) (S : RedisStore)

/-- The loop of `store_message` over the patterns: `none` when a pipeline raises. -/
def indexPatterns (now : ℚ) (msgId receivedTopic : String) (epoch : ℚ) :
    Option Fault → List String → Db → Option Unit × Db
  | _, [], db => (some (), db)
  | fault, pattern :: patterns, db =>
    if topicMatches L pattern receivedTopic then
      let indexed := db.at (topicKey pattern) (Redis.index now msgId epoch (now - S.expiry) S.expiry)
      match fault with
      | none => indexPatterns now msgId receivedTopic epoch none patterns indexed
      | some ⟨0, executed⟩ => (none, if executed then indexed else db)
      | some ⟨k + 1, executed⟩ =>
        indexPatterns now msgId receivedTopic epoch (some ⟨k, executed⟩) patterns indexed
    else indexPatterns now msgId receivedTopic epoch fault patterns db

/-- `store_message` with a fault: what it returns, `none` when it raises, and the keyspace it leaves. -/
def storeMessageFailing (fault : Option Fault) (now : ℚ) (msgId timeValue receivedTopic : String)
    (db : Db) : Option Bool × Db :=
  match parseTimeToEpoch L timeValue with
  | none => (some false, db)
  | some epoch =>
    let (isNew, slot) := Redis.setNxEx now receivedTopic (S.expiry : ℚ) (db (msgKey msgId))
    let marked := db.at (msgKey msgId) fun _ => slot
    match fault with
    | some ⟨0, executed⟩ => (none, if executed then marked else db)
    | _ =>
      if !isNew then (some false, marked)
      else
        let (done, db) := indexPatterns L S now msgId receivedTopic epoch (fault.map Fault.next) S.topics marked
        (done.map fun _ => true, db)

end Scgrep
