import Scgrep.Spec.Fetch

/-!
# `sync_fetch` with what it does to the store

`syncRun` is the synchronous fetch against a service that is asked for URLs. It
returns the outcome together with the pages that `_process_features` has seen and
the `store_sync_message` calls that it has made for them.
-/

namespace Scgrep

/-- A service: how the `n`-th request of a fetch ends, for the URL it asks for. -/
abbrev Service := ℕ → String → Exchange

/-- The clock readings of a fetch: its own, as in `SyncScript`, and those of the keyspace at its
`n`-th call. -/
structure SyncClock where
  start : ℚ
  firstAt : ℚ
  turnAt : ℕ → ℚ
  callAt : ℕ → ℚ

/-- One call of `store_sync_message`. -/
structure SyncCall where
  now : ℚ
  msgId : String
  timeValue : String

/-- What a fetch has done: the pages processed, the calls made, and the keyspace after them. -/
structure SyncTrace where
  pages : List Json
  calls : List SyncCall
  db : Db

variable (L : Lib) (S : RedisStore)

/-- The next call. -/
def SyncTrace.store (c : FetchCall) (callAt : ℕ → ℚ) (t : SyncTrace) (m : String × String) :
    SyncTrace :=
  let now := callAt t.calls.length
  { t with
    calls := t.calls ++ [⟨now, m.1, m.2⟩]
    db := (storeSyncMessage L S now c.centreId c.topic m.1 m.2 t.db).2 }

/-- `_process_features`, each of its calls at a clock reading of its own. -/
def SyncTrace.process (c : FetchCall) (callAt : ℕ → ℚ) (t : SyncTrace) (page : Json) : SyncTrace :=
  ((storedFeatures L page).filterMap (featureRecord L)).foldl (SyncTrace.store L S c callAt)
    { t with pages := t.pages ++ [page] }

/-- The page loop, with at most the given number of turns left. -/
def syncPagesRun (c : FetchCall) (serve : Service) (τ : SyncClock) :
    ℕ → PageLoop → Json → SyncTrace → Outcome × SyncTrace
  | 0, p, _, t => (finishPages p, t)
  | n + 1, p, page, t =>
    let t := t.process L S c τ.callAt page
    match syncTurn L c (τ.turnAt p.turns) p page with
    | .inl out => (out, t)
    | .inr (p, nextUrl) =>
      match syncNext L p nextUrl (serve (p.turns + 1) nextUrl) with
      | .inl out => (out, t)
      | .inr (p, page) => syncPagesRun c serve τ n p page t

/-- `sync_fetch`, from a keyspace. -/
def syncRun (c : FetchCall) (serve : Service) (τ : SyncClock) (db : Db) : Outcome × SyncTrace :=
  match syncFirst L c τ.start τ.firstAt (serve 0 c.firstUrl) with
  | .inl out => (out, ⟨[], [], db⟩)
  | .inr (p, page) => syncPagesRun L S c serve τ maxPages p page ⟨[], [], db⟩

end Scgrep
