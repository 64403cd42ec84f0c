import Scgrep.Spec.Handler

/-!
# `replay_tester.py`

The synchronous and the asynchronous fetch. Each is cut at the points where it
waits for something outside (a response, the clock, another fetch), so that the
pieces can be interleaved; `syncFetch` and `asyncFetch` run them in a row.

* sync: `syncFirst` (first response), `syncTurn` (one turn of the page loop up to
  its next request), `syncNext` (response to that request).
* async: `asyncPost` (response to the POST), `asyncDecide` (are messages
  expected?), `asyncFinish` (at the deadline).
-/

namespace Scgrep

/-- `_MAX_PAGES`. -/
def maxPages : ℕ := 10000

inductive Protocol where
  | http
  | mqtt
deriving DecidableEq

/-- `FetchResult`. -/
structure FetchResult where
  protocol : Protocol
  aborted : Bool
  invalidFormat : Bool
  fetchDelayMs : ℚ
  messagesFetched : ℤ
  invalidNumberMatched : Bool
  httpStatus : ℤ
  numberMatched : ℤ

/-- How one HTTP request ends: `requests` raises before a response, a response
arrives but reading its body raises, or the body is read. Only a streamed request
returns before the body is read; for the others `broken` is a request that raises. -/
inductive Exchange where
  | fails
  | broken (status : ℤ)
  | answer (status : ℤ) (text : String)

/-- How a fetch ends: with a result, or by raising. -/
abbrev Outcome := Except PyErr FetchResult

/-- The arguments both fetches share. -/
structure FetchCall where
  replayUrl : String
  centreId : String
  topic : String
  startIso : String
  endIso : String
  deadlineS : ℚ
  deadlineAt : ℚ

namespace FetchCall

def interval (c : FetchCall) : String := c.startIso ++ "/" ++ c.endIso

def baseUrl (c : FetchCall) : String :=
  c.replayUrl ++ "/collections/" ++ topicToCollection c.topic ++ "/items"

def firstUrl (c : FetchCall) : String :=
  c.baseUrl ++ "?datetime=" ++ c.interval ++ "&topic=" ++ topicToQuery c.topic

def abortedDelayMs (c : FetchCall) : ℚ := c.deadlineS * 1000

/-- The `channel_prefix` of the asynchronous fetch. -/
def channelPrefix (c : FetchCall) (subscriberId : String) : String :=
  "replay/a/wis2/" ++ c.centreId ++ "/" ++ subscriberId ++ "/"

/-- The `expected_channel` of the asynchronous fetch. -/
def expectedChannel (c : FetchCall) (subscriberId : String) : String :=
  c.channelPrefix subscriberId ++ c.topic

end FetchCall

variable (L : Lib)

/-! ## Pages -/

/-- `_next_page_href`. -/
def nextPageHref (page : Json) : Option String :=
  match page.get "links" with
  | .arr links => links.findSome? fun link =>
    match link.get "rel", link.get "href" with
    -- a `next` link without an href is passed over
    | .str rel, .str href => if rel = "next" ∧ href ≠ "" then some href else none
    | _, _ => none
  | _ => none

/-- The (id, time) a feature is stored under, if it has both. -/
def featureRecord (feature : Json) : Option (String × String) :=
  if !feature.isDict then none
  else
    let msgId := feature.get "id"
    let timeValue := timeValueOf feature
    -- counted all the same, but not stored
    if !msgId.truthy || !timeValue.truthy then none
    else some (pyStr L msgId, pyStr L timeValue)

/-- `store_sync_message` raises for the feature. -/
def featureRefused (feature : Json) : Bool :=
  (featureRecord L feature).any fun m => refuses L m.1 m.2

/-- The `features` list of a page. -/
def pageFeatures (page : Json) : List Json :=
  match page.get "features" with
  | .arr features => features
  | _ => []

/-- The features of a page that are stored: those before one that raises. -/
def storedFeatures (page : Json) : List Json :=
  (pageFeatures page).takeWhile fun feature => !featureRefused L feature

/-- `_process_features`, what it returns or raises. -/
def countFeatures (page : Json) : Except PyErr ℕ :=
  if (pageFeatures page).any (featureRefused L) then .error .unicodeEncodeError
  else .ok (pageFeatures page).length

/-- `_process_features`: what it returns or raises, and the keyspace it leaves. -/
def processFeatures (S : RedisStore) (now : ℚ) (centreId topic : String) (page : Json) (db : Db) :
    Except PyErr ℕ × Db :=
  (countFeatures L page, ((storedFeatures L page).filterMap (featureRecord L)).foldl
    (fun db m => (storeSyncMessage L S now centreId topic m.1 m.2 db).2) db)

/-! ## The synchronous fetch -/

/-- The variables of the page loop: `page_url`, the turns done, `messages_seen`,
`number_matched`, `ttfb_ms`, `last_status`. -/
structure PageLoop where
  pageUrl : String
  turns : ℕ
  messagesSeen : ℕ
  numberMatched : ℤ
  ttfbMs : ℚ
  lastStatus : ℤ

/-- After the page loop. -/
def finishPages (p : PageLoop) : Outcome :=
  .ok {
    protocol := .http, aborted := false, invalidFormat := false, fetchDelayMs := p.ttfbMs
    messagesFetched := p.numberMatched
    invalidNumberMatched := decide ((p.messagesSeen : ℤ) ≠ p.numberMatched)
    httpStatus := p.lastStatus, numberMatched := p.numberMatched }

/-- The result of a first response that does not give a `numberMatched`. -/
def invalidFirst (ttfbMs : ℚ) (status : ℤ) : Outcome :=
  .ok {
    protocol := .http, aborted := false, invalidFormat := true, fetchDelayMs := ttfbMs
    messagesFetched := 0, invalidNumberMatched := false, httpStatus := status, numberMatched := 0 }

/-- From the first request to the page loop: it ends there or enters the loop with a page. -/
def syncFirst (c : FetchCall) (start now : ℚ) : Exchange → Outcome ⊕ PageLoop × Json
  | .fails => .inl (.ok {
      protocol := .http, aborted := true, invalidFormat := true, fetchDelayMs := c.abortedDelayMs
      messagesFetched := 0, invalidNumberMatched := false, httpStatus := 0, numberMatched := 0 })
  -- the body is read outside the `try`, so the fetch raises
  | .broken _ => .inl (.error .requestException)
  | .answer status text =>
    let ttfbMs := (now - start) * 1000
    match L.loads text with
    | .valueError => .inl (invalidFirst ttfbMs status)
    | .recursionError => .inl (.error .recursionError)
    | .ok page =>
      let numberMatched := page.get "numberMatched"
      if numberMatched.isNone then .inl (invalidFirst ttfbMs status)
      else match pyInt L numberMatched with
        | .ok n => .inr (⟨c.firstUrl, 0, 0, n, ttfbMs, status⟩, page)
        | .error .valueError => .inl (invalidFirst ttfbMs status)
        | .error .typeError => .inl (invalidFirst ttfbMs status)
        -- `int` of an infinite float: an `OverflowError`, which nothing catches
        | .error e => .inl (.error e)

/-- One turn of the page loop, from a page in hand to the request for the next one. -/
def syncTurn (c : FetchCall) (now : ℚ) (p : PageLoop) (page : Json) : Outcome ⊕ PageLoop × String :=
  -- all turns of the `for` are done
  if maxPages ≤ p.turns then .inl (finishPages p)
  else match countFeatures L page with
    -- outside every `try`
    | .error e => .inl (.error e)
    | .ok seen =>
      let p := { p with messagesSeen := p.messagesSeen + seen }
      match nextPageHref page with
      | none => .inl (finishPages p)
      | some nextHref =>
        -- the deadline is only looked at when there is a next page
        if c.deadlineAt ≤ now then .inl (finishPages p)
        else match L.urljoin p.pageUrl nextHref with
          | none => .inl (.error .valueError)
          | some nextUrl => .inr (p, nextUrl)

/-- The end of a turn: the response to the request for the next page. -/
def syncNext (p : PageLoop) (nextUrl : String) : Exchange → Outcome ⊕ PageLoop × Json
  | .fails => .inl (finishPages p)
  | .broken _ => .inl (finishPages p)
  | .answer status text =>
    -- the status counts even when the body does not decode
    let p := { p with lastStatus := status }
    match L.loads text with
    | .valueError => .inl (finishPages p)
    | .recursionError => .inl (.error .recursionError)
    | .ok page => .inr ({ p with pageUrl := nextUrl, turns := p.turns + 1 }, page)

/-- What a synchronous fetch meets outside: when it starts, when the first response
arrives, when the `n`-th turn checks the deadline, and how the `n`-th request ends. -/
structure SyncScript where
  start : ℚ
  firstAt : ℚ
  turnAt : ℕ → ℚ
  exchange : ℕ → Exchange

/-- The page loop, with at most the given number of turns left. -/
def syncPages (c : FetchCall) (σ : SyncScript) : ℕ → PageLoop → Json → Outcome
  | 0, p, _ => finishPages p
  | n + 1, p, page =>
    match syncTurn L c (σ.turnAt p.turns) p page with
    | .inl out => out
    | .inr (p, nextUrl) =>
      match syncNext L p nextUrl (σ.exchange (p.turns + 1)) with
      | .inl out => out
      | .inr (p, page) => syncPages c σ n p page

/-- `sync_fetch`, what it returns or raises. -/
def syncFetch (c : FetchCall) (σ : SyncScript) : Outcome :=
  match syncFirst L c σ.start σ.firstAt (σ.exchange 0) with
  | .inl out => out
  | .inr (p, page) => syncPages L c σ maxPages p page

/-! ## The asynchronous fetch -/

/-- The channel and the href of a subscription link, if it is valid. -/
def subscriptionHref (channelPrefix : String) (link : Json) : Option String :=
  match link.get "channel", link.get "href" with
  | .str channel, .str href => if Text.startsWith channel channelPrefix then some href else none
  | _, _ => none

/-- `_validate_subscriptions`: `none` for the `ValueError` of an href that is no URL. -/
def validateSubscriptions (metadata : Json) (channelPrefix : String)
    (brokerAuthorities : List String) : Option Bool :=
  match metadata.get "subscriptions" with
  | .arr subscriptions =>
    if subscriptions.isEmpty then some false
    else match subscriptions.mapM (subscriptionHref channelPrefix) with
      | none => some false
      -- the links may name more than the configured brokers
      | some hrefs => (hrefs.mapM (brokerAuthority L)).map fun linkAuthorities =>
        brokerAuthorities.all fun authority => linkAuthorities.contains authority
  | _ => some false

/-- What the asynchronous fetch knows after its POST. -/
structure PostState where
  start : ℚ
  invalidFormat : Bool
  httpResponseAt : ℚ
  httpStatus : ℤ

/-- The POST and the validation of its response: it raises or goes on. -/
def asyncPost (c : FetchCall) (subscriberId : String) (brokerAuthorities : List String)
    (start now : ℚ) : Exchange → Except PyErr PostState
  | .fails => .ok ⟨start, true, now, 0⟩
  | .broken _ => .ok ⟨start, true, now, 0⟩
  | .answer status text =>
    match L.loads text with
    | .valueError => .ok ⟨start, true, now, status⟩
    | .recursionError => .error .recursionError
    | .ok metadata =>
      match validateSubscriptions L metadata (c.channelPrefix subscriberId) brokerAuthorities with
      -- a `ValueError` of the validation, caught with those of the POST
      | none => .ok ⟨start, true, now, status⟩
      | some valid => .ok ⟨start, !valid, now, status⟩

/-- Whether replay messages are expected. -/
def expectMessages (numberMatched : Option ℤ) (baseline : ℕ) : Bool :=
  match numberMatched with
  | some n => decide (0 < n)
  -- the synchronous fetch has no number: the baseline decides
  | none => decide (0 < baseline)

/-- The result when no messages are expected. -/
def unexpectedResult (a : PostState) : FetchResult where
  protocol := .mqtt
  aborted := false
  invalidFormat := a.invalidFormat
  fetchDelayMs := (a.httpResponseAt - a.start) * 1000
  messagesFetched := 0
  invalidNumberMatched := false
  httpStatus := a.httpStatus
  numberMatched := 0

/-- The result at the deadline, from the counter as it then stands. -/
def asyncFinish (c : FetchCall) (a : PostState) (counter : ReplayCounter) : FetchResult :=
  match counter.firstMonotonic with
  | none => {
      protocol := .mqtt, aborted := true, invalidFormat := a.invalidFormat
      fetchDelayMs := c.abortedDelayMs, messagesFetched := 0
      invalidNumberMatched := false, httpStatus := a.httpStatus, numberMatched := 0 }
  | some firstMonotonic => {
      protocol := .mqtt, aborted := false, invalidFormat := a.invalidFormat
      fetchDelayMs := (firstMonotonic - a.start) * 1000, messagesFetched := counter.count
      invalidNumberMatched := false, httpStatus := a.httpStatus, numberMatched := 0 }

/-- `_number_matched_from`: what the provider returns once the synchronous fetch is over. -/
def numberMatchedFrom : Outcome → Option ℤ
  | .error _ => none
  | .ok result =>
    if result.protocol ≠ .http ∨ result.aborted = true ∨ result.invalidFormat = true then none
    else some result.messagesFetched

/-- What an asynchronous fetch meets outside: its clock readings, how the POST ends and
what its counter holds at the deadline. -/
structure AsyncScript where
  start : ℚ
  postedAt : ℚ
  exchange : Exchange
  counter : ReplayCounter

/-- `async_fetch`, what it returns or raises, for the value of its provider. -/
def asyncFetch (c : FetchCall) (subscriberId : String) (brokerAuthorities : List String)
    (baseline : ℕ) (numberMatched : Option ℤ) (σ : AsyncScript) : Outcome :=
  match asyncPost L c subscriberId brokerAuthorities σ.start σ.postedAt σ.exchange with
  | .error e => .error e
  | .ok a =>
    if expectMessages numberMatched baseline then .ok (asyncFinish c a σ.counter)
    else .ok (unexpectedResult a)

end Scgrep
