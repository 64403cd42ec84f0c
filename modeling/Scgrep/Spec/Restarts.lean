import Mathlib.Data.String.Basic
import Scgrep.Spec.LossReport
import Scgrep.Spec.Profile

/-!
# `restart_history.py`

`restartHistory` is `main`: the events of the log lines of two sources, in their order,
and what the loop prints of them. An instant is in seconds from 1970, in UTC; the zone of
the system gives its offset there.
-/

namespace Scgrep

open Calendar Pattern

inductive HistoryKind where
  | start
  | connect
  | disconnect
deriving DecidableEq

structure HistoryEvent where
  kind : HistoryKind
  time : ℤ
  detail : String
deriving DecidableEq

/-! ## The expressions -/

/-- `\S+?` and the letter behind it. -/
def lazyRun (stop : Char) : List Char → Option (List Char)
  | [] => none
  | c :: cs =>
    if notSpace c then
      if cs.head? = some stop then some [c] else (lazyRun stop cs).map (c :: ·)
    else none

/-- `START_RE` behind its `.*`: the centre and the subscriber. -/
def matchStarting (l : List Char) : Option (List Char × List Char) :=
  ("Starting SCGRep sensor centre ".toList.isPrefixOf? l).bind
    (matchRun notSpace fun l => (" (subscriber-id=".toList.isPrefixOf? l).bind (lazyRun ')'))

/-- `CONNECT_RE` behind its `.*`: what is connected to, and the rest of the line. -/
def matchConnected (l : List Char) : Option (String × List Char) :=
  ("Connected to ".toList.isPrefixOf? l).bind fun l =>
    ["Global Broker", "Replay broker", "Redis"].findSome? fun role =>
      (role.toList.isPrefixOf? l).map fun l => (role, l.dropWhile Text.isSpace)

/-- `DISCONNECT_RE` behind its `.*`: the host. -/
def matchDisconnected (l : List Char) : Option (List Char) :=
  ("Disconnected from ".toList.isPrefixOf? l).bind (lazyRun ';')

/-- `rx.match(line)` of the first of the three that matches: its kind, its stamp and the detail. -/
def matchHistory (line : String) : Option (HistoryKind × StampMatch × String) :=
  (matchStamp line.toList).bind fun (stamp, rest) =>
    ((searchLastBy notNewline matchStarting rest).map fun (centre, subscriber) =>
      (.start, stamp, String.ofList centre ++ "  subscriber-id=" ++ String.ofList subscriber)).or
    (((searchLastBy notNewline matchConnected rest).map fun (role, detail) =>
      (.connect, stamp, Text.strip (role ++ " " ++ String.ofList detail))).or
    ((searchLastBy notNewline matchDisconnected rest).map fun host =>
      (.disconnect, stamp, String.ofList host)))

/-! ## `collect` -/

/-- A digit as one of ASCII. -/
def asciiDigit (c : Char) : Char := if Text.isDecimal c then Nat.digitChar (Text.decimalValue c) else c

/-- `[a-b]`. -/
def between (a b c : Char) : Bool := decide (a ≤ c ∧ c ≤ b)

/-- What an expression for two digits matches, by its alternatives. -/
def twoDigits (alternatives : List ((Char → Bool) × (Char → Bool))) (a b : Char) : Bool :=
  alternatives.any fun p => p.1 a && p.2 b

/-- `%m`: `1[0-2]|0[1-9]`. -/
def monthField : List ((Char → Bool) × (Char → Bool)) :=
  [(between '1' '1', between '0' '2'), (between '0' '0', between '1' '9')]

/-- `%d`: `3[0-1]|[1-2]\d|0[1-9]`. -/
def dayField : List ((Char → Bool) × (Char → Bool)) :=
  [(between '3' '3', between '0' '1'), (between '1' '2', Text.isDecimal), (between '0' '0', between '1' '9')]

/-- `%H`: `2[0-3]|[0-1]\d`. -/
def hourField : List ((Char → Bool) × (Char → Bool)) :=
  [(between '2' '2', between '0' '3'), (between '0' '1', Text.isDecimal)]

/-- `%M`: `[0-5]\d`. -/
def minuteField : List ((Char → Bool) × (Char → Bool)) := [(between '0' '5', Text.isDecimal)]

/-- `%S`: `6[0-1]|[0-5]\d`. -/
def secondField : List ((Char → Bool) × (Char → Bool)) :=
  [(between '6' '6', between '0' '1'), (between '0' '5', Text.isDecimal)]

/-- The expression of `strptime` for `%Y-%m-%d %H:%M:%S`, on a stamp. Its alternatives of one digit leave
the other one over. -/
def matchFormat (date hms : List Char) : Bool :=
  match date, hms with
  | [_, _, _, _, _, m, m', _, d, d'], [h, h', _, i, i', _, s, s'] =>
    twoDigits monthField m m' && twoDigits dayField d d' && twoDigits hourField h h' &&
      twoDigits minuteField i i' && twoDigits secondField s s'
  | _, _ => false

/-- `strptime(.., "%Y-%m-%d %H:%M:%S")`, in UTC; `none` for its `ValueError`. There is no such day, and
no second 60, for `datetime`. -/
def strptime (s : StampMatch) : Option ℤ :=
  if matchFormat s.date.toList s.hms then
    match readStamp ' ' ((s.date.toList ++ ' ' :: s.hms).map asciiDigit) with
    | some (t, []) => some (timestampOf t)
    | _ => none
  else none

/-- `strftime("%Y-%m-%d")` of an instant in local time, for a year of four digits. -/
def localDate (zone : ℤ → ℤ) (t : ℤ) : String := String.ofList (utcStamp (t + zone t)).date.text

/-- What `collect` makes of a line; an empty set of dates is as good as none. -/
def historyEvent (zone : ℤ → ℤ) (wanted : List String) (line : String) : Except PyErr (Option HistoryEvent) :=
  match matchHistory line with
  | none => .ok none
  | some (kind, stamp, detail) =>
    match strptime stamp with
    | none => .error .valueError
    | some t =>
      -- `astimezone()`
      match inYears (t + zone t) with
      | .error e => .error e
      | .ok _ =>
        if wanted ≠ [] ∧ localDate zone t ∉ wanted then .ok none
        else .ok (some ⟨kind, t, detail⟩)

/-- `collect`. -/
def collectHistory (zone : ℤ → ℤ) (wanted : List String) (lines : List String) :
    Except PyErr (List HistoryEvent) :=
  (lines.mapM (historyEvent zone wanted)).map fun events =>
    events.reduceOption.insertionSort fun e e' => e.time ≤ e'.time

/-- `read_sources`: what there is of `docker logs` and of the log file. -/
def readSources (docker file : Option (List String)) : List String :=
  sortedSet (docker.getD [] ++ file.getD [])

/-! ## `main` -/

structure HistoryArgs where
  all : Bool
  date : Option String
  days : Option ℤ
  disconnects : Bool
  connections : Bool
  settle : ℤ

/-- `str(today - timedelta(days=i))`, for a year of four digits. -/
def dateText (day : ℕ) : String := String.ofList (Date.ofDays day).text

/-- `wanted`, with `[]` for `None`; `today` is a day since the first one of the year 1, before which
there is none. -/
def wantedDates (args : HistoryArgs) (today : ℕ) : Except PyErr (List String) :=
  if args.all then .ok []
  else
    match given args.date with
    | some date => .ok [date]
    | none =>
      match args.days.filter (· ≠ 0) with
      | some days =>
        if days.toNat ≤ today + 1 then .ok ((List.range days.toNat).map fun i => dateText (today - i))
        else .error .overflowError
      | none => .ok [dateText today]

/-- What is printed. -/
inductive HistoryItem where
  /-- a restart, and how long after the one before -/
  | restart (time : ℤ) (detail : String) (gap : Option ℤ)
  /-- a connection below its restart -/
  | below (e : HistoryEvent)
  /-- a connection before the first restart -/
  | orphan (e : HistoryEvent)
  /-- "…plus n later reconnection(s)" -/
  | later (n : ℕ)
deriving DecidableEq

/-- The variables of the loop. -/
structure HistoryLoop where
  printed : List HistoryItem
  prev : Option ℤ
  later : ℕ
  orphans : ℕ

/-- `flush_later`. -/
def HistoryLoop.flushLater (args : HistoryArgs) (s : HistoryLoop) : HistoryLoop :=
  { s with
    printed := if s.later ≠ 0 ∧ args.connections = false then s.printed ++ [.later s.later] else s.printed
    later := 0 }

/-- One turn of the loop. -/
def HistoryLoop.turn (args : HistoryArgs) (s : HistoryLoop) (e : HistoryEvent) : HistoryLoop :=
  if e.kind = .start then
    let s := s.flushLater args
    { s with
      printed := s.printed ++ [.restart e.time e.detail (s.prev.map fun prev => e.time - prev)]
      prev := some e.time }
  else
    match s.prev with
    | none =>
      { s with
        orphans := s.orphans + 1
        printed := if args.connections then s.printed ++ [.orphan e] else s.printed }
    | some prev =>
      if e.time - prev ≤ args.settle ∨ args.connections = true then
        { s with printed := s.printed ++ [.below e] }
      else { s with later := s.later + 1 }

/-- What `main` shows of the events. -/
inductive History where
  /-- "No restart or connection events found.", and the exit code is 1 -/
  | nothing
  /-- the lines, the connections before the first restart, the number of restarts and the last one -/
  | shown (printed : List HistoryItem) (orphans restarts : ℕ) (last : Option ℤ)
deriving DecidableEq

/-- `main`, after `collect`. -/
def historyOf (args : HistoryArgs) (events : List HistoryEvent) : History :=
  let events := if args.disconnects then events else events.filter fun e => e.kind ≠ .disconnect
  if events = [] then .nothing
  else
    let s := (events.foldl (HistoryLoop.turn args) ⟨[], none, 0, 0⟩).flushLater args
    let starts := events.filter fun e => e.kind = .start
    .shown s.printed s.orphans starts.length (starts.getLast?.map HistoryEvent.time)

/-- `main`. -/
def restartHistory (zone : ℤ → ℤ) (today : ℕ) (args : HistoryArgs) (docker file : Option (List String)) :
    Except PyErr History := do
  let wanted ← wantedDates args today
  (collectHistory zone wanted (readSources docker file)).map (historyOf args)

end Scgrep
