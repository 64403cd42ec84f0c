import Scgrep.Lib.Calendar
import Scgrep.Spec.Python

/-!
# `datetime`, in UTC

What `datetime` documents of the calls that the program makes: the proleptic
Gregorian calendar of the years 1 to 9999, without leap seconds. `Lib.Gregorian`
says that a library keeps to it; `Lib.withCalendar` is one that does.
-/

namespace Scgrep

open Calendar

/-- The seconds from the beginning of the year 1 to 1970. -/
def unixEpoch : ℤ := 62135596800

/-- The seconds from 1970 to the year 10000, which `datetime` does not have any more. -/
def endOfTime : ℤ := 253402300800

/-- `t.timestamp()`. -/
def timestampOf (t : Stamp) : ℤ := t.seconds - unixEpoch

/-- `datetime.fromtimestamp(epoch, tz=timezone.utc)`. -/
def utcStamp (epoch : ℤ) : Stamp := .ofSeconds (epoch + unixEpoch).toNat

/-- `t.strftime("%Y-%m-%dT%H:%M:%S")`, for a year of four digits. -/
def isoText (t : Stamp) : String := String.ofList (t.text 'T')

/-- The library writes and reads instants in UTC by the calendar. -/
structure Lib.Gregorian (L : Lib) : Prop where
  utcIso : ∀ epoch, 0 ≤ epoch → epoch < endOfTime → L.utcIso epoch = isoText (utcStamp epoch) ++ "Z"
  fromisoformat : ∀ t : Stamp, t.date.year < 10000 →
    L.fromisoformat (isoText t ++ "+00:00") = some ⟨timestampOf t, some 0⟩

/-- The library with the calendar for its two functions. -/
def Lib.withCalendar (L : Lib) : Lib :=
  { L with
    utcIso := fun epoch => isoText (utcStamp epoch) ++ "Z"
    fromisoformat := fun s =>
      match readStamp 'T' s.toList with
      | some (t, offset) => if String.ofList offset = "+00:00" then some ⟨timestampOf t, some 0⟩ else none
      | none => none }

end Scgrep
