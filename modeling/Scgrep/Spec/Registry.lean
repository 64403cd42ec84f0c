import Scgrep.Lib.Dict
import Scgrep.Spec.Util

/-!
# `replay_registry.py`

The counters are objects shared by the registry and the fetch that registered
them: `Registry.counters` is their heap, and a counter is named by its number.
-/

namespace Scgrep

/-- `ReplayCounter`. -/
structure ReplayCounter where
  count : ℕ
  firstMonotonic : Option ℚ

/-- A new `ReplayCounter`. -/
def ReplayCounter.new : ReplayCounter := ⟨0, none⟩

/-- `record`. -/
def ReplayCounter.record (now : ℚ) (c : ReplayCounter) : ReplayCounter :=
  ⟨c.count + 1, some (c.firstMonotonic.getD now)⟩

/-- `ReplayRegistry`: `_active`, the counters made so far and how many they are. -/
structure ReplayRegistry where
  active : Dict String ℕ
  counters : ℕ → ReplayCounter
  made : ℕ

namespace ReplayRegistry

/-- A new `ReplayRegistry`. -/
def new : ReplayRegistry := ⟨Dict.empty, fun _ => ReplayCounter.new, 0⟩

/-- `register`: the new counter is number `made`. -/
def register (channel : String) (reg : ReplayRegistry) : ReplayRegistry where
  active := reg.active.set channel reg.made
  counters := Function.update reg.counters reg.made ReplayCounter.new
  made := reg.made + 1

/-- `unregister`. -/
def unregister (channel : String) (reg : ReplayRegistry) : ReplayRegistry :=
  { reg with active := reg.active.erase channel }

end ReplayRegistry

/-- `_channel_matches`. -/
def channelMatches (L : Lib) (channel topic : String) : Bool :=
  if topic = channel then true
  -- below the channel, without its trailing `#` and `/`
  else if Text.startsWith topic (Text.rstrip '/' (Text.rstrip '#' channel) ++ "/") then true
  else topicMatches L channel topic

namespace ReplayRegistry

/-- The counter that an incoming replay topic goes to: that of the first matching
channel in the order of `_active`. -/
def route (L : Lib) (reg : ReplayRegistry) (topic : String) : Option ℕ :=
  (reg.active.items.find? fun item => channelMatches L item.1 topic).map Prod.snd

/-- `handle_replay`. -/
def handleReplay (L : Lib) (now : ℚ) (topic : String) (reg : ReplayRegistry) : ReplayRegistry :=
  match reg.route L topic with
  | none => reg
  | some k => { reg with counters := Function.update reg.counters k ((reg.counters k).record now) }

end ReplayRegistry

end Scgrep
