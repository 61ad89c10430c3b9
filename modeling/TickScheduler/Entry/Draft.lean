import TickScheduler.Entry
/-!
Drafts: requests for an entry, in which most fields may be left open. A draft becomes an entry only
if all of it makes sense; otherwise the first fault is reported, in a fixed order.
-/
namespace TickScheduler

structure Draft where
  name : String
  action : String
  /-- 10 if left open. -/
  priority : Option Int32
  /-- The next tick if left open. -/
  start : Option Tick
  stop : Option Tick
  /-- Whether `stop` counts from the start. -/
  stopIsRelative : Bool
  interval : Option Tick
  callbackUrl : Option String
  owner : Option String
deriving DecidableEq, Repr

namespace Draft

def defaultPriority : Int32 := 10

/-- A name without any of the characters that would need care in an address. -/
def isSlug (name : String) : Bool :=
  !name.isEmpty && name.toList.all fun c => c.isAlphanum || c == '-' || c == '_'

/-- The first tick of the entry, given the current one. -/
def startTick (d : Draft) (now : Tick) : Except Failure Tick :=
  match d.start with
  | some start => .ok start
  | none => Entry.earliestTick now

/-- The tick at which the series ends, given where it starts. -/
def stopTick (d : Draft) (start : Tick) : Except Failure (Option Tick) :=
  match d.stop with
  | none => .ok none
  | some stop =>
    if d.stopIsRelative then
      match start.add? stop with
      | some stop => .ok (some stop)
      | none => .error (.refused (.stopOverflow stop start))
    else .ok (some stop)

/-- The entry with a given span: active, its cursor at its start, its ids from 1. An empty callback
address is none. -/
def entryFrom (d : Draft) (start : Tick) (stop : Option Tick) (createdAt : String) : Entry where
  name := d.name
  action := d.action
  priority := d.priority.getD defaultPriority
  start := start
  stop := stop
  interval := d.interval
  isActive := true
  callbackUrl := d.callbackUrl.filter fun url => !url.isEmpty
  nextTaskTime := start
  nextTaskId := 1
  owner := d.owner
  createdAt := createdAt
  modifiedAt := createdAt

/-- The entry that a draft asks for at `now`. The draft is refused for its name, for an action that
is not `known`, for a stop that leaves the clock, or for its timing, whichever comes first. -/
def toEntry (d : Draft) (now : Tick) (known : String → Bool) (createdAt : String) :
    Except Failure Entry :=
  if !isSlug d.name then .error (.refused (.badName d.name))
  else if !known d.action then .error (.error (.unknownAction d.action))
  else do
    let start ← d.startTick now
    let stop ← d.stopTick start
    Entry.checkTiming start stop d.interval
    return d.entryFrom start stop createdAt

end Draft

end TickScheduler
