import TickScheduler.Engine.Run
import TickScheduler.Entry.Draft
import TickScheduler.Registry
import TickScheduler.Store.Raw
/-!
A world to run the scheduler in: a store, a clock that moves only when it is told to, actions that
follow a script, and a notifier that writes down what it is asked to deliver. Everything that the
scheduler asks is answered here, so a whole run is a function of the world that it starts in.
-/
namespace TickScheduler.Simulation

/-- A direct write into the store. -/
inductive Poke where
  | entry (name column : String) (cell : Cell)
  | result (name : String) (taskId : TaskId) (column : String) (cell : Cell)

inductive TableName where
  | entries
  | results
deriving DecidableEq, Repr

/-- What a scripted action does when it is called. -/
inductive Effect where
  | succeed (detail : Option String)
  /-- Returns the names of entry and task. -/
  | echo
  | fail (chain : List String)
  | panic (message : Option String)
  | advance (ticks : Tick)
  | delete (name : String)
  | cancel (name : String)
  | stop
  | add (draft : Draft)
  | poke (write : Poke)
  | drop (table : TableName)

structure Behaviour where
  effect : Effect
  /-- Whether the action runs on a thread of its own, where the loop waits for it. -/
  blocking : Bool

/-- An action that behaves differently from call to call; the last behaviour repeats. -/
structure ScriptedAction where
  name : String
  script : List Behaviour
  calls : Nat := 0

/-- What happened, as far as it can be told from outside. -/
inductive Event where
  | called (action entryName : String) (taskId : TaskId) (now : Tick) (status : LoopStatus)
  | notified (url : String) (payload : Payload)

/-- The health-check file: a directory in its place can neither be removed nor written. -/
inductive HealthFile where
  | absent
  | present
  | directory
deriving DecidableEq, Repr

structure World where
  store : Store := .empty
  clock : Tick := 0
  /-- The second at which the world's time of day begins. -/
  present : Int
  /-- How many timestamps were taken so far; each is a nanosecond later than the one before. -/
  stamps : Nat := 0
  setup : LoopSetup := {}
  actions : List ScriptedAction := []
  /-- Whether a payload can be delivered to an address. -/
  delivers : String → Payload → Bool := fun _ _ => true
  monitor : Monitor := {}
  /-- Finalisations in the background, in the order in which they were started. -/
  jobs : List Finalisation := []
  /-- The latest event first. -/
  log : List Event := []
  healthFile : HealthFile := .absent
  /-- How often the loop may still sleep before it is asked to stop, if ever. -/
  sleepsLeft : Option Nat := none
  /-- How far the clock moves while the loop sleeps. -/
  sleepStep : Tick := 0

namespace World

/-- The actions that can be called: the scripted ones and the one that is always provided. -/
def registry (w : World) : Registry :=
  w.actions.foldl (fun registry a => registry.register a.name) .builtin

/-- Takes the time of day. -/
def takeTimestamp (w : World) : Timestamp × World :=
  (⟨w.present + w.stamps / 1000000000, w.stamps % 1000000000,
    .inl (Nat.mod_lt _ (by decide))⟩, { w with stamps := w.stamps + 1 })

/-- Moves the clock. The clock itself wraps around, but there is no result then. -/
def advance (w : World) (ticks : Tick) : Except Failure Tick × World :=
  let moved := { w with clock := w.clock + ticks }
  match w.clock.add? ticks with
  | some tick => (.ok tick, moved)
  | none => (.error .overflow, moved)

/-- Carries out a change of the store, or reports why it cannot be. -/
def change {α : Type} (w : World) (attempt : Except Error (α × Store)) : Except Error α × World :=
  match attempt with
  | .ok (result, store) => (.ok result, { w with store })
  | .error e => (.error e, w)

def changeStore (w : World) (attempt : Except Error Store) : Except Error Unit × World :=
  w.change (attempt.map fun store => ((), store))

def poke (w : World) : Poke → Except Error Nat × World
  | .entry name column cell => w.change (w.store.pokeEntry name column cell)
  | .result name taskId column cell => w.change (w.store.pokeResult name taskId column cell)

def drop (w : World) : TableName → Except Error Unit × World
  | .entries => w.changeStore w.store.dropEntries
  | .results => w.changeStore w.store.dropResults

/-- Makes an entry of a draft and stores it. -/
def add (w : World) (draft : Draft) : Except Failure Entry × World :=
  let (stamp, w) := w.takeTimestamp
  match draft.toEntry w.clock w.registry.contains stamp.storedText with
  | .error failure => (.error failure, w)
  | .ok entry =>
    match w.store.insertEntry entry with
    | .ok store => (.ok entry, { w with store })
    | .error e => (.error (.error e), w)

/-- Takes an entry out of the schedule. -/
def deactivate (w : World) (name : String) : Except Error Unit × World :=
  let (stamp, w) := w.takeTimestamp
  w.changeStore (w.store.deactivate name stamp.storedText)

/-- Changes the configuration of a stored entry. -/
def update (w : World) (updated : Entry) : Except Failure Entry × World :=
  let (stamp, w) := w.takeTimestamp
  match w.store.updateEntry updated w.clock stamp.storedText with
  | .ok (entry, store) => (.ok entry, { w with store })
  | .error failure => (.error failure, w)

/-- Answers a finalisation. -/
def answerFinal : (r : FinalRequest) → World → r.Answer × World
  | .record result keep, w => w.changeStore (w.store.recordResult result keep)
  | .notify url payload, w =>
    let w := { w with log := .notified url payload :: w.log }
    if w.delivers url payload then (.ok (), w) else (.error (.callback url), w)

/-- Runs one finalisation to its end; nobody is told how it went. -/
def runJob (w : World) (job : Finalisation) : World :=
  (job.program.run answerFinal w).2

/-- Lets everything in the background run to its end. -/
def runJobs (w : World) : World :=
  { w.jobs.foldl runJob w with jobs := [] }

/-- What an operation that may fail means for the action that asked for it. -/
def outcomeOf {α : Type} (detail : α → String) : Except Failure α → Outcome
  | .ok result => .returned (some (detail result))
  | .error (.error e) => .failed [e.message]
  | .error .overflow => .panicked (some Failure.overflowMessage)

/-- The outcome of an operation that cannot overflow. -/
def outcomeOfError {α : Type} (detail : α → Option String) : Except Error α → Outcome
  | .ok result => .returned (detail result)
  | .error e => .failed [e.message]

/-- Plays a behaviour for a task. -/
def perform (w : World) (entryName : String) (taskId : TaskId) : Effect → Outcome × World
  | .succeed detail => (.returned detail, w)
  | .echo => (.returned (some (entryName ++ "/" ++ toString taskId)), w)
  | .fail chain => (.failed chain, w)
  | .panic message => (.panicked message, w)
  | .advance ticks =>
    let (moved, w) := w.advance ticks
    (outcomeOf toString moved, w)
  | .delete name =>
    let (done, w) := w.changeStore (w.store.deleteEntry name)
    (outcomeOfError (fun _ => none) done, w)
  | .cancel name =>
    let (done, w) := w.deactivate name
    (outcomeOfError (fun _ => none) done, w)
  | .stop => (.returned none, { w with monitor := w.monitor.stop })
  | .add draft =>
    let (entry, w) := w.add draft
    (outcomeOf (fun _ => "added") entry, w)
  | .poke write =>
    let (changed, w) := w.poke write
    (outcomeOfError (fun n => some (toString n)) changed, w)
  | .drop table =>
    let (done, w) := w.drop table
    (outcomeOfError (fun _ => some "dropped") done, w)

/-- How an outcome looks to a loop that waited for another thread: what broke off there is an error
here. -/
def fromThread : Outcome → Outcome
  | .panicked message => .failed [Outcome.panicText message]
  | outcome => outcome

/-- Notes the call of a scripted action, and counts it. -/
def noteCall (w : World) (a : ScriptedAction) (entryName : String) (taskId : TaskId) : World :=
  { w with
    log := .called a.name entryName taskId w.clock w.monitor.status :: w.log
    actions := w.actions.map fun other =>
      if other.name == a.name then { other with calls := other.calls + 1 } else other }

/-- Calls an action. While one runs on a thread of its own, the background goes on. -/
def call (w : World) (action entryName : String) (taskId : TaskId) : Outcome × World :=
  match w.actions.find? (·.name == action) with
  | none => (if Registry.builtin.contains action then .returned none else .unknown, w)
  | some scripted =>
    let w := w.noteCall scripted entryName taskId
    match scripted.script[min scripted.calls (scripted.script.length - 1)]? with
    | none => (.returned none, w)
    | some behaviour =>
      if behaviour.blocking then
        let (outcome, w) := w.runJobs.perform entryName taskId behaviour.effect
        (fromThread outcome, w)
      else w.perform entryName taskId behaviour.effect

/-- Counts a sleep down; the last one asks the loop to stop. -/
def countSleep (w : World) : World :=
  match w.sleepsLeft with
  | none => w
  | some left =>
    if left ≤ 1 then { w with sleepsLeft := none, monitor := w.monitor.stop }
    else { w with sleepsLeft := some (left - 1) }

/-- Sleeps: the clock moves, the sleep is counted, and the background goes on. -/
def sleep (w : World) : Except Failure Unit × World :=
  match w.advance w.sleepStep with
  | (.ok _, w) => (.ok (), w.countSleep.runJobs)
  | (.error failure, w) => (.error failure, w)

/-- Changes the monitor. -/
def watch (w : World) (change : Monitor → Monitor) : World :=
  { w with monitor := change w.monitor }

/-- The health-check file after an attempt to remove it. -/
def removeHealthFile (w : World) : World :=
  if w.healthFile = .present then { w with healthFile := .absent } else w

/-- The health-check file after an attempt to create it. -/
def touchHealthFile (w : World) : World :=
  if w.healthFile = .absent then { w with healthFile := .present } else w

/-- Answers the scheduling loop. -/
def answer : (r : Request) → World → r.Answer × World
  | .now, w => (w.clock, w)
  | .timestamp, w => w.takeTimestamp
  | .activeEntries, w => (w.store.activeEntries, w)
  | .entry name, w => (w.store.getEntry name, w)
  | .saveCursor e, w => w.changeStore (w.store.saveCursor e)
  | .lastTaskId name, w => (w.store.lastTaskId name, w)
  | .final r, w => answerFinal r w
  | .call task taskId, w => w.call task.action task.entryName taskId
  | .pause, w => ((), w.runJobs)
  | .sleep, w => w.sleep
  | .spawn job, w => ((), { w with jobs := w.jobs ++ [job] })
  | .drain, w => ((), w.runJobs)
  | .beginPass, w => ((), w.watch Monitor.beginPass)
  | .setIdle, w => ((), w.watch Monitor.setIdle)
  | .publish upcoming, w => ((), w.watch (·.publish upcoming))
  | .stop, w => ((), w.watch Monitor.stop)
  | .stopRequested, w => (w.monitor.stopRequested, w)
  | .countOutcome failed, w =>
    let w := w.watch (·.countOutcome failed)
    (w.monitor.failures, w)
  | .removeHealthFile, w => ((), w.removeHealthFile)
  | .touchHealthFile, w => ((), w.touchHealthFile)

/-- Runs a part of the loop in this world. -/
def run {Result : Type} (w : World) (part : Engine Result) : Except Failure Result × World :=
  ExceptT.run part |>.run answer w

/-- One pass on its own, after which the background is waited for. -/
def pass (w : World) : Except Failure Unit × World :=
  let (done, w) := w.run (Pass.runOnce w.setup)
  (done, w.runJobs)

/-- How many phases a run may go through before it is broken off. -/
def phaseLimit : Nat := UInt32.size

/-- A run of the loop, which is asked to stop at the end of its `sleeps`-th sleep, or beforehand if
that is none. The clock moves by `step` in every sleep. -/
def runLoop (w : World) (sleeps : Nat) (step : Tick) : Except Failure Unit × World :=
  let w := { w with sleepStep := step, sleepsLeft := some sleeps }
  let w := if sleeps = 0 then { w.watch Monitor.stop with sleepsLeft := none } else w
  let (ended, w) := w.run (Run.run w.setup phaseLimit)
  let w := { w with sleepsLeft := none }
  match ended with
  | .ok true => (.ok (), w)
  | .ok false => (.error (.error (.internal "the loop did not stop")), w)
  | .error failure => (.error failure, w)

/-- A new scheduler takes over the world. -/
def renew (w : World) : World :=
  { w with monitor := {}, jobs := [] }

/-- The events since the last look, in order, and the world without them. -/
def takeLog (w : World) : List Event × World :=
  (w.log.reverse, { w with log := [] })

end World

end TickScheduler.Simulation
