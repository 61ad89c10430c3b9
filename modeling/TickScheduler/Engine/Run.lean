import TickScheduler.Engine.Pass
/-!
The loop itself: pass after pass until someone asks it to stop, at most one pass at a tick. It goes
through phases, of which each is a program of its own; how many phases there will be is not known
beforehand, so a run is given a number of phases after which it is broken off.
-/
namespace TickScheduler.Run

inductive Phase where
  | pass
  /-- Waiting for the clock to leave the tick at which the last pass began. -/
  | wait (since : Tick)
deriving DecidableEq, Repr

/-- Goes through one phase, and returns the next one unless the loop is to stop. -/
def step (setup : LoopSetup) : Phase → Engine (Option Phase)
  | .pass => do
    let since ← Engine.ask .now
    Pass.pass setup
    if ← Engine.ask .stopRequested then return none
    else return some (.wait since)
  | .wait since => do
    let now ← Engine.ask .now
    if ← Engine.ask .stopRequested then return none
    else if now = since then do
      Engine.ask .sleep >>= Engine.ofExcept
      return some (.wait since)
    else return some .pass

/-- Goes through phases until the loop is to stop. Returns whether it came to that. -/
def phases (setup : LoopSetup) : Nat → Phase → Engine Bool
  | 0, _ => return false
  | fuel + 1, phase => do
    match ← step setup phase with
    | none => return true
    | some phase => phases setup fuel phase

/-- Sets the next task id of each entry that has results to the one after their highest. -/
def restoreTaskIds : List Entry → Engine Unit
  | [] => pure ()
  | e :: rest => do
    match ← Engine.lastTaskId e.name with
    | none => pure ()
    | some last =>
      match Tick.succ? last with
      | none => Engine.ofExcept (.error .overflow)
      | some next =>
        if e.nextTaskId ≠ next then Engine.saveCursor { e with nextTaskId := next }
    restoreTaskIds rest

/-- Restores the task ids, then goes through phases. -/
def untilStopped (setup : LoopSetup) (fuel : Nat) : Engine Bool := do
  restoreTaskIds (← Engine.activeEntries)
  phases setup fuel .pass

/-- What follows a run that ended with or without an error: work in the background is waited for, the
loop is idle, and after an error the health-check file says that it is dead. An overflow ends
everything at once. -/
def wrapUp (setup : LoopSetup) : Except Failure Bool → Engine Bool
  | .ok finished => do
    Engine.ask .drain
    Engine.ask .setIdle
    return finished
  | .error .overflow => Engine.ofExcept (.error .overflow)
  | .error (.error e) => do
    Engine.ask .drain
    Engine.ask .setIdle
    if setup.settings.healthcheckFile.isSome then Engine.ask .touchHealthFile
    Engine.check (.error e)

/-- A whole run of the loop. -/
def run (setup : LoopSetup) (fuel : Nat) : Engine Bool := do
  if setup.settings.healthcheckFile.isSome then Engine.ask .removeHealthFile
  let ended ← ExceptT.lift (untilStopped setup fuel).run
  wrapUp setup ended

end TickScheduler.Run
