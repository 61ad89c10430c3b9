import TickScheduler.CommandLine.Help
import TickScheduler.CommandLine.Host
import TickScheduler.Json.Encode
import TickScheduler.Json.Real
import TickScheduler.Settings.Load
import TickScheduler.Simulation.World
import TickScheduler.Store.File
import TickScheduler.Store.Storage
/-!
One run of the program from the command line. The settings are loaded and the database is opened before
any command is carried out. What a command does not find out from the operating system is kept in a
world, whose clock is set before each step.
-/
namespace TickScheduler.CommandLine

open Simulation

/-- Why a command was not carried out. -/
inductive Fault where
  /-- The directory of the database cannot be made. -/
  | directory (cause : FileFault)
  | address (cause : AddressFault)
  | cannotOpen (path : String)
  | notDatabase
  /-- The database may be read but not written. -/
  | readOnly
  | refused (cause : Error)
  | overflow
  /-- The scheduling loop came to its end although nobody asked for that. -/
  | stoppedItself
deriving DecidableEq, Repr

namespace Fault

def message : Fault → String
  | .directory cause => (Error.io cause.message).message
  | .address cause => cause.message
  | .cannotOpen path => "unable to open database file: " ++ path
  | .notDatabase => "file is not a database"
  | .readOnly => "Database error: attempt to write a readonly database"
  | .refused cause => cause.message
  | .overflow => Failure.overflowMessage
  | .stoppedItself => "scheduler stopped itself after repeated task failures"

def ofFailure : Failure → Fault
  | .error cause => .refused cause
  | .overflow => .overflow

end Fault

/-! ### Settings -/

/-- The name of the variable that names a configuration file. -/
def configVariable : String := "SENSORD_CONFIG"

/-- The places where a file is looked for: where its path says, and below the directories above the
current one. -/
def candidates (current p : Path) : List Path :=
  if p.isAbsolute then [p]
  else (List.range (current.parts.length + 1)).map fun up =>
    Path.below { current with parts := current.parts.take (current.parts.length - up) } p

/-- Reads the first of these files that is there. -/
def readFirst : List Path → Host (Except FileFault (Option String))
  | [] => pure (.ok none)
  | path :: rest => do
    match ← Host.ask (.readFile path) with
    | .ok text => return .ok (some text)
    | .error .notText => return .error .notText
    | .error .denied => return .error .denied
    | .error _ => readFirst rest

/-- The settings of the program. If they cannot be read, the defaults stand in. -/
def loadSettings (config : Option String) : Host Settings := do
  let environment ← Host.ask .environment
  let current ← Host.ask .currentDirectory
  let file := (config.or (environment.lookup configVariable)).getD (Settings.defaultFile environment)
  let loaded :=
    match ← readFirst (candidates current (.ofText file)) with
    | .ok text => Settings.load? environment text
    | .error _ => none
  return loaded.getD (.default (Settings.home environment))

/-! ### The database -/

/-- A step that may fail and that changes the world. -/
abbrev Step (Result : Type) : Type := ExceptT Fault (StateT World (Program HostRequest
  HostRequest.Answer)) Result

namespace Step

def ask (r : HostRequest) : Step r.Answer :=
  ExceptT.lift (StateT.lift (Host.ask r))

/-- Sets the clock of the world. -/
def setClock : Step Unit := do
  let now ← ask .now
  modify fun w =>
    { w with clock := Int64.ofInt now.seconds, present := now.seconds, stamps := now.nanos }

/-- Carries out a change of the world that may fail. -/
def change {Cause Result : Type} (faultOf : Cause → Fault)
    (act : World → Except Cause Result × World) : Step Result := do
  let (result, w) := act (← get)
  set w
  match result with
  | .ok result => return result
  | .error cause => throw (faultOf cause)

/-- Carries out a change of the store, unless that may only be read. -/
def update {Cause Result : Type} (storage : Storage) (faultOf : Cause → Fault)
    (act : World → Except Cause Result × World) : Step Result := do
  let before ← get
  let result ← change faultOf act
  if storage.isReadOnly then
    set before
    throw .readOnly
  return result

end Step

/-- Opens a database. A new one is made if there is none and the address allows it. -/
def openDatabase (address : String) : Step Storage := do
  let storage ←
    match Storage.ofAddress address with
    | .ok storage => pure storage
    | .error cause => throw (.address cause)
  match storage with
  | .memory => return storage
  | .file file access =>
    match ← Step.ask (.readFile file) with
    | .ok text =>
      match Store.ofText? text with
      | some store =>
        modify ({ · with store })
        return storage
      | none => throw .notDatabase
    | .error .notText => throw .notDatabase
    | .error _ =>
      if access ≠ .create then throw (.cannotOpen address)
      match ← Step.ask (.writeFile file Store.empty.text) with
      | .ok () => return storage
      | .error _ => throw (.cannotOpen address)

/-- Takes over what others have written into the database. -/
def refresh (storage : Storage) : StateT World (Program HostRequest HostRequest.Answer) Unit := do
  match storage with
  | .memory => pure ()
  | .file path _ =>
    match ← StateT.lift (Host.ask (.readFile path)) with
    | .ok text =>
      match Store.ofText? text with
      | some store => modify ({ · with store })
      | none => pure ()
    | .error _ => pure ()

/-- Writes the store of the world if it is not the one that was there before. -/
def keep (storage : Storage) (before : Store) :
    StateT World (Program HostRequest HostRequest.Answer) (Except FileFault Unit) := do
  let text := (← get).store.text
  match storage with
  | .memory => return .ok ()
  | .file path access =>
    if text = before.text then return .ok ()
    else if access = .readOnly then return .error .denied
    else StateT.lift (Host.ask (.writeFile path text))

/-! ### The scheduling loop -/

/-- Answers the loop out of the world, between a look at the database and its update. -/
def answer (storage : Storage) (r : Request) :
    StateT World (Program HostRequest HostRequest.Answer) (r.Answer × Except FileFault Unit) := do
  refresh storage
  let now ← StateT.lift (Host.ask .now)
  let w ← get
  let (a, after) := World.answer r
    { w with clock := Int64.ofInt now.seconds, present := now.seconds, stamps := now.nanos }
  set after
  return (a, ← keep storage w.store)

/-- What a request that writes is answered: it failed if it could not be kept. -/
def written (result : Except Error Unit × Except FileFault Unit) : Except Error Unit :=
  match result with
  | (.ok (), .error cause) => .error (.io cause.message)
  | (result, _) => result

/-- Answers the loop. Files and the passing of time are up to the operating system. -/
def serve (settings : LoopSettings) (storage : Storage) :
    (r : Request) → StateT World (Program HostRequest HostRequest.Answer) r.Answer
  | .saveCursor e => do return written (← answer storage (.saveCursor e))
  | .final r => do return written (← answer storage (.final r))
  | .sleep => do
    StateT.lift (Host.ask (.sleep settings.pollIntervalMs))
    return (← answer storage .sleep).1
  | .removeHealthFile => do
    let _ ← StateT.lift (Host.ask (.removeFile (.ofText (settings.healthcheckFile.getD ""))))
  | .touchHealthFile => do
    let path := Path.ofText (settings.healthcheckFile.getD "")
    match ← StateT.lift (Host.ask (.readFile path)) with
    | .error .missing =>
      let _ ← StateT.lift (Host.ask (.writeFile path ""))
    | _ => pure ()
  | r => do return (← answer storage r).1

/-- How many phases the loop goes through before it is broken off; it would take ages. -/
def phaseLimit : Nat := 0x4000000000000000

/-- Checks that the certificate of the callback receivers can be read, if there is one. -/
def checkCertificate (settings : CallbackSettings) : Step Unit := do
  match settings.caCertPath.filter fun path => !path.isEmpty with
  | none => pure ()
  | some path =>
    match ← Step.ask (.readFile (.ofText path)) with
    | .ok _ | .error .notText => pure ()
    | .error cause => throw (.refused (.io cause.message))

/-- Runs the loop until it ends. -/
def runLoop (settings : Settings) (storage : Storage) : Step Unit := do
  checkCertificate settings.callback
  let setup : LoopSetup := {
    settings := settings.loop
    callback := settings.callback
    hasNotifier := true }
  let ended ← ExceptT.lift
    ((Run.run setup phaseLimit).run.serveWith (serve settings.loop storage))
  match ended with
  | .ok _ => throw .stoppedItself
  | .error failure => throw (.ofFailure failure)

/-! ### Commands -/

/-- Writes a JSON value on a line. -/
def printJson (json : Json) : Step Unit :=
  Step.ask (.print json.text)

/-- Carries out a command on the store of the world. -/
def execute (settings : Settings) (storage : Storage) : Command → Step Unit
  | .run => runLoop settings storage
  | .add draft => do
    let entry ← Step.update storage .ofFailure (·.add draft)
    printJson entry.toJson
  | .list => do
    for entry in ← Step.change .refused fun w => (w.store.listEntries, w) do
      printJson entry.toJson
  | .cancel name => Step.update storage .refused (·.deactivate name)
  | .remove name =>
    Step.update storage .refused fun w => w.changeStore (w.store.deleteEntry name)
  | .results name limit => do
    let _ ← Step.change .refused fun w => (w.store.getEntry name, w)
    for result in ← Step.change .refused fun w => (w.store.listResults name limit, w) do
      printJson (result.toJson Json.real)

/-- Carries out what the program is asked to do. -/
def perform (settings : Settings) (command : Command) : Step Unit := do
  match settings.database.directory? with
  | none => pure ()
  | some directory =>
    match ← Step.ask (.makeDirectories directory) with
    | .ok () => pure ()
    | .error cause => throw (.directory cause)
  let storage ← openDatabase settings.database.path
  let before := (← get).store
  Step.setClock
  execute settings storage command
  match ← ExceptT.lift (keep storage before) with
  | .ok () => pure ()
  | .error _ => throw (.cannotOpen settings.database.path)

/-! ### The program -/

/-- The world of a program that has just begun. It has no way to deliver anything. -/
def startingWorld : World where
  present := 0
  delivers := fun _ _ => false

/-- Does what an invocation asks for, and returns the exit status. -/
def invoke (invocation : Invocation) : Host Nat := do
  let settings ← loadSettings invocation.config
  let (result, _) ← (perform settings invocation.command).run.run startingWorld
  match result with
  | .ok () => return 0
  | .error fault =>
    Host.ask (.printError ("Error: " ++ fault.message))
    return 1

/-- The whole program: reads the words of its command line, and returns the exit status. -/
def program (words : List String) : Host Nat := do
  match read words with
  | .invoke invocation => invoke invocation
  | .help command =>
    Host.printAll (help command)
    return 0
  | .version =>
    Host.ask (.print versionText)
    return 0
  | .nothing =>
    Host.printErrors (help none)
    return 2
  | .fault cause =>
    Host.printErrors cause.lines
    return 2

end TickScheduler.CommandLine
