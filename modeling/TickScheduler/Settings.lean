import TickScheduler.Files.Path
import TickScheduler.Tick
/-!
Settings: where the database is, how the scheduling loop behaves, and how results are reported.
Every setting has a default.
-/
namespace TickScheduler

/-- How the scheduling loop behaves. -/
structure LoopSettings where
  /-- The announced tasks reach this many of the shortest intervals ahead. -/
  lookaheadMultiplier : Tick := 10
  /-- How long to sleep between two looks at the clock. -/
  pollIntervalMs : Nat := 10
  /-- How many announced tasks a snapshot shows. -/
  maxTaskQueue : Nat := 50
  /-- How many results are kept of each entry. -/
  maxTaskResults : Nat := 100
  /-- How many characters of a detail are kept. -/
  maxDetailLen : Nat := 512
  /-- After this many failures in a row the loop stops itself; `none` if it never does. -/
  maxConsecutiveFailures : Option Nat := none
  /-- A file that exists while the loop is dead. -/
  healthcheckFile : Option String := none
deriving DecidableEq, Repr, Inhabited

/-- How results are reported to callback receivers. -/
structure CallbackSettings where
  timeoutSecs : Nat := 3
  verifySsl : Bool := true
  caCertPath : Option String := none
  authToken : Option String := none
  /-- Whether results are written and reported in the background. -/
  asynchronous : Bool := false
  /-- What the addresses in a report start with. -/
  resultBaseUrl : String := "http://localhost/api/v1"
deriving DecidableEq, Repr, Inhabited

structure DatabaseSettings where
  path : String
deriving DecidableEq, Repr

/-- The directory that has to be there before the database can be made, if it is not the current one
or the root. -/
def DatabaseSettings.directory? (s : DatabaseSettings) : Option Path :=
  (Path.ofText s.path).parent?.filter fun directory => !directory.parts.isEmpty

structure Settings where
  database : DatabaseSettings
  loop : LoopSettings := {}
  callback : CallbackSettings := {}
deriving DecidableEq, Repr

/-- The directory of the program's own files below a home directory. -/
def Settings.directory (home : String) : String := home ++ "/.sensord"

def DatabaseSettings.default (home : String) : DatabaseSettings where
  path := Settings.directory home ++ "/sensord.db"

def Settings.default (home : String) : Settings where
  database := .default home

end TickScheduler
