import TickScheduler.CommandLine.Session
import TickScheduler.Files.Tree
/-!
A machine to run the program on: files, environment variables, and a clock that moves only while the
program sleeps. What the program writes to its terminal is kept.
-/
namespace TickScheduler.Simulation

open CommandLine

structure Machine where
  files : FileTree
  /-- The current directory. -/
  directory : Location
  environment : List (String × String)
  /-- The time of day, in nanoseconds since 1970. -/
  nanos : Nat
  /-- The lines on the standard output, the latest first. -/
  output : List String := []
  /-- The lines on the standard error output, the latest first. -/
  errors : List String := []

namespace Machine

/-- The time of day. -/
def now (m : Machine) : Timestamp :=
  ⟨m.nanos / 1000000000, m.nanos % 1000000000, .inl (Nat.mod_lt _ (by decide))⟩

/-- Carries out a change of the files. -/
def change (m : Machine) : Except FileFault FileTree → Except FileFault Unit × Machine
  | .ok files => (.ok (), { m with files })
  | .error fault => (.error fault, m)

/-- The clock after a sleep, which always takes some time. -/
def sleep (m : Machine) (milliseconds : Nat) : Machine :=
  { m with nanos := m.nanos + max 1 milliseconds * 1000000 }

def answer : (r : HostRequest) → Machine → r.Answer × Machine
  | .environment, m => (m.environment, m)
  | .currentDirectory, m => ({ isAbsolute := true, parts := m.directory }, m)
  | .now, m => (m.now, m)
  | .readFile path, m => (m.files.readFile m.directory path, m)
  | .writeFile path text, m => m.change (m.files.writeFile m.directory path text)
  | .removeFile path, m => m.change (m.files.removeFile m.directory path)
  | .makeDirectories path, m =>
    let (made, files) := m.files.makeDirectories m.directory path
    (made, { m with files })
  | .sleep milliseconds, m => ((), m.sleep milliseconds)
  | .print line, m => ((), { m with output := line :: m.output })
  | .printError line, m => ((), { m with errors := line :: m.errors })

/-- What can be seen of a run of the program. -/
structure Report where
  status : Nat
  output : List String
  errors : List String
deriving DecidableEq, Repr

/-- Runs the program on the words of a command line. -/
def run (m : Machine) (words : List String) : Report × Machine :=
  let (status, m) := (program words).run answer { m with output := [], errors := [] }
  (⟨status, m.output.reverse, m.errors.reverse⟩, m)

end Machine

end TickScheduler.Simulation
