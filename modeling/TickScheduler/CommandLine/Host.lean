import TickScheduler.Files.Fault
import TickScheduler.Files.Path
import TickScheduler.Program
import TickScheduler.Timestamp
/-!
What the command line asks of the operating system, as a dialogue: whoever runs it decides what a file,
the clock or the terminal is.
-/
namespace TickScheduler.CommandLine

inductive HostRequest where
  /-- All environment variables. -/
  | environment
  | currentDirectory
  /-- The time of day. -/
  | now
  | readFile (path : Path)
  /-- Writes a file, over what is in it. -/
  | writeFile (path : Path) (text : String)
  | removeFile (path : Path)
  /-- Makes a directory, and those above it as far as they are missing. -/
  | makeDirectories (path : Path)
  | sleep (milliseconds : Nat)
  /-- Writes a line to the standard output. -/
  | print (line : String)
  /-- Writes a line to the standard error output. -/
  | printError (line : String)
deriving DecidableEq, Repr

/-- The kind of answer that a request gets. -/
abbrev HostRequest.Answer : HostRequest → Type
  | .environment => List (String × String)
  | .currentDirectory => Path
  | .now => Timestamp
  | .readFile _ => Except FileFault String
  | .writeFile _ _ | .removeFile _ | .makeDirectories _ => Except FileFault Unit
  | .sleep _ | .print _ | .printError _ => Unit

/-- A part of the program that talks to the operating system. -/
abbrev Host (Result : Type) : Type := Program HostRequest HostRequest.Answer Result

namespace Host

def ask (r : HostRequest) : Host r.Answer := .request r

/-- Writes lines to the standard output. -/
def printAll : List String → Host Unit
  | [] => pure ()
  | line :: rest => do
    ask (.print line)
    printAll rest

/-- Writes lines to the standard error output. -/
def printErrors : List String → Host Unit
  | [] => pure ()
  | line :: rest => do
    ask (.printError line)
    printErrors rest

end Host

end TickScheduler.CommandLine
