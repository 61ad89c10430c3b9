import Std.Time.DateTime.Timestamp
import TickScheduler.CommandLine.Session
/-!
The program on a real machine: every request to the operating system is passed on to it.
-/
namespace TickScheduler.Console

open CommandLine

/-- The cause of a failed operation on files. -/
def faultOf : IO.Error → FileFault
  | .noFileOrDirectory _ _ _ => .missing
  | .alreadyExists _ _ _ => .taken
  | .permissionDenied _ _ _ => .denied
  | .inappropriateType _ _ _ => .notDirectory
  | e => .other (toString e)

/-- An operation on files whose failure is an answer. -/
def trying {α : Type} (action : IO α) : IO (Except FileFault α) := do
  try
    return .ok (← action)
  catch e =>
    return .error (faultOf e)

/-- Reads a file, which may hold something else than text. -/
def readText (path : Path) : IO (Except FileFault String) := do
  match ← trying (IO.FS.readBinFile path.text) with
  | .error fault => return .error fault
  | .ok bytes =>
    match String.fromUTF8? bytes with
    | some text => return .ok text
    | none => return .error .notText

/-- A variable and its value around an equals sign. -/
def splitVariable (text : List Char) : Option (String × String) :=
  match text.span (· != '=') with
  | (name, _ :: value) => some (String.ofList name, String.ofList value)
  | _ => none

/-- The variables as the process has been given them. Where they cannot be listed, those that the program
needs are asked for one by one. -/
def environment : IO (List (String × String)) := do
  match ← readText (.ofText "/proc/self/environ") with
  | .ok text => return (Text.split '\x00' text.toList).filterMap splitVariable
  | .error _ =>
    ["HOME", configVariable].filterMapM fun name => do
      return (← IO.getEnv name).map (name, ·)

/-- The time of day. -/
def now : IO Timestamp := do
  let nanos := (← Std.Time.Timestamp.now).toNanosecondsSinceUnixEpoch.toInt
  return ⟨nanos / 1000000000, (nanos % 1000000000).toNat, .inl (by omega)⟩

def answer : (r : HostRequest) → IO r.Answer
  | .environment => environment
  | .currentDirectory => do return .ofText (toString (← IO.currentDir))
  | .now => now
  | .readFile path => readText path
  | .writeFile path text => trying (IO.FS.writeFile path.text text)
  | .removeFile path => trying (IO.FS.removeFile path.text)
  | .makeDirectories path => trying (IO.FS.createDirAll path.text)
  | .sleep milliseconds => IO.sleep milliseconds.toUInt32
  | .print line => IO.println line
  | .printError line => IO.eprintln line

end TickScheduler.Console

def main (words : List String) : IO UInt32 := do
  let status ← (TickScheduler.CommandLine.program words).serveWith TickScheduler.Console.answer
  return status.toUInt32
