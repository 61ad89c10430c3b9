/-!
What can go wrong with files, by cause, in the wording of the operating system.
-/
namespace TickScheduler

inductive FileFault where
  /-- There is nothing under the name. -/
  | missing
  /-- There is something under the name already. -/
  | taken
  /-- The way leads through a file. -/
  | notDirectory
  /-- A file was expected. -/
  | directory
  | denied
  /-- A name or a path has more bytes than the file system allows. -/
  | longName
  /-- A name holds the character with the number zero. -/
  | zeroCharacter
  /-- The content is no text. -/
  | notText
  | other (reason : String)
deriving DecidableEq, Repr

namespace FileFault

/-- The text of a cause that has a number. -/
def numbered (text : String) (number : Nat) : String :=
  s!"{text} (os error {number})"

def message : FileFault → String
  | .missing => numbered "No such file or directory" 2
  | .taken => numbered "File exists" 17
  | .notDirectory => numbered "Not a directory" 20
  | .directory => numbered "Is a directory" 21
  | .denied => numbered "Permission denied" 13
  | .longName => numbered "File name too long" 36
  | .zeroCharacter => "file name contained an unexpected NUL byte"
  | .notText => "stream did not contain valid UTF-8"
  | .other reason => reason

end FileFault

end TickScheduler
