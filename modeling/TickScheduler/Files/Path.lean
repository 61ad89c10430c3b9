import TickScheduler.Text.Split
/-!
Paths of files: the parts between slashes, counted from the root or from the current directory. Parts
that go nowhere are left out, so two paths that differ only in those are the same; but such a part at
the end says that there has to be a directory.
-/
namespace TickScheduler

structure Path where
  /-- Whether the path begins at the root. -/
  isAbsolute : Bool
  /-- No part is empty or a single dot. Two dots, which go up, are a part. -/
  parts : List String
  /-- Whether the path can only mean a directory. -/
  needsDirectory : Bool := false
deriving DecidableEq, Repr

namespace Path

/-- Whether a part goes nowhere. -/
def isIdle (part : List Char) : Bool :=
  part.isEmpty || part == ['.']

def ofText (text : String) : Path :=
  let parts := Text.split '/' text.toList
  let isIdleAtEnd := (parts.getLast?).any isIdle
  let parts := parts.filter fun part => !isIdle part
  { isAbsolute := text.toList.head? == some '/'
    parts := parts.map String.ofList
    needsDirectory := isIdleAtEnd && !parts.isEmpty }

/-- The path as it is written, with a dot for the current directory. -/
def text (p : Path) : String :=
  let parts := "/".intercalate p.parts ++ (if p.needsDirectory then "/" else "")
  if p.isAbsolute then "/" ++ parts
  else if p.parts.isEmpty then "."
  else parts

/-- The path without its last part; the root and the current directory have none. -/
def parent? (p : Path) : Option Path :=
  if p.parts.isEmpty then none
  else some { isAbsolute := p.isAbsolute, parts := p.parts.dropLast }

/-- A path that is meant from a directory. -/
def below (directory p : Path) : Path :=
  if p.isAbsolute then p
  else { p with isAbsolute := directory.isAbsolute, parts := directory.parts ++ p.parts }

/-- One part more, where two dots take back the part before them. Above the root is the root. -/
def climb (isAbsolute : Bool) (parts : List String) (part : String) : List String :=
  if part = ".." then
    match parts.getLast? with
    | none => if isAbsolute then [] else [part]
    | some last => if last = ".." then parts ++ [part] else parts.dropLast
  else parts ++ [part]

/-- The path with every part that goes up taken together with the part before it, whatever that is, and
without the need of a directory. -/
def resolved (p : Path) : Path where
  isAbsolute := p.isAbsolute
  parts := p.parts.foldl (climb p.isAbsolute) []

example : (ofText "/a//b/./c/").parent? = some (ofText "/a/b") := by decide +kernel
example : (ofText "x.db").parent? = some (ofText "") := by decide +kernel
example : (ofText "/").parent? = none := by decide +kernel
example : ofText "a/" ≠ ofText "a" := by decide +kernel
example : (ofText "../a/../b/.").resolved = ofText "../b" := by decide +kernel

end Path

end TickScheduler
