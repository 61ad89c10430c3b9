import TickScheduler.Toml.Scalar
import TickScheduler.Toml.Tree
/-!
TOML documents: lines with keys and values, and headers that say to which table the lines after them
belong. Keys and nested values are limited in their depth.
-/
namespace TickScheduler.Toml

open Text Text.Scan

/-! ### Keys and values -/

/-- A key must have fewer parts than this, and values fewer levels of brackets. -/
def depthLimit : Nat := 80

def bareKey : Scan String := do
  return String.ofList (← run1 fun c => c.isAlphanum || c == '-' || c == '_')

/-- One part of a key, and the blanks around it. -/
def keyPart : Scan String := do
  blanks
  let part ← bareKey <|> quotedText <|> literalText
  blanks
  return part

def key : Scan Key := do
  let parts ← separated keyPart (literal ['.'])
  match parts with
  | [] => fail
  | first :: rest =>
    let key := Key.ofParts first rest
    if key.partCount < depthLimit then return key else fail

/-- An array, given how its items are read. A comma may follow the last item. -/
def array (item : Scan ConfigValue) : Scan ConfigValue := do
  literal ['[']
  let items ← separated (do gap; let value ← item; gap; return value) (literal [','])
  if !items.isEmpty then
    let _ ← option [',']
  gap
  literal [']']
  return .list items

/-- A table between braces, given how its values are read. It stands on one line. -/
def inlineTable (item : Scan ConfigValue) : Scan ConfigValue := do
  literal ['\x7b']
  let member : Scan (Key × ConfigValue) := do
    let key ← key
    literal ['=']
    blanks
    let value ← item
    blanks
    return (key, value)
  let members ← separated member (literal [','])
  blanks
  literal ['\x7d']
  match Members.addAll [] members with
  | some members => return .table (memberValues members)
  | none => fail

/-- A value with at most so many levels of brackets. -/
def value : (levels : Nat) → Scan ConfigValue
  | 0 => scalar
  | levels + 1 => scalar <|> array (value levels) <|> inlineTable (value levels)

/-! ### Lines -/

inductive Header where
  /-- Of a table. -/
  | table (key : Key)
  /-- Of one of several tables. -/
  | item (key : Key)

inductive Line where
  | comment
  | entry (key : Key) (value : ConfigValue)
  | header (header : Header)

/-- Blanks and a comment up to the end of the line or of the document. -/
def lineEnd : Scan Unit := do
  blanks
  let _ ← attempt comment
  newline <|> done

def entryLine : Scan Line := do
  let key ← key
  literal ['=']
  blanks
  let value ← value (depthLimit - 1)
  lineEnd
  return .entry key value

def itemLine : Scan Line := do
  literal ['[', '[']
  let key ← key
  literal [']', ']']
  lineEnd
  return .header (.item key)

def tableLine : Scan Line := do
  literal ['[']
  let key ← key
  literal [']']
  lineEnd
  return .header (.table key)

def commentLine : Scan Line := do
  (do comment; lineEnd) <|> newline
  return .comment

/-- The lines of a document, which a byte order mark may precede. -/
def document : Scan (List Line) := do
  let _ ← option ['\ufeff']
  blanks
  many (do
    let line ← commentLine <|> itemLine <|> tableLine <|> entryLine
    blanks
    return line)

/-! ### Documents -/

/-- The keys and values before the first header, and those below each header. -/
def sections : List Line → List (Key × ConfigValue) × List (Header × List (Key × ConfigValue))
  | [] => ([], [])
  | .comment :: rest => sections rest
  | .entry key value :: rest =>
    let (entries, below) := sections rest
    ((key, value) :: entries, below)
  | .header header :: rest =>
    let (entries, below) := sections rest
    ([], (header, entries) :: below)

/-- The tables of a document with those of one header added. -/
def addSection (members : Members) : Header × List (Key × ConfigValue) → Option Members
  | (.table key, entries) => members.alterBelow key.last (Members.writeTable entries) key.path
  | (.item key, entries) => members.alterBelow key.last (Members.writeItem entries) key.path

/-- The table that a document describes. -/
def parse? (text : String) : Option ConfigValue := do
  let lines ← readAll document text.toList
  let (entries, below) := sections lines
  let members ← below.foldlM addSection (← Members.addAll [] entries)
  return .table (memberValues members)

end TickScheduler.Toml
