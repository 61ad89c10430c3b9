import TickScheduler.Config.Value
import TickScheduler.Text.Blank
import TickScheduler.Text.Escape
import TickScheduler.Text.Integer
import TickScheduler.Text.Split
/-!
Environment variables as configuration. The name of a variable says where its value belongs, and the
value is written as in a configuration file, but more loosely: what cannot be read as anything else is
a text.
-/
namespace TickScheduler.Environment

open Text Text.Scan

/-! ### Names -/

/-- What the names of variables that matter begin with, in any case. -/
def namePrefix : List Char := "sensord_".toList

/-- A name with two underscores in a row written as a dot, from left to right. -/
def dotted : List Char → List Char
  | '_' :: '_' :: rest => '.' :: dotted rest
  | c :: rest => c :: dotted rest
  | [] => []

/-- The keys that a variable stands for: two underscores go one level down, and case does not matter.
Other variables have none. -/
def keys? (name : String) : Option (List String) :=
  let name := (trimBlanks name.toList).map Char.toLower
  if namePrefix.isPrefixOf name then
    let parts := split '.' (trimBlanks (dotted (name.drop namePrefix.length)))
    if parts.any List.isEmpty then none else some (parts.map String.ofList)
  else none

/-! ### Values -/

/-- The blanks that may stand around a value. -/
def isValueBlank (c : Char) : Bool :=
  c == ' ' || c == '\t' || c == '\n' || c == '\x0c' || c == '\r'

def valueBlanks : Scan Unit := do
  let _ ← run isValueBlank

/-- An integer of 64 bits, with its sign counted among them or not. -/
def wideInteger? (word : List Char) : Option Int :=
  (integer? word).filter fun i =>
    if word.head? = some '-' then Int64.minValue.toInt ≤ i else i < UInt64.size

/-- A decimal number, with a digit before or behind the point if there is one. -/
def decimal : Scan Unit := do
  let whole ← run Char.isDigit
  let point ← option ['.']
  let places ← if point then run Char.isDigit else pure []
  if whole.isEmpty && places.isEmpty then fail
  let _ ← attempt (do
    let _ ← one fun c => c == 'e' || c == 'E'
    let _ ← attempt (one fun c => c == '+' || c == '-')
    run1 Char.isDigit)

/-- Whether a word is a floating-point number: a decimal number with a point in it. -/
def isFloat (word : List Char) : Bool :=
  let magnitude :=
    match word with
    | '-' :: rest | '+' :: rest | rest => rest
  word.contains '.' && (readAll decimal magnitude).isSome

/-- What a word without quotes says. -/
def ofWord (word : List Char) : ConfigValue :=
  match wideInteger? word with
  | some i => .integer i
  | none => if isFloat word then .float else .text (String.ofList word)

/-- One of the two truth values. It ends where its name ends, even in the middle of a word. -/
def truth : Scan ConfigValue := do
  if ← option "true".toList then return .bool true
  literal "false".toList
  return .bool false

/-- A word reaches up to the next comma or bracket. -/
def word : Scan ConfigValue := do
  let chars ← run fun c => !(",\x7b\x7d[]".toList.contains c)
  return ofWord (trimBlanks chars)

/-- One character between single quotes. -/
def quotedCharacter : Scan ConfigValue := do
  literal ['\'']
  let c ← any
  literal ['\'']
  return .text (String.singleton c)

/-- The characters that fit into so many bytes, up to the first one that does not. -/
def fitting : (bytes : Nat) → List Char → List Char
  | bytes, c :: rest =>
    if c.utf8Size ≤ bytes then c :: fitting (bytes - c.utf8Size) rest else []
  | _, [] => []

/-- A text between double quotes. Of what comes before the first escape sequence, as many bytes are
kept as there are characters, so that other characters than those of ASCII push the last ones out. -/
def quoted : Scan String := do
  literal ['"']
  let plain ← many quotedChar
  let rest ← many (quotedChar <|> escapeSequence)
  literal ['"']
  return String.ofList (if rest.isEmpty then plain else fitting plain.length plain ++ rest)

def key : Scan String := do
  valueBlanks
  if (← peek) = some '"' then quoted
  else return String.ofList (← run1 fun c => c.isAlphanum || c == '-' || c == '_')

def member (item : Scan ConfigValue) : Scan (String × ConfigValue) := do
  let key ← key
  valueBlanks
  literal ['=']
  valueBlanks
  return (key, ← item)

/-- Things with commas between them up to a closing bracket, which may follow the last comma at
once. -/
def closedBy {α : Type} (close : Char) (item : Scan α) : Scan (List α) := fun cs =>
  go cs.length cs
where
  /-- At most so many commas. -/
  go : Nat → Scan (List α)
    | 0 => do
      literal [close]
      return []
    | commas + 1 => do
      if ← option [close] then return []
      let first ← item
      if ← option [','] then return first :: (← go commas)
      literal [close]
      return [first]

/-- A value, given how the values inside its brackets are read. -/
def valueWith (inner : Scan ConfigValue) : Scan ConfigValue := do
  match ← peek with
  | some '\x7b' =>
    literal ['\x7b']
    return .ofMembers (← closedBy '\x7d' (member inner))
  | some '[' =>
    literal ['[']
    return .list (← closedBy ']' inner)
  | some '"' => return .text (← quoted)
  | some '\'' => quotedCharacter
  | _ => truth <|> word

/-- A value with at most so many levels of brackets, and the blanks around it. -/
def value : (levels : Nat) → Scan ConfigValue
  | 0 => fail
  | levels + 1 => do
    valueBlanks
    let value ← valueWith (value levels)
    valueBlanks
    return value

/-- What the text of a variable says: a value, or else the text itself. -/
def ofText (text : String) : ConfigValue :=
  let chars := text.toList
  (readAll (value (chars.length + 1)) chars).getD (.text text)

/-! ### All variables -/

/-- A configuration with the values of variables laid over it, each over those before it. -/
def overlay (base : ConfigValue) (environment : List (String × String)) : ConfigValue :=
  environment.foldl (fun config (name, text) =>
    match keys? name with
    | some keys => config.overlay (.nest keys (ofText text))
    | none => config) base

end TickScheduler.Environment
