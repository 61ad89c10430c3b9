import TickScheduler.Text.Blank
import TickScheduler.Timestamp
/-!
Reading RFC 3339 text. The strict reader takes the stored form only: fields of fixed width, one
separator between them, a zone, and nothing else. The lenient one also allows blanks between the
fields, short fields, signed years and other ways to write a zone. Both go from left to right, and
report the first thing that is wrong; only a text that has no room for date and time is refused
before it is looked at.
-/
namespace TickScheduler.Timestamp

/-- Why a text is not a timestamp. -/
inductive ReadError where
  | tooShort
  | invalid
  | outOfRange
  | tooLong
deriving DecidableEq, Repr

def ReadError.message : ReadError → String
  | .tooShort => "premature end of input"
  | .invalid => "input contains invalid characters"
  | .outOfRange => "input is out of range"
  | .tooLong => "trailing input"

/-- A reader takes something off the front of a text. -/
abbrev Reader (α : Type) := StateT (List Char) (Except ReadError) α

/-- The length of a text in UTF-8 bytes. -/
def byteLength (cs : List Char) : Nat :=
  (String.ofList cs).utf8ByteSize

/-- A run of decimal digits, at least `least` and at most `most` of them. A text with fewer bytes than
that is too short whatever it holds. -/
def readNumber (least most : Nat) : Reader Nat := fun cs =>
  let digits := (cs.take most).takeWhile Char.isDigit
  if byteLength cs < least then .error .tooShort
  else if digits.length < least then .error .invalid
  else .ok (Digits.value digits, cs.drop digits.length)

/-- One of the given characters. -/
def readOneOf (allowed : List Char) : Reader Unit
  | [] => .error .tooShort
  | c :: rest => if c ∈ allowed then .ok ((), rest) else .error .invalid

/-- A number of fixed width within bounds. -/
def readField (least most low high : Nat) : Reader Nat := do
  let n ← readNumber least most
  if low ≤ n ∧ n ≤ high then return n else throw .outOfRange

/-- Digits after a point, in nanoseconds; digits past the ninth are dropped. No point, no fraction. -/
def readFraction : Reader Nat
  | '.' :: rest => do
    let digits := (rest.take 9).takeWhile Char.isDigit
    let (n, rest) ← readNumber 1 9 rest
    return (n * Nat.pow 10 (9 - digits.length), rest.dropWhile Char.isDigit)
  | cs => return (0, cs)

/-- Two digits, the first of them at most `tens` in the tens place. -/
def readTwoDigits (tens : Char) : Reader Nat
  | [] => .error .tooShort
  | [c] => .error (if c.utf8Size < 2 then .tooShort else .invalid)
  | c :: d :: rest =>
    if c.isDigit && d.isDigit then
      if c ≤ tens then .ok (Digits.value [c, d], rest) else .error .outOfRange
    else .error .invalid

/-- Seconds that a zone is ahead of UTC: the letter Z, or hours and minutes behind a sign. `colon`
takes what stands between hours and minutes. -/
def readZone (colon : Reader Unit) : Reader Int
  | [] => .error .tooShort
  | c :: rest =>
    if c = 'Z' ∨ c = 'z' then .ok (0, rest)
    else if c = '+' ∨ c = '-' ∨ c = '\u2212' then do
      let (hours, rest) ← readTwoDigits '9' rest
      let ((), rest) ← colon rest
      let (minutes, rest) ← readTwoDigits '5' rest
      let seconds : Int := hours * 3600 + minutes * 60
      return (if c = '+' then seconds else -seconds, rest)
    else .error .invalid

/-- The fields of a timestamp as they are written. -/
structure Fields where
  date : Date
  hour : Nat
  minute : Nat
  /-- At most 60, the leap second. -/
  second : Nat
  nanos : Nat
  zone : Int
deriving DecidableEq, Repr

/-- The first and the last year that a date may be written in, whatever its zone. -/
def firstYear : Int := -262143
def lastYear : Int := 262142

/-- The point in time that fields name, if their date exists and the zone is less than a day. -/
def Fields.toTimestamp (f : Fields) : Except ReadError Timestamp :=
  let hasYear := firstYear ≤ f.date.year && f.date.year ≤ lastYear
  if hasYear && f.date.isValid && f.zone.natAbs < 86400 then
    let leap := f.second == 60
    let second := if leap then 59 else f.second
    let nanos := if leap then f.nanos + 1000000000 else f.nanos
    let seconds := f.date.dayNumber * 86400 + (f.hour * 3600 + f.minute * 60 + second) - f.zone
    match ofUnix? seconds nanos with
    | some t => .ok t
    | none => .error .outOfRange
  else .error .outOfRange

/-- The least number of bytes of the stored form, up to its seconds. -/
def storedLength : Nat := 19

/-- Refuses what does not name a date or a time. -/
def requireInRange (inRange : Bool) : Reader Unit :=
  if inRange then pure () else throw .outOfRange

/-- A date of the stored form, which has to exist. -/
def readStoredDate : Reader Date := do
  let year ← readNumber 4 4
  readOneOf ['-']
  let month ← readNumber 2 2
  readOneOf ['-']
  let day ← readNumber 2 2
  let date : Date := ⟨year, month, day⟩
  requireInRange date.isValid
  return date

/-- The fields of the stored form. -/
def readStored : Reader Fields := do
  let date ← readStoredDate
  readOneOf ['T', 't', ' ']
  let hour ← readNumber 2 2
  readOneOf [':']
  let minute ← readNumber 2 2
  readOneOf [':']
  let second ← readNumber 2 2
  let nanos ← readFraction
  requireInRange (hour < 24 && minute < 60 && second ≤ 60)
  let zone ← readZone (readOneOf [':'])
  return ⟨date, hour, minute, second, nanos, zone⟩

/-- Reads the stored form of a timestamp, in any zone. -/
def ofStored (text : String) : Except ReadError Timestamp :=
  let cs := text.toList
  if byteLength cs < storedLength then .error .tooShort
  else do
    let (fields, rest) ← readStored cs
    if rest.isEmpty then fields.toTimestamp else throw .tooLong

/-- Drops the blanks that may stand between fields. -/
def skipBlanks : Reader Unit := fun cs =>
  .ok ((), cs.dropWhile Text.isBlank)

/-- A year of up to four digits, or of any number of digits behind a sign. -/
def readYear : Reader Int
  | '-' :: rest => do
    let (year, rest) ← readNumber 1 rest.length rest
    return (-year, rest)
  | '+' :: rest => do
    let (year, rest) ← readNumber 1 rest.length rest
    return (year, rest)
  | cs => do
    let (year, rest) ← readNumber 1 4 cs
    return (year, rest)

/-- A zone of the lenient form: the name of UTC in any case, or an offset with colons and blanks, or
nothing, between hours and minutes. -/
def readLenientZone : Reader Int
  | u :: t :: c :: rest =>
    if [u.toUpper, t.toUpper, c.toUpper] = ['U', 'T', 'C'] then .ok (0, rest)
    else readZone skipSeparators (u :: t :: c :: rest)
  | cs => readZone skipSeparators cs
where
  skipSeparators : Reader Unit := fun cs =>
    .ok ((), cs.dropWhile fun c => c == ':' || Text.isBlank c)

/-- A field of the lenient form: blanks before it, and one or two digits. -/
def readLenientField (low high : Nat) : Reader Nat := do
  skipBlanks
  readField 1 2 low high

/-- The fields of the lenient form. -/
def readLenient : Reader Fields := do
  skipBlanks
  let year ← readYear
  skipBlanks
  readOneOf ['-']
  let month ← readLenientField 1 12
  skipBlanks
  readOneOf ['-']
  let day ← readLenientField 1 31
  readOneOf ['T', 't', ' ']
  let hour ← readLenientField 0 23
  skipBlanks
  readOneOf [':']
  let minute ← readLenientField 0 59
  skipBlanks
  readOneOf [':']
  let second ← readLenientField 0 60
  let nanos ← readFraction
  skipBlanks
  let zone ← readLenientZone
  return ⟨⟨year, month, day⟩, hour, minute, second, nanos, zone⟩

/-- Reads the lenient form of a timestamp; blanks may follow it. -/
def ofLenient (text : String) : Except ReadError Timestamp := do
  let (fields, rest) ← readLenient text.toList
  if rest.all Text.isBlank then fields.toTimestamp else throw .tooLong

end TickScheduler.Timestamp
