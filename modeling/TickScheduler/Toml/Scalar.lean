import TickScheduler.Calendar
import TickScheduler.Config.Value
import TickScheduler.Text.Digits
import TickScheduler.Text.Escape
/-!
The values of TOML that have no parts: strings, numbers, truth values, dates and times; and what
stands between values.
-/
namespace TickScheduler.Toml

open Text Text.Scan

/-! ### Between values -/

def isBlank (c : Char) : Bool := c == ' ' || c == '\t'

def blanks : Scan Unit := do
  let _ ← run isBlank

def newline : Scan Unit :=
  literal ['\n'] <|> literal ['\r', '\n']

def comment : Scan Unit := do
  literal ['#']
  let _ ← run isPlain

/-- Blanks, line ends and comments that end with their line. -/
def gap : Scan Unit := do
  let _ ← many ((do let _ ← run1 isBlank) <|> newline <|> (do comment; newline))

/-! ### Strings -/

/-- A text between single quotes, on one line, without escape sequences. -/
def literalText : Scan String := do
  literal ['\'']
  let chars ← run fun c => isPlain c && c != '\''
  literal ['\'']
  return String.ofList chars

/-- One or two quotes inside a text between triple quotes. -/
def innerQuotes (quote : Char) : Scan (List Char) := fun cs =>
  let quotes := cs.takeWhile (· == quote)
  if quotes.isEmpty || 3 ≤ quotes.length then none else some (quotes, cs.drop quotes.length)

/-- The end of a text between triple quotes, of which up to two quotes more belong to the text. -/
def tripleEnd (quote : Char) : Scan (List Char) := fun cs =>
  let count := min 5 (cs.takeWhile (· == quote)).length
  if count < 3 then none else some (List.replicate (count - 3) quote, cs.drop count)

/-- A text between triple quotes. A line end right at its beginning does not count, and every line
end counts as the same character. -/
def tripleText (quote : Char) (piece : Scan (List Char)) : Scan String := do
  literal [quote, quote, quote]
  let _ ← attempt newline
  let lineEnd : Scan (List Char) := do
    newline
    return ['\n']
  let pieces ← many (piece <|> lineEnd <|> innerQuotes quote)
  let last ← tripleEnd quote
  return String.ofList (pieces.flatten ++ last)

/-- A backslash at the end of a line takes the blanks and the line ends after it away. -/
def continuedLine : Scan (List Char) := do
  literal ['\\']
  blanks
  newline
  let _ ← many ((do let _ ← run1 isBlank) <|> newline)
  return []

def character (kind : Char → Bool) : Scan (List Char) := do
  return [← one fun c => isPlain c && kind c]

def tripleQuotedText : Scan String :=
  tripleText '"' (character (fun c => c != '"' && c != '\\') <|> continuedLine
    <|> (do return [← escapeSequence]))

def tripleLiteralText : Scan String :=
  tripleText '\'' (character (· != '\''))

def text : Scan String :=
  tripleQuotedText <|> quotedText <|> tripleLiteralText <|> literalText

/-! ### Numbers -/

/-- Digits, of which any two may be parted by an underscore. -/
def digits (kind : Char → Bool) : Scan (List Char) := do
  let first ← one kind
  let rest ← many (do
    let _ ← option ['_']
    one kind)
  return first :: rest

/-- Whether there is a minus; a plus may stand in its place. -/
def sign : Scan Bool := do
  if ← option ['-'] then return true
  let _ ← option ['+']
  return false

/-- Digits of which the first is no zero, unless it is the only one. -/
def whole : Scan (List Char) := do
  if ← option ['0'] then return ['0'] else digits Char.isDigit

/-- An integer of 64 bits. -/
def integerOf (i : Int) : Scan ConfigValue :=
  if (Tick.ofInt? i).isSome then return .integer i else fail

/-- An integer without sign in a base that is named before it. -/
def basedInteger (name : Char) (base : Nat) : Scan ConfigValue := do
  literal ['0', name]
  integerOf (Radix.value base (← digits (Radix.isDigit base)))

def decimalInteger : Scan ConfigValue := do
  let negative ← sign
  let n := Digits.value (← whole)
  integerOf (if negative then -n else n)

def integer : Scan ConfigValue :=
  basedInteger 'x' 16 <|> basedInteger 'o' 8 <|> basedInteger 'b' 2 <|> decimalInteger

/-- Whether a decimal number is nearer to 2¹⁰²⁴ than to any floating-point number of 64 bits, or
beyond. -/
def exceedsFloat (mantissa : Nat) (exponent : Int) : Bool :=
  let magnitude := (Nat.toDigits 10 mantissa).length + exponent
  if mantissa = 0 ∨ magnitude < 300 then false
  else if 320 < magnitude then true
  else 1 <<< 1024 - 1 <<< 970 ≤
    mantissa * Nat.pow 10 exponent.toNat / Nat.pow 10 (-exponent).toNat

/-- An exponent behind its letter. -/
def exponent : Scan Int := do
  let _ ← one fun c => c == 'e' || c == 'E'
  let negative ← sign
  let n := Digits.value (← digits Char.isDigit)
  return if negative then -n else n

def fraction : Scan (List Char) := do
  literal ['.']
  digits Char.isDigit

/-- A number with a fraction or an exponent. It may be too small to be told from zero, and too far
below zero, but not too large. -/
def decimalFloat : Scan ConfigValue := do
  let negative ← sign
  let whole ← whole
  let fraction ← attempt fraction
  let exponent ← attempt exponent
  if fraction.isNone && exponent.isNone then fail
  let places := fraction.getD []
  if !negative && exceedsFloat (Digits.value (whole ++ places)) (exponent.getD 0 - places.length) then
    fail
  return .float

/-- Infinity, or what is no number. -/
def specialFloat : Scan ConfigValue := do
  let _ ← sign
  literal ['i', 'n', 'f'] <|> literal ['n', 'a', 'n']
  return .float

/-! ### Dates and times -/

/-- A number of so many digits. -/
def fixed (width : Nat) : Scan Nat := do
  return Digits.value (← exactly Char.isDigit width)

def date : Scan Unit := do
  let year ← fixed 4
  literal ['-']
  let month ← fixed 2
  literal ['-']
  let day ← fixed 2
  if !(Date.isValid ⟨year, month, day⟩) then fail

/-- Hours and minutes. -/
def hourAndMinute : Scan Unit := do
  let hour ← fixed 2
  literal [':']
  let minute ← fixed 2
  if 24 ≤ hour || 60 ≤ minute then fail

/-- A time of day, where any minute may have a leap second. -/
def timeOfDay : Scan Unit := do
  hourAndMinute
  literal [':']
  if 60 < (← fixed 2) then fail
  let _ ← attempt (do
    literal ['.']
    run1 Char.isDigit)

def zone : Scan Unit :=
  (do let _ ← one fun c => c == 'Z' || c == 'z')
    <|> (do
      let _ ← one fun c => c == '+' || c == '-'
      hourAndMinute)

/-- A date, a time of day, or both, then perhaps with a zone. -/
def moment : Scan ConfigValue := do
  (do
    date
    let _ ← attempt (do
      let _ ← one fun c => c == 'T' || c == 't' || c == ' '
      timeOfDay
      attempt zone)) <|> timeOfDay
  return .moment

/-! ### Any of them -/

def truth : Scan ConfigValue :=
  (do literal ['t', 'r', 'u', 'e']; return .bool true)
    <|> (do literal ['f', 'a', 'l', 's', 'e']; return .bool false)

def scalar : Scan ConfigValue :=
  (do return .text (← text)) <|> moment <|> decimalFloat <|> integer <|> truth <|> specialFloat

end TickScheduler.Toml
