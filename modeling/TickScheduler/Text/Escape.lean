import TickScheduler.Text.Radix
import TickScheduler.Text.Scan
/-!
Escape sequences in quoted texts: a backslash with a letter or with the number of a code point.
-/
namespace TickScheduler.Text

open Scan

/-- A character that may stand for itself: anything but the controls, of which the tab is allowed. -/
def isPlain (c : Char) : Bool :=
  c == '\t' || (' ' ≤ c && c != '\x7f')

/-- The character whose number is written with so many hexadecimal digits. -/
def codePoint (length : Nat) : Scan Char := do
  let n := Radix.value 16 (← exactly (Radix.isDigit 16) length)
  if n.isValidChar then return Char.ofNat n
  else fail

/-- An escape sequence. -/
def escapeSequence : Scan Char := do
  literal ['\\']
  match ← any with
  | '"' => return '"'
  | '\\' => return '\\'
  | 'b' => return '\x08'
  | 'f' => return '\x0c'
  | 'n' => return '\n'
  | 'r' => return '\r'
  | 't' => return '\t'
  | 'u' => codePoint 4
  | 'U' => codePoint 8
  | _ => fail

/-- A character between double quotes that stands for itself. -/
def quotedChar : Scan Char :=
  one fun c => isPlain c && c != '"' && c != '\\'

/-- A text between double quotes, on one line. -/
def quotedText : Scan String := do
  literal ['"']
  let chars ← many (quotedChar <|> escapeSequence)
  literal ['"']
  return String.ofList chars

end TickScheduler.Text
