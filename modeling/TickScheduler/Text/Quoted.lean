import TickScheduler.Text.Combining
import TickScheduler.Text.Unprintable
/-!
Quoted text for messages: a text between double quotes, in which every character can be told from
its neighbours. Quotes and backslashes stand behind a backslash, four controls have short forms, and
combining or unprintable characters are written as code points.
-/
namespace TickScheduler.Text

/-- The lower-case hexadecimal digits of a number. -/
def hex (n : Nat) : String :=
  String.ofList (Nat.toDigits 16 n)

/-- One character of a quoted text. -/
def quoteChar (c : Char) : String :=
  match c with
  | '"' => "\\\""
  | '\\' => "\\\\"
  | '\t' => "\\t"
  | '\r' => "\\r"
  | '\n' => "\\n"
  | '\x00' => "\\0"
  | _ =>
    if isCombining c || isUnprintable c then "\\u\x7b" ++ hex c.toNat ++ "\x7d"
    else String.singleton c

def quote (text : String) : String :=
  "\"" ++ String.join (text.toList.map quoteChar) ++ "\""

end TickScheduler.Text
