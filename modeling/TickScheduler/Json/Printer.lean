import TickScheduler.Json.Value
import TickScheduler.Text.Quoted
/-!
Writing JSON values without any blanks. Controls, quotes and backslashes are escaped, and nothing
else is.
-/
namespace TickScheduler

namespace Numeral

def text (n : Numeral) : String :=
  let sign := if n.negative then "-" else ""
  let fraction := if n.fraction.isEmpty then "" else "." ++ String.ofList n.fraction
  let exponent :=
    match n.exponent with
    | none => ""
    | some (negative, digits) => (if negative then "e-" else "e") ++ String.ofList digits
  sign ++ String.ofList n.whole ++ fraction ++ exponent

end Numeral

namespace Json

def escapeChar (c : Char) : String :=
  match c with
  | '"' => "\\\""
  | '\\' => "\\\\"
  | '\x08' => "\\b"
  | '\x0c' => "\\f"
  | '\n' => "\\n"
  | '\r' => "\\r"
  | '\t' => "\\t"
  | _ =>
    if c < ' ' then "\\u00" ++ String.ofList (Nat.toDigits 16 (c.toNat / 16))
      ++ String.ofList (Nat.toDigits 16 (c.toNat % 16))
    else String.singleton c

def quoted (text : String) : String :=
  "\"" ++ String.join (text.toList.map escapeChar) ++ "\""

mutual

def text : Json → String
  | .null => "null"
  | .bool true => "true"
  | .bool false => "false"
  | .number n => n.text
  | .string s => quoted s
  | .brokenString => quoted ""
  | .array items => "[" ++ String.intercalate "," (itemTexts items) ++ "]"
  | .object members => "\x7b" ++ String.intercalate "," (memberTexts members) ++ "\x7d"

def itemTexts : List Json → List String
  | [] => []
  | item :: rest => item.text :: itemTexts rest

def memberTexts : List (Option String × Json) → List String
  | [] => []
  | (key, item) :: rest => (quoted (key.getD "") ++ ":" ++ item.text) :: memberTexts rest

end

end Json

end TickScheduler
