import RaceMonitor.Text.Extender
import RaceMonitor.Text.Invisible
import RaceMonitor.Text.Number

/-! Quoted text.

A quoted string shows every character of its contents on one line: the quote, the backslash
and four controls have short escapes, and a character that has no visible form of its own, or
that would attach to its neighbour, is written as its code point. -/
namespace RaceMonitor.Text

/-- One character between double quotes. -/
def escape (c : Char) : String :=
  match c with
  | '\x00' => "\\0"
  | '\t' => "\\t"
  | '\r' => "\\r"
  | '\n' => "\\n"
  | '\\' => "\\\\"
  | '"' => "\\\""
  | c =>
    if isExtender c || isInvisible c then
      "\\u\x7b" ++ String.ofList (Nat.toDigits 16 c.toNat) ++ "\x7d"
    else String.singleton c

def quoted (s : String) : String := "\"" ++ String.join (s.toList.map escape) ++ "\""

/-- A bracketed list of texts. -/
def listed (items : List String) : String := "[" ++ String.intercalate ", " items ++ "]"

/-- A named record of texts, `Name { field: text, … }`. -/
def recorded (name : String) (fields : List (String × String)) : String :=
  name ++ " \x7b " ++ String.intercalate ", " (fields.map fun f => f.1 ++ ": " ++ f.2) ++ " \x7d"

end RaceMonitor.Text
