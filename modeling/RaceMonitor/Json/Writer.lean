import RaceMonitor.Address
import RaceMonitor.Text.Number

/-! Writing JSON text, without blanks. The names and strings written here need no escapes. -/
namespace RaceMonitor.Json

/-- The values that are written. -/
inductive Scalar where
  | natural (n : Nat)
  | boolean (b : Bool)
  | name (s : String)
  deriving DecidableEq, Repr, Inhabited

def Scalar.text : Scalar → String
  | natural n => Text.decimal n
  | boolean b => Text.boolean b
  | name s => "\"" ++ s ++ "\""

/-- A name with its value. -/
def memberText (m : String × Scalar) : String := "\"" ++ m.1 ++ "\":" ++ m.2.text

def objectText (ms : List (String × Scalar)) : String :=
  "\x7b" ++ String.intercalate "," (ms.map memberText) ++ "\x7d"

end RaceMonitor.Json
