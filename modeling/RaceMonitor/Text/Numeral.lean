import RaceMonitor.Address

/-! Reading a word from decimal text: digits with an optional plus sign, nothing else. -/
namespace RaceMonitor.Text

/-- Why a text is not a word. -/
inductive NumeralFault where
  | empty
  | invalidDigit
  | tooLarge
  deriving DecidableEq, Repr, Inhabited

def NumeralFault.text : NumeralFault → String
  | empty => "cannot parse integer from empty string"
  | invalidDigit => "invalid digit found in string"
  | tooLarge => "number too large to fit in target type"

/-- The value of a decimal digit. -/
def digit? (c : Char) : Option Nat :=
  if '0' ≤ c ∧ c ≤ '9' then some (c.toNat - '0'.toNat) else none

/-- Reads digits onto `n`; whichever fault comes first from the left is reported. -/
def digitsOnto (n : Nat) : List Char → Except NumeralFault Nat
  | [] => .ok n
  | c :: cs =>
    match digit? c with
    | none => .error .invalidDigit
    | some d => if n * 10 + d < UInt64.size then digitsOnto (n * 10 + d) cs else .error .tooLarge

def word (cs : List Char) : Except NumeralFault Word :=
  match cs with
  | [] => .error .empty
  | ['+'] => .error .invalidDigit
  | '+' :: ds => (digitsOnto 0 ds).map UInt64.ofNat
  | ds => (digitsOnto 0 ds).map UInt64.ofNat

end RaceMonitor.Text
