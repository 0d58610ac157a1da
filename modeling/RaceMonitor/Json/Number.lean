import RaceMonitor.Address
import RaceMonitor.Json.Scan

/-! Numbers in JSON text.

Only natural numbers that fit a word keep their value; any other number is just that. A number
too large for a double is not a number at all, and to tell which those are, the product of a
word and a power of ten is rounded to 53 binary digits as a double rounds it. -/
namespace RaceMonitor.Json

/-- A number, as far as its value matters. -/
inductive Number where
  | natural (n : Word)
  | other
  deriving DecidableEq, Repr, Inhabited

/-- Rounds to 53 significant binary digits; a tie goes to the even neighbour. -/
def roundBinary (n : Nat) : Nat :=
  if n < Nat.pow 2 53 then n
  else
    let shift := n.log2 - 52
    let unit := Nat.pow 2 shift
    let quotient := n / unit
    let remainder := n % unit
    if 2 * remainder > unit ∨ (2 * remainder = unit ∧ quotient % 2 = 1) then (quotient + 1) * unit
    else quotient * unit

/-- Whether `significand * 10 ^ exponent` is within the range of a double. -/
def isFinite (significand : Nat) (exponent : Int) : Bool :=
  significand == 0 || exponent < 0 ||
    (exponent ≤ 308 &&
      roundBinary (roundBinary significand * roundBinary (Nat.pow 10 exponent.toNat)) <
        Nat.pow 2 1024)

/-- Takes digits into a significand as long as it fits a word. -/
def takeIn (significand : Nat) : List Char → Nat × List Char
  | [] => (significand, [])
  | d :: ds =>
    let next := Nat.ofDigitChars 10 [d] significand
    if next < UInt64.size then takeIn next ds else (significand, d :: ds)

/-- The significand and the exponent of the digits before and behind the point: digits that do
not fit are left out, those before the point for a higher exponent. -/
def significandOf (whole fraction : List Char) : Nat × Int :=
  let (significand, left) := takeIn 0 whole
  let (significand', left') := takeIn significand fraction
  (significand', (left.length : Int) - ((fraction.length : Int) - left'.length))

/-- Digits, at least one. What ends the text in their place is `early`. -/
def digits (early : Fault) (cs : List Char) : Scan (List Char) :=
  match cs with
  | [] => .error early
  | c :: _ =>
    if c.isDigit then .ok (cs.takeWhile Char.isDigit, cs.dropWhile Char.isDigit)
    else .error .syntactic

/-- Digits without a leading zero. -/
def wholePart (early : Fault) (cs : List Char) : Scan (List Char) :=
  match digits early cs with
  | .error fault => .error fault
  | .ok (ds, rest) => if ds.head? = some '0' ∧ ds.length ≠ 1 then .error .syntactic else .ok (ds, rest)

/-- The part from a decimal point on, if there is one. -/
def fractionPart (early : Fault) : List Char → Scan (Option (List Char))
  | '.' :: cs => (digits early cs).map fun p => (some p.1, p.2)
  | cs => .ok (none, cs)

/-- The part from an exponent mark on, if there is one: whether it is negative, and its digits. -/
def exponentPart (early : Fault) : List Char → Scan (Option (Bool × List Char))
  | [] => .ok (none, [])
  | c :: cs =>
    if c = 'e' ∨ c = 'E' then
      match cs with
      | '+' :: ds => (digits early ds).map fun p => (some (false, p.1), p.2)
      | '-' :: ds => (digits early ds).map fun p => (some (true, p.1), p.2)
      | ds => (digits early ds).map fun p => (some (false, p.1), p.2)
    else .ok (none, c :: cs)

def exponentOf : Option (Bool × List Char) → Int
  | some (true, ds) => -(Nat.ofDigitChars 10 ds 0 : Int)
  | some (false, ds) => Nat.ofDigitChars 10 ds 0
  | none => 0

/-- What the parts of a number come to. -/
def numberOf (negative : Bool) (whole : List Char) (fraction : Option (List Char))
    (exponent : Option (Bool × List Char)) : Except Fault Number :=
  let n := Nat.ofDigitChars 10 whole 0
  let (significand, shift) := significandOf whole (fraction.getD [])
  if !negative && fraction.isNone && exponent.isNone && n < UInt64.size then
    .ok (.natural (UInt64.ofNat n))
  else if isFinite significand (shift + exponentOf exponent) then .ok .other
  else .error .syntactic

/-- Reads a number without its sign. A number that is skipped need not be in range, and is
malformed where it ends too early. -/
def unsigned (strict negative : Bool) (cs : List Char) : Scan Number :=
  let early := if strict then Fault.eof else Fault.syntactic
  match wholePart early cs with
  | .error fault => .error fault
  | .ok (whole, cs) =>
    match fractionPart early cs with
    | .error fault => .error fault
    | .ok (fraction, cs) =>
      match exponentPart early cs with
      | .error fault => .error fault
      | .ok (exponent, cs) =>
        if strict then (numberOf negative whole fraction exponent).map fun n => (n, cs)
        else .ok (.other, cs)

end RaceMonitor.Json
