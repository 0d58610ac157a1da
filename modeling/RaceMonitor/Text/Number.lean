/-! Numbers in text: decimal digits, and addresses in hexadecimal. -/
namespace RaceMonitor.Text

/-- Decimal digits, with neither sign nor leading zeros. -/
def decimal (n : Nat) : String := String.ofList (Nat.toDigits 10 n)

/-- Lower-case hexadecimal digits behind `0x`. -/
def hexadecimal (n : Nat) : String := "0x" ++ String.ofList (Nat.toDigits 16 n)

def boolean (b : Bool) : String := if b then "true" else "false"

end RaceMonitor.Text
