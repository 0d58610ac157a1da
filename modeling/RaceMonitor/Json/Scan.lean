/-! The leaves of JSON text: blanks, keywords and strings.

A reader takes the characters that are left and returns what it read with the rest. It fails
with the kind of the first fault met from the left: the text ends too early, it is not JSON, or
it is JSON of a shape that is not wanted. -/
namespace RaceMonitor.Json

/-- What is wrong with a text. -/
inductive Fault where
  /-- It is not JSON. -/
  | syntactic
  /-- It is JSON of another shape than wanted. -/
  | shape
  /-- It ends too early. -/
  | eof
  deriving DecidableEq, Repr, Inhabited

/-- What a reader comes to: a value with the rest of the text, or a fault. -/
abbrev Scan (α : Type) : Type := Except Fault (α × List Char)

def isBlank (c : Char) : Bool := c == ' ' || c == '\n' || c == '\t' || c == '\r'

def skipBlanks (cs : List Char) : List Char := cs.dropWhile isBlank

/-- Reads exactly these characters. -/
def keyword : List Char → List Char → Except Fault (List Char)
  | [], cs => .ok cs
  | _ :: _, [] => .error .eof
  | k :: ks, c :: cs => if k = c then keyword ks cs else .error .syntactic

/-! ### Strings -/

/-- Where a reader stands in a string. -/
inductive Position where
  /-- Between characters. -/
  | plain
  /-- Behind a backslash. -/
  | escape
  /-- In a code unit of which `left` hexadecimal digits are missing, behind the leading
  surrogate `lead` if there is one. -/
  | unit (left value : Nat) (lead : Option Nat)
  /-- Behind a leading surrogate. -/
  | paired (lead : Nat)
  /-- Behind a leading surrogate and a backslash. -/
  | pairedEscape (lead : Nat)
  deriving DecidableEq, Repr, Inhabited

def hexDigit? (c : Char) : Option Nat :=
  if '0' ≤ c ∧ c ≤ '9' then some (c.toNat - '0'.toNat)
  else if 'a' ≤ c ∧ c ≤ 'f' then some (c.toNat - 'a'.toNat + 10)
  else if 'A' ≤ c ∧ c ≤ 'F' then some (c.toNat - 'A'.toNat + 10)
  else none

/-- The character that a one-letter escape stands for. -/
def shortEscape? : Char → Option Char
  | '"' => some '"'
  | '\\' => some '\\'
  | '/' => some '/'
  | 'b' => some '\x08'
  | 'f' => some '\x0c'
  | 'n' => some '\n'
  | 'r' => some '\r'
  | 't' => some '\t'
  | _ => none

/-- Whether a text takes fewer than four bytes in UTF-8. -/
def isShort (cs : List Char) : Bool := (cs.take 4).foldl (fun n c => n + c.utf8Size) 0 < 4

/-- What follows a complete code unit: a character, or the wait for the other surrogate. Read
loosely, a code unit may be anything and stands for nothing. -/
def completeUnit (strict : Bool) (value : Nat) : Option Nat → Except Fault (List Char × Position)
  | some lead =>
    if 0xDC00 ≤ value ∧ value ≤ 0xDFFF then
      .ok ([Char.ofNat ((lead - 0xD800) * 0x400 + (value - 0xDC00) + 0x10000)], .plain)
    else .error .syntactic
  | none =>
    if !strict then .ok ([], .plain)
    else if 0xDC00 ≤ value ∧ value ≤ 0xDFFF then .error .syntactic
    else if 0xD800 ≤ value ∧ value ≤ 0xDBFF then .ok ([], .paired value)
    else .ok ([Char.ofNat value], .plain)

/-- One character further, with `rest` behind it: the characters it adds and the new position. -/
def advance (strict : Bool) (c : Char) (rest : List Char) :
    Position → Except Fault (List Char × Position)
  | .plain =>
    if c = '\\' then .ok ([], .escape)
    else if c.toNat < 0x20 then .error .syntactic
    else .ok ([c], .plain)
  | .escape =>
    if c = 'u' then (if isShort rest then .error .eof else .ok ([], .unit 4 0 none))
    else match shortEscape? c with
      | some e => .ok ([e], .plain)
      | none => .error .syntactic
  | .unit left value lead =>
    match hexDigit? c with
    | none => .error .syntactic
    | some d =>
      if left ≤ 1 then completeUnit strict (value * 16 + d) lead
      else .ok ([], .unit (left - 1) (value * 16 + d) lead)
  | .paired lead => if c = '\\' then .ok ([], .pairedEscape lead) else .error .syntactic
  | .pairedEscape lead =>
    if c = 'u' then (if isShort rest then .error .eof else .ok ([], .unit 4 0 (some lead)))
    else .error .syntactic

/-- Reads a string up to its closing quote, from a position behind the opening one. A text that
is to be kept is read strictly: its surrogates must pair up. -/
def stringFrom (strict : Bool) : Position → List Char → Scan (List Char)
  | _, [] => .error .eof
  | position, c :: cs =>
    if position = .plain ∧ c = '"' then .ok ([], cs)
    else
      match advance strict c cs position with
      | .error fault => .error fault
      | .ok (added, position) =>
        match stringFrom strict position cs with
        | .error fault => .error fault
        | .ok (s, rest) => .ok (added ++ s, rest)

/-- The rest of a string whose opening quote has been read. -/
def string (cs : List Char) : Scan String :=
  (stringFrom true .plain cs).map fun p => (String.ofList p.1, p.2)

end RaceMonitor.Json
