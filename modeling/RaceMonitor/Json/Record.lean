import RaceMonitor.Json.Value

/-! Records in JSON text: values with named fields.

A record is written as an object, whose members may come in any order, or as an array of its
values in the order of the fields. Members of other names are passed over; a field given twice
is a fault, found when its name comes for the second time. -/
namespace RaceMonitor.Json

/-- A field of a record `ρ`: its name, and how its value is read into the record. -/
structure Field (ρ : Type) where
  name : String
  read : ρ → List Char → Scan ρ

/-- A field that holds a word. -/
def Field.word {ρ : Type} (name : String) (put : ρ → Word → ρ) : Field ρ :=
  ⟨name, fun r cs => (wordValue cs).map fun p => (put r p.1, p.2)⟩

/-- A field that holds a truth value. -/
def Field.boolean {ρ : Type} (name : String) (put : ρ → Bool → ρ) : Field ρ :=
  ⟨name, fun r cs => (booleanValue cs).map fun p => (put r p.1, p.2)⟩

/-- How the fields of a record are read, and whether all of them have to be there. -/
structure Layout (ρ : Type) where
  fields : List (Field ρ)
  complete : Bool

namespace Layout

variable {ρ : Type}

/-- Reads a member into the record, and keeps the names of the fields read. -/
def member (l : Layout ρ) (s : ρ × List String) (key : String) (cs : List Char) :
    Scan (ρ × List String) :=
  match l.fields.find? fun f => f.name == key with
  | some f =>
    if s.2.contains key then .error .shape
    else match colon cs with
      | .error fault => .error fault
      | .ok cs => (f.read s.1 cs).map fun p => ((p.1, key :: s.2), p.2)
  | none =>
    match colon cs with
    | .error fault => .error fault
    | .ok cs => (skipValue cs).map fun rest => (s, rest)

/-- Reads the values of the fields that are left from an array, which then has to end. -/
def sequence (l : Layout ρ) : List (Field ρ) → Bool → ρ → List Char → Scan ρ
  | [], _, r, cs =>
    match skipBlanks cs with
    | [] => .error .eof
    | ']' :: rest => .ok (r, rest)
    | _ => .error .syntactic
  | f :: fs, first, r, cs =>
    match nextElement first cs with
    | .error fault => .error fault
    | .ok (.done rest) => if l.complete then .error .shape else .ok (r, rest)
    | .ok (.item cs) =>
      match f.read r cs with
      | .error fault => .error fault
      | .ok (r, cs) => l.sequence fs false r cs

/-- Reads a record on top of `r`. -/
def scan (l : Layout ρ) (r : ρ) (cs : List Char) : Scan ρ :=
  match skipBlanks cs with
  | '[' :: rest => l.sequence l.fields true r rest
  | '{' :: rest =>
    match members true l.member (r, []) rest with
    | .error fault => .error fault
    | .ok ((r, seen), rest) =>
      if l.complete && seen.length != l.fields.length then .error .shape else .ok (r, rest)
  | cs => .error (unwanted cs)

/-- Reads a whole text as a record on top of `r`. -/
def read (l : Layout ρ) (r : ρ) (text : String) : Except Fault ρ :=
  whole (l.scan r) text.toList

end Layout

end RaceMonitor.Json
