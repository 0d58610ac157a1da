import RaceMonitor.Json.Number

/-! Values in JSON text, and the loops over arrays and objects.

Arrays and objects are read by loops that hand each element or member to a function as it comes,
so that what the function finds wrong is reported before anything behind it. A value that is
kept may nest 127 levels deep, the array or object that holds it included; a value that is
skipped may nest as deep as it likes. -/
namespace RaceMonitor.Json

/-- A value, as far as it matters: nothing here looks into arrays and objects. -/
inductive Value where
  | null
  | boolean (b : Bool)
  | number (n : Number)
  | string (s : String)
  | compound
  deriving DecidableEq, Repr, Inhabited

/-- The levels of arrays and objects in a text. -/
def maxDepth : Nat := 127

/-! ### Arrays -/

/-- What comes next in an array or object. -/
inductive Next where
  /-- An element or member, which starts here. -/
  | item (cs : List Char)
  /-- The end, with what is behind it. -/
  | done (cs : List Char)

/-- Looks for the next element; `first` says that none came before. -/
def nextElement (first : Bool) (cs : List Char) : Except Fault Next :=
  match skipBlanks cs with
  | [] => .error .eof
  | ']' :: rest => .ok (.done rest)
  | c :: rest =>
    if first then .ok (.item (c :: rest))
    else if c = ',' then
      match skipBlanks rest with
      | [] => .error .eof
      | ']' :: _ => .error .syntactic
      | rest => .ok (.item rest)
    else .error .syntactic

/-- Reads the elements of an array from behind its bracket. Each takes up some text, so the
length of the text bounds the rounds. -/
def elementsFrom {σ : Type} (element : σ → List Char → Scan σ) :
    Nat → Bool → σ → List Char → Scan σ
  | 0, _, _, _ => .error .eof
  | n + 1, first, s, cs =>
    match nextElement first cs with
    | .error fault => .error fault
    | .ok (.done rest) => .ok (s, rest)
    | .ok (.item cs) =>
      match element s cs with
      | .error fault => .error fault
      | .ok (s, cs) => elementsFrom element n false s cs

def elements {σ : Type} (element : σ → List Char → Scan σ) (first : Bool) (s : σ)
    (cs : List Char) : Scan σ :=
  elementsFrom element (cs.length + 1) first s cs

/-! ### Objects -/

/-- Looks for the next member, which starts behind the quote of its key. -/
def nextMember (first : Bool) (cs : List Char) : Except Fault Next :=
  match skipBlanks cs with
  | [] => .error .eof
  | '}' :: rest => .ok (.done rest)
  | '"' :: rest => if first then .ok (.item rest) else .error .syntactic
  | c :: rest =>
    if c = ',' ∧ !first then
      match skipBlanks rest with
      | [] => .error .eof
      | '"' :: rest => .ok (.item rest)
      | _ => .error .syntactic
    else .error .syntactic

/-- Reads the members of an object from behind its brace: `member` gets the key, and reads the
colon and the value. -/
def membersFrom {σ : Type} (strict : Bool) (member : σ → String → List Char → Scan σ) :
    Nat → Bool → σ → List Char → Scan σ
  | 0, _, _, _ => .error .eof
  | n + 1, first, s, cs =>
    match nextMember first cs with
    | .error fault => .error fault
    | .ok (.done rest) => .ok (s, rest)
    | .ok (.item cs) =>
      match stringFrom strict .plain cs with
      | .error fault => .error fault
      | .ok (key, cs) =>
        match member s (String.ofList key) cs with
        | .error fault => .error fault
        | .ok (s, cs) => membersFrom strict member n false s cs

def members {σ : Type} (strict : Bool) (member : σ → String → List Char → Scan σ) (s : σ)
    (cs : List Char) : Scan σ :=
  membersFrom strict member (cs.length + 1) true s cs

/-- Reads the colon behind a key. -/
def colon (cs : List Char) : Except Fault (List Char) :=
  match skipBlanks cs with
  | [] => .error .eof
  | ':' :: rest => .ok rest
  | _ => .error .syntactic

/-! ### Values -/

/-- Reads a value that is neither array nor object, or else asks `compound`. -/
def valueWith (strict : Bool) (compound : Char → List Char → Scan Value) (cs : List Char) :
    Scan Value :=
  match skipBlanks cs with
  | [] => .error .eof
  | c :: rest =>
    if c = 'n' then (keyword ['u', 'l', 'l'] rest).map fun cs => (.null, cs)
    else if c = 't' then (keyword ['r', 'u', 'e'] rest).map fun cs => (.boolean true, cs)
    else if c = 'f' then (keyword ['a', 'l', 's', 'e'] rest).map fun cs => (.boolean false, cs)
    else if c = '"' then
      (stringFrom strict .plain rest).map fun p => (.string (String.ofList p.1), p.2)
    else if c = '-' then (unsigned strict true rest).map fun p => (.number p.1, p.2)
    else if c.isDigit then (unsigned strict false (c :: rest)).map fun p => (.number p.1, p.2)
    else if c = '[' ∨ c = '{' then compound c rest
    else .error .syntactic

/-- Reads a value with at most `depth` levels of arrays and objects. -/
def value (strict : Bool) : Nat → List Char → Scan Value
  | 0 => valueWith strict fun _ _ => .error .syntactic
  | depth + 1 => valueWith strict fun c rest =>
    if c = '[' then
      (elements (fun (_ : Unit) cs => (value strict depth cs).map fun p => ((), p.2)) true () rest).map
        fun p => (.compound, p.2)
    else
      (members strict (fun (_ : Unit) _ cs =>
          match colon cs with
          | .error fault => .error fault
          | .ok cs => (value strict depth cs).map fun p => ((), p.2)) () rest).map
        fun p => (.compound, p.2)

/-- Passes over a value. -/
def skipValue (cs : List Char) : Except Fault (List Char) :=
  (value false cs.length cs).map Prod.snd

/-- What is wrong with the value that comes next when another is wanted: it may be malformed, or
else it is of another shape. Arrays and objects are not looked into. -/
def unwanted (cs : List Char) : Fault :=
  match valueWith true (fun _ _ => .error .shape) cs with
  | .error fault => fault
  | .ok _ => .shape

/-! ### Wanted values -/

def wordValue (cs : List Char) : Scan Word :=
  match value true 0 cs with
  | .ok (.number (.natural n), rest) => .ok (n, rest)
  | _ => .error (unwanted cs)

def booleanValue (cs : List Char) : Scan Bool :=
  match value true 0 cs with
  | .ok (.boolean b, rest) => .ok (b, rest)
  | _ => .error (unwanted cs)

def stringValue (cs : List Char) : Scan String :=
  match value true 0 cs with
  | .ok (.string s, rest) => .ok (s, rest)
  | _ => .error (unwanted cs)

/-- Reads a whole text: nothing but blanks may be behind the value. -/
def whole {α : Type} (read : List Char → Scan α) (cs : List Char) : Except Fault α :=
  match read cs with
  | .error fault => .error fault
  | .ok (a, rest) => if (skipBlanks rest).isEmpty then .ok a else .error .syntactic

end RaceMonitor.Json
