import RaceMonitor.Text.Blank
import RaceMonitor.Trace.Codec

/-! Traces: events in lines of text.

A trace is a sequence of bytes. Its lines end at line feeds, and each is read by itself: it has
to be UTF-8, blanks around it do not matter, and an empty line or one that starts with `#` is
skipped. -/
namespace RaceMonitor.Trace

abbrev Bytes := List UInt8

/-- The line feed. -/
def lineFeed : UInt8 := 10

/-- The lines of a text behind the bytes `line`, which come in reverse. What is left behind the
last line feed is a line if it is not empty. -/
def linesFrom (line : Bytes) : Bytes → List Bytes
  | [] => if line.isEmpty then [] else [line.reverse]
  | b :: bs => if b = lineFeed then line.reverse :: linesFrom [] bs else linesFrom (b :: line) bs

def lines (bytes : Bytes) : List Bytes := linesFrom [] bytes

/-- Why a trace cannot be read. -/
inductive Fault where
  /-- There is no trace. -/
  | missing
  /-- A line is not UTF-8. -/
  | encoding
  /-- The line of this number, counted from 1, holds no event. -/
  | malformed (line : Nat) (fault : Json.Fault)
  deriving DecidableEq, Repr, Inhabited

/-- The message, without what is wrong in the line. -/
def Fault.text : Fault → String
  | missing => "trace I/O failed: No such file or directory (os error 2)"
  | encoding => "trace I/O failed: stream did not contain valid UTF-8"
  | malformed line _ => "malformed event on line " ++ Text.decimal line ++ ": "

/-- What a line holds, if it is not skipped; `number` is its number. -/
def eventOf (number : Nat) (line : Bytes) : Except Fault (Option Event) :=
  match String.fromUTF8? (ByteArray.mk line.toArray) with
  | none => .error .encoding
  | some text =>
    match Text.trim text.toList with
    | [] => .ok none
    | '#' :: _ => .ok none
    | cs =>
      match Event.ofJson cs with
      | .ok e => .ok (some e)
      | .error fault => .error (.malformed number fault)

/-- The events of some lines, of which the first has this number. -/
def eventsFrom (number : Nat) : List Bytes → Except Fault (List Event)
  | [] => .ok []
  | line :: rest =>
    match eventOf number line with
    | .error fault => .error fault
    | .ok e =>
      match eventsFrom (number + 1) rest with
      | .error fault => .error fault
      | .ok es => .ok (e.toList ++ es)

def read (bytes : Bytes) : Except Fault (List Event) := eventsFrom 1 (lines bytes)

/-- The lines that hold the events. -/
def texts (events : List Event) : List String := events.map Event.toJson

def write (events : List Event) : Bytes :=
  (texts events).flatMap fun s => s.toUTF8.toList ++ [lineFeed]

/-- Feeds the events of some lines to a machine, one by one, and returns how many there were. A
line that cannot be read stops it behind the events before. -/
def feedFrom {σ : Type} (step : σ → Event → σ) (number count : Nat) (s : σ) :
    List Bytes → Except Fault Nat × σ
  | [] => (.ok count, s)
  | line :: rest =>
    match eventOf number line with
    | .error fault => (.error fault, s)
    | .ok none => feedFrom step (number + 1) count s rest
    | .ok (some e) => feedFrom step (number + 1) (count + 1) (step s e) rest

def feed {σ : Type} (step : σ → Event → σ) (s : σ) (bytes : Bytes) : Except Fault Nat × σ :=
  feedFrom step 1 0 s (lines bytes)

end RaceMonitor.Trace
