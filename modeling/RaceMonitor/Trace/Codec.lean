import RaceMonitor.Event
import RaceMonitor.Json.Value
import RaceMonitor.Json.Writer

/-! Events as JSON.

An event is an object that names the kind of event under `event`, or an array that starts with
it. The kind fixes the other fields. It is looked at as soon as it comes; the fields are looked
at when the whole value has been read, and then members of other names do not matter. -/
namespace RaceMonitor

/-- The kinds of events. -/
inductive Event.Kind where
  | fork | join | detach | finish | read | write | acquire | release | alloc | free
  | happensBefore | happensAfter | enter | exit | mapShadow
  deriving DecidableEq, Repr, Inhabited

namespace Event.Kind

def all : List Kind :=
  [fork, join, detach, finish, read, write, acquire, release, alloc, free, happensBefore,
   happensAfter, enter, exit, mapShadow]

def name : Kind → String
  | fork => "fork"
  | join => "join"
  | detach => "detach"
  | finish => "finish"
  | read => "read"
  | write => "write"
  | acquire => "acquire"
  | release => "release"
  | alloc => "alloc"
  | free => "free"
  | happensBefore => "happens_before"
  | happensAfter => "happens_after"
  | enter => "func_enter"
  | exit => "func_exit"
  | mapShadow => "map_shadow"

def ofName? (s : String) : Option Kind := all.find? fun k => k.name == s

end Event.Kind

namespace Event

/-! ### Writing -/

/-- The kind of an event, and its fields. -/
def members : Event → Kind × List (String × Json.Scalar)
  | .fork parent child => (.fork, [("parent", id parent), ("child", id child)])
  | .join parent child => (.join, [("parent", id parent), ("child", id child)])
  | .detach by_ tid => (.detach, [("by", id by_), ("tid", id tid)])
  | .finish by_ tid => (.finish, [("by", id by_), ("tid", id tid)])
  | .read tid pc addr size => (.read, place tid pc addr size)
  | .write tid pc addr size => (.write, place tid pc addr size)
  | .acquire tid lock recursive isWrite =>
    (.acquire, [("tid", id tid), ("lock", word lock), ("recursive", .boolean recursive),
      ("is_write", .boolean isWrite)])
  | .release tid lock isWrite =>
    (.release, [("tid", id tid), ("lock", word lock), ("is_write", .boolean isWrite)])
  | .alloc tid pc addr size => (.alloc, place tid pc addr size)
  | .free tid addr => (.free, [("tid", id tid), ("addr", word addr)])
  | .happensBefore tid n => (.happensBefore, [("tid", id tid), ("id", word n)])
  | .happensAfter tid n => (.happensAfter, [("tid", id tid), ("id", word n)])
  | .enter tid pc => (.enter, [("tid", id tid), ("pc", word pc)])
  | .exit tid => (.exit, [("tid", id tid)])
  | .mapShadow start size => (.mapShadow, [("start", word start), ("size", word size)])
where
  id (t : ThreadId) : Json.Scalar := .natural t.toNat
  word (w : Word) : Json.Scalar := .natural w.toNat
  place (tid : ThreadId) (pc addr size : Word) : List (String × Json.Scalar) :=
    [("tid", id tid), ("pc", word pc), ("addr", word addr), ("size", word size)]

def toJson (e : Event) : String :=
  Json.objectText (("event", .name e.members.1.name) :: e.members.2)

/-! ### Reading -/

/-- The fields of an event that has been read, by name or by position. -/
inductive Fields where
  | named (members : List (String × Json.Value))
  | listed (values : List Json.Value)
  deriving Inhabited

/-- The value of the field of this name and position, if it is given. A field given twice is no
field. -/
def Fields.value? (f : Fields) (name : String) (position : Nat) :
    Except Json.Fault (Option Json.Value) :=
  match f with
  | .listed values => .ok values[position]?
  | .named members =>
    match members.filter fun m => m.1 == name with
    | [] => .ok none
    | [m] => .ok (some m.2)
    | _ => .error .shape

def Fields.word (f : Fields) (name : String) (position : Nat) : Except Json.Fault Word := do
  match ← f.value? name position with
  | some (.number (.natural n)) => .ok n
  | _ => .error .shape

def Fields.thread (f : Fields) (name : String) (position : Nat) : Except Json.Fault ThreadId := do
  let n ← f.word name position
  if n.toNat < UInt32.size then .ok (UInt32.ofNat n.toNat) else .error .shape

/-- A truth value that need not be given. -/
def Fields.boolean (f : Fields) (name : String) (position : Nat) (ifAbsent : Bool) :
    Except Json.Fault Bool := do
  match ← f.value? name position with
  | some (.boolean b) => .ok b
  | none => .ok ifAbsent
  | _ => .error .shape

/-- An array may not be longer than the fields are many. -/
def Fields.atMost (f : Fields) (count : Nat) : Except Json.Fault Unit :=
  match f with
  | .listed values => if values.length ≤ count then .ok () else .error .shape
  | .named _ => .ok ()

/-- The event of a kind with these fields. Locks are taken for itself and by the outermost
acquisition, if nothing else is said. -/
def ofFields (f : Fields) : Kind → Except Json.Fault Event
  | .fork => pair f "parent" "child" .fork
  | .join => pair f "parent" "child" .join
  | .detach => pair f "by" "tid" .detach
  | .finish => pair f "by" "tid" .finish
  | .read => place f .read
  | .write => place f .write
  | .alloc => place f .alloc
  | .acquire => do
    f.atMost 4
    return .acquire (← f.thread "tid" 0) (← f.word "lock" 1) (← f.boolean "recursive" 2 false)
      (← f.boolean "is_write" 3 true)
  | .release => do
    f.atMost 3
    return .release (← f.thread "tid" 0) (← f.word "lock" 1) (← f.boolean "is_write" 2 true)
  | .free => point f "addr" .free
  | .happensBefore => point f "id" .happensBefore
  | .happensAfter => point f "id" .happensAfter
  | .enter => point f "pc" .enter
  | .exit => do
    f.atMost 1
    return .exit (← f.thread "tid" 0)
  | .mapShadow => do
    f.atMost 2
    return .mapShadow (← f.word "start" 0) (← f.word "size" 1)
where
  pair (f : Fields) (a b : String) (make : ThreadId → ThreadId → Event) :
      Except Json.Fault Event := do
    f.atMost 2
    return make (← f.thread a 0) (← f.thread b 1)
  point (f : Fields) (a : String) (make : ThreadId → Word → Event) : Except Json.Fault Event := do
    f.atMost 2
    return make (← f.thread "tid" 0) (← f.word a 1)
  place (f : Fields) (make : ThreadId → Word → Word → Word → Event) :
      Except Json.Fault Event := do
    f.atMost 4
    return make (← f.thread "tid" 0) (← f.word "pc" 1) (← f.word "addr" 2) (← f.word "size" 3)

/-- Reads the name of a kind. -/
def scanKind (cs : List Char) : Json.Scan Kind :=
  match Json.stringValue cs with
  | .error fault => .error fault
  | .ok (s, rest) =>
    match Kind.ofName? s with
    | some k => .ok (k, rest)
    | none => .error .shape

/-- Values inside an event have one level of nesting less than a text. -/
def scanInner (cs : List Char) : Json.Scan Json.Value := Json.value true (Json.maxDepth - 1) cs

/-- Reads a member: the kind, which may come only once, or another field. -/
def scanMember (s : Option Kind × List (String × Json.Value)) (key : String) (cs : List Char) :
    Json.Scan (Option Kind × List (String × Json.Value)) :=
  if key = "event" ∧ s.1.isSome then .error .shape
  else
    match Json.colon cs with
    | .error fault => .error fault
    | .ok cs =>
      if key = "event" then (scanKind cs).map fun p => ((some p.1, s.2), p.2)
      else (scanInner cs).map fun p => ((s.1, s.2 ++ [(key, p.1)]), p.2)

/-- Reads the kind and the fields of an event. -/
def scanFields (cs : List Char) : Json.Scan (Kind × Fields) :=
  match Json.skipBlanks cs with
  | '{' :: rest =>
    match Json.members true scanMember (none, []) rest with
    | .error fault => .error fault
    | .ok ((some k, ms), rest) => .ok ((k, .named ms), rest)
    | .ok ((none, _), _) => .error .shape
  | '[' :: rest =>
    match Json.nextElement true rest with
    | .error fault => .error fault
    | .ok (.done _) => .error .shape
    | .ok (.item cs) =>
      match scanKind cs with
      | .error fault => .error fault
      | .ok (k, cs) =>
        (Json.elements (fun vs cs => (scanInner cs).map fun p => (vs ++ [p.1], p.2)) false [] cs).map
          fun p => ((k, .listed p.1), p.2)
  | cs => .error (Json.unwanted cs)

def scan (cs : List Char) : Json.Scan Event :=
  match scanFields cs with
  | .error fault => .error fault
  | .ok ((k, f), rest) => (ofFields f k).map fun e => (e, rest)

/-- Reads a whole text as an event. -/
def ofJson (cs : List Char) : Except Json.Fault Event := Json.whole scan cs

end Event

end RaceMonitor
