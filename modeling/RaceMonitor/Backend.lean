import RaceMonitor.Engine.Basic
import RaceMonitor.Trace.Basic

/-! Backends: what stands behind the host's calls.

Besides the engine there is one that drops every event and one that notes every event and
reports nothing. -/
namespace RaceMonitor

inductive BackendKind where
  | engine
  | silent
  | printer
  deriving DecidableEq, Repr, Inhabited

namespace BackendKind

def all : List BackendKind := [engine, silent, printer]

def name : BackendKind → String
  | engine => "fasttrack"
  | silent => "dummy"
  | printer => "printer"

/-- The name inside a description. -/
def detail : BackendKind → String
  | engine => "FastTrack"
  | silent => "Dummy"
  | printer => "Printer"

/-- The kind of exactly this name. -/
def ofName? (s : String) : Option BackendKind := all.find? fun k => k.name == s

/-- Other names that are understood. -/
def ofAlias? : String → Option BackendKind
  | "ft" => some engine
  | "null" => some silent
  | _ => none

/-- The kind of a name, with blanks around it and in letters of either case. -/
def parse (s : String) : Except Fault BackendKind :=
  let plain := String.ofList ((Text.trim s.toList).map Char.toLower)
  match (ofName? plain).or (ofAlias? plain) with
  | some k => .ok k
  | none => .error (.invalidArgument plain "expected one of fasttrack, dummy, printer")

end BackendKind

inductive Backend where
  | engine (s : State)
  | silent
  | printer

namespace Backend

/-- A new backend of this kind; the configuration matters to the engine only. -/
def new (kind : BackendKind) (config : Config) : Backend :=
  match kind with
  | .engine => engine (State.new .concurrent config)
  | .silent => silent
  | .printer => printer

def kind : Backend → BackendKind
  | engine _ => .engine
  | silent => .silent
  | printer => .printer

def text (b : Backend) : String := "AnyDetector(" ++ b.kind.detail ++ ")"

/-- The name that a backend gives itself. -/
def name : Backend → String
  | engine _ => engineName
  | silent => "Dummy"
  | printer => "Printer"

/-- The engine, if it is one. -/
def engine? : Backend → Option State
  | engine s => some s
  | _ => none

/-- Whether a backend without an engine accepts a command's arguments: it does. -/
def accepts : Command → Option Bool
  | .init _ => some true
  | _ => none

def exec (b : Backend) (h : Host) (c : Command) : Option Bool × Backend × List Output :=
  match b with
  | engine s =>
    let (result, s, out) := s.exec h c
    (result, engine s, out)
  | silent => (accepts c, silent, [])
  | printer =>
    (accepts c, printer,
      match c with
      | .listen _ => []
      | _ => [.note (.seen c)])

/-- One event; its outputs are put in front of those before, the last one first. -/
def take (h : Host) (s : Backend × List Output) (e : Event) : Backend × List Output :=
  let (_, b, out) := s.1.exec h (.event e)
  (b, out.reverse ++ s.2)

/-- Feeds a trace to a backend. A trace that is read to its end is noted. -/
def replay (b : Backend) (h : Host) (bytes : Trace.Bytes) :
    Except Trace.Fault Nat × Backend × List Output :=
  let (result, b, out) := Trace.feed (take h) (b, []) bytes
  (result, b,
    out.reverse ++ match result with
      | .ok count => [.note (.replayed b.name count)]
      | .error _ => [])

end Backend

end RaceMonitor
