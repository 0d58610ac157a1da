import RaceMonitor.Anomaly
import RaceMonitor.Config
import RaceMonitor.Counters
import RaceMonitor.Event
import RaceMonitor.Fault
import RaceMonitor.Handle
import RaceMonitor.Lock
import RaceMonitor.Report

/-! The monitor's log.

A note is one thing worth recording, as data. Its line has the level, the message and the named
values; text that comes from outside is quoted. -/
namespace RaceMonitor

inductive Level where
  | error
  | warn
  | info
  | debug
  | trace
  deriving DecidableEq, Repr, Inhabited

namespace Level

def text : Level → String
  | error => "ERROR"
  | warn => "WARN"
  | info => "INFO"
  | debug => "DEBUG"
  | trace => "TRACE"

/-- Severe levels come first. -/
def rank : Level → Nat
  | error => 0
  | warn => 1
  | info => 2
  | debug => 3
  | trace => 4

/-- Whether a log kept at this level records notes of level `l`. -/
def admits (kept l : Level) : Bool := l.rank ≤ kept.rank

end Level

/-- How the populations are kept; it shows in the log only. -/
inductive Policy where
  /-- For one thread of control, which replays a trace. -/
  | replay
  /-- For the monitored threads themselves. -/
  | concurrent
  deriving DecidableEq, Repr, Inhabited

def Policy.name : Policy → String
  | replay => "replay"
  | concurrent => "concurrent"

/-- The version of the monitor. -/
def version : String := "0.1.0"

/-- The name of the engine. -/
def engineName : String := "FastTrack"

inductive Note where
  | argumentsRejected (fault : Fault)
  /-- The session ended while forked threads were live. -/
  | threadsLeft (count : Nat)
  | limitReached (resource : Resource) (limit : Word)
  | anomaly (a : Anomaly)
  | clockSaturated (tid : ThreadId)
  | initialized (policy : Policy) (config : Config)
  | finalized (counters : Counters)
  | argumentIgnored (argument : String)
  | threadRetired (tid : ThreadId)
  | threadRegistered (tid : ThreadId)
  | forked (parent child : ThreadId)
  | joined (parent child : ThreadId)
  | detached (by_ tid : ThreadId)
  | finished (by_ tid : ThreadId)
  | blockReplaced (base : Word)
  | allocated (tid : ThreadId) (addr size : Word)
  | deallocated (tid : ThreadId) (addr : Word) (epoch : Epoch)
  | freesObserved (count left : Nat)
  | regionMapped (start size : Word)
  | raceDetected (race : Race)
  /-- A race with no callback to deliver it to. -/
  | raceUnheard (race : Race)
  | replayed (backend : String) (events : Nat)
  | accessed (tid : ThreadId) (pc addr : Word) (write : Bool)
  | acquired (tid : ThreadId) (lock : Word) (recursive isWrite : Bool) (depth : UInt32)
  | released (tid : ThreadId) (lock : Word) (isWrite : Bool) (outcome : Release)
  | signalled (tid : ThreadId) (id : Word)
  | awaited (tid : ThreadId) (id : Word)
  /-- A command seen by the backend that prints what it sees. -/
  | seen (c : Command)

namespace Note

def level : Note → Level
  | argumentsRejected .. | threadsLeft .. => .error
  | limitReached .. | anomaly .. | clockSaturated .. => .warn
  | initialized .. | finalized .. | seen .. => .info
  | accessed .. | acquired .. | released .. | signalled .. | awaited .. => .trace
  | _ => .debug

def word (w : Word) : String := Text.decimal w.toNat

def handle (t : ThreadId) : String := (Handle.mk t).text

/-- The message and the named values of a command that is printed. -/
def lineOf : Command → String × List (String × String)
  | .init args => ("init", [("args", Text.listed (args.map Text.quoted))])
  | .finalize => ("finalize", [])
  | .listen _ => ("listen", [])
  | .event e =>
    match e with
    | .mapShadow start size => ("map_shadow", [("start", word start), ("size", word size)])
    | .read t pc addr size => ("read", place t pc addr size)
    | .write t pc addr size => ("write", place t pc addr size)
    | .alloc t pc addr size => ("allocate", place t pc addr size)
    | .free t addr => ("deallocate", [("ctx", handle t), ("addr", word addr)])
    | .acquire t lock recursive isWrite =>
      ("acquire", [("ctx", handle t), ("lock", word lock),
        ("recursive", Text.boolean recursive), ("is_write", Text.boolean isWrite)])
    | .release t lock isWrite =>
      ("release", [("ctx", handle t), ("lock", word lock), ("is_write", Text.boolean isWrite)])
    | .happensBefore t id => ("happens_before", [("ctx", handle t), ("id", word id)])
    | .happensAfter t id => ("happens_after", [("ctx", handle t), ("id", word id)])
    | .fork parent child => ("fork", [("parent", handle parent), ("child", child.text)])
    | .join parent child => ("join", [("parent", handle parent), ("child", child.text)])
    | .detach by_ tid => ("detach", [("ctx", handle by_), ("tid", tid.text)])
    | .finish by_ tid => ("finish", [("ctx", handle by_), ("tid", tid.text)])
    | .enter t pc => ("func_enter", [("ctx", handle t), ("pc", word pc)])
    | .exit t => ("func_exit", [("ctx", handle t)])
where
  place (t : ThreadId) (pc addr size : Word) : List (String × String) :=
    [("ctx", handle t), ("pc", word pc), ("addr", word addr), ("size", word size)]

/-- The message and the named values. -/
def line : Note → String × List (String × String)
  | argumentsRejected fault => ("rejecting detector arguments", [("err", fault.text)])
  | threadsLeft count => ("tearing down anyway", [("err", (Fault.liveThreads count).text)])
  | limitReached r limit =>
    ("further " ++ r.label ++ " stay untracked",
      [("err", (Fault.capacityExhausted r.label limit).text)])
  | anomaly a => ("usage anomaly", [("anomaly", a.text)])
  | clockSaturated t =>
    ("logical clock saturated, later epochs of this thread compare equal", [("tid", t.text)])
  | initialized policy config =>
    ("detector initialized",
      [("name", Text.quoted engineName), ("version", Text.quoted version),
       ("policy", Text.quoted policy.name), ("config", config.text)])
  | finalized counters => ("detector finalized", [("stats", counters.text)])
  | argumentIgnored arg => ("ignoring unknown detector argument", [("arg", Text.quoted arg)])
  | threadRetired t => ("event from retired thread ignored", [("tid", t.text)])
  | threadRegistered t => ("registering unknown thread as root", [("tid", t.text)])
  | forked p c => ("fork", [("parent", p.text), ("child", c.text)])
  | joined p c => ("join", [("parent", p.text), ("child", c.text)])
  | detached b t => ("detach", [("by", b.text), ("tid", t.text)])
  | finished b t => ("finish", [("by", b.text), ("tid", t.text)])
  | blockReplaced base =>
    ("allocation replaced a live block without free", [("base", word base)])
  | allocated t addr size =>
    ("allocate", [("tid", t.text), ("addr", word addr), ("size", word size)])
  | deallocated t addr epoch =>
    ("deallocate", [("tid", t.text), ("addr", word addr), ("epoch", epoch.text)])
  | freesObserved count left =>
    ("retired observed frees", [("count", Text.decimal count), ("left", Text.decimal left)])
  | regionMapped start size => ("map shadow", [("start", word start), ("size", word size)])
  | raceDetected r =>
    ("race detected",
      [("kind", r.kind.label), ("first", Text.decimal r.first.tid.toNat),
       ("second", Text.decimal r.second.tid.toNat), ("addr", word r.second.addr)])
  | raceUnheard r => ("race found with no callback registered", [("race", r.text)])
  | replayed backend events =>
    ("trace replayed", [("backend", Text.quoted backend), ("events", Text.decimal events)])
  | accessed t pc addr write =>
    ("access", [("tid", t.text), ("pc", word pc), ("addr", word addr), ("write", Text.boolean write)])
  | acquired t lock recursive isWrite depth =>
    ("acquire", [("tid", t.text), ("lock", word lock), ("recursive", Text.boolean recursive),
      ("is_write", Text.boolean isWrite), ("depth", Text.decimal depth.toNat)])
  | released t lock isWrite outcome =>
    ("release", [("tid", t.text), ("lock", word lock), ("is_write", Text.boolean isWrite),
      ("outcome", outcome.text)])
  | signalled t id => ("happens-before", [("tid", t.text), ("id", word id)])
  | awaited t id => ("happens-after", [("tid", t.text), ("id", word id)])
  | seen c => lineOf c

/-- Level, message and `name=value` for each value, with blanks between. -/
def text (n : Note) : String :=
  let (message, fields) := n.line
  String.intercalate " " (n.level.text :: message :: fields.map fun f => f.1 ++ "=" ++ f.2)

end Note

/-- What the monitor lets out while it handles a command, in order. -/
inductive Output where
  | note (n : Note)
  /-- A race handed to the race callback. -/
  | race (r : Race)
  /-- An anomaly handed to the anomaly callback. -/
  | anomaly (a : Anomaly)

namespace Output

def race? : Output → Option Race
  | race r => some r
  | _ => none

def anomaly? : Output → Option Anomaly
  | anomaly a => some a
  | _ => none

/-- The line of a note that a log kept at `kept` records. -/
def line? (kept : Level) : Output → Option String
  | note n => if kept.admits n.level then some n.text else none
  | _ => none

end Output

end RaceMonitor
