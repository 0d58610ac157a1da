import RaceMonitor.Config.Arguments
import RaceMonitor.Engine.Access
import RaceMonitor.Engine.Lifecycle
import RaceMonitor.Engine.Memory

/-! The engine as a machine: one step per event or command, and runs of them.

Opening a session with acceptable arguments starts from no population, on top of the
configuration in force; with bad ones it changes nothing. Closing it drops every population and
the race callback, and keeps the counters. Freed blocks are numbered on from one session to the
next. -/
namespace RaceMonitor.State

def step (s : State) (h : Host) : Event → State × List Output
  | .fork parent child => s.fork parent child
  | .join parent child => s.join parent child
  | .detach by_ tid => s.detach by_ tid
  | .finish by_ tid => s.finish by_ tid
  | .read tid pc addr size => s.access h false tid pc addr size
  | .write tid pc addr size => s.access h true tid pc addr size
  | .acquire tid lock recursive isWrite => s.acquire tid lock recursive isWrite
  | .release tid lock isWrite => s.release tid lock isWrite
  | .alloc tid pc addr size => s.allocate h tid pc addr size
  | .free tid addr => s.deallocate h tid addr
  | .happensBefore tid id => s.happensBefore tid id
  | .happensAfter tid id => s.happensAfter tid id
  | .enter tid pc => s.enter tid pc
  | .exit tid => s.exit tid
  | .mapShadow start size => s.mapShadow start size

def run (s : State) (h : Host) : List Event → State × List Output
  | [] => (s, [])
  | e :: es =>
    let (s, out) := s.step h e
    let (s, out') := s.run h es
    (s, out ++ out')

theorem run_append (s : State) (h : Host) (a b : List Event) :
    s.run h (a ++ b) =
      (((s.run h a).1.run h b).1, (s.run h a).2 ++ ((s.run h a).1.run h b).2) := by
  induction a generalizing s with
  | nil => rfl
  | cons e es ih => simp only [List.cons_append, run, ih, List.append_assoc]

/-- Drops every population. -/
def teardown (s : State) : State := s.withTables s.tables.clear

/-- Takes over a configuration. Every limit is as if it had not been reached yet. -/
def configure (s : State) (config : Config) : State :=
  { s with
    config
    exhausted := .none
    tables := s.tables.putHeap (s.tables.heap.setMaxFreed config.maxFreed) }

/-- A session freshly opened with `config`. -/
def opened (s : State) (config : Config) : State :=
  { s.teardown.configure config with
    active := true
    heard := true
    counters := .zero }

/-- Opens a session and registers the race callback; says whether the arguments were accepted. -/
def init (s : State) (args : List String) : Bool × State × List Output :=
  let (ignored, result) := s.config.walk args
  let noted := ignored.map fun a => Output.note (.argumentIgnored a)
  match result with
  | .error fault => (false, s, noted ++ [.note (.argumentsRejected fault)])
  | .ok config => (true, s.opened config, noted ++ [.note (.initialized s.policy config)])

/-- Closes the session. -/
def finalize (s : State) (h : Host) : State × List Output :=
  let left := (h.order.threads s.tables.threads).countP fun t => t.parent.isSome
  let noted := if left = 0 then [] else [Output.note (.threadsLeft left)]
  ({ s.teardown with active := false, heard := false },
    noted ++ if s.active then [.note (.finalized s.counters)] else [])

/-- The result of a command is whether a session was opened. -/
def exec (s : State) (h : Host) : Command → Option Bool × State × List Output
  | .event e => (none, s.step h e)
  | .init args =>
    let (ok, s, out) := s.init args
    (some ok, s, out)
  | .finalize => (none, s.finalize h)
  | .listen on => (none, { s with listening := on }, [])

/-- A run of commands, without their results. -/
def execAll (s : State) (h : Host) : List Command → State × List Output
  | [] => (s, [])
  | c :: cs =>
    let (_, s, out) := s.exec h c
    let (s, out') := s.execAll h cs
    (s, out ++ out')

/-- A new engine, with or without callbacks. A race callback opens a session. -/
def build (policy : Policy) (config : Config) (heard listening : Bool) : State × List Output :=
  let s := { State.new policy config with listening }
  if heard then (s.init []).2 else (s, [])

end RaceMonitor.State

namespace RaceMonitor

/-- A host whose race callback, once it has taken note of a race, turns to the engine with some
commands; races found in doing so are only taken note of. -/
def Host.reentrant (order : Enumeration) (commands : List Command) : Host :=
  ⟨order, fun _ s => s.execAll ⟨order, fun _ s => (s, [])⟩ commands⟩

end RaceMonitor
