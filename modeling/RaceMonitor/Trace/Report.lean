import RaceMonitor.Backend

/-! What a whole trace shows: it is run through a new engine, and what the engine reports is
collected. -/
namespace RaceMonitor

/-- What a run of a trace found. -/
structure Findings where
  events : Nat
  /-- In the order of their reports. -/
  races : List Race
  anomalies : List Anomaly
  /-- The counters at the end of the trace. -/
  counters : Counters

namespace Findings

/-- No race. -/
def isClean (f : Findings) : Bool := f.races.isEmpty

/-- The findings on a trace; `none` stands for a trace that is not there. -/
def ofTrace (config : Config) : Option Trace.Bytes → Except Trace.Fault Findings
  | none => .error .missing
  | some bytes =>
    let (s, _) := State.build .replay config true true
    let (result, b, out) := (Backend.engine s).replay .recording bytes
    match result with
    | .error fault => .error fault
    | .ok events =>
      .ok ⟨events, out.filterMap Output.race?, out.filterMap Output.anomaly?,
        (b.engine?.map State.counters).getD .zero⟩

end Findings

end RaceMonitor
