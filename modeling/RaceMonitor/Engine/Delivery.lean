import RaceMonitor.Engine.State

/-! Delivering races and anomalies.

A race is counted before the callback sees it, and the callback may turn back to the engine:
what it does there comes before the rest of the event. -/
namespace RaceMonitor.State

/-- The live block around `addr`, when allocations are tracked. -/
def blockAt (s : State) (addr : Word) : Option Extent :=
  if s.config.trackAllocations then s.tables.heap.blockAt addr else none

/-- An access as one side of a report. -/
def side (s : State) (a : Access) (addr : Word) (block : Option Extent) : Side :=
  let side := a.side addr s.config.stackDepth
  match block with
  | some e => side.withBlock e
  | none => side

def deliver (s : State) (h : Host) (race : Race) : State × List Output :=
  let s := s.count fun c => { c with races := c.races + 1 }
  if s.heard then
    let (s, out) := h.onRace race s
    (s, .note (.raceDetected race) :: .race race :: out)
  else (s, [.note (.raceDetected race), .note (.raceUnheard race)])

/-- Reports `current` against an access on record for the same address. -/
def raiseConflict (s : State) (h : Host) (addr : Word) (kind : RaceKind)
    (prior current : Access) : State × List Output :=
  let block := s.blockAt addr
  s.deliver h ⟨kind, s.side prior addr block, s.side current addr block⟩

/-- Reports `current` against a block that was freed. -/
def raiseUse (s : State) (h : Host) (addr : Word) (hit : UseAfterFree) (current : Access) :
    State × List Output :=
  let race : Race := ⟨.useAfterFree, s.side hit.prior hit.addr (some hit.block),
    s.side current addr (s.blockAt addr)⟩
  (s.count fun c => { c with useAfterFree := c.useAfterFree + 1 }).deliver h race

def raiseAnomaly (s : State) (a : Anomaly) : State × List Output :=
  (s.count fun c => { c with anomalies := c.anomalies + 1 },
    .note (.anomaly a) :: if s.listening then [.anomaly a] else [])

end RaceMonitor.State
