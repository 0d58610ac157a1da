import RaceMonitor.Engine.Admission
import RaceMonitor.Engine.Delivery

/-! Events that order threads: locks and signals.

The outermost release of a lock publishes what the thread has observed, and the outermost
acquire takes in what was published; a signal does the same with two events. Every event that
publishes ends the thread's epoch, and so does an outermost acquire. -/
namespace RaceMonitor.State

/-- The note of a thread that is about to saturate. -/
def tickNote (t : Thread) : List Output :=
  if t.saturatesNext then [.note (.clockSaturated t.tid)] else []

def acquire (s : State) (tid : ThreadId) (id : Word) (recursive isWrite : Bool) :
    State × List Output :=
  let (t, s, noted) := s.thread tid
  let (l, s, noted') := s.lock id
  match t, l with
  | some t, some l =>
    let (outermost, l) := l.acquire tid
    let observed := t.observe l.clock
    let s := s.withTables (s.tables.putLock id l)
    let done := .note (.acquired tid id recursive isWrite (l.depth tid))
    if outermost then
      (s.withTables (s.tables.putThread observed.tick),
        noted ++ noted' ++ tickNote observed ++ [done])
    else (s, noted ++ noted' ++ [done])
  | _, _ => (s.countUntracked, noted ++ noted')

def release (s : State) (tid : ThreadId) (id : Word) (isWrite : Bool) : State × List Output :=
  let (t, s, noted) := s.thread tid
  match t with
  | none => (s.countUntracked, noted)
  | some t =>
    let (outcome, l) := (s.tables.locks[id]?.getD .fresh).release tid
    let done := .note (.released tid id isWrite outcome)
    match outcome with
    | .released =>
      let tables := s.tables.putLock id (l.absorb t.clock)
      (s.withTables (tables.putThread t.tick), noted ++ tickNote t ++ [done])
    | .nested =>
      (s.withTables (s.tables.putLock id l), noted ++ [done])
    | .notHeld =>
      let (s, out) := s.raiseAnomaly (.releaseWithoutAcquire tid id)
      (s, noted ++ out)

def happensBefore (s : State) (tid : ThreadId) (id : Word) : State × List Output :=
  let (t, s, noted) := s.thread tid
  let (vc, s, noted') := s.signal id
  match t, vc with
  | some t, some vc =>
    let tables := s.tables.putSignal id (vc.join t.clock)
    (s.withTables (tables.putThread t.tick),
      noted ++ noted' ++ tickNote t ++ [.note (.signalled tid id)])
  | _, _ => (s.countUntracked, noted ++ noted')

/-- A signal that nobody has sent yet is an empty clock. -/
def happensAfter (s : State) (tid : ThreadId) (id : Word) : State × List Output :=
  let (t, s, noted) := s.thread tid
  let (vc, s, noted') := s.signal id
  match t, vc with
  | some t, some vc =>
    (s.withTables (s.tables.putThread (t.observe vc)),
      noted ++ noted' ++ [.note (.awaited tid id)])
  | _, _ => (s.countUntracked, noted ++ noted')

end RaceMonitor.State
