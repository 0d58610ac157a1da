import RaceMonitor.Engine.State

/-! Looking up what an event names.

A thread, lock, signal or location comes into being when an event first names it, unless the
limit on its kind is reached. Threads that have ended are not tracked any more. The first time
a limit binds in a session is noted. -/
namespace RaceMonitor.State

/-- Whether one more fits beside a population of `size`. -/
def reserve (s : State) (r : Resource) (size : Nat) : Bool × State × List Output :=
  if Config.full (s.config.limit r).toNat size then
    if s.exhausted.get r then (false, s, [])
    else
      (false, { s with exhausted := s.exhausted.mark r },
        [.note (.limitReached r (s.config.limit r))])
  else (true, s, [])

/-- The thread `tid`; one that was never seen becomes a root. -/
def thread (s : State) (tid : ThreadId) : Option Thread × State × List Output :=
  match s.tables.threads[tid]? with
  | some t => (some t, s, [])
  | none =>
    if s.tables.retired.contains tid then (none, s, [.note (.threadRetired tid)])
    else
      match s.reserve .threads s.tables.threads.size with
      | (false, s, out) => (none, s, out)
      | (true, s, out) =>
        let t := Thread.root tid
        (some t, s.withTables (s.tables.putThread t), out ++ [.note (.threadRegistered tid)])

/-- Locks and signals share one limit. -/
def reserveLock (s : State) : Bool × State × List Output :=
  s.reserve .locks (s.tables.locks.size + s.tables.signals.size)

def lock (s : State) (id : Word) : Option Lock × State × List Output :=
  match s.tables.locks[id]? with
  | some l => (some l, s, [])
  | none =>
    match s.reserveLock with
    | (false, s, out) => (none, s, out)
    | (true, s, out) =>
      (some .fresh, s.withTables (s.tables.putLock id .fresh), out)

def signal (s : State) (id : Word) : Option VectorClock × State × List Output :=
  match s.tables.signals[id]? with
  | some vc => (some vc, s, [])
  | none =>
    match s.reserveLock with
    | (false, s, out) => (none, s, out)
    | (true, s, out) =>
      (some .empty, s.withTables (s.tables.putSignal id .empty), out)

def location (s : State) (addr : Word) : Option History × State × List Output :=
  match s.tables.shadow[addr]? with
  | some h => (some h, s, [])
  | none =>
    match s.reserve .locations s.tables.shadow.size with
    | (false, s, out) => (none, s, out)
    | (true, s, out) =>
      (some .empty, s.withTables (s.tables.putHistory addr .empty), out)

end RaceMonitor.State
