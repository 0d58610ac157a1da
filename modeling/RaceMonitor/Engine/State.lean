import RaceMonitor.Heap.Basic
import RaceMonitor.Note
import RaceMonitor.Thread

/-! The state of the detection engine.

Two things about the engine's surroundings can vary: in which order an enumeration of a
population visits it, and what the host's race callback does. A `Host` fixes both. -/
namespace RaceMonitor

/-- The populations of one session. -/
structure Tables where
  threads : Table ThreadId Thread
  /-- The threads that have ended; they do not come back. -/
  retired : KeySet ThreadId
  locks : Table Word Lock
  signals : Table Word VectorClock
  /-- The access history of every location touched. -/
  shadow : Table Word History
  /-- The announced regions, from start to limit. -/
  regions : Table Word Word
  heap : Heap
  /-- The pages that a freed block touches. -/
  freedPages : KeySet Word

namespace Tables

/-- No population at all. -/
def empty (maxFreed : Word) (nextSeq : Nat := 0) : Tables :=
  ⟨∅, ∅, ∅, ∅, ∅, ∅, Heap.empty maxFreed nextSeq, ∅⟩

/-- Drops every population; of the heap its limit and its numbering are left. -/
def clear (t : Tables) : Tables := ⟨∅, ∅, ∅, ∅, ∅, ∅, t.heap.clear, ∅⟩

/-- Whether regions were announced and `addr` lies in none of them. -/
def isUnmapped (t : Tables) (addr : Word) : Bool :=
  !t.regions.isEmpty && !t.regions.any fun start limit => start ≤ addr && addr < limit

def putThread (t : Tables) (thread : Thread) : Tables :=
  { t with threads := t.threads.insert thread.tid thread }

def putLock (t : Tables) (id : Word) (l : Lock) : Tables :=
  { t with locks := t.locks.insert id l }

def putSignal (t : Tables) (id : Word) (vc : VectorClock) : Tables :=
  { t with signals := t.signals.insert id vc }

def putHistory (t : Tables) (addr : Word) (h : History) : Tables :=
  { t with shadow := t.shadow.insert addr h }

def putRegion (t : Tables) (start limit : Word) : Tables :=
  { t with regions := t.regions.insert start limit }

def putHeap (t : Tables) (heap : Heap) : Tables := { t with heap }

def putShadow (t : Tables) (shadow : Table Word History) : Tables := { t with shadow }

/-- Moves a thread to the ended ones. -/
def retire (t : Tables) (tid : ThreadId) : Tables :=
  { t with threads := t.threads.erase tid, retired := t.retired.insert tid }

end Tables

/-- The resources whose limit has been reached in this session. -/
structure Exhausted where
  threads : Bool
  locks : Bool
  locations : Bool
  deriving DecidableEq, Repr, Inhabited

namespace Exhausted

def none : Exhausted := ⟨false, false, false⟩

def get (e : Exhausted) : Resource → Bool
  | .threads => e.threads
  | .locks => e.locks
  | .locations => e.locations

def mark (e : Exhausted) : Resource → Exhausted
  | .threads => { e with threads := true }
  | .locks => { e with locks := true }
  | .locations => { e with locations := true }

end Exhausted

structure State where
  policy : Policy
  config : Config
  exhausted : Exhausted
  /-- Whether a session is open. -/
  active : Bool
  /-- Whether a race callback is registered. -/
  heard : Bool
  /-- Whether an anomaly callback is registered. -/
  listening : Bool
  tables : Tables
  counters : Counters

namespace State

/-- An engine that takes events right away, with no callback registered. -/
def new (policy : Policy) (config : Config) : State :=
  ⟨policy, config, .none, false, false, false, Tables.empty config.maxFreed, .zero⟩

def withTables (s : State) (t : Tables) : State := { s with tables := t }

def count (s : State) (f : Counters → Counters) : State := { s with counters := f s.counters }

/-- Counts an event that is dropped. -/
def countUntracked (s : State) : State :=
  s.count fun c => { c with untracked := c.untracked + 1 }

/-- Counts an access, and whether it is outside every region. -/
def countAccess (s : State) (write : Bool) (addr : Word) : State :=
  s.count fun c =>
    let c := if write then { c with writes := c.writes + 1 } else { c with reads := c.reads + 1 }
    if s.tables.isUnmapped addr then { c with unmapped := c.unmapped + 1 } else c

/-- Live threads, locations, locks, live blocks and freed blocks. -/
def sizes (s : State) : List Nat :=
  [s.tables.threads.size, s.tables.shadow.size, s.tables.locks.size, s.tables.heap.live.size,
   s.tables.heap.freed.size]

end State

/-- In which order the populations are enumerated: each thread and each location once. -/
structure Enumeration where
  threads : Table ThreadId Thread → List Thread
  locations : Table Word History → List Word
  threads_perm : ∀ t, (threads t).Perm t.values
  locations_perm : ∀ t, (locations t).Perm t.keys

/-- By key. -/
def Enumeration.sorted : Enumeration :=
  ⟨fun t => t.values, fun t => t.keys, fun _ => .refl _, fun _ => .refl _⟩

/-- The engine's surroundings: the order of enumerations, and what the race callback does to the
engine when it is called. -/
structure Host where
  order : Enumeration
  onRace : Race → State → State × List Output

/-- A host that only takes note of races. -/
def Host.recording : Host := ⟨.sorted, fun _ s => (s, [])⟩

end RaceMonitor
