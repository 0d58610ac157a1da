import RaceMonitor.CallStack
import RaceMonitor.Clock.Vector

/-! Monitored threads.

A thread starts at clock 1, so that no access carries clock 0, and its own component advances
with every synchronisation that publishes what it did so far. Reads and writes do not advance
it. At the last tick it stops, and from then on the thread's epochs are all equal. -/
namespace RaceMonitor

inductive Lifecycle where
  /-- Running, and may be joined. -/
  | active
  /-- Running, and never joined. -/
  | detached
  deriving DecidableEq, Repr, Inhabited

structure Thread where
  tid : ThreadId
  /-- The thread that forked it, if one did. -/
  parent : Option ThreadId
  clock : VectorClock
  lifecycle : Lifecycle
  stack : CallStack
  /-- Whether its own component has reached the last tick. -/
  saturated : Bool
  deriving DecidableEq, Repr, Inhabited

namespace Thread

/-- A thread that no thread is known to have forked. -/
def root (tid : ThreadId) : Thread :=
  ⟨tid, none, VectorClock.empty.increment tid, .active, .empty, false⟩

/-- A child that has observed all that its parent has. -/
def forked (tid : ThreadId) (parent : Thread) : Thread :=
  ⟨tid, some parent.tid, parent.clock.increment tid, .active, .empty, false⟩

/-- The present of the thread. -/
def epoch (t : Thread) : Epoch := t.clock.epoch t.tid

/-- Advances the thread's own time by one. -/
def tick (t : Thread) : Thread :=
  let clock := t.clock.increment t.tid
  { t with clock, saturated := t.saturated || clock.get t.tid == Tick.last }

/-- Whether the next tick is the one that saturates the thread. -/
def saturatesNext (t : Thread) : Bool := !t.saturated && t.tick.saturated

/-- Takes in all that `vc` has observed. -/
def observe (t : Thread) (vc : VectorClock) : Thread := { t with clock := t.clock.join vc }

def detach (t : Thread) : Thread := { t with lifecycle := .detached }

def enter (t : Thread) (pc : Word) : Thread := { t with stack := t.stack.push pc }

/-- Leaves the innermost function, if there is one. -/
def exit? (t : Thread) : Option (Word × Thread) :=
  t.stack.pop?.map fun p => (p.1, { t with stack := p.2 })

end Thread

end RaceMonitor
