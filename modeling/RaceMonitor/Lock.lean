import RaceMonitor.Clock.Vector

/-! Lock objects.

A lock remembers what its releases have published and who holds it. Readers may hold it
together and a holder may acquire it again, so the holders are a list of threads with their
nesting depths. Only the outermost acquire and release order threads. -/
namespace RaceMonitor

/-- What a release came to. -/
inductive Release where
  /-- The outermost release. -/
  | released
  /-- The release of an inner acquisition. -/
  | nested
  /-- The thread does not hold the lock. -/
  | notHeld
  deriving DecidableEq, Repr, Inhabited

def Release.text : Release → String
  | released => "Released"
  | nested => "Nested"
  | notHeld => "NotHeld"

structure Lock where
  clock : VectorClock
  holders : List (ThreadId × UInt32)
  deriving DecidableEq, Repr, Inhabited

namespace Lock

/-- Held by nobody and never released. -/
def fresh : Lock := ⟨.empty, []⟩

/-- How often `tid` holds the lock. -/
def depth (l : Lock) (tid : ThreadId) : UInt32 :=
  match l.holders.find? fun h => h.1 == tid with
  | some h => h.2
  | none => 0

def isHeld (l : Lock) : Bool := !l.holders.isEmpty

/-- One acquisition more by `tid`; the depth stops at its largest value. -/
def deepen (tid : ThreadId) : List (ThreadId × UInt32) → List (ThreadId × UInt32)
  | [] => [(tid, 1)]
  | h :: hs => if h.1 = tid then (tid, Tick.next h.2) :: hs else h :: deepen tid hs

/-- Records an acquisition by `tid`, and says whether it is the outermost. -/
def acquire (l : Lock) (tid : ThreadId) : Bool × Lock :=
  ((l.holders.find? fun h => h.1 == tid).isNone, { l with holders := deepen tid l.holders })

/-- Takes out position `i` by moving the last element there. -/
def swapRemove {α : Type} (xs : List α) (i : Nat) : List α :=
  match xs.getLast? with
  | some z => (xs.set i z).dropLast
  | none => []

/-- Records a release by `tid`; a thread that does not hold the lock changes nothing. -/
def release (l : Lock) (tid : ThreadId) : Release × Lock :=
  match l.holders.findIdx? fun h => h.1 == tid with
  | none => (.notHeld, l)
  | some i =>
    if l.depth tid ≤ 1 then (.released, { l with holders := swapRemove l.holders i })
    else (.nested, { l with holders := l.holders.set i (tid, l.depth tid - 1) })

/-- Publishes what the releasing thread has observed. -/
def absorb (l : Lock) (vc : VectorClock) : Lock := { l with clock := l.clock.join vc }

end Lock

end RaceMonitor
