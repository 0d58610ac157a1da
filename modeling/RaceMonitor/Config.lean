import RaceMonitor.Report

/-! Settings of a monitoring session. A limit of 0 never binds. -/
namespace RaceMonitor

structure Config where
  /-- Frames captured per access; read through `stackDepth`. -/
  maxStackSize : Word
  trackAllocations : Bool
  maxThreads : Word
  /-- Locks and signals together. -/
  maxLocks : Word
  maxLocations : Word
  /-- Freed blocks kept. -/
  maxFreed : Word
  deriving DecidableEq, Repr, Inhabited

namespace Config

def default : Config := ⟨16, true, 0, 0, 0, 65536⟩

/-- Frames captured per access, at least one and at most what a report has room for. -/
def stackDepth (c : Config) : Nat := max 1 (min c.maxStackSize.toNat stackCapacity)

/-- Whether a population of `size` leaves no room under `limit`. -/
def full (limit size : Nat) : Bool := limit != 0 && limit ≤ size

def text (c : Config) : String :=
  Text.recorded "DetectorConfig"
    [("max_stack_size", Text.decimal c.maxStackSize.toNat),
     ("track_allocations", Text.boolean c.trackAllocations),
     ("max_threads", Text.decimal c.maxThreads.toNat),
     ("max_locks", Text.decimal c.maxLocks.toNat),
     ("max_tracked_locations", Text.decimal c.maxLocations.toNat),
     ("max_freed_allocations", Text.decimal c.maxFreed.toNat)]

end Config

/-- What a limit can be set on. -/
inductive Resource where
  | threads
  | locks
  | locations
  deriving DecidableEq, Repr, Inhabited

def Resource.label : Resource → String
  | threads => "threads"
  | locks => "locks"
  | locations => "locations"

/-- The limit on a resource. -/
def Config.limit (c : Config) : Resource → Word
  | .threads => c.maxThreads
  | .locks => c.maxLocks
  | .locations => c.maxLocations

end RaceMonitor
