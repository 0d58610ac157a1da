import RaceMonitor.Config
import RaceMonitor.Json.Record
import RaceMonitor.Json.Writer

/-! Settings as JSON. A setting that is not given has its default. -/
namespace RaceMonitor.Config

def layout : Json.Layout Config where
  fields :=
    [.word "max_stack_size" fun c n => { c with maxStackSize := n },
     .boolean "track_allocations" fun c b => { c with trackAllocations := b },
     .word "max_threads" fun c n => { c with maxThreads := n },
     .word "max_locks" fun c n => { c with maxLocks := n },
     .word "max_tracked_locations" fun c n => { c with maxLocations := n },
     .word "max_freed_allocations" fun c n => { c with maxFreed := n }]
  complete := false

def ofJson (text : String) : Except Json.Fault Config := layout.read .default text

def toJson (c : Config) : String :=
  Json.objectText
    [("max_stack_size", .natural c.maxStackSize.toNat),
     ("track_allocations", .boolean c.trackAllocations),
     ("max_threads", .natural c.maxThreads.toNat),
     ("max_locks", .natural c.maxLocks.toNat),
     ("max_tracked_locations", .natural c.maxLocations.toNat),
     ("max_freed_allocations", .natural c.maxFreed.toNat)]

end RaceMonitor.Config
