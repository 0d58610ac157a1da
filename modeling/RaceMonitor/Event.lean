import RaceMonitor.Address
import RaceMonitor.Clock.Epoch

/-! What a host tells the monitor: the events of the monitored program, and the commands that
open, close and direct a session. -/
namespace RaceMonitor

inductive Event where
  /-- `parent` creates `child`. -/
  | fork (parent child : ThreadId)
  /-- `parent` waits for the end of `child`. -/
  | join (parent child : ThreadId)
  /-- `by_` reports that nobody will join `tid`. -/
  | detach (by_ tid : ThreadId)
  /-- `by_` reports that `tid` has ended without a join. -/
  | finish (by_ tid : ThreadId)
  | read (tid : ThreadId) (pc addr size : Word)
  | write (tid : ThreadId) (pc addr size : Word)
  /-- A lock is obtained, for itself (`isWrite`) or shared with other readers. -/
  | acquire (tid : ThreadId) (lock : Word) (recursive isWrite : Bool)
  | release (tid : ThreadId) (lock : Word) (isWrite : Bool)
  | alloc (tid : ThreadId) (pc addr size : Word)
  | free (tid : ThreadId) (addr : Word)
  /-- What `tid` has done so far comes before every later `happensAfter` of the same id. -/
  | happensBefore (tid : ThreadId) (id : Word)
  | happensAfter (tid : ThreadId) (id : Word)
  | enter (tid : ThreadId) (pc : Word)
  | exit (tid : ThreadId)
  /-- The program announces a region of its memory. -/
  | mapShadow (start size : Word)
  deriving DecidableEq, Repr, Inhabited

/-- The thread whose context the host gets back for an event. -/
def Event.context? : Event → Option ThreadId
  | fork _ child => some child
  | _ => none

inductive Command where
  | event (e : Event)
  /-- Opens a session with these arguments and registers a race callback. -/
  | init (args : List String)
  | finalize
  /-- Sets or removes the anomaly callback. -/
  | listen (on : Bool)
  deriving DecidableEq, Repr, Inhabited

end RaceMonitor
