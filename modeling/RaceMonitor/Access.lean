import RaceMonitor.CallStack
import RaceMonitor.Clock.Vector

/-! Recorded accesses: when, what and from where. -/
namespace RaceMonitor

/-- Where in the program an access was made, and how many bytes it touched. -/
structure Site where
  pc : Word
  size : Word
  stack : CallStack
  deriving DecidableEq, Repr, Inhabited

/-- A site of which no call stack is known. -/
def Site.bare (pc size : Word) : Site := ⟨pc, size, .empty⟩

structure Access where
  epoch : Epoch
  write : Bool
  site : Site
  deriving DecidableEq, Repr, Inhabited

def Access.tid (a : Access) : ThreadId := a.epoch.tid

end RaceMonitor
