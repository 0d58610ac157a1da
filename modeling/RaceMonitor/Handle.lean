import RaceMonitor.Clock.Epoch
import RaceMonitor.Json.Record
import RaceMonitor.Json.Writer
import RaceMonitor.Text.Quoted

/-! The handle that the host holds on a thread: its id, under a name. -/
namespace RaceMonitor

structure Handle where
  tid : ThreadId
  deriving DecidableEq, Repr, Inhabited

namespace Handle

def text (h : Handle) : String := Text.recorded "ThreadContext" [("tid", h.tid.text)]

def layout : Json.Layout Handle where
  fields :=
    [⟨"tid", fun _ cs =>
      match Json.wordValue cs with
      | .error fault => .error fault
      | .ok (n, rest) =>
        if n.toNat < UInt32.size then .ok (⟨UInt32.ofNat n.toNat⟩, rest) else .error .shape⟩]
  complete := true

def ofJson (text : String) : Except Json.Fault Handle := layout.read ⟨0⟩ text

def toJson (h : Handle) : String := Json.objectText [("tid", .natural h.tid.toNat)]

end Handle

end RaceMonitor
