import RaceMonitor.Text.Number

/-! Points in one thread's logical time.

A thread's logical time is a counter. An epoch is a value of that counter together with the
thread it belongs to, enough to describe when a single access happened. -/
namespace RaceMonitor

/-- A thread as the host names it. -/
abbrev ThreadId := UInt32

def ThreadId.text (t : ThreadId) : String := "T" ++ Text.decimal t.toNat

/-- A value of one thread's logical time. -/
abbrev Tick := UInt32

namespace Tick

/-- The last value; logical time stops there. -/
def last : Tick := UInt32.ofNat (UInt32.size - 1)

/-- The next value, or the same one at the end of time. -/
def next (c : Tick) : Tick := if c = last then last else c + 1

end Tick

structure Epoch where
  tid : ThreadId
  clock : Tick
  deriving DecidableEq, Repr, Inhabited

namespace Epoch

/-- Thread and clock in one word, the thread in the upper half. -/
def packed (e : Epoch) : UInt64 := e.tid.toUInt64 <<< 32 ||| e.clock.toUInt64

/-- The order of the packed words. -/
def precedes (a b : Epoch) : Bool := a.packed < b.packed

def withClock (e : Epoch) (c : Tick) : Epoch := { e with clock := c }

def text (e : Epoch) : String := Text.decimal e.clock.toNat ++ "@" ++ e.tid.text

end Epoch

end RaceMonitor
