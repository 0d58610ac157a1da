import RaceMonitor.Address
import RaceMonitor.Text.Quoted

/-! Event counters. Each is a word and counts modulo its size. -/
namespace RaceMonitor

structure Counters where
  reads : Word
  writes : Word
  /-- Accesses that repeated a kept one within an epoch. -/
  sameEpoch : Word
  races : Word
  /-- Of the races, those against a freed block. -/
  useAfterFree : Word
  anomalies : Word
  /-- Events dropped because a thread, lock or location could not be tracked. -/
  untracked : Word
  /-- Accesses outside every announced region. -/
  unmapped : Word
  deriving DecidableEq, Repr, Inhabited

namespace Counters

def zero : Counters := ⟨0, 0, 0, 0, 0, 0, 0, 0⟩

/-- Reads and writes together. -/
def accesses (c : Counters) : Word := c.reads + c.writes

/-- The counters by name, in order. -/
def fields (c : Counters) : List (String × Word) :=
  [("reads", c.reads), ("writes", c.writes), ("same_epoch", c.sameEpoch), ("races", c.races),
   ("use_after_free", c.useAfterFree), ("anomalies", c.anomalies), ("untracked", c.untracked),
   ("unmapped", c.unmapped)]

def text (c : Counters) : String :=
  Text.recorded "StatsSnapshot" (c.fields.map fun f => (f.1, Text.decimal f.2.toNat))

end Counters

end RaceMonitor
