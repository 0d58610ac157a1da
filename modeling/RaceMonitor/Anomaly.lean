import RaceMonitor.Address
import RaceMonitor.Clock.Epoch
import RaceMonitor.Text.Quoted

/-! Anomalies: events that break the protocol between the monitored program and the host.

They are reported and counted, and nothing else comes of them; only a thread that has not been
seen before may be tracked from then on. -/
namespace RaceMonitor

inductive Anomaly where
  | doubleFree (thread : ThreadId) (addr : Word)
  | unknownAllocation (thread : ThreadId) (addr : Word)
  | releaseWithoutAcquire (thread : ThreadId) (lock : Word)
  /-- A thread that was never seen, or that is gone. -/
  | unknownThread (thread : ThreadId)
  | joinDetached (parent child : ThreadId)
  /-- A fork of a thread that is live, or that is gone. -/
  | threadReused (parent child : ThreadId)
  | stackUnderflow (thread : ThreadId)
  deriving DecidableEq, Repr, Inhabited

namespace Anomaly

def text : Anomaly → String
  | doubleFree t a => "double free of " ++ Text.hexadecimal a.toNat ++ " by " ++ t.text
  | unknownAllocation t a =>
    "free of unknown allocation " ++ Text.hexadecimal a.toNat ++ " by " ++ t.text
  | releaseWithoutAcquire t l =>
    "release of " ++ Text.hexadecimal l.toNat ++ " by " ++ t.text ++ " without matching acquire"
  | unknownThread t => "unknown thread " ++ t.text
  | joinDetached p c => p.text ++ " joined detached thread " ++ c.text
  | threadReused p c => "thread id " ++ c.text ++ " reused by fork from " ++ p.text
  | stackUnderflow t => "call stack underflow on " ++ t.text

/-- Every field by name. -/
def detail : Anomaly → String
  | doubleFree t a => Text.recorded "DoubleFree" [("thread", id t), ("addr", word a)]
  | unknownAllocation t a => Text.recorded "UnknownAllocation" [("thread", id t), ("addr", word a)]
  | releaseWithoutAcquire t l =>
    Text.recorded "ReleaseWithoutAcquire" [("thread", id t), ("lock", word l)]
  | unknownThread t => Text.recorded "UnknownThread" [("thread", id t)]
  | joinDetached p c => Text.recorded "JoinDetached" [("parent", id p), ("child", id c)]
  | threadReused p c => Text.recorded "ThreadReused" [("parent", id p), ("child", id c)]
  | stackUnderflow t => Text.recorded "StackUnderflow" [("thread", id t)]
where
  id (t : ThreadId) : String := "ThreadId(" ++ Text.decimal t.toNat ++ ")"
  word (w : Word) : String := Text.decimal w.toNat

/-- The thread whose event it was. -/
def thread : Anomaly → ThreadId
  | doubleFree t _ | unknownAllocation t _ | releaseWithoutAcquire t _ | unknownThread t
  | stackUnderflow t => t
  | joinDetached p _ | threadReused p _ => p

/-- Whether it is about heap blocks. -/
def isMemory : Anomaly → Bool
  | doubleFree .. | unknownAllocation .. => true
  | _ => false

end Anomaly

end RaceMonitor
