import RaceMonitor.Address
import RaceMonitor.Text.Number

/-! Failures of the monitor itself: arguments it rejects and limits it runs into. -/
namespace RaceMonitor

inductive Fault where
  | invalidArgument (argument reason : String)
  | capacityExhausted (resource : String) (limit : Word)
  /-- Forked threads that had not ended when the session did. -/
  | liveThreads (count : Nat)
  deriving DecidableEq, Repr, Inhabited

namespace Fault

def text : Fault → String
  | invalidArgument argument reason => "invalid argument " ++ argument ++ ": " ++ reason
  | capacityExhausted resource limit =>
    resource ++ " capacity exhausted (limit " ++ Text.decimal limit.toNat ++ ")"
  | liveThreads count => "finalize with " ++ Text.decimal count ++ " live thread(s)"

def isResource : Fault → Bool
  | capacityExhausted .. => true
  | _ => false

end Fault

end RaceMonitor
