import RaceMonitor.Address

/-! Call stacks.

A thread's call stack is shared with every access it records, so that a report can show where
an earlier access happened. Each frame knows how many frames there are up to it; they are counted
without end, which is the same as in 64 bits below 2^64 frames. -/
namespace RaceMonitor

inductive CallStack where
  | empty
  | frame (pc : Word) (depth : Nat) (caller : CallStack)
  deriving DecidableEq, Repr, Inhabited

namespace CallStack

/-- The number of frames, below 2^64. -/
def depth : CallStack → Nat
  | empty => 0
  | frame _ n _ => n

def isEmpty : CallStack → Bool
  | empty => true
  | frame .. => false

/-- Enters a function at `pc`. -/
def push (s : CallStack) (pc : Word) : CallStack := frame pc (s.depth + 1) s

/-- Leaves the innermost function, if there is one. -/
def pop? : CallStack → Option (Word × CallStack)
  | empty => none
  | frame pc _ caller => some (pc, caller)

/-- The program counters, innermost first. -/
def toList : CallStack → List Word
  | empty => []
  | frame pc _ caller => pc :: caller.toList

/-- The innermost `limit` program counters, innermost first. -/
def innermost : Nat → CallStack → List Word
  | _, empty => []
  | 0, frame .. => []
  | n + 1, frame pc _ caller => pc :: innermost n caller

/-- The innermost `limit` program counters, outermost first. -/
def frames (s : CallStack) (limit : Nat) : List Word := (innermost limit s).reverse

/-- The stack with these frames, outermost first. -/
def ofFrames (pcs : List Word) : CallStack := pcs.foldl push empty

end CallStack

end RaceMonitor
