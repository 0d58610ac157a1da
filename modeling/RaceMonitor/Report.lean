import RaceMonitor.History
import RaceMonitor.Text.Quoted

/-! Race reports.

A report names two accesses, the earlier one first. Each side carries a call stack, outermost
frame first and ending with the program counter of the access, in a block of fixed capacity of
which the first `stackSize` words count. -/
namespace RaceMonitor

/-- The frames that one side of a report has room for. -/
def stackCapacity : Nat := 16

/-- One side of a race. -/
structure Side where
  tid : ThreadId
  write : Bool
  atomic : Bool
  onHeap : Bool
  pc : Word
  addr : Word
  size : Word
  /-- The enclosing heap block, all zero off the heap. -/
  block : Extent
  stackSize : Word
  stackTrace : Vector Word stackCapacity
  deriving DecidableEq, Repr

namespace Side

/-- A side off the heap and without a stack. -/
def new (tid : ThreadId) (pc addr size : Word) (write : Bool) : Side :=
  ⟨tid, write, false, false, pc, addr, size, ⟨0, 0⟩, 0, Vector.replicate stackCapacity 0⟩

/-- Attaches a stack, outermost first; the innermost frames stay if it is too deep. -/
def withStack (s : Side) (frames : List Word) : Side :=
  let kept := frames.drop (frames.length - stackCapacity)
  { s with
    stackTrace := Vector.ofFn fun i => kept[i.val]?.getD s.stackTrace[i]
    stackSize := UInt64.ofNat kept.length }

def withBlock (s : Side) (block : Extent) : Side := { s with onHeap := true, block }

/-- The words of the stack that count. -/
def stack (s : Side) : List Word := s.stackTrace.toList.take s.stackSize.toNat

def text (s : Side) : String :=
  (if s.write then "write" else "read") ++ " of " ++ Text.decimal s.size.toNat ++ " bytes at " ++
    Text.hexadecimal s.addr.toNat ++ " by " ++ s.tid.text ++ " (pc " ++
    Text.hexadecimal s.pc.toNat ++ ")"

/-- Every field by name. -/
def detail (s : Side) : String :=
  Text.recorded "AccessEntry"
    [("thread_id", Text.decimal s.tid.toNat),
     ("write", Text.boolean s.write),
     ("atomic", Text.boolean s.atomic),
     ("on_heap", Text.boolean s.onHeap),
     ("pc", Text.hexadecimal s.pc.toNat),
     ("accessed_memory", Text.hexadecimal s.addr.toNat),
     ("access_size", Text.decimal s.size.toNat),
     ("heap_block_begin", Text.hexadecimal s.block.base.toNat),
     ("heap_block_size", Text.decimal s.block.size.toNat),
     ("stack", Text.listed (s.stack.map fun pc => Text.decimal pc.toNat))]

end Side

/-- The access as one side of a report at `addr`, with the innermost `depth` frames of its
stack, its own program counter among them. -/
def Access.side (a : Access) (addr : Word) (depth : Nat) : Side :=
  (Side.new a.tid a.site.pc addr a.site.size a.write).withStack
    (a.site.stack.frames (depth - 1) ++ [a.site.pc])

structure Race where
  kind : RaceKind
  first : Side
  second : Side
  deriving DecidableEq, Repr

namespace Race

def threads (r : Race) : ThreadId × ThreadId := (r.first.tid, r.second.tid)

def text (r : Race) : String :=
  r.kind.label ++ " race: " ++ r.first.text ++ " <-> " ++ r.second.text

end Race

end RaceMonitor
