import RaceMonitor.Heap.Block

/-! The blocks the monitor knows.

Live blocks are kept by their first address. Freed blocks are numbered in the order of their
frees; they may overlap, so a look-up by address scans an index of first addresses, from as far
below as the widest of them could start. At most `maxFreed` freed blocks stay, 0 meaning any
number, and the oldest go first. Frees are counted without end, which is the same as in 64 bits
for as long as there are fewer than 2^64 of them. -/
namespace RaceMonitor

structure Heap where
  live : Table Word Block
  freed : Table Nat Block
  /-- The first address and the number of every freed block. -/
  index : PairSet Word Nat
  /-- No freed block is larger. -/
  widest : Word
  /-- The number of the next block to be freed, below 2^64. -/
  nextSeq : Nat
  /-- Frees since freed blocks were last swept, below 2^64. -/
  sinceSweep : Nat
  maxFreed : Word

/-- Why a block cannot be freed. -/
inductive FreeFault where
  /-- It has been freed before. -/
  | doubleFree
  /-- No block starts there. -/
  | unknown
  deriving DecidableEq, Repr, Inhabited

/-- What a free came to. -/
structure Freed where
  block : Extent
  /-- The freed blocks that had to go. -/
  evicted : List Extent
  /-- Whether it is time to sweep. -/
  sweepDue : Bool
  deriving DecidableEq, Repr, Inhabited

/-- A use after a free. -/
structure UseAfterFree where
  /-- The address of the earlier access. -/
  addr : Word
  prior : Access
  /-- The freed block. -/
  block : Extent
  deriving DecidableEq, Repr, Inhabited

namespace Heap

/-- Frees from one sweep to the next. -/
def sweepEvery : Nat := 64

/-- No block; the first to be freed gets the number `nextSeq`. -/
def empty (maxFreed : Word) (nextSeq : Nat := 0) : Heap := ⟨∅, ∅, ∅, 0, nextSeq, 0, maxFreed⟩

/-- Forgets every block. The numbering goes on where it was. -/
def clear (h : Heap) : Heap := empty h.maxFreed h.nextSeq

/-- Changes how many freed blocks stay; none go before the next free. -/
def setMaxFreed (h : Heap) (maxFreed : Word) : Heap := { h with maxFreed }

/-- Registers a block, in the place of a live one that starts at the same address. -/
def allocate (h : Heap) (b : Block) : Option Extent × Heap :=
  (h.live[b.extent.base]?.map Block.extent, { h with live := h.live.insert b.extent.base b })

/-- The numbers of the freed blocks that overlap a range, by first address. -/
def touching (h : Heap) (e : Extent) : List Nat :=
  let lo := Word.subSat e.base (Word.subSat h.widest 1)
  ((h.index.between (lo, 0) (e.limit, 0)).map Prod.snd).filter fun seq =>
    h.freed[seq]?.any fun b => b.extent.overlaps e

/-- The numbers of the freed blocks that overlap a range, oldest first. -/
def overlapping (h : Heap) (e : Extent) : List Nat := (h.touching e).mergeSort

/-- Drops a freed block. -/
def drop (h : Heap) (seq : Nat) : Option Extent × Heap :=
  match h.freed[seq]? with
  | none => (none, h)
  | some b =>
    (some b.extent,
      { h with freed := h.freed.erase seq, index := h.index.erase (b.extent.base, seq) })

/-- Drops freed blocks one after the other. -/
def dropAll (h : Heap) (seqs : List Nat) : List Extent × Heap :=
  seqs.foldl (fun (gone, h) seq =>
    let (e, h) := h.drop seq
    (gone ++ e.toList, h)) ([], h)

/-- Changes a freed block. -/
def modifyFreed (h : Heap) (seq : Nat) (f : Block → Block) : Heap :=
  { h with freed := h.freed.modify seq f }

/-- Hands out one freed block's range again: the block is marked, or if it was before, dropped. -/
def handOutOne (h : Heap) (seq : Nat) : Bool × Option Extent × Heap :=
  if h.freed[seq]?.any Block.reused then
    let (e, h) := h.drop seq
    (false, e, h)
  else
    (h.freed.contains seq, none, h.modifyFreed seq fun b => { b with reused := true })

/-- Prepares a range for being handed out again. The freed blocks on it that were not reused
yet are from now on, and the older ones go. Says whether there were any of the former, and
which blocks went. -/
def handOut (h : Heap) (e : Extent) : Bool × List Extent × Heap :=
  (h.overlapping e).foldl (fun (any, gone, h) seq =>
    let (marked, e, h) := h.handOutOne seq
    (any || marked, gone ++ e.toList, h)) (false, [], h)

/-- Keeps the last access at `addr` on the newest freed block that covers it. -/
def keep (h : Heap) (addr : Word) (access : Access) : Heap :=
  match (h.overlapping (Extent.ofByte addr)).getLast? with
  | some seq => h.modifyFreed seq fun b => { b with kept := b.kept.insert addr access }
  | none => h

/-- Drops the oldest freed block, `n` times. -/
def dropOldest (h : Heap) : Nat → List Extent × Heap
  | 0 => ([], h)
  | n + 1 =>
    match h.freed.minKey? with
    | none => ([], h)
    | some seq =>
      let (e, h) := h.drop seq
      let (es, h) := h.dropOldest n
      (e.toList ++ es, h)

/-- Makes room under the limit. -/
def evict (h : Heap) : List Extent × Heap :=
  if h.maxFreed = 0 then ([], h) else h.dropOldest (h.freed.size - h.maxFreed.toNat)

/-- Moves a live block to the freed ones. -/
def bury (h : Heap) (b : Block) (epoch : Epoch) : Heap :=
  { h with
    live := h.live.erase b.extent.base
    freed := h.freed.insert h.nextSeq { b with freedAt := some epoch }
    index := h.index.insert (b.extent.base, h.nextSeq)
    widest := max h.widest b.extent.size
    nextSeq := h.nextSeq + 1
    sinceSweep := h.sinceSweep + 1 }

/-- Frees the live block that starts at `base`, at the present `epoch` of the freeing thread. -/
def free (h : Heap) (base : Word) (epoch : Epoch) : Except FreeFault (Freed × Heap) :=
  match h.live[base]? with
  | some b =>
    let (evicted, h) := (h.bury b epoch).evict
    .ok (⟨b.extent, evicted, sweepEvery ≤ h.sinceSweep⟩, h)
  | none =>
    if h.freed.any fun _ b => b.extent.base == base && !b.reused then .error .doubleFree
    else .error .unknown

/-- The numbers of the freed blocks whose free `floor` has observed, oldest first. -/
def observed (h : Heap) (floor : VectorClock) : List Nat :=
  h.freed.foldr
    (fun seq b seqs => if b.freedAt.any fun e => e.observedBy floor then seq :: seqs else seqs) []

/-- Drops every freed block whose free `floor` has observed. -/
def dropObserved (h : Heap) (floor : VectorClock) : List Extent × Heap :=
  { h with sinceSweep := 0 }.dropAll (h.observed floor)

/-- Whether a freed block covers part of a page. -/
def touchesPage (h : Heap) (page : Word) : Bool := !(h.touching (Extent.ofPage page)).isEmpty

/-- The live block that contains `addr`, among those that start nearest below it. -/
def blockAt (h : Heap) (addr : Word) : Option Extent :=
  (((h.live.toList.takeWhile fun p => p.1 ≤ addr).getLast?.map Prod.snd).filter fun b =>
    b.extent.contains addr).map Block.extent

/-- The newest freed block at `addr` whose free `tid` has not observed and that has not been
reported for them. -/
def unreported (h : Heap) (tid : ThreadId) (addr : Word) (vc : VectorClock) : Option Nat :=
  (h.overlapping (Extent.ofByte addr)).reverse.find? fun seq =>
    h.freed[seq]?.any fun b => b.unseenBy tid vc && !b.isReported tid addr

/-- Whether an access is a use after a free, not reported yet. -/
def isUnreported (h : Heap) (tid : ThreadId) (addr : Word) (vc : VectorClock) : Bool :=
  (h.unreported tid addr vc).isSome

/-- Finds a use after a free that has not been reported, and records it as reported. The
current `history` of the address is asked where the block has kept no access there. -/
def reportUse (h : Heap) (tid : ThreadId) (addr : Word) (vc : VectorClock)
    (history : Option History) : Option (UseAfterFree × Heap) :=
  (h.unreported tid addr vc).bind fun seq =>
    h.freed[seq]?.map fun b =>
      let b := b.report tid addr
      let (at_, prior) := b.prior tid addr history
      (⟨at_, prior, b.extent⟩, { h with freed := h.freed.insert seq b })

end Heap

end RaceMonitor
