import RaceMonitor.History
import RaceMonitor.Table

/-! Heap blocks.

A freed block stays for a while, so that an access which has not observed the free can be
reported. It keeps who freed it and when, whether its range has been handed out again and, if
so, the accesses that were on record at that moment. -/
namespace RaceMonitor

structure Block where
  extent : Extent
  owner : ThreadId
  /-- Where it was allocated. -/
  pc : Word
  /-- The freeing thread's present at the free; nothing while the block is live. -/
  freedAt : Option Epoch
  /-- Whether the freed range has been handed out again. -/
  reused : Bool
  /-- The last access at each address when the range was handed out again. -/
  kept : Table Word Access
  /-- The threads and addresses that have been reported against the block. -/
  reported : PairSet ThreadId Word

namespace Block

/-- A newly allocated block. -/
def new (owner : ThreadId) (pc : Word) (extent : Extent) : Block :=
  ⟨extent, owner, pc, none, false, ∅, ∅⟩

def isFreed (b : Block) : Bool := b.freedAt.isSome

/-- Whether a thread other than the owner, with clock `vc`, has not observed the free. -/
def unseenBy (b : Block) (tid : ThreadId) (vc : VectorClock) : Bool :=
  b.owner != tid && b.freedAt.any fun e => !e.observedBy vc

def isReported (b : Block) (tid : ThreadId) (addr : Word) : Bool := b.reported.contains (tid, addr)

def report (b : Block) (tid : ThreadId) (addr : Word) : Block :=
  { b with reported := b.reported.insert (tid, addr) }

/-- The recorded access to blame for a use after the free: one that the freeing thread made up
to the free, or else one by a thread other than `tid`. -/
def recorded (b : Block) (tid : ThreadId) (h : History) : Option Access :=
  b.freedAt.bind fun freed =>
    (h.accesses.find? fun a => a.tid == freed.tid && a.epoch.clock ≤ freed.clock).or
      (h.accesses.find? fun a => a.tid != tid)

/-- A write of the whole block by its owner, where it was allocated. -/
def allocation (b : Block) : Access :=
  ⟨⟨b.owner, (b.freedAt.map Epoch.clock).getD 0⟩, true, Site.bare b.pc b.extent.size⟩

/-- The earlier access to report an access by `tid` at `addr` against, and its address: the one
kept when the range was handed out again, or before that the recorded one to blame, or else the
allocation. -/
def prior (b : Block) (tid : ThreadId) (addr : Word) (history : Option History) : Word × Access :=
  match b.kept[addr]? with
  | some access => (addr, access)
  | none =>
    match (history.filter fun _ => !b.reused).bind (b.recorded tid) with
    | some access => (addr, access)
    | none => (b.extent.base, b.allocation)

end Block

end RaceMonitor
