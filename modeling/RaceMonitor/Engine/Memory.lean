import RaceMonitor.Engine.Admission
import RaceMonitor.Engine.Delivery

/-! Heap blocks and regions.

When a range is allocated, the histories of its locations are dropped, and the last access of
each moves to the freed block whose range it was. A page stays marked as long as a freed block
touches it. From time to time the freed blocks are dropped whose free every live thread has
observed. -/
namespace RaceMonitor

namespace Tables

/-- The locations on record in a range, in the order of enumeration. -/
def locationsIn (order : Enumeration) (shadow : Table Word History) (e : Extent) : List Word :=
  (order.locations shadow).filter e.spans

/-- Drops the histories of some locations, and returns the last access of each that had one. -/
def dropHistories (shadow : Table Word History) :
    List Word → List (Word × Access) × Table Word History
  | [] => ([], shadow)
  | addr :: rest =>
    match shadow[addr]? with
    | none => dropHistories shadow rest
    | some history =>
      let (kept, shadow) := dropHistories (shadow.erase addr) rest
      ((history.last.map fun a => (addr, a)).toList ++ kept, shadow)

/-- Drops the histories in a range. A range with fewer addresses than there are locations is
gone through address by address, a wider one location by location. -/
def forgetRange (order : Enumeration) (shadow : Table Word History) (e : Extent) :
    List (Word × Access) × Table Word History :=
  dropHistories shadow
    (if e.size.toNat ≤ shadow.size then e.addresses else locationsIn order shadow e)

/-- Marks the pages of a freed block. -/
def markPages (t : Tables) (e : Extent) : Tables :=
  { t with freedPages := e.pages.foldl (fun marks p => marks.insert p) t.freedPages }

/-- Unmarks the pages of blocks that have gone, where no freed block is left. -/
def unmarkPages (t : Tables) (gone : List Extent) : Tables :=
  { t with
    freedPages := (gone.flatMap Extent.pages).foldl
      (fun marks p => if t.heap.touchesPage p then marks else marks.erase p) t.freedPages }

/-- What every live thread has observed; nothing, when there is none. -/
def floor (order : Enumeration) (t : Tables) : VectorClock :=
  match (order.threads t.threads).map Thread.clock with
  | [] => .empty
  | vc :: vcs => vcs.foldl VectorClock.meet vc

end Tables

namespace State

def allocate (s : State) (h : Host) (tid : ThreadId) (pc addr size : Word) : State × List Output :=
  if !s.config.trackAllocations || size == 0 then (s, [])
  else
    let e : Extent := ⟨addr, size⟩
    let (reused, gone, heap) := s.tables.heap.handOut e
    let (kept, shadow) := Tables.forgetRange h.order s.tables.shadow e
    let heap := if reused then kept.foldl (fun heap p => heap.keep p.1 p.2) heap else heap
    let (replaced, heap) := heap.allocate (Block.new tid pc e)
    (s.withTables (((s.tables.putHeap heap).putShadow shadow).unmarkPages gone),
      (replaced.map fun old => Output.note (.blockReplaced old.base)).toList ++
        [.note (.allocated tid addr size)])

/-- Drops the freed blocks whose free every live thread has observed. -/
def sweep (s : State) (h : Host) : State × List Output :=
  let (gone, heap) := s.tables.heap.dropObserved (s.tables.floor h.order)
  (s.withTables ((s.tables.putHeap heap).unmarkPages gone),
    if gone.isEmpty then [] else [.note (.freesObserved gone.length heap.freed.size)])

def deallocate (s : State) (h : Host) (tid : ThreadId) (addr : Word) : State × List Output :=
  if !s.config.trackAllocations then (s, [])
  else
    let (t, s, noted) := s.thread tid
    match t with
    | none => (s.countUntracked, noted)
    | some t =>
      match s.tables.heap.free addr t.epoch with
      | .ok (freed, heap) =>
        let tables := ((s.tables.putHeap heap).markPages freed.block).unmarkPages freed.evicted
        let done := noted ++ [.note (.deallocated tid addr t.epoch)]
        if freed.sweepDue then
          let (s, out) := (s.withTables tables).sweep h
          (s, done ++ out)
        else (s.withTables tables, done)
      | .error fault =>
        let (s, out) := s.raiseAnomaly (match fault with
          | .doubleFree => .doubleFree tid addr
          | .unknown => .unknownAllocation tid addr)
        (s, noted ++ out)

/-- A region announced twice reaches as far as it ever did. -/
def mapShadow (s : State) (start size : Word) : State × List Output :=
  let limit := Word.addSat start size
  let limit := match s.tables.regions[start]? with
    | some old => max old limit
    | none => limit
  (s.withTables (s.tables.putRegion start limit),
    [.note (.regionMapped start size)])

end State

end RaceMonitor
