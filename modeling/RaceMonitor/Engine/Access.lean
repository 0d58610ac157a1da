import RaceMonitor.Engine.Admission
import RaceMonitor.Engine.Delivery

/-! Reads and writes.

An access is checked twice: against the freed blocks at its address, and against the history of
its location. It is entered into the history in any case, and reported at most once: a use
after a free goes before a conflict. -/
namespace RaceMonitor.State

/-- Checks an access by `t` at `addr` against the freed blocks there. Only on a page with a
freed block are the blocks looked at. -/
def reportUse (s : State) (t : Thread) (addr : Word) : Option UseAfterFree × State :=
  if s.config.trackAllocations && s.tables.freedPages.contains (Extent.pageOf addr) then
    match s.tables.heap.reportUse t.tid addr t.clock s.tables.shadow[addr]? with
    | some (hit, heap) => (some hit, s.withTables (s.tables.putHeap heap))
    | none => (none, s)
  else (none, s)

/-- Acts on what the history check found. -/
def settle (s : State) (h : Host) (addr : Word) (current : Access) :
    Outcome → State × List Output
  | .sameEpoch => (s.count fun c => { c with sameEpoch := c.sameEpoch + 1 }, [])
  | .ordered => (s, [])
  | .race kind prior => s.raiseConflict h addr kind prior current

/-- Reports a use after a free, if there is one. -/
def settleUse (s : State) (h : Host) (addr : Word) (current : Access) :
    Option UseAfterFree → State × List Output
  | some hit => s.raiseUse h addr hit current
  | none => (s, [])

/-- An access by the tracked thread `t`. -/
def accessBy (s : State) (h : Host) (t : Thread) (write : Bool) (pc addr size : Word) :
    State × List Output :=
  let current : Access := ⟨t.epoch, write, ⟨pc, size, t.stack⟩⟩
  let (hit, s) := s.reportUse t addr
  let (history, s, noted) := s.location addr
  match history with
  | none =>
    let (s, out) := s.countUntracked.settleUse h addr current hit
    (s, noted ++ out)
  | some history =>
    let (outcome, history) := history.onAccess write t.tid t.clock current.site
    let s := s.withTables (s.tables.putHistory addr history)
    match hit with
    | some hit =>
      let (s, out) := s.raiseUse h addr hit current
      (s, noted ++ out)
    | none =>
      let (s, out) := s.settle h addr current outcome
      (s, noted ++ out ++ [.note (.accessed t.tid pc addr write)])

/-- A read or write. -/
def access (s : State) (h : Host) (write : Bool) (tid : ThreadId) (pc addr size : Word) :
    State × List Output :=
  let (t, s, noted) := (s.countAccess write addr).thread tid
  match t with
  | none => (s.countUntracked, noted)
  | some t =>
    let (s, out) := s.accessBy h t write pc addr size
    (s, noted ++ out)

end RaceMonitor.State
