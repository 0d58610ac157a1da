import RaceMonitor.Access

/-! The access history of one memory location.

For each location the last write and the reads since are kept, one read a thread. A new access
conflicts with a kept one of which at least one is a write and which the accessing thread has
not observed:

* a read conflicts with the last write;
* a write conflicts with the last write, or else with the first reader, by thread, that is
  not the writer itself.

The history is updated also when a conflict is found. An access that repeats a kept one of the
same kind and epoch is neither checked nor recorded. -/
namespace RaceMonitor

/-- Which pair of accesses is in conflict. -/
inductive RaceKind where
  | writeWrite
  | writeRead
  | readWrite
  | useAfterFree
  deriving DecidableEq, Repr, Inhabited

namespace RaceKind

def label : RaceKind → String
  | writeWrite => "write/write"
  | writeRead => "write/read"
  | readWrite => "read/write"
  | useAfterFree => "use-after-free"

/-- The number of the kind in binary reports. -/
def code : RaceKind → Nat
  | writeWrite => 1
  | writeRead => 2
  | readWrite => 3
  | useAfterFree => 4

def ofCode? : Nat → Option RaceKind
  | 1 => some writeWrite
  | 2 => some writeRead
  | 3 => some readWrite
  | 4 => some useAfterFree
  | _ => none

end RaceKind

/-- The reads since the last write. -/
inductive Readers where
  | none
  | exclusive (a : Access)
  /-- One access a thread, sorted by thread. -/
  | shared (as : List Access)
  deriving DecidableEq, Repr, Inhabited

namespace Readers

def toList : Readers → List Access
  | none => []
  | exclusive a => [a]
  | shared as => as

/-- The epoch of the latest read by `tid`. -/
def epochOf (r : Readers) (tid : ThreadId) : Option Epoch :=
  (r.toList.find? fun a => a.tid == tid).map Access.epoch

/-- The readers' epochs as a clock. -/
def clock (r : Readers) : VectorClock := VectorClock.ofList (r.toList.map Access.epoch)

def isShared : Readers → Bool
  | shared _ => true
  | _ => false

/-- Puts `a` in its thread's place among reads sorted by thread. -/
def place (a : Access) : List Access → List Access
  | [] => [a]
  | x :: xs =>
    if x.tid < a.tid then x :: place a xs
    else if x.tid = a.tid then a :: xs
    else a :: x :: xs

/-- Records a read, in the place of an earlier one by the same thread. -/
def add (r : Readers) (a : Access) : Readers :=
  match r with
  | none => exclusive a
  | exclusive x => if x.tid = a.tid then exclusive a else shared (place a [x])
  | shared as => shared (place a as)

end Readers

/-- What the check of one access found. -/
inductive Outcome where
  /-- A repetition within one epoch: nothing was checked or recorded. -/
  | sameEpoch
  /-- Everything kept happened before the access. -/
  | ordered
  | race (kind : RaceKind) (prior : Access)
  deriving DecidableEq, Repr, Inhabited

structure History where
  write : Option Access
  reads : Readers
  deriving DecidableEq, Repr, Inhabited

namespace History

def empty : History := ⟨none, .none⟩

/-- The kept accesses: the last write, then the readers. -/
def accesses (h : History) : List Access := h.write.toList ++ h.reads.toList

def isEmpty (h : History) : Bool := h.write.isNone && h.reads matches .none

/-- The outcome when `conflict` is all that is in conflict. -/
def outcomeOf (kind : RaceKind) : Option Access → Outcome
  | some prior => .race kind prior
  | none => .ordered

/-- The last write, unless `vc` has observed it. -/
def unobservedWrite (h : History) (vc : VectorClock) : Option Access :=
  h.write.filter fun w => !w.epoch.observedBy vc

/-- The first reader other than `tid` that `vc` has not observed. -/
def unobservedReader (h : History) (tid : ThreadId) (vc : VectorClock) : Option Access :=
  h.reads.toList.find? fun r => r.tid != tid && !r.epoch.observedBy vc

/-- A read by `tid`, whose clock is `vc`. -/
def onRead (h : History) (tid : ThreadId) (vc : VectorClock) (site : Site) : Outcome × History :=
  let epoch := vc.epoch tid
  if h.reads.epochOf tid = some epoch then (.sameEpoch, h)
  else
    (outcomeOf .writeRead (h.unobservedWrite vc),
      { h with reads := h.reads.add ⟨epoch, false, site⟩ })

/-- A write by `tid`, whose clock is `vc`. -/
def onWrite (h : History) (tid : ThreadId) (vc : VectorClock) (site : Site) : Outcome × History :=
  let epoch := vc.epoch tid
  if h.write.map Access.epoch = some epoch then (.sameEpoch, h)
  else
    let outcome := match h.unobservedWrite vc with
      | some w => .race .writeWrite w
      | none => outcomeOf .readWrite (h.unobservedReader tid vc)
    (outcome, ⟨some ⟨epoch, true, site⟩, .none⟩)

/-- An access of either kind. -/
def onAccess (h : History) (write : Bool) (tid : ThreadId) (vc : VectorClock) (site : Site) :
    Outcome × History :=
  if write then h.onWrite tid vc site else h.onRead tid vc site

/-- The read with the greatest clock, of several the last. -/
def latest : List Access → Option Access
  | [] => none
  | a :: as =>
    match latest as with
    | some b => if a.epoch.clock ≤ b.epoch.clock then some b else some a
    | none => some a

/-- The access that stands for the whole history: the last write, or else the latest read. -/
def last (h : History) : Option Access := h.write.or (latest h.reads.toList)

end History

end RaceMonitor
