import Mathlib.Data.List.Sort
import RaceMonitor.Proofs.Clock.Component

/-! A clock stands for a function of the threads.

A clock is built by a few operations, in any order and from any clocks built before: that is a
`Recipe`. What it means is a function from threads to numbers (`Recipe.view`), and the entries are
that function and nothing else: one for each thread where it is not zero, in the order of the
threads (`Recipe.clock_represents`). So two clocks have the same entries just when they mean the
same, also with each entry packed into a word. -/
namespace RaceMonitor

/-- Thread and clock can be read off the packed word. -/
theorem Epoch.toNat_packed (e : Epoch) :
    e.packed.toNat = e.tid.toNat * UInt32.size + e.clock.toNat := by
  have small := e.tid.toNat_lt
  have fits : e.tid.toNat * UInt32.size < UInt64.size := by
    unfold UInt32.size UInt64.size
    omega
  have upper : (e.tid.toUInt64 <<< 32).toNat = e.tid.toNat <<< 32 := by
    rw [UInt64.toNat_shiftLeft, UInt32.toNat_toUInt64, show (32 : UInt64).toNat % 64 = 32 from rfl,
      Nat.shiftLeft_eq, Nat.mod_eq_of_lt fits]
  rw [packed, UInt64.toNat_or, upper, UInt32.toNat_toUInt64,
    ← Nat.shiftLeft_add_eq_or_of_lt e.clock.toNat_lt, Nat.shiftLeft_eq]

theorem Epoch.packed_injective {d e : Epoch} (same : d.packed = e.packed) : d = e := by
  have words := congrArg UInt64.toNat same
  have dsmall := d.clock.toNat_lt
  have esmall := e.clock.toNat_lt
  rw [toNat_packed, toNat_packed] at words
  unfold UInt32.size at words
  have tid : d.tid = e.tid := UInt32.toNat_inj.mp (by omega)
  have clock : d.clock = e.clock := UInt32.toNat_inj.mp (by omega)
  cases d
  cases e
  simp_all

namespace VectorClock

/-- The entries are the components that are not zero. -/
theorem Canonical.mem_iff {es : List Epoch} (canonical : Canonical es) {e : Epoch} :
    e ∈ es ↔ e.clock ≠ 0 ∧ component es e.tid = e.clock := by
  induction es with
  | nil => simp [component, eq_comm]
  | cons x xs ih =>
    obtain ⟨later, nonzero, rest⟩ := canonical_cons.mp canonical
    rw [List.mem_cons, component_cons, ih rest]
    by_cases same : x.tid = e.tid
    · have missing : component xs e.tid = 0 := component_eq_zero (same ▸ later)
      rw [if_pos same, missing]
      grind [Epoch]
    · rw [if_neg same]
      grind

theorem entries_eq_iff {a b : VectorClock} :
    a.entries = b.entries ↔ ∀ tid, a.get tid = b.get tid := by
  constructor
  · intro same tid
    rw [get, get, same]
  · intro same
    have antisymm : Std.Antisymm fun d e : Epoch => d.tid < e.tid :=
      ⟨fun _ _ less more => absurd more (UInt32.lt_asymm less)⟩
    have irrefl : Std.Irrefl fun d e : Epoch => d.tid < e.tid := ⟨fun _ => UInt32.lt_irrefl _⟩
    refine a.canonical.sorted.eq_of_mem_iff b.canonical.sorted fun e => ?_
    rw [a.canonical.mem_iff, b.canonical.mem_iff]
    have component : VectorClock.component a.entries e.tid =
      VectorClock.component b.entries e.tid := same e.tid
    rw [component]

/-- The largest clock that is given for a thread. -/
def largest (epochs : List Epoch) (tid : ThreadId) : Nat :=
  ((epochs.filter fun e => e.tid = tid).map fun e => e.clock.toNat).foldr max 0

theorem largest_cons (e : Epoch) (es : List Epoch) (tid : ThreadId) :
    largest (e :: es) tid =
      if e.tid = tid then max e.clock.toNat (largest es tid) else largest es tid := by
  unfold largest
  rw [List.filter_cons]
  by_cases same : e.tid = tid <;> simp [same]

theorem get_ofList (es : List Epoch) (tid : ThreadId) :
    ((ofList es).get tid).toNat = largest es tid := by
  -- From any clock on, a thread keeps the larger of what it has and what is given for it.
  have folded : ∀ vc : VectorClock, ((es.foldl (fun vc e =>
      if vc.get e.tid < e.clock then vc.set e.tid e.clock else vc) vc).get tid).toNat =
      max (vc.get tid).toNat (largest es tid) := by
    induction es with
    | nil => exact fun vc => (Nat.max_zero _).symm
    | cons e es ih =>
      intro vc
      rw [List.foldl_cons, ih, largest_cons]
      split
      · rename_i less
        have less := UInt32.lt_iff_toNat_lt.mp less
        rw [get_set]
        by_cases same : e.tid = tid
        · rw [if_pos same.symm, if_pos same]
          rw [same] at less
          omega
        · rw [if_neg (Ne.symm same), if_neg same]
      · rename_i less
        have less := UInt32.le_iff_toNat_le.mp (UInt32.not_lt.mp less)
        split
        · rename_i same
          rw [same] at less
          omega
        · rfl
  rw [ofList, folded empty, get_empty]
  exact Nat.zero_max _

/-! ### Clocks as they are built -/

/-- How a clock comes about. A clock that is changed and used again is written out again. -/
inductive Recipe where
  | empty
  | ofList (epochs : List Epoch)
  | set (c : Recipe) (tid : ThreadId) (clock : Tick)
  | increment (c : Recipe) (tid : ThreadId)
  | join (a b : Recipe)
  | meet (a b : Recipe)
  deriving DecidableEq, Repr, Inhabited

namespace Recipe

def clock : Recipe → VectorClock
  | empty => .empty
  | ofList epochs => .ofList epochs
  | set c tid k => c.clock.set tid k
  | increment c tid => c.clock.increment tid
  | join a b => a.clock.join b.clock
  | meet a b => a.clock.meet b.clock

/-- What the clock means: how much of each thread's time has been observed. -/
def view : Recipe → ThreadId → Nat
  | empty => fun _ => 0
  | ofList epochs => largest epochs
  | set c tid k => Function.update c.view tid k.toNat
  | increment c tid => Function.update c.view tid (min (c.view tid + 1) Tick.last.toNat)
  | join a b => fun tid => max (a.view tid) (b.view tid)
  | meet a b => fun tid => min (a.view tid) (b.view tid)

theorem get_clock (c : Recipe) (tid : ThreadId) : (c.clock.get tid).toNat = c.view tid := by
  induction c generalizing tid with
  | empty => rfl
  | ofList epochs => exact get_ofList epochs tid
  | set c t k ih =>
    rw [clock, view, get_set, Function.update_apply, ← ih tid]
    split <;> rfl
  | increment c t ih =>
    rw [clock, view, get_increment, Function.update_apply, ← ih tid, ← ih t]
    split
    · exact Tick.toNat_next _
    · rfl
  | join a b iha ihb => rw [clock, view, get_join, Tick.toNat_max, iha, ihb]
  | meet a b iha ihb => rw [clock, view, get_meet, Tick.toNat_min, iha, ihb]

/-- **A clock is the function that it stands for.** However a clock is built, its entries are in
the order of their threads, one for each thread whose component is not zero, and what is looked up
is what the operations mean: an update, one more up to the last tick, the larger or smaller
component, the largest clock in a list. Two clocks have the same entries, and the same packed
words, just when they agree on every thread. -/
theorem clock_represents (a b : Recipe) :
    (a.clock.entries.Pairwise fun d e => d.tid < e.tid) ∧
    (∀ e, e ∈ a.clock.entries ↔ e.clock ≠ 0 ∧ a.view e.tid = e.clock.toNat) ∧
    (∀ tid, (a.clock.get tid).toNat = a.view tid) ∧
    (a.clock.entries = b.clock.entries ↔ ∀ tid, a.clock.get tid = b.clock.get tid) ∧
    (a.clock.entries.map Epoch.packed = b.clock.entries.map Epoch.packed ↔
      ∀ tid, a.clock.get tid = b.clock.get tid) := by
  refine ⟨a.clock.canonical.sorted, fun e => ?_, a.get_clock, entries_eq_iff, ?_⟩
  · rw [a.clock.canonical.mem_iff, ← a.get_clock, UInt32.toNat_inj]
    exact Iff.rfl
  · have packed := List.map_injective_iff.mpr fun _ _ same => Epoch.packed_injective same
    rw [packed.eq_iff, entries_eq_iff]

/-- Two ways to the same clock. -/
example : (join (set empty 2 7) (increment empty 5)).clock =
    (ofList [⟨5, 1⟩, ⟨2, 3⟩, ⟨2, 7⟩]).clock := by decide

end Recipe

end VectorClock

end RaceMonitor
