import Mathlib.Data.List.Induction
import Mathlib.Logic.Function.Basic
import RaceMonitor.Proofs.Nesting

/-! A lock as one counter a thread.

Threads call on a lock in any order, to acquire or to release it. For each thread count up with
its acquires and down with its releases, but not below 0 (`Call.count`). As long as no count goes
beyond the largest depth, the lock is those counts and nothing else: they decide what every call
is answered, and they are what is looked up (`counts_decide`). -/
namespace RaceMonitor

/-- What a release comes to, by how often its thread holds the lock. -/
def Release.ofCount : Nat → Release
  | 0 => .notHeld
  | 1 => .released
  | _ => .nested

namespace Lock

inductive Call where
  | acquire (tid : ThreadId)
  | release (tid : ThreadId)
  deriving DecidableEq, Repr, Inhabited

/-- What a call makes of a lock. -/
def Call.apply (l : Lock) : Call → Lock
  | acquire tid => (l.acquire tid).2
  | release tid => (l.release tid).2

/-- What a call makes of the counts. -/
def Call.count (c : ThreadId → Nat) : Call → ThreadId → Nat
  | acquire tid => Function.update c tid (c tid + 1)
  | release tid => Function.update c tid (c tid - 1)

/-- The lock that some calls make of a fresh one. -/
def after (calls : List Call) : Lock := calls.foldl Call.apply fresh

def counts (calls : List Call) : ThreadId → Nat := calls.foldl Call.count fun _ => 0

/-- No count ever goes beyond the largest depth. -/
def Countable (calls : List Call) : Prop :=
  ∀ before, before <+: calls → ∀ tid, counts before tid < UInt32.size

/-- The holders of the lock are the threads that `c` counts. -/
structure Counted (l : Lock) (c : ThreadId → Nat) : Prop extends l.Valid where
  depth : ∀ tid, (l.depth tid).toNat = c tid

variable {l : Lock} {c : ThreadId → Nat}

theorem fresh_counted : fresh.Counted fun _ => 0 := ⟨fresh_valid, fun _ => rfl⟩

/-! ### Single calls -/

theorem Counted.depth_eq_zero_iff (h : l.Counted c) (tid : ThreadId) :
    l.depth tid = 0 ↔ c tid = 0 := by
  rw [← h.depth tid, ← UInt32.toNat_inj]
  exact Iff.rfl

theorem Counted.acquire (h : l.Counted c) {tid : ThreadId} (fits : c tid + 1 < UInt32.size) :
    (l.acquire tid).2.Counted (Function.update c tid (c tid + 1)) where
  toValid := acquire_valid h.toValid tid
  depth u := by
    have last : Tick.last.toNat = UInt32.size - 1 := rfl
    rw [depth_acquire, Function.update_apply]
    split
    · rw [Tick.toNat_next, h.depth tid]
      omega
    · exact h.depth u

theorem Counted.release (h : l.Counted c) (tid : ThreadId) :
    (l.release tid).2.Counted (Function.update c tid (c tid - 1)) := by
  have before := h.depth tid
  have released := Lock.released h.toValid tid
  generalize l.release tid = result at released
  cases released with
  | notHeld depth =>
    have none : c tid = 0 := (h.depth_eq_zero_iff tid).mp depth
    rw [none, Nat.zero_sub, ← none, Function.update_eq_self]
    exact h
  | nested l' depth valid clock depths =>
    have one : (1 : UInt32) ≤ l.depth tid := UInt32.le_iff_toNat_le.mpr (Nat.le_of_lt depth)
    refine ⟨valid, fun u => ?_⟩
    rw [depths, Function.update_apply]
    split
    · rw [UInt32.toNat_sub_of_le _ _ one, before, UInt32.toNat_one]
    · exact h.depth u
  | released l' depth valid clock depths =>
    rw [depth, UInt32.toNat_one] at before
    refine ⟨valid, fun u => ?_⟩
    rw [depths, Function.update_apply]
    split
    · rw [← before]
      rfl
    · exact h.depth u

/-- What is answered to a release, the count says. -/
theorem Counted.release_answer (h : l.Counted c) (tid : ThreadId) :
    (l.release tid).1 = Release.ofCount (c tid) := by
  have before := h.depth tid
  have released := Lock.released h.toValid tid
  generalize l.release tid = result at released
  cases released with
  | notHeld depth => rw [(h.depth_eq_zero_iff tid).mp depth, Release.ofCount]
  | nested l' depth =>
    obtain ⟨n, more⟩ : ∃ n, c tid = n + 2 := ⟨c tid - 2, by omega⟩
    rw [more, Release.ofCount]
    all_goals omega
  | released l' depth =>
    rw [← before, depth, UInt32.toNat_one, Release.ofCount]

theorem Counted.release_of_notHeld (h : l.Counted c) {tid : ThreadId}
    (answer : (l.release tid).1 = .notHeld) : (l.release tid).2 = l := by
  have released := Lock.released h.toValid tid
  generalize l.release tid = result at released answer
  cases released with
  | notHeld => rfl
  | nested | released => cases answer

theorem Counted.isHeld_iff (h : l.Counted c) : l.isHeld = true ↔ ∃ tid, 0 < c tid := by
  rw [isHeld, Bool.not_eq_true', List.isEmpty_eq_false_iff_exists_mem]
  constructor
  · intro held
    obtain ⟨holder, mem⟩ := held
    have depth := depth_eq_of_mem h.toValid mem
    refine ⟨holder.1, Nat.pos_of_ne_zero fun none => h.held holder mem ?_⟩
    rw [← depth, h.depth_eq_zero_iff, none]
  · intro counted
    obtain ⟨tid, pos⟩ := counted
    by_contra nobody
    refine Nat.ne_of_gt pos ((h.depth_eq_zero_iff tid).mp ?_)
    rw [Lock.depth_eq_zero_iff h.toValid]
    exact fun holder mem => absurd ⟨holder, mem⟩ nobody

/-! ### Calls one after the other -/

theorem Counted.apply (h : l.Counted c) (call : Call)
    (fits : ∀ tid, call.count c tid < UInt32.size) :
    (call.apply l).Counted (call.count c) := by
  cases call with
  | acquire tid =>
    have fits := fits tid
    rw [Call.count, Function.update_self] at fits
    exact h.acquire fits
  | release tid => exact h.release tid

theorem after_concat (calls : List Call) (call : Call) :
    after (calls ++ [call]) = call.apply (after calls) := List.foldl_append

theorem counts_concat (calls : List Call) (call : Call) :
    counts (calls ++ [call]) = call.count (counts calls) := List.foldl_append

theorem after_counted {calls : List Call} (countable : Countable calls) :
    (after calls).Counted (counts calls) := by
  induction calls using List.reverseRecOn with
  | nil => exact fresh_counted
  | append_singleton calls call ih =>
    have earlier : Countable calls := fun before sub =>
      countable before (sub.trans (List.prefix_append calls [call]))
    have fits := countable (calls ++ [call]) List.prefix_rfl
    rw [counts_concat] at fits
    rw [after_concat, counts_concat]
    exact (ih earlier).apply call fits

theorem Call.count_le (c : ThreadId → Nat) (call : Call) (tid : ThreadId) :
    call.count c tid ≤ c tid + 1 := by
  cases call with
  | acquire u =>
    rw [count, Function.update_apply]
    split
    · rename_i same
      exact same ▸ Nat.le_refl _
    · exact Nat.le_succ _
  | release u =>
    rw [count, Function.update_apply]
    split
    · rename_i same
      rw [same]
      omega
    · exact Nat.le_succ _

/-- A thread has made no more acquires than there are calls. -/
theorem counts_le_length (calls : List Call) (tid : ThreadId) :
    counts calls tid ≤ calls.length := by
  induction calls using List.reverseRecOn with
  | nil => exact Nat.le_refl 0
  | append_singleton calls call ih =>
    rw [counts_concat, List.length_append, List.length_singleton]
    exact Nat.le_trans (call.count_le _ tid) (Nat.succ_le_succ ih)

theorem countable_of_length {calls : List Call} (short : calls.length < UInt32.size) :
    Countable calls := fun before sub tid =>
  Nat.lt_of_le_of_lt (Nat.le_trans (counts_le_length before tid) sub.length_le) short

/-- **A lock is one counter a thread.** After any calls that do not count beyond the largest
depth, an acquire is the outermost just when its thread's count is 0; a release is refused at 0,
and then changes nothing, is the outermost at 1 and a nested one above; the depth of a thread is
its count, and the lock is held when some count is not 0. No thread is listed twice as a holder,
and none with depth 0. -/
theorem counts_decide {calls : List Call} (countable : Countable calls) :
    (∀ tid, ((after calls).acquire tid).1 = true ↔ counts calls tid = 0) ∧
    (∀ tid, ((after calls).release tid).1 = Release.ofCount (counts calls tid)) ∧
    (∀ tid, ((after calls).release tid).1 = .notHeld →
      ((after calls).release tid).2 = after calls) ∧
    (∀ tid, ((after calls).depth tid).toNat = counts calls tid) ∧
    ((after calls).isHeld = true ↔ ∃ tid, 0 < counts calls tid) ∧
    ((after calls).holders.map Prod.fst).Nodup ∧ ∀ h ∈ (after calls).holders, h.2 ≠ 0 := by
  have counted := after_counted countable
  refine ⟨fun tid => ?_, counted.release_answer, fun tid => counted.release_of_notHeld,
    counted.depth, counted.isHeld_iff, counted.once, counted.held⟩
  rw [acquire_outermost counted.toValid, counted.depth_eq_zero_iff]

/-- Three threads hold the lock together, thread 1 twice, and thread 3 releases it in vain. Once
thread 1 lets go, thread 4 stands in its place among the holders. -/
def sharing : List Call :=
  [.acquire 1, .acquire 2, .acquire 4, .acquire 1, .release 3, .release 1, .release 1]

theorem counts_decide_sharing : Countable sharing ∧
    ((after sharing).acquire 1).1 = true ∧ ((after sharing).release 2).1 = .released ∧
    ((after sharing).release 3).1 = .notHeld ∧ ((after sharing).depth 2).toNat = 1 ∧
    (after sharing).isHeld = true := by
  have countable : Countable sharing := countable_of_length (by decide)
  obtain ⟨acquired, released, _, depth, held, _⟩ := counts_decide countable
  exact ⟨countable, (acquired 1).mpr (by decide), (released 2).trans (by decide),
    (released 3).trans (by decide), (depth 2).trans (by decide), held.mpr ⟨2, by decide⟩⟩

end Lock

end RaceMonitor
