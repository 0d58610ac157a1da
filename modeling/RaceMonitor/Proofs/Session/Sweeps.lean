import RaceMonitor.Proofs.Engine.Enumeration
import RaceMonitor.Proofs.Session.Descent
import RaceMonitor.Proofs.Session.Frees

/-! What a sweep drops.

From time to time the freed blocks go whose free all live threads have observed. Such a block is of
no use any more to those threads, nor to any thread that descends from them by forks
(`Swept.seen`). -/
namespace RaceMonitor.Session

variable {r : Session}

/-- Event `k` is a free, and with it a freed block around `x` goes: the one that it frees, or one
from before. -/
def Sweeps (r : Session) (k : Nat) (x : Word) : Prop :=
  ∃ (tid : ThreadId) (base : Word) (t : Thread) (b : Block) (seq : Nat) (c : Block),
    r.events[k]? = some (.free tid base) ∧ r.Touches k tid t ∧
    (r.heap k).live[base]? = some b ∧ ((r.heap k).bury b t.epoch).freed[seq]? = some c ∧
    c.extent.overlaps (Extent.ofByte x) = true ∧ (r.heap (k + 1)).freed[seq]? = none

/-- At every sweep of a block around `x` before event `n`, the thread was live, or it descends from
one that was. -/
def Privy (r : Session) (n : Nat) (tid : ThreadId) (x : Word) : Prop :=
  ∀ k < n, r.Sweeps k x → r.Descends (k + 1) tid

theorem Privy.of_succ {n : Nat} {tid : ThreadId} {x : Word} (h : r.Privy (n + 1) tid x) :
    r.Privy n tid x :=
  fun k lt => h k (Nat.lt_succ_of_lt lt)

/-- A thread that was live before the first free is privy to all sweeps. -/
theorem Privy.of_live {i n : Nat} {tid : ThreadId} {x : Word} (first : (r.board i).live tid)
    (last : (r.board n).live tid)
    (none : ∀ k < i, ∀ tid base, r.events[k]? ≠ some (.free tid base)) : r.Privy n tid x := by
  intro k lt sweeps
  obtain ⟨tid', base, _, _, _, _, event, _⟩ := sweeps
  have past : i ≤ k := Nat.not_lt.mp fun early => none k early tid' base event
  exact .live tid (live_between (Nat.le_succ_of_le past) lt first last)

/-- Event `k` sweeps a block with the core `c`: all threads that are live then have observed its
free. -/
structure Swept (r : Session) (k : Nat) (c : Block) : Prop where
  freed : ∃ f ≤ k, ∃ u t, r.Touches f u t ∧ c.freedAt = some t.epoch ∧
    ∀ (tid : ThreadId) (th : Thread), (r.state (k + 1)).tables.threads[tid]? = some th →
      t.epoch.observedBy th.clock = true
  sweeps : ∀ x, c.extent.overlaps (Extent.ofByte x) = true → r.Sweeps k x

/-- A swept block is of no use to those who were live then, and to their descendants. -/
theorem Swept.seen {k n : Nat} {c : Block} (swept : r.Swept k c) (lt : k < n) {tid : ThreadId}
    (descends : r.Descends (k + 1) tid) {t : Thread}
    (tracked : (r.state n).tables.threads[tid]? = some t) : c.unseenBy tid t.clock = false := by
  obtain ⟨f, le, u, v, touches, freedAt, all⟩ := swept.freed
  have observed : v.epoch.observedBy t.clock = true := by
    rw [touches.observedBy_iff tracked]
    refine descends.known touches.plain (Nat.succ_le_succ le) (fun w live => ?_) lt
      (Table.mem_iff_exists.mpr ⟨t, tracked⟩)
    obtain ⟨th, there⟩ := Table.mem_iff_exists.mp live
    exact (touches.observedBy_iff there).mp (all w th there)
  rw [Block.unseenBy, freedAt, Option.any_some, observed, Bool.not_true, Bool.and_false]

/-- What a sweep drops. -/
theorem swept_of_gone (tracking : r.start.config.trackAllocations = true) {n seq : Nat}
    {tid : ThreadId} {base : Word} {t : Thread} {b c : Block}
    (event : r.events[n]? = some (.free tid base)) (touches : r.Touches n tid t)
    (live : (r.heap n).live[base]? = some b)
    (after : ((r.heap n).bury b t.epoch).MaySweep ((r.state (n + 1)).tables.floor r.order)
      (r.heap (n + 1)))
    (there : ((r.heap n).bury b t.epoch).core seq = some c)
    (gone : (r.heap (n + 1)).core seq = none) : r.Swept n c := by
  have seen := after.observed there gone
  obtain ⟨d, found, rfl⟩ := Heap.core_eq_some.mp there
  obtain ⟨f, le, v, w, freeing, freedAt⟩ : ∃ f ≤ n, ∃ v w, r.Touches f v w ∧
      d.freedAt = some w.epoch := by
    rw [Heap.bury_freed] at found
    split at found
    · cases found
      exact ⟨n, Nat.le_refl n, tid, t, touches, rfl⟩
    · obtain ⟨f, lt, _, v, w, freeing, freedAt⟩ := retained_of_freed tracking found
      exact ⟨f, Nat.le_of_lt lt, v, w, freeing, freedAt⟩
  rw [Block.core_freedAt, freedAt, Option.any_some] at seen
  have known : tid ∈ (r.state (n + 1)).tables.threads :=
    Table.mem_iff_exists.mpr ⟨t, touches.tracked⟩
  refine ⟨⟨f, le, v, w, freeing, freedAt, (Tables.observedBy_floor r.order known _).mp seen⟩,
    fun x covers => ⟨tid, base, t, b, seq, d, event, touches, live, found, covers, ?_⟩⟩
  exact Option.map_eq_none_iff.mp gone

/-- What becomes of a block's range does not matter. -/
theorem Swept.reissue {k : Nat} {c c' : Block} (swept : r.Swept k c) {e : Extent}
    (handed : c.reissue e = some c') : r.Swept k c' := by
  obtain ⟨extent, freedAt⟩ : c'.extent = c.extent ∧ c'.freedAt = c.freedAt := by
    unfold Block.reissue at handed
    split at handed
    · obtain ⟨_, rfl⟩ := Block.handedOut_eq_some.mp handed
      exact ⟨rfl, rfl⟩
    · cases handed
      exact ⟨rfl, rfl⟩
  exact ⟨freedAt ▸ swept.freed, extent ▸ swept.sweeps⟩

end RaceMonitor.Session
