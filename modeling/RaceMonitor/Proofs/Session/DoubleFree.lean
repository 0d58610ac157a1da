import RaceMonitor.Proofs.Engine.Anomalies
import RaceMonitor.Proofs.Heap.Generations
import RaceMonitor.Proofs.Race.Kept

/-! Frees of what is not there.

A free of an address at which no live block starts is a double free as long as a freed block that
starts there is kept and no part of it has been handed out again; otherwise it is the free of an
unknown allocation (`Session.misfree_iff`). It does not matter whether the part that was handed out
has the address in it: the mark is on the whole block. So a double free goes unrecognised when only
the rest of the block was allocated since (`Session.halved_unrecognised`). -/
namespace RaceMonitor

/-- A freed block starts at `base` that has not been reused. -/
def Heap.Unreused (h : Heap) (base : Word) : Prop :=
  ∃ (seq : Nat) (b : Block), h.freed[seq]? = some b ∧ b.extent.base = base ∧ b.reused = false

/-- Which fault it is to free what is not there. -/
theorem Heap.free_fault {h : Heap} {base : Word} (missing : h.live[base]? = none)
    (epoch : Epoch) : h.Unreused base ∧ h.free base epoch = .error .doubleFree ∨
      ¬ h.Unreused base ∧ h.free base epoch = .error .unknown := by
  have before : (h.freed.any fun _ b => b.extent.base == base && !b.reused) = true ↔
      h.Unreused base := by
    simp only [Table.any_iff, Bool.and_eq_true, beq_iff_eq, Bool.not_eq_true', Unreused]
  simp only [Heap.free, missing]
  split
  · rename_i there
    exact .inl ⟨before.mp there, rfl⟩
  · rename_i none
    exact .inr ⟨mt before.mpr none, rfl⟩

namespace State

/-- What the free of a block comes to that is not there. -/
inductive Misfreed (s : State) (tid : ThreadId) (addr : Word) : State → List Anomaly → Prop where
  | ignored (why : s.config.trackAllocations = false) : Misfreed s tid addr s []
  | refused (s' : State) (missing : tid ∉ s'.tables.threads) : Misfreed s tid addr s' []
  | doubleFree (tracking : s.config.trackAllocations = true) (s' : State)
    (there : tid ∈ s'.tables.threads) (before : s.tables.heap.Unreused addr) :
    Misfreed s tid addr s' [.doubleFree tid addr]
  | unknown (tracking : s.config.trackAllocations = true) (s' : State)
    (there : tid ∈ s'.tables.threads) (never : ¬ s.tables.heap.Unreused addr) :
    Misfreed s tid addr s' [.unknownAllocation tid addr]

theorem Misfreed.reported {s s' : State} {tid : ThreadId} {addr : Word} {found : List Anomaly}
    (h : s.Misfreed tid addr s' found) :
    (found = [] ↔ ¬ (s.config.trackAllocations = true ∧ tid ∈ s'.tables.threads)) ∧
      (found = [.doubleFree tid addr] ↔
        (s.config.trackAllocations = true ∧ tid ∈ s'.tables.threads) ∧
          s.tables.heap.Unreused addr) ∧
      (found = [.unknownAllocation tid addr] ↔
        (s.config.trackAllocations = true ∧ tid ∈ s'.tables.threads) ∧
          ¬ s.tables.heap.Unreused addr) := by
  cases h with
  | ignored why => simp [why]
  | refused s' missing => simp [missing]
  | doubleFree tracking s' there before => simp [tracking, there, before]
  | unknown tracking s' there never => simp [tracking, there, never]

theorem deallocate_misfreed {s : State} (h : Host) (tid : ThreadId) {addr : Word}
    (missing : s.tables.heap.live[addr]? = none) :
    s.Misfreed tid addr (s.deallocate h tid addr).1 (anomalies (s.deallocate h tid addr).2) := by
  have frees := s.deallocate_frees h tid addr
  generalize s.deallocate h tid addr = res at frees ⊢
  cases frees with
  | ignored off => exact .ignored off
  | refused _ met =>
    obtain ⟨refused, x, rfl⟩ := thread_refused met
    rw [(thread_plain met).anomalies]
    exact .refused _ refused
  | @misused t s₁ _ fault tracking met failed =>
    have enter := thread_entered met
    have there : tid ∈ s₁.tables.threads := Table.mem_iff_exists.mpr ⟨t, enter.there⟩
    rw [enter.sameMemory.heap] at failed
    rw [anomalies_append, (thread_plain met).anomalies, anomalies_raiseAnomaly]
    rcases Heap.free_fault missing t.epoch with ⟨before, own⟩ | ⟨never, own⟩
    · cases own.symm.trans failed
      exact .doubleFree tracking _ there before
    · cases own.symm.trans failed
      exact .unknown tracking _ there never
  | freed _ met done | swept _ met done =>
    obtain ⟨b, live, _⟩ := Heap.live_of_free done
    rw [(thread_entered met).sameMemory.heap, missing] at live
    cases live

end State

namespace Session

variable {r : Session}

/-- No freed block is empty. -/
theorem freed_nonempty (tracking : r.start.config.trackAllocations = true) {n seq : Nat}
    {b : Block} (found : (r.heap n).freed[seq]? = some b) : b.extent.size ≠ 0 := by
  induction n generalizing b with
  | zero =>
    cases (r.freed_zero _).symm.trans found
  | succ n ih =>
    cases r.disposed n with
    | thinned _ thinned =>
      obtain ⟨c, there, _, _, rfl⟩ := thinned.heap.kept seq b found
      have there : (r.heap n).freed[seq]? = some c := there
      exact (ih there : c.extent.size ≠ 0)
    | freed _ tid addr event t _ c live thinned =>
      obtain ⟨d, there, _, _, rfl⟩ := thinned.heap.kept seq b found
      have there : ((r.heap n).bury c t.epoch).freed[seq]? = some d := there
      rw [Heap.bury_freed] at there
      split at there
      · cases there
        obtain ⟨_, origin⟩ := live_origin tracking live
        exact origin.nonempty
      · exact (ih there : d.extent.size ≠ 0)
    | accessed _ _ _ _ _ _ processed =>
      obtain ⟨c, there, ⟨_, rfl⟩, _⟩ :=
        processed.accessed.freed (r.filtered n) ((r.config n).symm ▸ tracking) found
      exact (ih there : c.extent.size ≠ 0)

/-- Event `n` is made by `tid`, a tracked thread, and allocations are tracked. -/
def Arrives (r : Session) (n : Nat) (tid : ThreadId) : Prop :=
  r.start.config.trackAllocations = true ∧ ∃ t, r.Touches n tid t

/-- When event `n` comes, a freed block that starts at `addr` is kept, and since its free there has
been no event of the kind `p`. -/
def FreedSince (r : Session) (n : Nat) (addr : Word) (p : Nat → Extent → Prop) : Prop :=
  ∃ f b, r.Retained n f b ∧ b.extent.base = addr ∧ ∀ k, f < k → k < n → ¬ p k b.extent

theorem unreused_iff (tracking : r.start.config.trackAllocations = true) {n : Nat} {addr : Word} :
    (r.heap n).Unreused addr ↔ r.FreedSince n addr r.Reissues := by
  constructor
  · rintro ⟨seq, b, found, base, unused⟩
    obtain ⟨f, _, numbers, _⟩ := retained_of_freed tracking found
    refine ⟨f, b, ⟨seq, numbers, found⟩, base, ?_⟩
    rcases reissued tracking numbers found with ⟨_, _, untouched⟩ | ⟨used, _⟩
    · exact untouched
    · cases unused.symm.trans used
  · rintro ⟨f, b, ⟨seq, numbers, found⟩, base, untouched⟩
    refine ⟨seq, b, found, base, ?_⟩
    rcases reissued tracking numbers found with ⟨unused, _⟩ | ⟨_, k, only, _⟩
    · exact unused
    · exact absurd only.reissues (untouched k only.after only.before)

/-- An allocation around the first address of a freed block overlaps the block, but for the last
address. -/
theorem Retained.reissues {n f k : Nat} {b : Block} (retained : r.Retained n f b)
    (other : b.extent.base ≠ Word.top) (resets : r.Resets k b.extent.base) :
    r.Reissues k b.extent := by
  obtain ⟨seq, _, found⟩ := retained
  obtain ⟨tracking, tid, pc, base, size, event, covers⟩ := resets
  have starts := Extent.covers_base (freed_nonempty tracking found)
  exact ⟨tracking, tid, pc, ⟨base, size⟩, event, Extent.nonempty_of_covers covers,
    Extent.overlaps_of_contains other (Extent.contains_iff.mpr starts)
      (Extent.contains_iff.mpr covers)⟩

/-- **The free of a block that is not there** is an anomaly unless it is dropped. It is a double
free exactly when a freed block that starts at the address is kept, and since its free nothing has
been allocated on any part of it; else it is the free of an unknown allocation. Only where whatever
was allocated on such a block contains its first address is it enough to ask for allocations around
that address. -/
theorem misfree_iff {n : Nat} {tid : ThreadId} {addr : Word}
    (event : r.events[n]? = some (.free tid addr)) (missing : (r.heap n).live[addr]? = none) :
    (anomalies (r.output n) = [] ↔ ¬ r.Arrives n tid) ∧
    (anomalies (r.output n) = [.doubleFree tid addr] ↔
      r.Arrives n tid ∧ r.FreedSince n addr r.Reissues) ∧
    (anomalies (r.output n) = [.unknownAllocation tid addr] ↔
      r.Arrives n tid ∧ ¬ r.FreedSince n addr r.Reissues) ∧
    (addr ≠ Word.top →
      (∀ f b k, r.Retained n f b → b.extent.base = addr → f < k → k < n →
        r.Reissues k b.extent → r.Resets k addr) →
      (r.FreedSince n addr r.Reissues ↔ r.FreedSince n addr fun k _ => r.Resets k addr)) := by
  have tracked : (∃ t, r.Touches n tid t) ↔ tid ∈ (r.state (n + 1)).tables.threads :=
    Iff.trans ⟨fun ⟨t, touches⟩ => ⟨t, touches.tracked⟩,
      fun ⟨t, there⟩ => ⟨t, ⟨_, event, rfl⟩, there⟩⟩ Table.mem_iff_exists.symm
  have misfreed := (r.state n).deallocate_misfreed r.host tid missing
  obtain ⟨silent, double, unknown⟩ := misfreed.reported
  rw [r.config] at silent double unknown
  rw [Arrives, tracked, output_eq event, state_succ event, State.step]
  refine ⟨silent, double.trans (and_congr_right fun handled => unreused_iff handled.1),
    unknown.trans (and_congr_right fun handled => not_congr (unreused_iff handled.1)),
    fun other around => ?_⟩
  constructor
  · rintro ⟨f, b, retained, rfl, untouched⟩
    exact ⟨f, b, retained, rfl, fun k after before resets =>
      untouched k after before (retained.reissues other resets)⟩
  · rintro ⟨f, b, retained, rfl, unreset⟩
    exact ⟨f, b, retained, rfl, fun k after before issued =>
      unreset k after before (around f b k retained rfl after before issued)⟩

/-- A block is freed twice. -/
def twice : Session := .default [.alloc 1 1 256 8, .free 1 256, .free 1 256]

theorem misfree_iff_twice : twice.events[2]? = some (.free 1 256) ∧
    (twice.heap 2).live[(256 : Word)]? = none ∧
    anomalies (twice.output 2) = [.doubleFree 1 256] := by
  obtain ⟨missing, there, tracked, number, taken⟩ : (twice.heap 2).live[(256 : Word)]? = none ∧
      ((twice.heap 2).freed[0]?.any fun b => b.extent.base == 256) = true ∧
      1 ∈ (twice.state 3).tables.threads ∧
      (twice.heap 1).nextSeq = 0 ∧ (twice.heap 2).nextSeq = 1 := by
    simp only [twice, heap, state, Session.default, host, List.take, State.run, State.step,
      State.allocate, Heap.handOut, Heap.overlapping, Heap.touching_eq]
    decide +kernel
  obtain ⟨t, tracked⟩ := Table.mem_iff_exists.mp tracked
  obtain ⟨b, found, base⟩ := (Option.any_eq_true _ _).mp there
  have numbers : twice.Numbers 1 0 := ⟨⟨1, 256, rfl⟩, number, taken⟩
  have arrives : twice.Arrives 2 1 := ⟨rfl, t, ⟨_, rfl, rfl⟩, tracked⟩
  have before : twice.FreedSince 2 256 twice.Reissues :=
    ⟨1, b, ⟨0, numbers, found⟩, by simpa using base, fun k after before => by omega⟩
  exact ⟨rfl, missing, (misfree_iff rfl missing).2.1.mpr ⟨arrives, before⟩⟩

/-- A block is freed, its second half is allocated, and the block is freed again. -/
def halved : Session := .default [.alloc 1 1 256 16, .free 1 256, .alloc 1 2 264 8, .free 1 256]

/-- The freed block is kept, and nothing has been allocated around its first address, but the
second free is not recognised. -/
theorem halved_unrecognised : halved.events[3]? = some (.free 1 256) ∧
    (halved.heap 3).live[(256 : Word)]? = none ∧
    (halved.FreedSince 3 256 fun k _ => halved.Resets k 256) ∧
    anomalies (halved.output 3) = [.unknownAllocation 1 256] := by
  obtain ⟨missing, there, number, taken, found⟩ : (halved.heap 3).live[(256 : Word)]? = none ∧
      ((halved.heap 3).freed[0]?.any fun b => b.extent.base == 256) = true ∧
      (halved.heap 1).nextSeq = 0 ∧ (halved.heap 2).nextSeq = 1 ∧
      anomalies (halved.output 3) = [.unknownAllocation 1 256] := by
    simp only [halved, heap, output, state, Session.default, host, List.take, State.run, State.step,
      State.allocate, Heap.handOut, Heap.overlapping, Heap.touching_eq]
    decide +kernel
  obtain ⟨b, kept, base⟩ := (Option.any_eq_true _ _).mp there
  have numbers : halved.Numbers 1 0 := ⟨⟨1, 256, rfl⟩, number, taken⟩
  refine ⟨rfl, missing, ⟨1, b, ⟨0, numbers, kept⟩, by simpa using base, fun k after before => ?_⟩,
    found⟩
  obtain rfl : k = 2 := by omega
  rintro ⟨_, tid, pc, addr, size, event, covers⟩
  have event : some (Event.alloc 1 2 264 8) = some (.alloc tid pc addr size) := event
  simp only [Option.some.injEq, Event.alloc.injEq] at event
  obtain ⟨_, _, rfl, rfl⟩ := event
  exact absurd covers.1 (by decide)

end Session

end RaceMonitor
