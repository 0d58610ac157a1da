import RaceMonitor.Proofs.Heap.Generations
import RaceMonitor.Proofs.Session.Live

/-! Generations of blocks in a session.

A host that allocates no range that shares an address with a live block has two freed blocks at
most kept at any address, one of them at most not reused, and every freed block below a live one is
marked as reused (`Session.generations_bounded`). The last address is left out: no look-up reaches
it. -/
namespace RaceMonitor

/-- Ranges that are not empty and have no common address do not overlap. -/
theorem Extent.not_overlaps_of_disjoint {e f : Extent} (nonempty : e.size ≠ 0)
    (nonempty' : f.size ≠ 0) (disjoint : ∀ x, e.covers x → ¬ f.covers x) :
    e.overlaps f = false := by
  by_contra shared
  simp only [overlaps, limit, Bool.and_eq_true, decide_eq_true_eq, UInt64.lt_iff_toNat_lt,
    Word.toNat_addSat, Bool.not_eq_false] at shared
  -- The ranges have the later of the two first addresses in common.
  rcases Nat.le_total e.base.toNat f.base.toNat with le | le
  · exact disjoint f.base ⟨le, by omega⟩ (covers_base nonempty')
  · exact disjoint e.base (covers_base nonempty) ⟨le, by omega⟩

namespace State

variable {s : State} {h : Host}

/-- Every event keeps the bounds, unless it allocates what overlaps a live block. -/
theorem step_generational (quiet : h.Quiet) (filtered : s.tables.Filtered)
    (pruned : s.tables.heap.Pruned) (gen : s.tables.heap.Generational) {e : Event}
    (unused : ∀ (tid : ThreadId) (pc addr size : Word), e = .alloc tid pc addr size → size ≠ 0 →
      ∀ (base : Word) (b : Block), s.tables.heap.live[base]? = some b →
        b.extent.overlaps ⟨addr, size⟩ = false) : (s.step h e).1.tables.heap.Generational := by
  have step := s.step_remembers quiet e
  generalize (s.step h e).1 = s' at step
  generalize races (s.step h e).2 = delivered at step
  cases step with
  | accessed handled =>
    cases handled with
    | refused _ _ _ _ tables => exact tables ▸ gen
    | entered t s₁ _ _ _ _ accessed =>
      obtain ⟨_, marked, core⟩ := accessed.marked filtered
      exact gen.wanes (.of_core (by rw [marked]) core)
  | @allocated tid pc addr size _ allocated =>
    have live := allocated.live_eq
    have core := allocated.core filtered pruned
    by_cases takes : s.config.trackAllocations = true ∧ size ≠ 0
    · simp only [if_pos takes] at live core
      exact gen.allocated (c := Block.new tid pc ⟨addr, size⟩) takes.2
        (unused tid pc addr size rfl takes.2) live core
    · simp only [if_neg takes, Option.bind_fun_some] at live core
      exact gen.wanes (.of_core live core)
  | freed deallocated =>
    rcases deallocated.heap_cases with same | ⟨t, b, _, live, swept⟩
    · exact same ▸ gen
    · have left := (gen.buried live t.epoch).wanes (.evict _)
      rcases swept with same | same
      · exact same ▸ left
      · exact same ▸ left.wanes (.dropObserved _ _)
  | aside _ _ aside => exact aside.heap ▸ gen

end State

namespace Session

variable {r : Session}

/-- No range is allocated that shares an address with a block that is live then. -/
def AllocatesUnused (r : Session) : Prop :=
  ∀ (n : Nat) (e : Extent), r.Allocates n e → ∀ (base : Word) (b : Block),
    (r.heap n).live[base]? = some b → ∀ x, e.covers x → ¬ b.extent.covers x

theorem generational (unused : r.AllocatesUnused) (n : Nat) : (r.heap n).Generational := by
  refine r.invariant (p := fun s => s.tables.heap.Generational) ?_ (fun n e event gen => ?_) n
  · rw [r.fresh]
    exact .empty _ _
  · refine State.step_generational r.quiet (r.filtered n) (r.pruned n) gen ?_
    rintro tid pc addr size rfl nonempty base b live
    have disjoint := unused n ⟨addr, size⟩ ⟨tid, pc, event⟩ base b live
    exact Extent.not_overlaps_of_disjoint (gen.nonempty base b live) nonempty
      fun x mine other => disjoint x other mine

/-- **At most two generations of freed blocks are kept at an address**, and one of them at most has
not been reused; and a freed block that a live one overlaps is marked as reused. This is so at every
moment of a session that allocates no range with an address of a live block. -/
theorem generations_bounded (unused : r.AllocatesUnused) (n : Nat) :
    (∀ a ≠ Word.top,
      (r.heap n).freed.values.countP (fun b => b.extent.contains a) ≤ 2 ∧
      (r.heap n).freed.values.countP (fun b => b.extent.contains a && !b.reused) ≤ 1) ∧
    ∀ (seq : Nat) (b : Block) (base : Word) (c : Block), (r.heap n).freed[seq]? = some b →
      (r.heap n).live[base]? = some c → b.extent.overlaps c.extent = true → b.reused = true := by
  have gen := generational unused n
  exact ⟨fun a ha => ⟨gen.two a ha, gen.one a ha⟩, gen.reused⟩

/-- A block is allocated and freed, and then one that begins in the middle of it. -/
def staggered : Session :=
  .default [.alloc 1 1 256 16, .free 1 256, .alloc 1 2 264 16, .free 1 264]

/-- Two freed blocks are kept where they overlap. -/
theorem staggered_runs : (staggered.heap 0).live.isEmpty = true ∧
    (staggered.heap 2).live.isEmpty = true ∧
    (staggered.heap 4).freed.values.countP (fun b => b.extent.contains 264) = 2 := by
  simp only [staggered, heap, state, Session.default, host, List.take, State.run, State.step,
    State.allocate, Heap.handOut, Heap.overlapping, Heap.touching_eq]
  decide +kernel

theorem staggered_unused : staggered.AllocatesUnused := by
  intro n e allocates base b live
  obtain ⟨tid, pc, event⟩ := allocates
  obtain ⟨first, second, _⟩ := staggered_runs
  have none {n : Nat} (empty : (staggered.heap n).live.isEmpty = true) :
      (staggered.heap n).live[base]? ≠ some b := by
    rw [Std.ExtTreeMap.isEmpty_iff.mp empty, Std.ExtTreeMap.getElem?_empty]
    nofun
  rcases n with _ | _ | _ | _ | n
  · exact absurd live (none first)
  · cases event
  · exact absurd live (none second)
  · cases event
  · cases event

theorem generations_bounded_staggered : staggered.AllocatesUnused ∧ (264 : Word) ≠ Word.top ∧
    (staggered.heap 4).freed.values.countP (fun b => b.extent.contains 264) = 2 ∧
    (staggered.heap 4).freed.values.countP (fun b => b.extent.contains 264 && !b.reused) ≤ 1 := by
  obtain ⟨bounds, _⟩ := generations_bounded staggered_unused 4
  exact ⟨staggered_unused, by decide, staggered_runs.2.2, (bounds 264 (by decide)).2⟩

end Session

end RaceMonitor
