import RaceMonitor.Proofs.Engine.Reuse
import RaceMonitor.Proofs.Engine.Step
import RaceMonitor.Proofs.Heap.Exact

/-! What every event keeps of the freed blocks.

An allocation leaves fewer of them, a free adds one at most, and an access enters a report. After
each event the index and the marked pages fit the blocks that are left (`State.step_filtered`,
`State.step_pruned`). -/
namespace RaceMonitor

theorem Allocated.thinned {s s' : State} {tid : ThreadId} {pc addr size : Word}
    (h : Allocated s tid pc addr size s') : s.tables.Thinned s'.tables := by
  cases h with
  | ignored => exact .of_same rfl rfl
  | made _ _ kept gone heap shadow blocks _ =>
    have out := Heap.Thinned.handOut s.tables.heap ⟨addr, size⟩
    have kept := Heap.Thinned.keepAll (s.tables.heap.handOut ⟨addr, size⟩).2.2 kept
    have thinned : s.tables.heap.Thinned heap :=
      blocks ▸ (out.trans kept).trans (.allocate _ rfl)
    have put : s.tables.Thinned ((s.tables.putHeap heap).putShadow shadow) :=
      (Tables.Thinned.putHeap thinned).trans (.of_same rfl rfl)
    exact put.trans (.unmarkPages _ gone)

/-- What an allocation makes of each freed block. -/
theorem Allocated.core {s s' : State} {tid : ThreadId} {pc addr size : Word}
    (h : Allocated s tid pc addr size s') (filtered : s.tables.Filtered)
    (pruned : s.tables.heap.Pruned) (seq : Nat) : s'.tables.heap.core seq =
      (s.tables.heap.core seq).bind fun b =>
        if s.config.trackAllocations = true ∧ size ≠ 0 then b.reissue ⟨addr, size⟩ else some b := by
  cases h with
  | ignored why =>
    have idle : ¬ (s.config.trackAllocations = true ∧ size ≠ 0) := fun takes => by
      rcases why with off | empty
      · cases off.symm.trans takes.1
      · exact takes.2 empty
    simp only [if_neg idle, Option.bind_fun_some]
  | made tracking nonempty kept _ _ _ blocks _ =>
    simp only [if_pos (And.intro tracking nonempty)]
    subst blocks
    exact (Heap.core_keepAll _ kept seq).trans (Heap.core_handOut filtered.valid pruned _ seq)

theorem State.sweep_thinned (s : State) (h : Host) : s.tables.Thinned (s.sweep h).1.tables :=
  (Tables.Thinned.putHeap (.dropObserved _ _)).trans (.unmarkPages _ _)

/-- A free leaves the blocks as they are, or buries one of them; then there is room again, and
all may have been swept. -/
theorem Deallocated.heap_cases {s s' : State} {h : Host} {tid : ThreadId} {addr : Word}
    (step : Deallocated s h tid addr s') : s'.tables.heap = s.tables.heap ∨
      ∃ t b, s'.tables.threads[tid]? = some t ∧ s.tables.heap.live[addr]? = some b ∧
        (s.tables.heap.bury b t.epoch).evict.2.MaySweep (s'.tables.floor h.order)
          s'.tables.heap := by
  cases step with
  | ignored => exact .inl rfl
  | refused _ _ _ _ tables => exact .inl (by rw [tables])
  | fault _ _ enter _ _ _ _ tables => exact .inl (by rw [tables, enter.sameMemory.heap])
  | freed _ t s₁ enter b live _ _ blocks _ swept =>
    subst blocks
    rcases swept with rfl | rfl
    · exact .inr ⟨t, b, enter.there, live, .inl rfl⟩
    · exact .inr ⟨t, b, enter.there, live, .inr rfl⟩

/-- A free adds one block at most. -/
theorem Deallocated.disposed {s s' : State} {h : Host} {tid : ThreadId} {addr : Word}
    (step : Deallocated s h tid addr s') : s.tables.Thinned s'.tables ∨
      ∃ t b, s'.tables.threads[tid]? = some t ∧ s.tables.heap.live[addr]? = some b ∧
        ((s.tables.putHeap (s.tables.heap.bury b t.epoch)).markPages b.extent).Thinned
          s'.tables := by
  cases step with
  | ignored => exact .inl (.of_same rfl rfl)
  | refused _ _ _ _ tables => exact .inl (tables ▸ .of_same rfl rfl)
  | fault t s₁ enter _ _ _ _ tables =>
    exact .inl (tables ▸ .of_same enter.sameMemory.heap enter.sameMemory.freedPages)
  | freed _ t s₁ enter b live gone heap blocks _ swept =>
    have evicted : ((s.tables.putHeap (s.tables.heap.bury b t.epoch)).markPages b.extent).Thinned
        ((s₁.tables.putHeap heap).markPages b.extent) := by
      subst blocks
      refine (Tables.Thinned.putHeap (.evict _)).trans (.of_same rfl ?_)
      show (s₁.tables.markPages b.extent).freedPages = (s.tables.markPages b.extent).freedPages
      rw [Tables.markPages, enter.sameMemory.freedPages]
      rfl
    have unmarked := evicted.trans (.unmarkPages _ gone)
    refine .inr ⟨t, b, ?_, live, ?_⟩
    · rcases swept with rfl | rfl <;> exact enter.there
    · rcases swept with rfl | rfl
      · exact unmarked
      · exact unmarked.trans ((s₁.withTables _).sweep_thinned h)

/-- Where allocations are not tracked, an access leaves the blocks alone. -/
theorem Accessed.untracked {s s' : State} {t : Thread} {write : Bool} {pc addr size : Word}
    {delivered : List Race} (accessed : Accessed s t write pc addr size s' delivered)
    (off : s.config.trackAllocations = false) : s'.tables.heap = s.tables.heap := by
  rw [accessed.heap, State.reportUse, off, Bool.false_and, if_neg Bool.false_ne_true]

/-- An access changes nothing but what has been reported. -/
theorem Accessed.marked {s s' : State} {t : Thread} {write : Bool} {pc addr size : Word}
    {delivered : List Race} (accessed : Accessed s t write pc addr size s' delivered)
    (filtered : s.tables.Filtered) : ∃ freed, s'.tables.heap = { s.tables.heap with freed } ∧
      ∀ i, s'.tables.heap.core i = s.tables.heap.core i := by
  rw [accessed.heap]
  rcases State.reportUse_cases filtered t addr with ⟨_, same, _⟩ | ⟨_, seq, b, _, heap, _, due⟩
  · exact ⟨_, same, fun i => by rw [same]⟩
  · exact ⟨_, heap, fun i => by rw [heap, Heap.core_report due.kept]⟩

namespace State

variable {s : State} {h : Host}

/-- After every event all freed blocks are numbered, indexed and on marked pages. -/
theorem step_filtered (quiet : h.Quiet) (filtered : s.tables.Filtered) (e : Event) :
    (s.step h e).1.tables.Filtered := by
  have step := s.step_remembers quiet e
  generalize (s.step h e).1 = s' at step
  generalize races (s.step h e).2 = delivered at step
  cases step with
  | accessed handled =>
    rename_i write tid pc addr size
    cases handled with
    | refused _ _ _ _ tables => exact tables ▸ filtered
    | entered t s₁ _ _ _ _ accessed =>
      rcases reportUse_cases filtered t addr with ⟨_, same, _⟩ | ⟨_, seq, b, _, heap, _, due⟩
      · exact filtered.of_same (accessed.heap.trans same) accessed.freedPages
      · exact (filtered.reported due.kept t.tid addr).of_same (accessed.heap.trans heap)
          accessed.freedPages
  | allocated allocated => exact allocated.thinned.filtered filtered
  | freed deallocated =>
    rcases deallocated.disposed with thinned | ⟨t, b, _, _, thinned⟩
    · exact thinned.filtered filtered
    · exact thinned.filtered (filtered.buried b t.epoch)
  | aside _ _ aside => exact filtered.of_same aside.heap aside.freedPages

/-- After every event the index holds nothing but freed blocks. -/
theorem step_pruned (quiet : h.Quiet) (filtered : s.tables.Filtered)
    (pruned : s.tables.heap.Pruned) (e : Event) : (s.step h e).1.tables.heap.Pruned := by
  have step := s.step_remembers quiet e
  generalize (s.step h e).1 = s' at step
  generalize races (s.step h e).2 = delivered at step
  cases step with
  | accessed handled =>
    rename_i write tid pc addr size
    cases handled with
    | refused _ _ _ _ tables => exact tables ▸ pruned
    | entered t s₁ _ _ _ _ accessed =>
      rw [accessed.heap]
      rcases reportUse_cases filtered t addr with ⟨_, same, _⟩ | ⟨_, seq, b, _, heap, _, due⟩
      · exact same ▸ pruned
      · exact heap ▸ pruned.report due.kept t.tid addr
  | allocated allocated =>
    rename_i tid pc addr size
    cases allocated with
    | ignored => exact pruned
    | made _ _ kept _ _ _ blocks =>
      have left := (pruned.handOut ⟨addr, size⟩).keepAll kept
      subst blocks
      exact left
  | freed deallocated =>
    rcases deallocated.heap_cases with same | ⟨t, b, _, _, swept⟩
    · exact same ▸ pruned
    · exact swept.pruned (pruned.bury filtered.valid b t.epoch).evict
  | aside _ _ aside => exact aside.heap ▸ pruned

end State

end RaceMonitor
