import RaceMonitor.Proofs.Engine.Access
import RaceMonitor.Proofs.Engine.Heedless
import RaceMonitor.Proofs.Engine.Memory
import RaceMonitor.Proofs.Heap.Exact

/-! Events on top of other freed blocks.

Freed blocks decide which use after free is reported, and nothing else. A state with other freed
blocks, marks and counters goes the same way (`State.access_rehouses`), and where the live blocks
are the same, a free moves the same one to the freed ones (`State.deallocate_both`). -/
namespace RaceMonitor

/-- Where no live block starts, there is none to free. -/
theorem Heap.free_of_missing {h : Heap} {base : Word} (missing : h.live[base]? = none)
    (epoch : Epoch) : ∃ fault, h.free base epoch = .error fault := by
  simp only [Heap.free, missing]
  split <;> exact ⟨_, rfl⟩

namespace State

/-- The same state but for blocks, marks and counters. -/
def Rehouses (s u : State) : Prop :=
  ∃ (heap : Heap) (pages : KeySet Word) (counters : Counters), u = s.rehoused heap pages counters

theorem Rehouses.refl (s : State) : s.Rehouses s := ⟨_, _, _, s.rehoused_self.symm⟩

theorem Rehouses.config {s u : State} (h : s.Rehouses u) : u.config = s.config := by
  obtain ⟨_, _, _, rfl⟩ := h
  rfl

theorem Rehouses.heard {s u : State} (h : s.Rehouses u) : u.heard = s.heard := by
  obtain ⟨_, _, _, rfl⟩ := h
  rfl

theorem Rehouses.threads {s u : State} (h : s.Rehouses u) :
    u.tables.threads = s.tables.threads := by
  obtain ⟨_, _, _, rfl⟩ := h
  rfl

theorem Rehouses.of_common (s : State) (heap heap' : Heap) (pages pages' : KeySet Word)
    (c c' : Counters) : (s.rehoused heap pages c).Rehouses (s.rehoused heap' pages' c') :=
  ⟨heap', pages', c', rfl⟩

variable (s : State) (heap : Heap) (pages : KeySet Word) (c : Counters)

/-! ### Events that pay no heed -/

theorem heedless_rehouses (h : Host) {e : Event} (heedless : e.heeds = false) :
    (s.step h e).1.Rehouses ((s.rehoused heap pages c).step h e).1 ∧
      (s.step h e).1.tables.heap = s.tables.heap ∧
      ((s.rehoused heap pages c).step h e).1.tables.heap = heap := by
  obtain ⟨f, same⟩ := s.step_heedless h heedless
  have mine : s.step h e = _ := same s.tables.heap s.tables.freedPages s.counters
  have other : (s.rehoused heap pages c).step h e = _ := same heap pages c
  refine ⟨⟨heap, pages, f c, congrArg Prod.fst other⟩, ?_, ?_⟩
  · rw [mine]
    rfl
  · rw [other]
    rfl

/-! ### Accesses -/

/-- What an access makes of its location and its history. -/
def located (s : State) (t : Thread) (write : Bool) (pc addr size : Word) : State :=
  match s.location addr with
  | (none, s, _) => s
  | (some history, s, _) =>
    s.withTables (s.tables.putHistory addr
      (history.onAccess write t.tid t.clock ⟨pc, size, t.stack⟩).2)

/-- What an access makes of `s`, and nothing of what it does to the blocks. -/
theorem accessBy_rehoused {h : Host} (quiet : h.Quiet) (t : Thread) (write : Bool)
    (pc addr size : Word) : ∃ heap' c',
    ((s.rehoused heap pages c).accessBy h t write pc addr size).1 =
      (s.located t write pc addr size).rehoused heap' pages c' := by
  have made := (s.rehoused heap pages c).accessBy_made h t write pc addr size
  generalize (s.rehoused heap pages c).accessBy h t write pc addr size = res at made ⊢
  rcases own : s.location addr with ⟨history, s₂, noted⟩
  have there (heap : Heap) := location_rehoused heap pages c own
  rw [located, own]
  cases made with
  | untracked used looked told =>
    obtain ⟨heap', rfl, _⟩ := reportUse_shape used
    cases (there heap').symm.trans looked
    obtain ⟨f, rfl⟩ := settleUse_shape quiet told
    exact ⟨heap', _, rfl⟩
  | used used looked checked told =>
    obtain ⟨heap', rfl, _⟩ := reportUse_shape used
    cases (there heap').symm.trans looked
    obtain ⟨f, rfl⟩ := raiseUse_shape quiet told
    dsimp only
    rw [checked]
    exact ⟨heap', _, rfl⟩
  | settled used looked checked told =>
    obtain ⟨heap', rfl, _⟩ := reportUse_shape used
    cases (there heap').symm.trans looked
    obtain ⟨f, rfl⟩ := settle_shape quiet told
    dsimp only
    rw [checked]
    exact ⟨heap', _, rfl⟩

theorem access_rehouses {h : Host} (quiet : h.Quiet) (write : Bool) (tid : ThreadId)
    (pc addr size : Word) : (s.access h write tid pc addr size).1.Rehouses
      ((s.rehoused heap pages c).access h write tid pc addr size).1 := by
  rcases met : (s.countAccess write addr).thread tid with ⟨t, s₁, noted⟩
  have rehoused :=
    thread_rehoused heap pages ((s.rehoused heap pages c).countAccess write addr).counters met
  have met' : ((s.rehoused heap pages c).countAccess write addr).thread tid = _ := rehoused
  cases t with
  | none =>
    rw [access_refused met, access_refused met']
    exact ⟨_, _, _, rfl⟩
  | some t =>
    rw [access_entered met, access_entered met']
    obtain ⟨heap', c', mine⟩ := s₁.accessBy_rehoused s₁.tables.heap s₁.tables.freedPages
      s₁.counters quiet t write pc addr size
    obtain ⟨heap'', c'', other⟩ := s₁.accessBy_rehoused heap pages
      ((s.rehoused heap pages c).countAccess write addr).counters quiet t write pc addr size
    rw [rehoused_self] at mine
    rw [mine, other]
    exact .of_common ..

/-! ### Allocations and frees -/

theorem allocate_rehouses (h : Host) (tid : ThreadId) (pc addr size : Word) :
    (s.allocate h tid pc addr size).1.Rehouses
      ((s.rehoused heap pages c).allocate h tid pc addr size).1 := by
  have allocates := s.allocate_allocates h tid pc addr size
  generalize s.allocate h tid pc addr size = res at allocates ⊢
  cases allocates with
  | ignored why =>
    rw [(Allocates.ignored (s := s.rehoused heap pages c) why).eq]
    exact ⟨_, _, _, rfl⟩
  | made tracking nonempty _ forgot =>
    rw [(Allocates.made (s := s.rehoused heap pages c) tracking nonempty rfl forgot rfl).eq]
    exact ⟨_, _, _, rfl⟩

section Frees

variable {s} {h : Host} {tid : ThreadId} {addr : Word} {t : Thread} {s₁ : State}
  {noted : List Output}

theorem sweep_heap (s : State) (h : Host) : ∃ freedPages, (s.sweep h).1 =
    s.withTables { s.tables with
      heap := (s.tables.heap.dropObserved (s.tables.floor h.order)).2, freedPages } :=
  ⟨_, rfl⟩

/-- The free of a live block. -/
theorem deallocate_of_live (tracking : s.config.trackAllocations = true)
    (met : s.thread tid = (some t, s₁, noted)) {b : Block}
    (live : s₁.tables.heap.live[addr]? = some b) : ∃ freedPages, (s.deallocate h tid addr).1 =
      s₁.withTables { s₁.tables with
        heap := (s₁.tables.heap.bury b t.epoch).tidied (s₁.tables.floor h.order), freedPages } := by
  have done := Heap.free_of_live live t.epoch
  unfold Heap.tidied
  by_cases due : Heap.sweepEvery ≤ (s₁.tables.heap.bury b t.epoch).evict.2.sinceSweep
  · obtain ⟨freedPages, swept⟩ := sweep_heap (s₁.withTables (((s₁.tables.putHeap
      (s₁.tables.heap.bury b t.epoch).evict.2).markPages b.extent).unmarkPages
        (s₁.tables.heap.bury b t.epoch).evict.1)) h
    rw [(Frees.swept tracking met done (by simpa using due) rfl).eq, if_pos due]
    exact ⟨freedPages, swept⟩
  · rw [(Frees.freed tracking met done (by simpa using due)).eq, if_neg due]
    exact ⟨_, rfl⟩

/-- There is nothing to free. -/
theorem deallocate_of_missing (tracking : s.config.trackAllocations = true)
    (met : s.thread tid = (some t, s₁, noted)) (missing : s₁.tables.heap.live[addr]? = none) :
    ∃ f, (s.deallocate h tid addr).1 = s₁.count f := by
  obtain ⟨fault, failed⟩ := Heap.free_of_missing missing t.epoch
  rw [(Frees.misused tracking met failed).eq]
  exact ⟨fun c => { c with anomalies := c.anomalies + 1 }, rfl⟩

end Frees

/-- What a free makes of `s`, and of the same on top of `heap`. -/
inductive FreesBoth (s : State) (heap : Heap) (h : Host) (tid : ThreadId) (addr : Word)
    (s' u' : State) : Prop where
  | idle (mine : s'.tables.heap = s.tables.heap) (other : u'.tables.heap = heap)
  | buried (tracking : s.config.trackAllocations = true) (t : Thread) (b : Block)
    (tracked : s'.tables.threads[tid]? = some t)
    (live : s.tables.heap.live[addr]? = some b)
    (mine : s'.tables.heap = (s.tables.heap.bury b t.epoch).tidied (s'.tables.floor h.order))
    (other : u'.tables.heap = (heap.bury b t.epoch).tidied (s'.tables.floor h.order))

theorem deallocate_both (h : Host) (tid : ThreadId) (addr : Word)
    (live : heap.live = s.tables.heap.live) :
    (s.deallocate h tid addr).1.Rehouses ((s.rehoused heap pages c).deallocate h tid addr).1 ∧
      s.FreesBoth heap h tid addr (s.deallocate h tid addr).1
        ((s.rehoused heap pages c).deallocate h tid addr).1 := by
  cases tracking : s.config.trackAllocations with
  | false =>
    rw [(Frees.ignored tracking).eq, (Frees.ignored (s := s.rehoused heap pages c) tracking).eq]
    exact ⟨⟨_, _, _, rfl⟩, .idle rfl rfl⟩
  | true =>
    rcases met : s.thread tid with ⟨t, s₁, noted⟩
    have met' := thread_rehoused heap pages c met
    cases t with
    | none =>
      rw [(Frees.refused tracking met).eq,
        (Frees.refused (s := s.rehoused heap pages c) tracking met').eq]
      obtain ⟨_, x, rfl⟩ := thread_refused met
      exact ⟨⟨_, _, _, rfl⟩, .idle rfl rfl⟩
    | some t =>
      have enter := thread_entered met
      cases found : s.tables.heap.live[addr]? with
      | some b =>
        obtain ⟨_, mine⟩ := deallocate_of_live (h := h) tracking met (enter.sameMemory.heap ▸ found)
        obtain ⟨_, other⟩ := deallocate_of_live (h := h) (s := s.rehoused heap pages c) tracking
          met' (live ▸ found)
        rw [mine, other]
        refine ⟨⟨_, _, _, rfl⟩, .buried tracking t b enter.there found ?_ rfl⟩
        rw [← enter.sameMemory.heap]
        rfl
      | none =>
        obtain ⟨f, mine⟩ := deallocate_of_missing (h := h) tracking met
          (enter.sameMemory.heap ▸ found)
        obtain ⟨f', other⟩ := deallocate_of_missing (h := h) (s := s.rehoused heap pages c) tracking
          met' (live ▸ found)
        rw [mine, other]
        exact ⟨⟨_, _, _, rfl⟩, .idle enter.sameMemory.heap rfl⟩

end State

end RaceMonitor
