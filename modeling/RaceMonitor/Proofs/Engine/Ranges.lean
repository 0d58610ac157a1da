import RaceMonitor.Proofs.Engine.Enumeration
import RaceMonitor.Proofs.History

/-! The two ways through a range.

The range that an allocation takes is gone through address by address or location by location,
whichever is shorter (`Walk.shorter`). Which it is decides nothing: the same histories are dropped
and the same accesses returned, one for each location on record in the range that has any
(`Walk.mem_forget`, `History.last_foremost`). Each is kept at an address of its own, and so the
allocation leaves the same blocks in whatever order they come (`State.allocate_walks`). -/
namespace RaceMonitor

namespace State

/-- An allocation that goes through its range in a given way. -/
def allocateBy (s : State) (w : Walk s.tables.shadow) (tid : ThreadId) (pc : Word) (e : Extent) :
    State × List Output :=
  if !s.config.trackAllocations || e.size == 0 then (s, [])
  else
    let (reused, gone, heap) := s.tables.heap.handOut e
    let (kept, shadow) := w.forget e
    let heap := if reused then kept.foldl (fun heap p => heap.keep p.1 p.2) heap else heap
    let (replaced, heap) := heap.allocate (Block.new tid pc e)
    (s.withTables (((s.tables.putHeap heap).putShadow shadow).unmarkPages gone),
      (replaced.map fun old => Output.note (.blockReplaced old.base)).toList ++
        [.note (.allocated tid e.base e.size)])

theorem allocate_eq (s : State) (h : Host) (tid : ThreadId) (pc : Word) (e : Extent) :
    s.allocate h tid pc e.base e.size =
      s.allocateBy (.shorter h.order s.tables.shadow e) tid pc e := by
  unfold allocate allocateBy
  rw [Walk.forget_shorter]

theorem allocateBy_congr (s : State) (w w' : Walk s.tables.shadow) (tid : ThreadId) (pc : Word)
    (e : Extent) : s.allocateBy w' tid pc e = s.allocateBy w tid pc e := by
  obtain ⟨perm, left⟩ := w.forget_perm w' e
  have kept (heap : Heap) := heap.keepAll_perm perm (w.forget_nodup e)
  unfold allocateBy
  simp only [left, kept]

/-- **Both ways through a range are the same operation**, and so is every order of the locations.
Whichever way, the accesses returned are the same up to their order: one for each location in the
range with anything on record, and it is the last write, or else a read with the greatest clock.
The histories in the range are dropped, and no others. The allocation comes to the same. -/
theorem allocate_walks (s : State) (tid : ThreadId) (pc : Word) (e : Extent)
    (w w' : Walk s.tables.shadow) :
    (w'.forget e).1.Perm (w.forget e).1 ∧ (w'.forget e).2 = (w.forget e).2 ∧
      ((w.forget e).1.map Prod.fst).Nodup ∧
      (∀ x : Word, x ∈ (w.forget e).1.map Prod.fst ↔
        (e.base ≤ x ∧ x < Word.addSat e.base e.size) ∧
          ∃ h, s.tables.shadow[x]? = some h ∧ h.accesses ≠ []) ∧
      (∀ (x : Word) (a : Access), (x, a) ∈ (w.forget e).1 →
        ∃ h, s.tables.shadow[x]? = some h ∧ h.Foremost a) ∧
      (∀ x : Word, (w.forget e).2[x]? =
        if e.base ≤ x ∧ x < Word.addSat e.base e.size then none else s.tables.shadow[x]?) ∧
      s.allocateBy w' tid pc e = s.allocateBy w tid pc e ∧
      ∀ h : Host, s.allocate h tid pc e.base e.size = s.allocateBy w tid pc e := by
  have spans (x : Word) : e.spans x = true ↔ e.base ≤ x ∧ x < Word.addSat e.base e.size := by
    simp only [Extent.spans, Bool.and_eq_true, decide_eq_true_eq]
    rfl
  refine ⟨(w.forget_perm w' e).1, (w.forget_perm w' e).2, w.forget_nodup e, fun x => ?_,
    fun x a mem => ?_, fun x => ?_, s.allocateBy_congr w w' tid pc e, fun h => ?_⟩
  · rw [← spans]
    constructor
    · intro mem
      obtain ⟨⟨x, a⟩, returned, rfl⟩ := List.mem_map.mp mem
      obtain ⟨inside, h, found, last⟩ := (w.mem_forget e x a).mp returned
      exact ⟨inside, h, found, fun none => by cases last.symm.trans (History.last_eq_none.mpr none)⟩
    · rintro ⟨inside, h, found, nonempty⟩
      obtain ⟨a, last⟩ := Option.ne_none_iff_exists'.mp (mt History.last_eq_none.mp nonempty)
      exact List.mem_map_of_mem ((w.mem_forget e x a).mpr ⟨inside, h, found, last⟩)
  · obtain ⟨_, h, found, last⟩ := (w.mem_forget e x a).mp mem
    exact ⟨h, found, History.last_foremost last⟩
  · rw [w.forget_get]
    simp only [spans]
  · rw [allocate_eq]
    exact s.allocateBy_congr w _ tid pc e

end State

end RaceMonitor
