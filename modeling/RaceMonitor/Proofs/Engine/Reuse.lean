import RaceMonitor.Proofs.Engine.Access
import RaceMonitor.Proofs.Heap.Pages

/-! The check of an access against the freed blocks.

It reports the block that is due, and no other (`State.reportUse_cases`). The histories do not
notice it: they are the same as without (`State.access_unguarded`). -/
namespace RaceMonitor

namespace State

/-- On an unmarked page nothing is due. -/
theorem reportUse_cases {s : State} (filtered : s.tables.Filtered) (t : Thread) (addr : Word) :
    ((s.reportUse t addr).1 = none ∧ (s.reportUse t addr).2.tables.heap = s.tables.heap ∧
      (s.config.trackAllocations = true →
        ∀ seq b, ¬ s.tables.heap.Stale t.tid addr t.clock seq b)) ∨
    ∃ hit seq b, (s.reportUse t addr).1 = some hit ∧ (s.reportUse t addr).2.tables.heap =
        { s.tables.heap with freed := s.tables.heap.freed.insert seq (b.report t.tid addr) } ∧
      hit = b.useBy t.tid addr s.tables.shadow[addr]? ∧
      s.tables.heap.Due t.tid addr t.clock seq b := by
  unfold reportUse
  split
  · rcases Heap.reportUse_cases filtered.valid t.tid addr t.clock s.tables.shadow[addr]? with
      ⟨found, none⟩ | ⟨hit, seq, b, found, use, due⟩
    · rw [found]
      exact .inl ⟨rfl, rfl, fun _ => none⟩
    · rw [found]
      exact .inr ⟨hit, seq, b, rfl, rfl, use, due⟩
  · rename_i unmarked
    refine .inl ⟨rfl, rfl, fun tracking seq b stale => unmarked ?_⟩
    rw [tracking, Bool.true_and, Std.ExtTreeSet.contains_iff_mem]
    exact filtered.marked seq b addr stale.kept stale.covers

/-- The engine, but for the check of accesses against the freed blocks. -/
def unguarded (s : State) : State :=
  { s with config := { s.config with trackAllocations := false } }

/-- Which thread an event gets depends on the threads and their limit alone. -/
theorem thread_congr (s s' : State) (threads : s'.tables.threads = s.tables.threads)
    (retired : s'.tables.retired = s.tables.retired)
    (limit : s'.config.limit .threads = s.config.limit .threads) (tid : ThreadId) :
    (s'.thread tid).1 = (s.thread tid).1 := by
  have found := s.thread_found tid
  have found' := s'.thread_found tid
  rw [threads, retired, Room, limit] at found'
  generalize s.thread tid = r at found
  generalize s'.thread tid = r' at found'
  cases found with
  | known t there => cases found' <;> simp_all
  | refused missing full => cases found' <;> simp_all [Room]
  | made missing free => cases found' <;> simp_all [Room]

/-- What an access makes of the histories. -/
theorem access_shadow {h : Host} (quiet : h.Quiet) (s : State) (write : Bool) (tid : ThreadId)
    (pc addr size x : Word) : (s.access h write tid pc addr size).1.tables.shadow[x]? =
      match (s.thread tid).1 with
      | some t => if x = addr ∧ s.tracks addr then some (s.checked t write pc addr size).2
        else s.tables.shadow[x]?
      | none => s.tables.shadow[x]? := by
  have same : ((s.countAccess write addr).thread tid).1 = (s.thread tid).1 :=
    thread_congr s (s.countAccess write addr) rfl rfl rfl tid
  rw [← same]
  rcases met : (s.countAccess write addr).thread tid with ⟨_ | t, s₁, noted⟩
  · obtain ⟨_, y, left⟩ := thread_refused met
    rw [access_refused met, left]
    rfl
  · obtain ⟨accessed, _⟩ := accessBy_accessed quiet s₁ t write pc addr size
    rw [access_entered met]
    exact (accessed.of_same (thread_entered met).sameMemory).shadow x

/-- The histories do not notice the check against the freed blocks. -/
theorem access_unguarded {h : Host} (quiet : h.Quiet) (s : State) (write : Bool) (tid : ThreadId)
    (pc addr size : Word) : (s.unguarded.access h write tid pc addr size).1.tables.shadow =
      (s.access h write tid pc addr size).1.tables.shadow := by
  refine Std.ExtTreeMap.ext_getElem? fun x => ?_
  rw [access_shadow quiet, access_shadow quiet, thread_congr s s.unguarded rfl rfl rfl tid]
  rfl

end State

/-- An access leaves all freed blocks, and is entered into the one that is due. -/
theorem Accessed.freed {s s' : State} {t : Thread} {write : Bool} {pc addr size : Word}
    {delivered : List Race} (accessed : Accessed s t write pc addr size s' delivered)
    (filtered : s.tables.Filtered) (tracking : s.config.trackAllocations = true) {seq : Nat}
    {b' : Block} (kept : s'.tables.heap.freed[seq]? = some b') :
    ∃ b, s.tables.heap.freed[seq]? = some b ∧ (∃ reported, b' = { b with reported }) ∧
      ∀ tid a, b'.isReported tid a = true ↔ b.isReported tid a = true ∨
        ((tid, a) = (t.tid, addr) ∧ ∃ d, s.tables.heap.Due t.tid addr t.clock seq d) := by
  rw [accessed.heap] at kept
  rcases State.reportUse_cases filtered t addr with
    ⟨_, same, none⟩ | ⟨_, seq', b, _, heap, _, due⟩
  · rw [same] at kept
    refine ⟨b', kept, ⟨b'.reported, rfl⟩, fun tid a => ?_⟩
    have none : ∀ d, ¬ s.tables.heap.Due t.tid addr t.clock seq d := fun d due =>
      none tracking seq d due.toStale
    simp only [none, exists_false, and_false, or_false]
  · rw [heap, Table.get_insert] at kept
    split at kept
    · rename_i same
      cases kept
      cases same
      refine ⟨b, due.kept, ⟨_, rfl⟩, fun tid a => ?_⟩
      rw [Block.isReported_report, and_iff_left ⟨b, due⟩, or_comm]
    · rename_i other
      refine ⟨b', kept, ⟨b'.reported, rfl⟩, fun tid a => ?_⟩
      have none : ∀ d, ¬ s.tables.heap.Due t.tid addr t.clock seq d := fun d due' =>
        other (due'.unique due)
      simp only [none, exists_false, and_false, or_false]

end RaceMonitor
