import RaceMonitor.Proofs.Race.Genuine
import RaceMonitor.Proofs.Race.Reuse

/-! Which thread a race is blamed on.

A conflict is blamed on another thread than the one that makes the access. The earlier side of a
use after free comes from one of three places: the access that the block has kept, the history of
the location, or the allocation. The history is asked for the freeing thread or else for another
thread than the present one, and both the freeing thread and the owner are others; the access
that the block has kept may be anybody's. Only with that does a thread race with itself
(`self_race_iff`). -/
namespace RaceMonitor

/-- What the earlier side of a use after free is, where the owner and the freeing thread are
others: the thread's own access only if that is what the block has kept. -/
theorem Block.prior_tid_iff {b : Block} {tid : ThreadId} (owner : b.owner ≠ tid)
    (freer : ∀ e, b.freedAt = some e → e.tid ≠ tid) (addr : Word) (history : Option History) :
    (b.prior tid addr history).2.tid = tid ↔ ∃ a, b.kept[addr]? = some a ∧ a.tid = tid := by
  have blamed {h : History} {a : Access} (found : b.recorded tid h = some a) : a.tid ≠ tid := by
    obtain ⟨e, freed, found⟩ := Option.bind_eq_some_iff.mp found
    rcases Option.or_eq_some_iff.mp found with own | ⟨_, other⟩
    · have freeing := List.find?_some own
      simp only [Bool.and_eq_true, beq_iff_eq] at freeing
      exact freeing.1 ▸ freer e freed
    · simpa using List.find?_some other
  unfold prior
  cases kept : b.kept[addr]? with
  | some a => simp
  | none =>
    simp only [reduceCtorEq, false_and, exists_false, iff_false]
    split
    · rename_i a found
      obtain ⟨h, _, found⟩ := Option.bind_eq_some_iff.mp found
      exact blamed found
    · exact owner

namespace Session

variable {r : Session}

/-- A use after free among the reports of an access is what the check against the freed blocks
found. -/
theorem use_of_report {s : State} {t : Thread} {write : Bool} {pc addr size : Word} {race : Race}
    (h : race ∈ s.report t write pc addr size) (use : race.kind = .useAfterFree) :
    ∃ hit, (s.reportUse t addr).1 = some hit ∧
      race = s.useReport addr (t.accessing write pc size) hit := by
  unfold State.report at h
  split at h
  · rename_i hit found
    exact ⟨hit, found, List.mem_singleton.mp h⟩
  · split at h
    · exact absurd use (conflictReport_kind h)
    · cases h

theorem tracking_of_reportUse {s : State} {t : Thread} {addr : Word} {hit : UseAfterFree}
    (found : (s.reportUse t addr).1 = some hit) : s.config.trackAllocations = true := by
  unfold State.reportUse at found
  split at found
  · rename_i looked
    exact (Bool.and_eq_true_iff.mp looked).1
  · cases found

/-- A block that an access is a use after free of belongs to another thread, and another one has
freed it. -/
theorem Processed.foreign (tracking : r.start.config.trackAllocations = true) {n : Nat}
    {write : Bool} {tid : ThreadId} {pc a size : Word} {t : Thread}
    (h : r.Processed n write tid pc a size t) {seq : Nat} {b : Block}
    (stale : (r.heap n).Stale tid a t.clock seq b) :
    b.owner ≠ tid ∧ ∀ e, b.freedAt = some e → e.tid ≠ tid := by
  obtain ⟨owner, unseen⟩ := Bool.and_eq_true_iff.mp stale.unseen
  refine ⟨by simpa using owner, fun e freed same => ?_⟩
  obtain ⟨f, lt, _, u, v, touches, freed'⟩ := retained_of_freed tracking stale.kept
  obtain rfl : e = v.epoch := Option.some.inj (freed.symm.trans freed')
  have freer : u = tid := ((r.tidy (f + 1)).keyed u v touches.tracked).symm.trans same
  have before : r.HappensBefore f n :=
    happensBefore_of_actor lt (freer ▸ touches.actor) h.touches.actor
  rw [freed, Option.any_some, observed_of_happensBefore lt touches h.touches before] at unseen
  cases unseen

/-- A conflict is blamed on another thread. -/
theorem conflict_foreign {n : Nat} {race : Race} (delivered : race ∈ r.races n)
    (conflict : race.kind ≠ .useAfterFree) : race.first.tid ≠ race.second.tid := by
  obtain ⟨_, _, _, _, _, prior, processed, found, first, m, lt, recorded⟩ :=
    recorded_of_conflict delivered conflict
  obtain ⟨_, _, unobserved⟩ := History.race_onAccess found
  rw [first]
  exact (recorded.unordered lt processed unobserved).2

theorem Strikes.unique {n : Nat} {tid : ThreadId} {a : Word} {seq seq' : Nat}
    (first : r.Strikes n tid a seq) (second : r.Strikes n tid a seq') : seq = seq' := by
  obtain ⟨_, _, _, _, _, processed, due⟩ := first
  obtain ⟨_, _, due'⟩ := processed.strikes_iff.mp second
  exact due.unique due'

/-- A use after free is of the block that is due, another thread's and freed by another, and its
earlier side is what that block blames. -/
theorem use_blamed {n : Nat} {race : Race} (delivered : race ∈ r.races n)
    (use : race.kind = .useAfterFree) :
    ∃ seq b, r.Strikes n race.second.tid race.second.addr seq ∧
      (r.heap n).freed[seq]? = some b ∧ b.owner ≠ race.second.tid ∧
      (∀ e, b.freedAt = some e → e.tid ≠ race.second.tid) ∧
      race.first.tid = (b.prior race.second.tid race.second.addr
        (r.state n).tables.shadow[race.second.addr]?).2.tid := by
  obtain ⟨write, tid, pc, addr, size, t, processed, reported⟩ := mem_races delivered
  obtain ⟨hit, found, hrace⟩ := use_of_report reported use
  have tracking := (r.config n) ▸ tracking_of_reportUse found
  have first : race.first.tid = hit.prior.tid := by
    rw [hrace]
    exact State.side_tid _ _ _ _
  have second : race.second.tid = t.tid := by
    rw [hrace]
    exact State.side_tid _ _ _ _
  have place : race.second.addr = addr := by
    rw [hrace]
    exact State.side_addr _ _ _ _
  obtain rfl := processed.tid_eq
  rcases State.reportUse_cases (r.filtered n) t addr with
    ⟨none, _⟩ | ⟨_, seq, b, found', _, rfl, due⟩
  · rw [none] at found
    cases found
  · obtain rfl := Option.some.inj (found.symm.trans found')
    obtain ⟨owner, freer⟩ := processed.foreign tracking due.toStale
    rw [first, second, place]
    exact ⟨seq, b, ⟨write, pc, size, t, b, processed, due⟩, due.kept, owner, freer, rfl⟩

/-- **When a thread races with itself**: in a use after free of a block whose range has been
handed out again, where the last access at the address before that was its own, and in no other
race. -/
theorem self_race_iff {n : Nat} {race : Race} (delivered : race ∈ r.races n) :
    race.first.tid = race.second.tid ↔ race.kind = .useAfterFree ∧
      ∃ seq b a, r.Strikes n race.second.tid race.second.addr seq ∧
        (r.heap n).freed[seq]? = some b ∧ b.kept[race.second.addr]? = some a ∧
        a.tid = race.second.tid := by
  by_cases use : race.kind = .useAfterFree
  · obtain ⟨seq, b, strikes, found, owner, freer, first⟩ := use_blamed delivered use
    rw [first, b.prior_tid_iff owner freer]
    constructor
    · intro own
      obtain ⟨a, kept, same⟩ := own
      exact ⟨use, seq, b, a, strikes, found, kept, same⟩
    · intro struck
      obtain ⟨_, seq', b', a, strikes', found', kept, same⟩ := struck
      obtain rfl := strikes.unique strikes'
      obtain rfl := Option.some.inj (found.symm.trans found')
      exact ⟨a, kept, same⟩
  · exact ⟨fun same => absurd same (conflict_foreign delivered use), fun self => absurd self.1 use⟩

/-- A thread writes to another one's block. The block is freed, and its range handed out again;
then the thread writes there once more. -/
def reclaimed : Session :=
  .default [.alloc 1 1 256 8, .write 2 2 256 8, .free 1 256, .alloc 1 3 256 8, .write 2 4 256 8]

/-- The thread that writes twice is on both sides of what is delivered. -/
theorem reclaimed_delivers :
    ∃ race ∈ reclaimed.races 4, race.first.tid = 2 ∧ race.second.tid = 2 := by
  simp only [reclaimed, races, output, state, Session.default, host, List.take, State.run,
    State.step, State.allocate, Heap.handOut, Heap.keep, State.access, State.accessBy,
    State.reportUse, Heap.reportUse, Heap.unreported, Heap.overlapping, Heap.touching_eq]
  decide +kernel

theorem self_race_iff_reclaimed : ∃ race ∈ reclaimed.races 4,
    race.first.tid = race.second.tid ∧ race.kind = .useAfterFree ∧
      ∃ seq b a, reclaimed.Strikes 4 race.second.tid race.second.addr seq ∧
        (reclaimed.heap 4).freed[seq]? = some b ∧ b.kept[race.second.addr]? = some a ∧
        a.tid = race.second.tid := by
  obtain ⟨race, delivered, first, second⟩ := reclaimed_delivers
  have same : race.first.tid = race.second.tid := first.trans second.symm
  exact ⟨race, delivered, same, (self_race_iff delivered).mp same⟩

end Session

end RaceMonitor
