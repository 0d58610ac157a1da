import RaceMonitor.Proofs.Heap.Generations
import RaceMonitor.Proofs.Session.Live

/-! Where a block is found.

While a block is live it is found at every address that it covers, by subtraction; once it is freed
it is found by comparing limits, and a limit stops at the top of the address space. So the two
look-ups find a block at the same addresses but for the last one, at which a freed block is never
found (`overlaps_ofByte_iff`, `Heap.Lone.lookups_agree`). -/
namespace RaceMonitor

/-- The limit of a range is not past the last address, and that is all that it misses. -/
theorem Extent.overlaps_ofByte_iff {e : Extent} {a : Word} :
    e.overlaps (ofByte a) = true ↔ e.contains a = true ∧ a ≠ Word.top := by
  constructor
  · intro overlaps
    refine ⟨contains_iff.mpr (covers_of_overlaps overlaps), fun last => ?_⟩
    have below := UInt64.lt_iff_toNat_lt.mp (overlaps_ofByte.mp overlaps).2
    rw [limit, Word.toNat_addSat, last] at below
    have top : Word.top.toNat = UInt64.size - 1 := rfl
    omega
  · rintro ⟨inside, other⟩
    have spans := spans_of_contains other inside
    simp only [Extent.spans, Bool.and_eq_true, decide_eq_true_eq] at spans
    exact overlaps_ofByte.mpr spans

namespace Heap

variable {h : Heap}

theorem blockAt_contains {a : Word} {e : Extent} (found : h.blockAt a = some e) :
    e.contains a = true := by
  obtain ⟨b, around, rfl⟩ := Option.map_eq_some_iff.mp found
  exact (Option.filter_eq_some_iff.mp around).2

theorem isUnreported_iff (valid : h.Valid) {tid : ThreadId} {a : Word} {vc : VectorClock} :
    h.isUnreported tid a vc = true ↔ ∃ seq b, h.Stale tid a vc seq b := by
  simp only [isUnreported, unreported, List.find?_isSome, List.mem_reverse, exists_stale_iff valid]

/-- `h` holds the live block `b`, against which nothing has been reported (as against no live
block), and no other block. -/
structure Lone (h : Heap) (b : Block) : Prop where
  live : h.live = (∅ : Table Word Block).insert b.extent.base b
  freed : h.freed = ∅
  clean : b.reported = ∅

namespace Lone

variable {b : Block} (lone : h.Lone b)
include lone

theorem live_get (base : Word) : h.live[base]? = if base = b.extent.base then some b else none := by
  rw [lone.live, Table.get_insert, Std.ExtTreeMap.getElem?_empty]

theorem valid : h.Valid := by
  have none (seq : Nat) : h.freed[seq]? = none := by rw [lone.freed, Std.ExtTreeMap.getElem?_empty]
  refine ⟨fun seq b found => ?_, fun seq b found => ?_, fun seq b found => ?_,
    fun base c live => ?_⟩
  · cases (none seq).symm.trans found
  · cases (none seq).symm.trans found
  · cases (none seq).symm.trans found
  · rw [lone.live_get] at live
    split at live
    · cases live
      exact lone.clean
    · cases live

/-- The live block is found at the addresses that it covers. -/
theorem blockAt_iff {a : Word} : h.blockAt a = some b.extent ↔ b.extent.covers a := by
  rw [← Extent.contains_iff]
  refine ⟨blockAt_contains, fun inside => ?_⟩
  have live : h.live[b.extent.base]? = some b := by rw [lone.live_get, if_pos rfl]
  have le : b.extent.base ≤ a := UInt64.le_iff_toNat_le.mpr (Extent.contains_iff.mp inside).1
  obtain ⟨base, c, there, _, _, found⟩ := blockAt_nearest live le
  rw [lone.live_get] at there
  split at there
  · cases there
    rw [found, if_pos inside]
  · cases there

/-- Freed, the block is all that there is, whatever the limit. -/
theorem free (epoch : Epoch) :
    ∃ freed, h.free b.extent.base epoch = .ok (freed, h.bury b epoch) := by
  have live : h.live[b.extent.base]? = some b := by rw [lone.live_get, if_pos rfl]
  have size : (h.bury b epoch).freed.size = 1 := by
    show (h.freed.insert h.nextSeq _).size = 1
    simp [lone.freed, Std.ExtTreeMap.size_insert]
  have stays : (h.bury b epoch).evict.2 = h.bury b epoch := by
    unfold evict
    split
    · rfl
    · rename_i limited
      have some : (h.bury b epoch).maxFreed.toNat ≠ 0 := fun zero =>
        limited (UInt64.toNat_inj.mp zero)
      have none : (h.bury b epoch).freed.size - (h.bury b epoch).maxFreed.toNat = 0 := by omega
      rw [none]
      rfl
  unfold Heap.free
  rw [live]
  dsimp only
  rw [stays]
  exact ⟨_, rfl⟩

/-- Freed, the block is found at the addresses that it covers, but for the last of all. -/
theorem isUnreported_bury (epoch : Epoch) {tid : ThreadId} {a : Word} {vc : VectorClock}
    (foreign : tid ≠ b.owner) (unobserved : epoch.observedBy vc = false) :
    (h.bury b epoch).isUnreported tid a vc = true ↔ b.extent.covers a ∧ a ≠ Word.top := by
  have found (seq : Nat) : (h.bury b epoch).freed[seq]? =
      if seq = h.nextSeq then some { b with freedAt := some epoch } else none := by
    rw [bury_freed, lone.freed, Std.ExtTreeMap.getElem?_empty]
  rw [isUnreported_iff (lone.valid.bury b epoch), ← Extent.contains_iff,
    ← Extent.overlaps_ofByte_iff]
  constructor
  · rintro ⟨seq, c, stale⟩
    have kept := stale.kept
    rw [found] at kept
    split at kept
    · cases kept
      exact stale.covers
    · cases kept
  · intro covers
    refine ⟨h.nextSeq, { b with freedAt := some epoch }, ?_, covers, ?_, ?_⟩
    · rw [found, if_pos rfl]
    · simpa [Block.unseenBy, unobserved] using foreign.symm
    · simp [Block.isReported, lone.clean]

/-- **A block is found at the same addresses live and freed**, but for the last of the address
space. A live block is found wherever it covers the address. Once it is freed, an access there by
another thread that has not observed the free is a use after free, unless it is at the last
address. -/
theorem lookups_agree (epoch : Epoch) :
    ∃ freed h', h.free b.extent.base epoch = .ok (freed, h') ∧ ∀ a : Word,
      (h.blockAt a = some b.extent ↔ b.extent.covers a) ∧
      (∀ tid vc, tid ≠ b.owner → epoch.observedBy vc = false →
        (h'.isUnreported tid a vc = true ↔ h.blockAt a = some b.extent ∧ a ≠ Word.top)) ∧
      (epoch.clock ≠ 0 →
        ((∀ tid vc, tid ≠ b.owner → epoch.observedBy vc = false →
          h'.isUnreported tid a vc = true) ↔ h.blockAt a = some b.extent ∧ a ≠ Word.top)) := by
  obtain ⟨freed, buried⟩ := lone.free epoch
  have each (a : Word) (tid : ThreadId) (vc : VectorClock) (foreign : tid ≠ b.owner)
      (unobserved : epoch.observedBy vc = false) : (h.bury b epoch).isUnreported tid a vc = true ↔
      h.blockAt a = some b.extent ∧ a ≠ Word.top := by
    rw [lone.isUnreported_bury epoch foreign unobserved, lone.blockAt_iff]
  refine ⟨freed, _, buried, fun a => ⟨lone.blockAt_iff, each a, fun begun => ⟨fun all => ?_, ?_⟩⟩⟩
  · -- There is another thread, and a clock that has not observed anything.
    have foreign : b.owner + 1 ≠ b.owner := by simp
    have unobserved : epoch.observedBy .empty = false := by
      rw [Bool.eq_false_iff, ne_eq, Epoch.observedBy_iff, VectorClock.get_empty]
      exact fun below => begun (UInt32.toNat_inj.mp (Nat.le_zero.mp below))
    exact (each a _ _ foreign unobserved).mp (all _ _ foreign unobserved)
  · intro found tid vc foreign unobserved
    exact (each a tid vc foreign unobserved).mpr found

end Lone

/-- Eight bytes. -/
def eight : Block := .new 1 0 ⟨256, 8⟩

/-- A lone block of eight bytes, freed: the last of them is found before and after, the address
behind it is not. -/
theorem Lone.lookups_agree_eight : ((Heap.empty 0).allocate eight).2.Lone eight ∧
    ∃ freed h', ((Heap.empty 0).allocate eight).2.free 256 ⟨1, 1⟩ = .ok (freed, h') ∧
      ((Heap.empty 0).allocate eight).2.blockAt 263 = some ⟨256, 8⟩ ∧
      h'.isUnreported 2 263 .empty = true ∧ h'.isUnreported 2 264 .empty = false := by
  have lone : ((Heap.empty 0).allocate eight).2.Lone eight := ⟨rfl, rfl, rfl⟩
  obtain ⟨freed, h', done, agree⟩ := lone.lookups_agree ⟨1, 1⟩
  have last : eight.extent.covers 263 := Extent.contains_iff.mp (by decide)
  have behind : ¬ eight.extent.covers 264 := fun covers =>
    absurd (Extent.contains_iff.mpr covers) (by decide)
  have found := (agree 263).1.mpr last
  have hit (a : Word) := (agree a).2.1 2 .empty (by decide) (by decide)
  refine ⟨lone, freed, h', done, found, (hit 263).mpr ⟨found, by decide⟩, ?_⟩
  exact Bool.eq_false_iff.mpr fun other => behind ((agree 264).1.mp ((hit 264).mp other).1)

/-- The last byte of the address space. -/
def lastByte : Block := .new 1 0 ⟨Word.top, 1⟩

/-- A live block at the last address is found there. Once it is freed, an access there is not a use
after free, whichever thread makes it. -/
theorem lastByte_lost : ((Heap.empty 0).allocate lastByte).2.Lone lastByte ∧
    lastByte.extent.base.toNat + lastByte.extent.size.toNat = UInt64.size ∧
    ((Heap.empty 0).allocate lastByte).2.blockAt Word.top = some lastByte.extent ∧
    (((Heap.empty 0).allocate lastByte).2.free Word.top ⟨1, 1⟩).toOption.map
        (fun r => r.2.isUnreported 2 Word.top .empty) = some false ∧
    (2 : ThreadId) ≠ lastByte.owner ∧ Epoch.observedBy ⟨1, 1⟩ .empty = false := by
  refine ⟨⟨rfl, rfl, rfl⟩, ?_⟩
  simp only [isUnreported, unreported, overlapping_eq, touching_eq]
  decide +kernel

end Heap

end RaceMonitor
