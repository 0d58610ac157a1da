import RaceMonitor.Proofs.Heap.Live

/-! How many freed blocks stay.

A free makes room before it is done (`Fits.free`), and nothing else adds a freed block. -/
namespace RaceMonitor

/-- A population of `size` is within a limit, 0 being none. -/
def Config.Allows (limit : Word) (size : Nat) : Prop := limit ≠ 0 → size ≤ limit.toNat

theorem Config.Allows.mono {limit : Word} {size size' : Nat} (allows : Config.Allows limit size)
    (le : size' ≤ size) : Config.Allows limit size' :=
  fun limited => Nat.le_trans le (allows limited)

theorem Config.Allows.zero (limit : Word) : Config.Allows limit 0 := fun _ => Nat.zero_le _

namespace Heap

/-- The freed blocks are within their limit. -/
def Fits (h : Heap) : Prop := Config.Allows h.maxFreed h.freed.size

variable {h h' : Heap}

theorem Thinned.size_le (thinned : h.Thinned h') : h'.freed.size ≤ h.freed.size :=
  Table.size_le_of_subset fun seq mem => by
    obtain ⟨b', found⟩ := Table.mem_iff_exists.mp mem
    obtain ⟨b, found, _⟩ := thinned.kept seq b' found
    exact Table.mem_iff_exists.mpr ⟨b, found⟩

theorem Fits.thinned (fits : h.Fits) (thinned : h.Thinned h') : h'.Fits := by
  unfold Fits
  rw [thinned.maxFreed]
  exact fits.mono thinned.size_le

theorem dropOldest_size (h : Heap) (n : Nat) :
    (h.dropOldest n).2.freed.size = h.freed.size - n := by
  induction n generalizing h with
  | zero => rfl
  | succ n ih =>
    unfold dropOldest
    cases oldest : h.freed.minKey? with
    | none =>
      rw [Std.ExtTreeMap.minKey?_eq_none_iff.mp oldest]
      simp
    | some seq =>
      have there : seq ∈ h.freed := Std.ExtTreeMap.minKey?_mem oldest
      obtain ⟨b, found⟩ := Table.mem_iff_exists.mp there
      have erased : (h.drop seq).2.freed = h.freed.erase seq := by
        rw [drop, found]
      dsimp only
      rw [ih, erased, Table.size_erase_of_mem there]
      omega

theorem Fits.evict (h : Heap) : h.evict.2.Fits := by
  unfold Fits
  rw [(Thinned.evict h).maxFreed]
  intro limited
  rw [Heap.evict, if_neg limited, dropOldest_size]
  omega

theorem Fits.free {base : Word} {epoch : Epoch} {freed : Freed}
    (done : h.free base epoch = .ok (freed, h')) : h'.maxFreed = h.maxFreed ∧ h'.Fits := by
  obtain ⟨b, _, _, _, rfl⟩ := live_of_free done
  exact ⟨(Thinned.evict (h.bury b epoch)).maxFreed, Fits.evict (h.bury b epoch)⟩

theorem Fits.reportUse (fits : h.Fits) {tid : ThreadId} {addr : Word} {vc : VectorClock}
    {history : Option History} {hit : UseAfterFree}
    (found : h.reportUse tid addr vc history = some (hit, h')) :
    h'.maxFreed = h.maxFreed ∧ h'.Fits := by
  obtain ⟨seq, _, found⟩ := Option.bind_eq_some_iff.mp found
  obtain ⟨b, there, found⟩ := Option.map_eq_some_iff.mp found
  cases found
  refine ⟨rfl, ?_⟩
  unfold Fits
  dsimp only
  rw [Table.size_insert_of_mem (Table.mem_iff_exists.mpr ⟨b, there⟩)]
  exact fits

end Heap

end RaceMonitor
