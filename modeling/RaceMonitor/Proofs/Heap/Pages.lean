import RaceMonitor.Engine.Memory
import RaceMonitor.Proofs.Heap.Freed

/-! The pages of freed blocks.

An access looks for freed blocks only on a marked page. It misses none: a free marks all pages
that the block has bytes on (`Extent.pageOf_mem_pages`), and a mark goes only where no freed block
overlaps the page, on whichever byte of it (`Extent.overlaps_ofPage`). -/
namespace RaceMonitor

namespace Extent

variable {e : Extent} {a : Word}

theorem overlaps_ofByte : e.overlaps (ofByte a) = true ↔ e.base ≤ a ∧ a < e.limit := by
  simp only [overlaps, ofByte, limit, Bool.and_eq_true, decide_eq_true_eq, UInt64.lt_iff_toNat_lt,
    UInt64.le_iff_toNat_le, Word.toNat_addSat]
  have : (1 : Word).toNat = 1 := rfl
  omega

/-- Ranges with an address in common overlap. -/
theorem overlaps_of_common {f : Extent}
    (covers : e.overlaps (ofByte a) = true) (inside : f.spans a = true) : e.overlaps f = true := by
  obtain ⟨ge, lt⟩ := overlaps_ofByte.mp covers
  simp only [spans, Bool.and_eq_true, decide_eq_true_eq] at inside
  simp only [overlaps, Bool.and_eq_true, decide_eq_true_eq]
  exact ⟨UInt64.lt_of_le_of_lt inside.1 lt, UInt64.lt_of_le_of_lt ge inside.2⟩

theorem toNat_pageOf (a : Word) : (pageOf a).toNat = a.toNat / 4096 := by
  rw [pageOf, UInt64.toNat_shiftRight, Nat.shiftRight_eq_div_pow]
  rfl

theorem toNat_pageStart (a : Word) : (pageOf a <<< pageShift).toNat = a.toNat / 4096 * 4096 := by
  have hmax := a.toNat_lt_size
  have hshift : pageShift.toNat % 64 = 12 := rfl
  rw [UInt64.toNat_shiftLeft, toNat_pageOf, hshift, Nat.shiftLeft_eq, Nat.mod_eq_of_lt]
  simp only [UInt64.size] at hmax
  omega

theorem toNat_lastPage (e : Extent) : e.lastPage.toNat =
    min (e.base.toNat + (e.size.toNat - 1)) (UInt64.size - 1) / 4096 := by
  have hone : (1 : Word).toNat = 1 := rfl
  have hsize : (max e.size 1 - 1).toNat = max e.size.toNat 1 - 1 := by
    rw [UInt64.toNat_sub_of_le _ _ (by
      rw [UInt64.le_iff_toNat_le, Word.toNat_max]
      exact Nat.le_max_right _ _), Word.toNat_max, hone]
  rw [lastPage, toNat_pageOf, Word.toNat_addSat, hsize]
  congr 2
  omega

/-- The pages of a range are those from its first to its last one. -/
theorem mem_pages {p : Word} :
    p ∈ e.pages ↔ e.firstPage.toNat ≤ p.toNat ∧ p.toNat ≤ e.lastPage.toNat := by
  have hlast := e.lastPage.toNat_lt_size
  have hmax := p.toNat_lt_size
  simp only [UInt64.size] at hlast hmax
  simp only [pages, List.mem_map, List.mem_range]
  constructor
  · rintro ⟨i, hi, rfl⟩
    rw [UInt64.toNat_add, UInt64.toNat_ofNat', Nat.add_mod_mod, Nat.mod_eq_of_lt] <;> omega
  · intro within
    refine ⟨p.toNat - e.firstPage.toNat, by omega, UInt64.toNat_inj.mp ?_⟩
    rw [UInt64.toNat_add, UInt64.toNat_ofNat', Nat.add_mod_mod, Nat.mod_eq_of_lt] <;> omega

/-- Each byte of a range is on one of its pages. -/
theorem pageOf_mem_pages (h : e.overlaps (ofByte a) = true) : pageOf a ∈ e.pages := by
  rw [overlaps_ofByte, UInt64.le_iff_toNat_le, UInt64.lt_iff_toNat_lt, limit,
    Word.toNat_addSat] at h
  rw [mem_pages, firstPage, toNat_pageOf, toNat_pageOf, toNat_lastPage]
  exact ⟨Nat.div_le_div_right h.1, Nat.div_le_div_right (by omega)⟩

/-- A range that overlaps a page touches it. -/
theorem mem_pages_of_overlaps {f : Extent} {p : Word} (page : p ∈ f.pages)
    (overlaps : e.overlaps (ofPage p) = true) : p ∈ e.pages := by
  have inside := (mem_pages.mp page).2
  rw [toNat_lastPage] at inside
  have hshift : pageShift.toNat % 64 = 12 := rfl
  have hstart : (p <<< pageShift).toNat = p.toNat * 4096 := by
    rw [UInt64.toNat_shiftLeft, hshift, Nat.shiftLeft_eq, Nat.mod_eq_of_lt]
    simp only [UInt64.size] at inside
    omega
  have hsize : ((1 : Word) <<< pageShift).toNat = 4096 := rfl
  simp only [Extent.overlaps, ofPage, limit, Bool.and_eq_true, decide_eq_true_eq,
    UInt64.lt_iff_toNat_lt, Word.toNat_addSat, hstart, hsize] at overlaps
  rw [mem_pages, firstPage, toNat_pageOf, toNat_lastPage]
  omega

/-- What overlaps a byte overlaps the page of the byte. -/
theorem overlaps_ofPage (h : e.overlaps (ofByte a) = true) :
    e.overlaps (ofPage (pageOf a)) = true := by
  rw [overlaps_ofByte, UInt64.le_iff_toNat_le, UInt64.lt_iff_toNat_lt] at h
  have hsize : ((1 : Word) <<< pageShift).toNat = 4096 := rfl
  have hlimit := e.limit.toNat_lt_size
  simp only [overlaps, ofPage, Bool.and_eq_true, decide_eq_true_eq, UInt64.lt_iff_toNat_lt]
  rw [show limit ⟨pageOf a <<< pageShift, 1 <<< pageShift⟩ =
    Word.addSat (pageOf a <<< pageShift) (1 <<< pageShift) from rfl, Word.toNat_addSat, hsize,
    toNat_pageStart]
  omega

end Extent

namespace Tables

/-- Every byte of a freed block is on a marked page. -/
structure Filtered (t : Tables) : Prop where
  valid : t.heap.Valid
  marked : ∀ (seq : Nat) (b : Block) (a : Word), t.heap.freed[seq]? = some b →
    b.extent.overlaps (Extent.ofByte a) = true → Extent.pageOf a ∈ t.freedPages

namespace Filtered

variable {t : Tables}

theorem empty (maxFreed : Word) (nextSeq : Nat) : (Tables.empty maxFreed nextSeq).Filtered :=
  ⟨.empty maxFreed nextSeq, fun _ _ _ kept => by simp [Tables.empty, Heap.empty] at kept⟩

theorem of_same {t' : Tables} (h : t.Filtered) (heap : t'.heap = t.heap)
    (freedPages : t'.freedPages = t.freedPages) : t'.Filtered := by
  refine ⟨heap ▸ h.valid, fun seq b a kept => ?_⟩
  rw [freedPages]
  exact h.marked seq b a (heap ▸ kept)

/-- Blocks may go while their marks stay. -/
theorem thinned {heap : Heap} (h : t.Filtered) (thinned : t.heap.Thinned heap) :
    (t.putHeap heap).Filtered := by
  refine ⟨thinned.valid h.valid, fun seq b' a kept covers => ?_⟩
  obtain ⟨b, found, _, _, rfl⟩ := thinned.kept seq b' kept
  exact h.marked seq b a found covers

/-- A page keeps its mark as long as a freed block overlaps it. -/
theorem unmarkPages (h : t.Filtered) (gone : List Extent) : (t.unmarkPages gone).Filtered := by
  refine ⟨h.valid, fun seq b a kept covers => ?_⟩
  have kept : t.heap.freed[seq]? = some b := kept
  have touches : t.heap.touchesPage (Extent.pageOf a) = true :=
    (Heap.touchesPage_iff h.valid).mpr ⟨seq, b, kept, Extent.overlaps_ofPage covers⟩
  have mark := h.marked seq b a kept covers
  unfold Tables.unmarkPages
  dsimp only
  generalize t.freedPages = marks at mark
  induction gone.flatMap Extent.pages generalizing marks with
  | nil => exact mark
  | cons p ps ih =>
    rw [List.foldl_cons]
    refine ih _ ?_
    split
    · exact mark
    · rename_i untouched
      exact KeySet.mem_erase_iff.mpr ⟨fun same => untouched (same ▸ touches), mark⟩

theorem mem_foldl_insert {pages : List Word} {marks : KeySet Word} {p : Word} :
    p ∈ pages.foldl (fun marks p => marks.insert p) marks ↔ p ∈ pages ∨ p ∈ marks := by
  induction pages generalizing marks with
  | nil => simp
  | cons q qs ih =>
    rw [List.foldl_cons, ih, KeySet.mem_insert_iff, List.mem_cons]
    exact or_left_comm.trans or_assoc.symm

/-- A free marks its block's pages. -/
theorem buried (h : t.Filtered) (b : Block) (epoch : Epoch) :
    ((t.putHeap (t.heap.bury b epoch)).markPages b.extent).Filtered := by
  refine ⟨h.valid.bury b epoch, fun seq b' a kept covers => mem_foldl_insert.mpr ?_⟩
  have kept : (t.heap.bury b epoch).freed[seq]? = some b' := kept
  rw [Heap.bury_freed] at kept
  split at kept
  · cases kept
    exact .inl (Extent.pageOf_mem_pages covers)
  · exact .inr (h.marked seq b' a kept covers)

/-- A report changes neither blocks' places nor marks. -/
theorem reported (h : t.Filtered) {seq : Nat} {b : Block} (found : t.heap.freed[seq]? = some b)
    (tid : ThreadId) (addr : Word) :
    (t.putHeap { t.heap with freed := t.heap.freed.insert seq (b.report tid addr) }).Filtered := by
  refine ⟨h.valid.report found tid addr, fun seq' b' a kept covers => ?_⟩
  have kept : (t.heap.freed.insert seq (b.report tid addr))[seq']? = some b' := kept
  rw [Table.get_insert] at kept
  split at kept
  · cases kept
    exact h.marked seq b a found covers
  · exact h.marked seq' b' a kept covers

end Filtered

/-- Some freed blocks have gone, and marks that none of the others needs. -/
structure Thinned (t t' : Tables) : Prop where
  heap : t.heap.Thinned t'.heap
  filtered : t.Filtered → t'.Filtered

namespace Thinned

theorem trans {t t' t'' : Tables} (first : t.Thinned t') (second : t'.Thinned t'') :
    t.Thinned t'' :=
  ⟨first.heap.trans second.heap, second.filtered ∘ first.filtered⟩

theorem of_same {t t' : Tables} (heap : t'.heap = t.heap)
    (freedPages : t'.freedPages = t.freedPages) : t.Thinned t' :=
  ⟨heap ▸ .refl _, fun h => h.of_same heap freedPages⟩

theorem putHeap {t : Tables} {heap : Heap} (thinned : t.heap.Thinned heap) :
    t.Thinned (t.putHeap heap) :=
  ⟨thinned, fun h => h.thinned thinned⟩

theorem unmarkPages (t : Tables) (gone : List Extent) : t.Thinned (t.unmarkPages gone) :=
  ⟨.refl _, fun h => h.unmarkPages gone⟩

end Thinned

end Tables

end RaceMonitor
