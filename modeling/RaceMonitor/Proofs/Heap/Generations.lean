import Mathlib.Data.List.Count
import RaceMonitor.Proofs.Heap.Exact

/-! Generations of blocks at one address.

As long as no range is allocated that overlaps a live block, few freed blocks lie over one another
(`Heap.Generational`). A free adds one to its range, where one at most was left: when the range was
handed out, only the freed blocks stayed that had not been reused before. Those are marked, so none
without a mark is below a live block, and a free leaves one such block at most. Whatever else drops
freed blocks or marks them keeps to these bounds (`Heap.Generational.wanes`). -/
namespace RaceMonitor

/-! ### Counting entries -/

namespace Table

variable {κ α : Type} [Ord κ] [Std.TransOrd κ] [Std.LawfulEqOrd κ] {t t' : Table κ α}

/-- The keys of the entries of a kind. -/
def keysOf (t : Table κ α) (p : α → Bool) : List κ := (t.toList.filter fun q => p q.2).map Prod.fst

theorem mem_keysOf {p : α → Bool} {k : κ} : k ∈ t.keysOf p ↔ ∃ v, t[k]? = some v ∧ p v = true := by
  simp [keysOf, Std.ExtTreeMap.mem_toList_iff_getElem?_eq_some]

omit [Std.LawfulEqOrd κ] in
theorem keysOf_nodup (t : Table κ α) (p : α → Bool) : (t.keysOf p).Nodup := by
  refine List.Nodup.sublist (List.Sublist.map _ List.filter_sublist) ?_
  rw [Std.ExtTreeMap.map_fst_toList_eq_keys]
  exact Std.ExtTreeMap.nodup_keys

omit [Std.LawfulEqOrd κ] in
theorem length_keysOf (t : Table κ α) (p : α → Bool) :
    (t.keysOf p).length = t.values.countP p := by
  rw [keysOf, List.length_map, values_eq_map_toList, List.countP_map, List.countP_eq_length_filter]
  rfl

/-- Where each entry of a kind comes from one of another kind, there are no more. -/
theorem countP_values_le {p p' : α → Bool} (from_ : ∀ (k : κ) (v' : α), t'[k]? = some v' →
    p' v' = true → ∃ v, t[k]? = some v ∧ p v = true) :
    t'.values.countP p' ≤ t.values.countP p := by
  rw [← length_keysOf, ← length_keysOf]
  refine (List.subperm_of_subset (t'.keysOf_nodup p') fun k mem => ?_).length_le
  obtain ⟨v', found, kind⟩ := mem_keysOf.mp mem
  exact mem_keysOf.mpr (from_ k v' found kind)

/-- One entry more adds one at most. -/
theorem countP_values_insert_le [DecidableEq κ] (t : Table κ α) (k : κ) (v : α) (p : α → Bool) :
    (t.insert k v).values.countP p ≤ t.values.countP p + 1 := by
  rw [← length_keysOf, ← length_keysOf, ← List.length_cons]
  refine (List.subperm_of_subset (keysOf_nodup _ p) fun i mem => ?_).length_le
  obtain ⟨w, found, kind⟩ := mem_keysOf.mp mem
  rw [get_insert] at found
  split at found
  · rename_i same
    rw [same]
    exact List.mem_cons_self
  · exact List.mem_cons_of_mem k (mem_keysOf.mpr ⟨w, found, kind⟩)

end Table

theorem Extent.overlaps_comm (e f : Extent) : e.overlaps f = f.overlaps e := Bool.and_comm ..

/-- What a range contains is before its limit, but for the last address. -/
theorem Extent.spans_of_contains {e : Extent} {a : Word} (ha : a ≠ Word.top)
    (inside : e.contains a = true) : e.spans a = true := by
  have below : a.toNat ≠ UInt64.size - 1 := fun he => ha (UInt64.toNat_inj.mp he)
  have bound := a.toNat_lt_size
  simp only [contains, spans, limit, Bool.and_eq_true, decide_eq_true_eq, UInt64.le_iff_toNat_le,
    UInt64.lt_iff_toNat_lt, Word.toNat_addSat] at inside ⊢
  rw [UInt64.toNat_sub_of_le _ _ (UInt64.le_iff_toNat_le.mpr inside.1)] at inside
  omega

/-- Ranges that contain the same address overlap, but for the last address. -/
theorem Extent.overlaps_of_contains {e f : Extent} {a : Word} (ha : a ≠ Word.top)
    (inside : e.contains a = true) (inside' : f.contains a = true) : e.overlaps f = true := by
  have spans := spans_of_contains ha inside
  simp only [Extent.spans, Bool.and_eq_true, decide_eq_true_eq] at spans
  exact overlaps_of_common (overlaps_ofByte.mpr spans) (spans_of_contains ha inside')

namespace Heap

variable {h h' : Heap}

/-- How many freed blocks lie at `a`. -/
def buriedAt (h : Heap) (a : Word) : Nat := h.freed.values.countP fun b => b.extent.contains a

/-- How many of them have not been reused. -/
def unreusedAt (h : Heap) (a : Word) : Nat :=
  h.freed.values.countP fun b => b.extent.contains a && !b.reused

/-- Live blocks are kept by where they start and do not overlap, and few freed blocks lie over one
another. -/
structure Generational (h : Heap) : Prop where
  keyed : ∀ (base : Word) (c : Block), h.live[base]? = some c → c.extent.base = base
  nonempty : ∀ (base : Word) (c : Block), h.live[base]? = some c → c.extent.size ≠ 0
  apart : ∀ (base base' : Word) (c c' : Block), h.live[base]? = some c →
    h.live[base']? = some c' → base ≠ base' → c.extent.overlaps c'.extent = false
  reused : ∀ (seq : Nat) (b : Block) (base : Word) (c : Block), h.freed[seq]? = some b →
    h.live[base]? = some c → b.extent.overlaps c.extent = true → b.reused = true
  two : ∀ a ≠ Word.top, h.buriedAt a ≤ 2
  one : ∀ a ≠ Word.top, h.unreusedAt a ≤ 1
  below : ∀ a ≠ Word.top, ∀ (base : Word) (c : Block), h.live[base]? = some c →
    c.extent.contains a = true → h.buriedAt a ≤ 1

/-- Some freed blocks have gone, or are now marked as reused; live blocks are as before. -/
structure Wanes (h h' : Heap) : Prop where
  live : h'.live = h.live
  kept : ∀ (seq : Nat) (b' : Block), h'.freed[seq]? = some b' →
    ∃ b : Block, h.freed[seq]? = some b ∧ b'.extent = b.extent ∧
      (b.reused = true → b'.reused = true)

namespace Wanes

theorem of_freed (live : h'.live = h.live)
    (freed : ∀ (seq : Nat) (b : Block), h'.freed[seq]? = some b → h.freed[seq]? = some b) :
    h.Wanes h' :=
  ⟨live, fun seq b found => ⟨b, freed seq b found, rfl, id⟩⟩

theorem of_core (live : h'.live = h.live) (core : ∀ seq, h'.core seq = h.core seq) :
    h.Wanes h' := by
  refine ⟨live, fun seq b' found' => ?_⟩
  obtain ⟨b, found, same⟩ := core_eq_some.mp
    ((core seq).symm.trans (core_eq_some.mpr ⟨b', found', rfl⟩))
  have reused : b.core.reused = b'.core.reused := congrArg Block.reused same
  exact ⟨b, found, by rw [← b'.core_extent, ← same, b.core_extent], fun marked => reused ▸ marked⟩

theorem evict (h : Heap) : h.Wanes h.evict.2 := of_freed h.evict_live fun _ _ => h.evict_freed

theorem dropObserved (h : Heap) (floor : VectorClock) : h.Wanes (h.dropObserved floor).2 :=
  of_freed (h.dropObserved_live floor) fun seq b found => by
    rw [dropObserved_freed] at found
    exact (Option.filter_eq_some_iff.mp found).1

theorem buriedAt_le (wanes : h.Wanes h') (a : Word) : h'.buriedAt a ≤ h.buriedAt a :=
  Table.countP_values_le fun seq b' found' inside => by
    obtain ⟨b, found, extent, _⟩ := wanes.kept seq b' found'
    exact ⟨b, found, extent ▸ inside⟩

theorem unreusedAt_le (wanes : h.Wanes h') (a : Word) : h'.unreusedAt a ≤ h.unreusedAt a :=
  Table.countP_values_le fun seq b' found' inside => by
    obtain ⟨b, found, extent, reused⟩ := wanes.kept seq b' found'
    simp only [Bool.and_eq_true, Bool.not_eq_true', ← Bool.not_eq_true] at inside ⊢
    exact ⟨b, found, extent ▸ inside.1, fun marked => inside.2 (reused marked)⟩

end Wanes

/-- What is left of the freed blocks when a range is handed out: those on it are marked, and were
not before. -/
theorem kept_of_reissue {e : Extent}
    (freed : ∀ seq, h'.core seq = (h.core seq).bind (Block.reissue e)) {seq : Nat} {b' : Block}
    (found' : h'.freed[seq]? = some b') :
    ∃ b : Block, h.freed[seq]? = some b ∧ b'.extent = b.extent ∧
      (b.reused = true → b'.reused = true) ∧
      (b.extent.overlaps e = true → b.reused = false ∧ b'.reused = true) := by
  obtain ⟨d, there, handed⟩ := Option.bind_eq_some_iff.mp
    ((freed seq).symm.trans (core_eq_some.mpr ⟨b', found', rfl⟩))
  obtain ⟨b, found, rfl⟩ := core_eq_some.mp there
  refine ⟨b, found, ?_⟩
  have reused : b.core.reused = b.reused := rfl
  rw [← b'.core_extent, show b'.reused = b'.core.reused from rfl]
  unfold Block.reissue at handed
  split at handed
  · obtain ⟨unmarked, same⟩ := Block.handedOut_eq_some.mp handed
    rw [same]
    exact ⟨rfl, fun _ => rfl, fun _ => ⟨reused ▸ unmarked, rfl⟩⟩
  · rename_i aside
    rw [← Option.some.inj handed]
    exact ⟨rfl, id, fun overlaps => absurd overlaps aside⟩

namespace Generational

theorem empty (maxFreed : Word) (nextSeq : Nat) : (Heap.empty maxFreed nextSeq).Generational := by
  have none : (∅ : Table Nat Block).values = [] := rfl
  constructor <;> simp [Heap.empty, buriedAt, unreusedAt, none]

/-- Blocks that go or are marked leave room. -/
theorem wanes (gen : h.Generational) (wanes : h.Wanes h') : h'.Generational where
  keyed := wanes.live ▸ gen.keyed
  nonempty := wanes.live ▸ gen.nonempty
  apart := wanes.live ▸ gen.apart
  reused seq b' base c found' live overlaps := by
    obtain ⟨b, found, extent, reused⟩ := wanes.kept seq b' found'
    exact reused (gen.reused seq b base c found (wanes.live ▸ live) (extent ▸ overlaps))
  two a ha := Nat.le_trans (wanes.buriedAt_le a) (gen.two a ha)
  one a ha := Nat.le_trans (wanes.unreusedAt_le a) (gen.one a ha)
  below a ha base c live inside :=
    Nat.le_trans (wanes.buriedAt_le a) (gen.below a ha base c (wanes.live ▸ live) inside)

/-- Below a live block all freed blocks are marked. -/
theorem unreusedAt_live (gen : h.Generational) {a : Word} (ha : a ≠ Word.top) {base : Word}
    {c : Block} (live : h.live[base]? = some c) (inside : c.extent.contains a = true) :
    h.unreusedAt a = 0 := by
  refine List.countP_eq_zero.mpr fun b mem => ?_
  obtain ⟨seq, found⟩ := Table.mem_values.mp mem
  intro unmarked
  simp only [Bool.and_eq_true, Bool.not_eq_true'] at unmarked
  have overlaps := Extent.overlaps_of_contains ha unmarked.1 inside
  cases unmarked.2.symm.trans (gen.reused seq b base c found live overlaps)

/-- A range is allocated that overlaps no live block: on it, only freed blocks stay that were not
reused yet. -/
theorem allocated (gen : h.Generational) {c : Block} (nonempty : c.extent.size ≠ 0)
    (unused : ∀ (base : Word) (b : Block), h.live[base]? = some b →
      b.extent.overlaps c.extent = false)
    (live : h'.live = h.live.insert c.extent.base c)
    (freed : ∀ seq, h'.core seq = (h.core seq).bind (Block.reissue c.extent)) :
    h'.Generational := by
  -- Seen from the live blocks of before, some freed blocks have gone and some are marked.
  have before : h.Wanes { h' with live := h.live } := ⟨rfl, fun seq b' found' => by
    obtain ⟨b, found, extent, reused, _⟩ := kept_of_reissue freed found'
    exact ⟨b, found, extent, reused⟩⟩
  have old := gen.wanes before
  have new (base : Word) (d : Block) (there : h'.live[base]? = some d) :
      base = c.extent.base ∧ d = c ∨ base ≠ c.extent.base ∧ h.live[base]? = some d := by
    rw [live, Table.get_insert] at there
    split at there
    · rename_i same
      exact .inl ⟨same, (Option.some.inj there).symm⟩
    · rename_i other
      exact .inr ⟨other, there⟩
  constructor
  · intro base d there
    rcases new base d there with ⟨rfl, rfl⟩ | ⟨_, there⟩
    · rfl
    · exact gen.keyed base d there
  · intro base d there
    rcases new base d there with ⟨rfl, rfl⟩ | ⟨_, there⟩
    · exact nonempty
    · exact gen.nonempty base d there
  · intro base base' d d' there there' ne
    rcases new base d there with ⟨rfl, rfl⟩ | ⟨_, there⟩
    · rcases new base' d' there' with ⟨rfl, rfl⟩ | ⟨_, there'⟩
      · exact absurd rfl ne
      · exact (Extent.overlaps_comm _ _).trans (unused base' d' there')
    · rcases new base' d' there' with ⟨rfl, rfl⟩ | ⟨_, there'⟩
      · exact unused base d there
      · exact gen.apart base base' d d' there there' ne
  · intro seq b' base d found' there overlaps
    rcases new base d there with ⟨rfl, rfl⟩ | ⟨_, there⟩
    · obtain ⟨b, _, extent, _, marked⟩ := kept_of_reissue freed found'
      exact (marked (extent ▸ overlaps)).2
    · exact old.reused seq b' base d found' there overlaps
  · exact old.two
  · exact old.one
  · intro a ha base d there inside
    rcases new base d there with ⟨rfl, rfl⟩ | ⟨_, there⟩
    · refine Nat.le_trans (Table.countP_values_le fun seq b' found' inside' => ?_) (gen.one a ha)
      obtain ⟨b, found, extent, _, marked⟩ := kept_of_reissue freed found'
      rw [extent] at inside'
      have unmarked := (marked (Extent.overlaps_of_contains ha inside' inside)).1
      exact ⟨b, found, by rw [inside', unmarked]; rfl⟩
    · exact old.below a ha base d there inside

/-- A live block moves to the freed ones. -/
theorem buried (gen : h.Generational) {base : Word} {c : Block} (live : h.live[base]? = some c)
    (epoch : Epoch) : (h.bury c epoch).Generational := by
  obtain rfl := gen.keyed base c live
  have left (base : Word) (d : Block) (there : (h.bury c epoch).live[base]? = some d) :
      base ≠ c.extent.base ∧ h.live[base]? = some d := by
    have there : (h.live.erase c.extent.base)[base]? = some d := there
    rw [Table.get_erase] at there
    split at there
    · cases there
    · exact ⟨‹_›, there⟩
  have aside (p : Block → Bool) (not : p { c with freedAt := some epoch } = false) :
      (h.bury c epoch).freed.values.countP p ≤ h.freed.values.countP p :=
    Table.countP_values_le fun seq b found kind => by
      rw [bury_freed] at found
      split at found
      · cases found
        cases not.symm.trans kind
      · exact ⟨b, found, kind⟩
  have more (p : Block → Bool) :
      (h.bury c epoch).freed.values.countP p ≤ h.freed.values.countP p + 1 :=
    Table.countP_values_insert_le ..
  constructor
  · exact fun base d there => gen.keyed base d (left base d there).2
  · exact fun base d there => gen.nonempty base d (left base d there).2
  · exact fun base base' d d' there there' =>
      gen.apart base base' d d' (left base d there).2 (left base' d' there').2
  · intro seq b base d found there overlaps
    obtain ⟨other, there⟩ := left base d there
    rw [bury_freed] at found
    split at found
    · cases found
      cases overlaps.symm.trans (gen.apart _ _ c d live there other.symm)
    · exact gen.reused seq b base d found there overlaps
  · intro a ha
    by_cases inside : c.extent.contains a = true
    · exact Nat.le_trans (more _) (Nat.succ_le_succ (gen.below a ha _ c live inside))
    · exact Nat.le_trans (aside _ (by simpa using inside)) (gen.two a ha)
  · intro a ha
    by_cases inside : c.extent.contains a = true
    · have none := gen.unreusedAt_live ha live inside
      exact Nat.le_trans (more _) (Nat.succ_le_succ (Nat.le_of_eq none))
    · exact Nat.le_trans (aside _ (by simp [inside])) (gen.one a ha)
  · intro a ha base d there inside
    obtain ⟨other, there⟩ := left base d there
    have outside : c.extent.contains a = false := by
      by_contra both
      have overlaps := Extent.overlaps_of_contains ha (by simpa using both) inside
      cases overlaps.symm.trans (gen.apart _ _ c d live there other.symm)
    exact Nat.le_trans (aside _ outside) (gen.below a ha base d there inside)

end Generational

end Heap

end RaceMonitor
