import Mathlib.Data.List.Count
import RaceMonitor.Proofs.Heap.Exact

/-! The newest freed blocks.

Where fewer freed blocks may stay, those that do are the newest of the ones that stay elsewhere
(`Heap.Newest`): from any of them on, both heaps have the same blocks with the same numbers. All
that is done to freed blocks keeps it so. Whether a block goes to make room is decided by how many
newer ones there are (`Heap.evict_younger`), the last access at an address is kept on the newest
block there, and the one to report a use against is the newest, too. -/
namespace RaceMonitor

namespace Table

variable {α : Type} {t u : Table Nat α}

/-- How many entries have greater numbers than `i`. -/
def younger (t : Table Nat α) (i : Nat) : Nat := t.keys.countP fun j => i < j

theorem younger_congr {i : Nat} (same : ∀ j, i < j → (j ∈ t ↔ j ∈ u)) :
    t.younger i = u.younger i := by
  simp only [younger, List.countP_eq_length_filter]
  refine List.Perm.length_eq ((List.perm_ext_iff_of_nodup ?_ ?_).mpr fun j => ?_)
  · exact Std.ExtTreeMap.nodup_keys.filter _
  · exact Std.ExtTreeMap.nodup_keys.filter _
  · simp only [List.mem_filter, Std.ExtTreeMap.mem_keys, decide_eq_true_eq]
    exact and_congr_left (same j)

theorem younger_anti (t : Table Nat α) {i j : Nat} (le : i ≤ j) : t.younger j ≤ t.younger i :=
  List.countP_mono_left fun k _ less => by
    simp only [decide_eq_true_eq] at less ⊢
    omega

theorem younger_lt_size {i : Nat} (there : i ∈ t) : t.younger i < t.size := by
  rw [← Std.ExtTreeMap.length_keys]
  exact List.countP_lt_length_iff.mpr ⟨i, Std.ExtTreeMap.mem_keys.mpr there, by simp⟩

/-- All but the oldest entry are younger than it. -/
theorem size_le_younger {i : Nat} (oldest : ∀ j ∈ t, i ≤ j) : t.size ≤ t.younger i + 1 := by
  have apart := List.length_eq_countP_add_countP (fun j => decide (i < j)) (l := t.keys)
  have own : t.keys.countP (fun j => ¬ decide (i < j) = true) ≤ t.keys.count i := by
    refine List.countP_mono_left fun j mem other => ?_
    have le := oldest j (Std.ExtTreeMap.mem_keys.mp mem)
    simp only [decide_eq_true_eq] at other
    exact beq_iff_eq.mpr (by omega)
  have once := List.nodup_iff_count_le_one.mp (Std.ExtTreeMap.nodup_keys (t := t)) i
  rw [← Std.ExtTreeMap.length_keys, younger]
  omega

/-- From any of its entries on, `t` is the same as `u`. -/
def Ends (t u : Table Nat α) : Prop := ∀ i j, i ∈ t → i ≤ j → u[j]? = t[j]?

namespace Ends

theorem found (ends : t.Ends u) {i : Nat} {a : α} (there : t[i]? = some a) : u[i]? = some a :=
  (ends i i (Table.mem_iff_exists.mpr ⟨a, there⟩) (Nat.le_refl i)).trans there

theorem mem (ends : t.Ends u) {i : Nat} (there : i ∈ t) : i ∈ u := by
  obtain ⟨a, there⟩ := Table.mem_iff_exists.mp there
  exact Table.mem_iff_exists.mpr ⟨a, ends.found there⟩

/-- What is done to each entry by itself, in both tables. -/
theorem pointwise {β : Type} {t' u' : Table Nat β} (ends : t.Ends u) (f : Nat → Option α → Option β)
    (none : ∀ i, f i none = none) (mine : ∀ i, t'[i]? = f i t[i]?)
    (other : ∀ i, u'[i]? = f i u[i]?) : t'.Ends u' := by
  intro i j there le
  have before : i ∈ t := by
    obtain ⟨b, found⟩ := Table.mem_iff_exists.mp there
    by_contra missing
    rw [mine, Table.not_mem_iff.mp missing, none] at found
    cases found
  rw [mine, other, ends i j before le]

/-- An entry that comes after all others, in both tables. -/
theorem insert (ends : t.Ends u) {n : Nat} (after : ∀ i ∈ t, i < n) (after' : ∀ i ∈ u, i < n)
    (a : α) : Ends (t.insert n a) (u.insert n a) := by
  intro i j there le
  rw [Table.get_insert, Table.get_insert]
  split
  · rfl
  · rename_i other
    rcases Table.mem_insert_iff.mp there with rfl | there
    · have absent : j ∉ t := fun mem => by have := after j mem; omega
      have absent' : j ∉ u := fun mem => by have := after' j mem; omega
      rw [Table.not_mem_iff.mp absent, Table.not_mem_iff.mp absent']
    · exact ends i j there le

/-- An entry of `u` from before all of `t`. -/
theorem insert_before (ends : t.Ends u) {n : Nat} (before : ∀ i ∈ t, n < i) (a : α) :
    Ends t (u.insert n a) := by
  intro i j there le
  have after := before i there
  rw [Table.get_insert, if_neg (by omega)]
  exact ends i j there le

/-- The younger ones are the same. -/
theorem younger (ends : t.Ends u) {i : Nat} (there : i ∈ t) : u.younger i = t.younger i := by
  refine younger_congr fun j less => ?_
  simp only [Table.mem_iff_exists, ends i j there (Nat.le_of_lt less)]

/-- Of each table, the entries are left that have few enough younger ones, fewer of `t`. -/
theorem limited {t' u' : Table Nat α} (ends : t.Ends u) {p q : Nat → Prop} [DecidablePred p]
    [DecidablePred q] (mine : ∀ i, t'[i]? = if p (t.younger i) then t[i]? else none)
    (other : ∀ i, u'[i]? = if q (u.younger i) then u[i]? else none)
    (down : ∀ x y, x ≤ y → p y → p x) (stays : ∀ x, p x → q x) : t'.Ends u' := by
  intro i j there le
  obtain ⟨a, found⟩ := Table.mem_iff_exists.mp there
  rw [mine] at found
  split at found
  · rename_i few
    have before : i ∈ t := Table.mem_iff_exists.mpr ⟨a, found⟩
    have few' : p (t.younger j) := down _ _ (t.younger_anti le) few
    rw [mine, other, if_pos few', ends i j before le]
    cases last : t[j]? with
    | none => split <;> rfl
    | some b =>
      have same : u.younger j = t.younger j :=
        ends.younger (Table.mem_iff_exists.mpr ⟨b, last⟩)
      rw [if_pos (same ▸ stays _ few')]
  · cases found

end Ends

end Table

namespace Heap

variable {h g : Heap}

/-! ### Making room -/

/-- Which blocks are left when the `n` oldest ones go. -/
theorem dropOldest_younger (h : Heap) (n i : Nat) : (h.dropOldest n).2.freed[i]? =
    if h.freed.younger i + n < h.freed.size then h.freed[i]? else none := by
  induction n generalizing h with
  | zero =>
    show h.freed[i]? = _
    split
    · rfl
    · rename_i last
      exact Table.not_mem_iff.mp fun there => last (Table.younger_lt_size there)
  | succ n ih =>
    unfold dropOldest
    cases oldest : h.freed.minKey? with
    | none =>
      have none : h.freed[i]? = none := by
        rw [Std.ExtTreeMap.minKey?_eq_none_iff.mp oldest]
        exact Std.ExtTreeMap.getElem?_empty
      dsimp only
      rw [none, ite_self]
    | some k =>
      obtain ⟨there, least⟩ : k ∈ h.freed ∧ ∀ j ∈ h.freed, k ≤ j := by
        simpa only [Nat.isLE_compare] using
          Std.ExtTreeMap.minKey?_eq_some_iff_mem_and_forall.mp oldest
      obtain ⟨b, found⟩ := Table.mem_iff_exists.mp there
      have erased : (h.drop k).2.freed = h.freed.erase k := by
        rw [drop, found]
      have size : (h.freed.erase k).size = h.freed.size - 1 := by
        rw [Std.ExtTreeMap.size_erase, if_pos (Std.ExtTreeMap.mem_iff_contains.mp there)]
      have positive := Table.younger_lt_size there
      refine (ih (h.drop k).2).trans ?_
      rw [erased, size, Table.get_erase]
      by_cases own : i = k
      · subst own
        have all := Table.size_le_younger least
        rw [if_pos rfl, ite_self, if_neg (by omega)]
      · rw [if_neg own]
        by_cases mem : i ∈ h.freed
        · have after : k < i := Nat.lt_of_le_of_ne (least i mem) (Ne.symm own)
          have same : Table.younger (h.freed.erase k) i = h.freed.younger i := by
            refine Table.younger_congr fun j less => ?_
            rw [Table.mem_erase_iff]
            exact and_iff_right (by omega)
          rw [same]
          exact if_congr (by omega) rfl rfl
        · rw [Table.not_mem_iff.mp mem, ite_self, ite_self]

/-- The oldest block as the first of all keys, which the kernel can look up. -/
theorem dropOldest_eq (h : Heap) (n : Nat) : h.dropOldest n =
    n.rec (fun h : Heap => ([], h)) (fun _ rest h =>
      match h.freed.keys.head? with
      | none => ([], h)
      | some seq =>
        ((h.drop seq).1.toList ++ (rest (h.drop seq).2).1, (rest (h.drop seq).2).2)) h := by
  induction n generalizing h with
  | zero => rfl
  | succ n ih =>
    rw [dropOldest, Std.ExtTreeMap.minKey?_eq_head?_keys]
    dsimp only
    cases h.freed.keys.head? with
    | none => rfl
    | some seq =>
      dsimp only
      rw [ih]

/-- A block stays if there is room for it and all newer ones. -/
theorem evict_younger (h : Heap) (i : Nat) : h.evict.2.freed[i]? =
    if h.maxFreed = 0 ∨ h.freed.younger i < h.maxFreed.toNat then h.freed[i]? else none := by
  unfold evict
  by_cases unlimited : h.maxFreed = 0
  · rw [if_pos unlimited, if_pos (.inl unlimited)]
  · rw [if_neg unlimited, dropOldest_younger]
    have positive : h.maxFreed.toNat ≠ 0 := fun zero => unlimited (UInt64.toNat_inj.mp zero)
    by_cases mem : i ∈ h.freed
    · have less := Table.younger_lt_size mem
      refine if_congr ?_ rfl rfl
      rw [or_iff_right unlimited]
      omega
    · rw [Table.not_mem_iff.mp mem, ite_self, ite_self]

/-! ### Handing out -/

theorem handOutOne_marks (h : Heap) (seq : Nat) :
    (h.handOutOne seq).1 = h.freed[seq]?.any fun b => !b.reused := by
  unfold handOutOne
  rw [Std.ExtTreeMap.contains_eq_isSome_getElem?]
  cases h.freed[seq]? with
  | none => rfl
  | some b => cases reused : b.reused <;> simp [reused]

/-- Handing out some blocks one after the other marks those that were not reused before. -/
theorem handOutAll_marks {seqs : List Nat} (nodup : seqs.Nodup) (h : Heap) (any : Bool)
    (gone : List Extent) :
    (seqs.foldl (fun p seq => (p.1 || (p.2.2.handOutOne seq).1,
        p.2.1 ++ (p.2.2.handOutOne seq).2.1.toList, (p.2.2.handOutOne seq).2.2))
      (any, gone, h)).1 =
    (any || seqs.any fun seq => h.freed[seq]?.any fun b => !b.reused) := by
  induction seqs generalizing h any gone with
  | nil => simp
  | cons seq seqs ih =>
    obtain ⟨once, nodup⟩ := List.nodup_cons.mp nodup
    refine (ih nodup (h.handOutOne seq).2.2 _ _).trans ?_
    have others : (seqs.any fun i => (h.handOutOne seq).2.2.freed[i]?.any fun b => !b.reused) =
        seqs.any fun i => h.freed[i]?.any fun b => !b.reused := by
      rw [Bool.eq_iff_iff, List.any_eq_true, List.any_eq_true]
      refine exists_congr fun i => and_congr_right fun mem => ?_
      have other : i ≠ seq := fun own => once (own ▸ mem)
      rw [handOutOne_freed, if_neg other]
    rw [List.any_cons, handOutOne_marks, others, Bool.or_assoc]

/-- A range is marked as reused where there is a freed block on it that was not yet. -/
theorem handOut_marks (valid : h.Valid) (pruned : h.Pruned) (e : Extent) :
    (h.handOut e).1 = true ↔ ∃ (i : Nat) (b : Block),
      h.freed[i]? = some b ∧ b.extent.overlaps e = true ∧ b.reused = false := by
  have all : (h.handOut e).1 =
      (h.overlapping e).any fun seq => h.freed[seq]?.any fun b => !b.reused :=
    (handOutAll_marks (pruned.overlapping_nodup e) h false []).trans (Bool.false_or _)
  rw [all, List.any_eq_true]
  constructor
  · rintro ⟨i, mem, unused⟩
    obtain ⟨b, found, overlaps⟩ := (mem_overlapping valid).mp mem
    rw [found] at unused
    exact ⟨i, b, found, overlaps, by simpa using unused⟩
  · rintro ⟨i, b, found, overlaps, unused⟩
    exact ⟨i, (mem_overlapping valid).mpr ⟨b, found, overlaps⟩, by simp [found, unused]⟩

/-- Where nothing is marked, no freed block is left on the range. -/
theorem handOut_clears (valid : h.Valid) (pruned : h.Pruned) {e : Extent}
    (none : (h.handOut e).1 = false) {i : Nat} {b : Block}
    (found : (h.handOut e).2.2.freed[i]? = some b) : b.extent.overlaps e = false := by
  rw [handOut_freed valid pruned] at found
  obtain ⟨b₀, known, handed⟩ := Option.bind_eq_some_iff.mp found
  unfold Block.reissue at handed
  split at handed
  · rename_i overlaps
    obtain ⟨unused, _⟩ := Block.handedOut_eq_some.mp handed
    have marked := (handOut_marks valid pruned e).mpr ⟨i, b₀, known, overlaps, unused⟩
    cases none.symm.trans marked
  · rename_i apart
    obtain rfl := Option.some.inj handed
    simpa using apart

/-! ### Keeping accesses -/

theorem getLast?_eq_some_iff_greatest {l : List Nat} (sorted : l.Pairwise (· ≤ ·)) {i : Nat} :
    l.getLast? = some i ↔ i ∈ l ∧ ∀ j ∈ l, j ≤ i := by
  have greatest {k : Nat} (last : l.getLast? = some k) : ∀ j ∈ l, j ≤ k := by
    obtain ⟨init, rfl⟩ := List.getLast?_eq_some_iff.mp last
    intro j mem
    rcases List.mem_append.mp mem with before | own
    · exact (List.pairwise_append.mp sorted).2.2 j before k List.mem_cons_self
    · exact Nat.le_of_eq (List.mem_singleton.mp own)
  constructor
  · exact fun last => ⟨List.mem_of_getLast? last, greatest last⟩
  · intro top
    obtain ⟨mem, top⟩ := top
    cases last : l.getLast? with
    | none =>
      rw [List.getLast?_eq_none_iff.mp last] at mem
      cases mem
    | some k =>
      exact congrArg some
        (Nat.le_antisymm (top k (List.mem_of_getLast? last)) (greatest last i mem))

/-- The block that the last access at `x` is kept on is the newest one there. -/
theorem last_overlapping (valid : h.Valid) {x : Word} {i : Nat} :
    (h.overlapping (Extent.ofByte x)).getLast? = some i ↔
      (∃ b, h.freed[i]? = some b ∧ b.extent.overlaps (Extent.ofByte x) = true) ∧
      ∀ (j : Nat) (b : Block), h.freed[j]? = some b →
        b.extent.overlaps (Extent.ofByte x) = true → j ≤ i := by
  rw [getLast?_eq_some_iff_greatest (h.overlapping_sorted _)]
  simp only [mem_overlapping valid, forall_exists_index, and_imp]

/-- An access is kept on the same block in both heaps, or on one that only `g` has. -/
theorem keep_ends (valid : h.Valid) (valid' : g.Valid) (ends : h.freed.Ends g.freed) (x : Word)
    (a : Access) : (h.keep x a).freed.Ends (g.keep x a).freed := by
  intro i j there le
  have there : i ∈ h.freed := by
    obtain ⟨b', found⟩ := Table.mem_iff_exists.mp there
    obtain ⟨b, found, _⟩ := (Thinned.keep h x a).kept i b' found
    exact Table.mem_iff_exists.mpr ⟨b, found⟩
  have same := ends i j there le
  have target : (g.overlapping (Extent.ofByte x)).getLast? = some j ↔
      (h.overlapping (Extent.ofByte x)).getLast? = some j := by
    rw [last_overlapping valid, last_overlapping valid', same]
    refine and_congr_right fun _ => ⟨fun top k b found => ?_, fun top k b found => ?_⟩
    · exact top k b (ends.found found)
    · intro covers
      by_contra above
      have found : h.freed[k]? = some b := (ends i k there (by omega)).symm.trans found
      exact above (top k b found covers)
  rw [keep_freed, keep_freed, same]
  exact if_congr target rfl rfl

/-- Where no block of `h` covers the address, `g` keeps the access on a block of its own. -/
theorem keep_ends_aside (valid : g.Valid) (ends : h.freed.Ends g.freed) {x : Word}
    (uncovered : ∀ (i : Nat) (b : Block), h.freed[i]? = some b →
      b.extent.overlaps (Extent.ofByte x) = false) (a : Access) :
    h.freed.Ends (g.keep x a).freed := by
  intro i j there le
  have same := ends i j there le
  rw [keep_freed, if_neg fun last => ?_, same]
  obtain ⟨⟨b, found, covers⟩, _⟩ := (last_overlapping valid).mp last
  cases covers.symm.trans (uncovered j b (same.symm.trans found))

theorem keepAll_ends (valid : h.Valid) (valid' : g.Valid) (ends : h.freed.Ends g.freed)
    (l : List (Word × Access)) : (l.foldl (fun h p => h.keep p.1 p.2) h).freed.Ends
      (l.foldl (fun h p => h.keep p.1 p.2) g).freed := by
  induction l generalizing h g with
  | nil => exact ends
  | cons p l ih =>
    exact ih ((Thinned.keep h p.1 p.2).valid valid) ((Thinned.keep g p.1 p.2).valid valid')
      (keep_ends valid valid' ends p.1 p.2)

theorem keepAll_ends_aside (valid : g.Valid) (ends : h.freed.Ends g.freed)
    (l : List (Word × Access)) (uncovered : ∀ p ∈ l, ∀ (i : Nat) (b : Block),
      h.freed[i]? = some b → b.extent.overlaps (Extent.ofByte p.1) = false) :
    h.freed.Ends (l.foldl (fun h p => h.keep p.1 p.2) g).freed := by
  induction l generalizing g with
  | nil => exact ends
  | cons p l ih =>
    exact ih ((Thinned.keep g p.1 p.2).valid valid)
      (keep_ends_aside valid ends (uncovered p List.mem_cons_self) p.2)
      fun q mem => uncovered q (List.mem_cons_of_mem p mem)

/-- The freed blocks after an allocation on `e`, with `l` on record there. -/
def reissued (h : Heap) (e : Extent) (l : List (Word × Access)) : Heap :=
  if (h.handOut e).1 then l.foldl (fun h p => h.keep p.1 p.2) (h.handOut e).2.2
  else (h.handOut e).2.2

/-- What `h` does not have left on the range is of no matter to it. -/
theorem reissued_ends (valid : h.Valid) (valid' : g.Valid) (pruned : h.Pruned) (pruned' : g.Pruned)
    (ends : h.freed.Ends g.freed) {e : Extent} {l : List (Word × Access)}
    (within : ∀ p ∈ l, e.spans p.1 = true) :
    (h.reissued e l).freed.Ends (g.reissued e l).freed := by
  have handed : (h.handOut e).2.2.freed.Ends (g.handOut e).2.2.freed :=
    ends.pointwise (fun _ b => b.bind (Block.reissue e)) (fun _ => rfl)
      (handOut_freed valid pruned e) (handOut_freed valid' pruned' e)
  have left := (Thinned.handOut h e).valid valid
  have left' := (Thinned.handOut g e).valid valid'
  unfold reissued
  cases marks : (h.handOut e).1 with
  | true =>
    obtain ⟨i, b, found, there⟩ := (handOut_marks valid pruned e).mp marks
    have marks' := (handOut_marks valid' pruned' e).mpr ⟨i, b, ends.found found, there⟩
    rw [marks']
    exact keepAll_ends left left' handed l
  | false =>
    cases (g.handOut e).1 with
    | true =>
      refine keepAll_ends_aside left' handed l fun p mem i b found => ?_
      have apart := handOut_clears valid pruned marks found
      by_contra covers
      have overlaps := Extent.overlaps_of_common (by simpa using covers) (within p mem)
      cases apart.symm.trans overlaps
    | false => exact handed

/-! ### Two heaps -/

/-- Nothing has happened but to freed blocks. -/
def Dug (h h' : Heap) : Prop := ∃ freed index, h' = { h with freed, index }

namespace Dug

theorem refl (h : Heap) : h.Dug h := ⟨h.freed, h.index, rfl⟩

theorem trans {h' h'' : Heap} (first : h.Dug h') (second : h'.Dug h'') : h.Dug h'' := by
  obtain ⟨_, _, rfl⟩ := first
  obtain ⟨freed, index, rfl⟩ := second
  exact ⟨freed, index, rfl⟩

theorem foldl {α β : Type} {f : α → β → α} (heap : α → Heap)
    (step : ∀ a b, (heap a).Dug (heap (f a b))) (a : α) (l : List β) :
    (heap a).Dug (heap (l.foldl f a)) := by
  induction l generalizing a with
  | nil => exact .refl _
  | cons b l ih => exact (step a b).trans (ih (f a b))

theorem drop (h : Heap) (seq : Nat) : h.Dug (h.drop seq).2 := by
  unfold Heap.drop
  split
  · exact .refl h
  · exact ⟨_, _, rfl⟩

theorem dropAll (h : Heap) (seqs : List Nat) : h.Dug (h.dropAll seqs).2 :=
  foldl (fun p : List Extent × Heap => p.2) (fun p seq => drop p.2 seq) ([], h) seqs

theorem handOutOne (h : Heap) (seq : Nat) : h.Dug (h.handOutOne seq).2.2 := by
  unfold Heap.handOutOne
  split
  · exact drop h seq
  · exact ⟨_, _, rfl⟩

theorem handOut (h : Heap) (e : Extent) : h.Dug (h.handOut e).2.2 :=
  foldl (fun p : Bool × List Extent × Heap => p.2.2) (fun p seq => handOutOne p.2.2 seq)
    (false, [], h) (h.overlapping e)

theorem keep (h : Heap) (x : Word) (a : Access) : h.Dug (h.keep x a) := by
  unfold Heap.keep
  split
  · exact ⟨_, _, rfl⟩
  · exact .refl h

theorem keepAll (h : Heap) (l : List (Word × Access)) :
    h.Dug (l.foldl (fun h p => h.keep p.1 p.2) h) := by
  induction l generalizing h with
  | nil => exact .refl h
  | cons p l ih => exact (keep h p.1 p.2).trans (ih _)

theorem reissued (h : Heap) (e : Extent) (l : List (Word × Access)) : h.Dug (h.reissued e l) := by
  unfold Heap.reissued
  split
  · exact (handOut h e).trans (keepAll _ l)
  · exact handOut h e

theorem dropOldest (h : Heap) (n : Nat) : h.Dug (h.dropOldest n).2 := by
  induction n generalizing h with
  | zero => exact .refl h
  | succ n ih =>
    unfold Heap.dropOldest
    split
    · exact .refl h
    · exact (drop h _).trans (ih _)

theorem evict (h : Heap) : h.Dug h.evict.2 := by
  unfold Heap.evict
  split
  · exact .refl h
  · exact dropOldest h _

end Dug

/-- Of two heaps that go the same way, `h` has the smaller limit on freed blocks, and those that it
has are the newest ones of `g`. -/
structure Newest (h g : Heap) : Prop where
  live : g.live = h.live
  nextSeq : g.nextSeq = h.nextSeq
  sinceSweep : g.sinceSweep = h.sinceSweep
  limited : h.maxFreed ≠ 0
  roomier : g.maxFreed = 0 ∨ h.maxFreed ≤ g.maxFreed
  freed : h.freed.Ends g.freed

namespace Newest

variable {h' g' : Heap}

theorem dug (newest : h.Newest g) (mine : h.Dug h') (other : g.Dug g')
    (freed : h'.freed.Ends g'.freed) : h'.Newest g' := by
  obtain ⟨_, _, rfl⟩ := mine
  obtain ⟨_, _, rfl⟩ := other
  exact ⟨newest.live, newest.nextSeq, newest.sinceSweep, newest.limited, newest.roomier, freed⟩

theorem reissued (newest : h.Newest g) (valid : h.Valid) (valid' : g.Valid) (pruned : h.Pruned)
    (pruned' : g.Pruned) {e : Extent} {l : List (Word × Access)}
    (within : ∀ p ∈ l, e.spans p.1 = true) : (h.reissued e l).Newest (g.reissued e l) :=
  newest.dug (.reissued h e l) (.reissued g e l)
    (reissued_ends valid valid' pruned pruned' newest.freed within)

theorem allocate (newest : h.Newest g) (b : Block) : (h.allocate b).2.Newest (g.allocate b).2 :=
  { newest with live := congrArg (·.insert b.extent.base b) newest.live }

theorem bury (newest : h.Newest g) (valid : h.Valid) (valid' : g.Valid) (b : Block)
    (epoch : Epoch) : (h.bury b epoch).Newest (g.bury b epoch) where
  live := congrArg (·.erase b.extent.base) newest.live
  nextSeq := congrArg (· + 1) newest.nextSeq
  sinceSweep := congrArg (· + 1) newest.sinceSweep
  limited := newest.limited
  roomier := newest.roomier
  freed := by
    have after {h : Heap} (valid : h.Valid) : ∀ i ∈ h.freed, i < h.nextSeq := fun i there => by
      obtain ⟨b, found⟩ := Table.mem_iff_exists.mp there
      exact valid.numbered i b found
    have after' := after valid'
    rw [newest.nextSeq] at after'
    show Table.Ends (h.freed.insert h.nextSeq _) (g.freed.insert g.nextSeq _)
    rw [newest.nextSeq]
    exact newest.freed.insert (after valid) after' _

theorem evict (newest : h.Newest g) : h.evict.2.Newest g.evict.2 := by
  refine newest.dug (.evict h) (.evict g) ?_
  refine newest.freed.limited (p := fun x => h.maxFreed = 0 ∨ x < h.maxFreed.toNat)
    (q := fun x => g.maxFreed = 0 ∨ x < g.maxFreed.toNat) h.evict_younger g.evict_younger ?_ ?_
  · exact fun x y le few => few.imp_right fun less => Nat.lt_of_le_of_lt le less
  · intro x few
    have less := few.resolve_left newest.limited
    refine newest.roomier.imp_right fun le => ?_
    exact Nat.lt_of_lt_of_le less (UInt64.le_iff_toNat_le.mp le)

theorem dropObserved (newest : h.Newest g) (floor : VectorClock) :
    (h.dropObserved floor).2.Newest (g.dropObserved floor).2 := by
  have reset : Newest { h with sinceSweep := 0 } { g with sinceSweep := 0 } :=
    { newest with sinceSweep := rfl }
  refine reset.dug (.dropAll _ _) (.dropAll _ _) ?_
  exact newest.freed.pointwise
    (fun _ b => b.filter fun b => !b.freedAt.any fun e => e.observedBy floor) (fun _ => rfl)
    (h.dropObserved_freed floor) (g.dropObserved_freed floor)

/-! ### Reporting -/

/-- A block of `g` that comes after one of `h` is as stale in `h`. -/
theorem stale (newest : h.Newest g) {tid : ThreadId} {addr : Word} {vc : VectorClock} {i j : Nat}
    {b : Block} (there : i ∈ h.freed) (le : i ≤ j) (stale : g.Stale tid addr vc j b) :
    h.Stale tid addr vc j b :=
  { stale with kept := (newest.freed i j there le).symm.trans stale.kept }

/-- The block that is due in `h` is due in `g`. -/
theorem due (newest : h.Newest g) {tid : ThreadId} {addr : Word} {vc : VectorClock} {i : Nat}
    {b : Block} (due : h.Due tid addr vc i b) : g.Due tid addr vc i b where
  toStale := { due.toStale with kept := newest.freed.found due.kept }
  newest j c other := by
    by_contra above
    have there : i ∈ h.freed := Table.mem_iff_exists.mpr ⟨b, due.kept⟩
    exact above (due.newest j c (newest.stale there (by omega) other))

theorem report (newest : h.Newest g) {i : Nat} {b : Block} (found : h.freed[i]? = some b)
    (tid : ThreadId) (addr : Word) :
    Newest { h with freed := h.freed.insert i (b.report tid addr) }
      { g with freed := g.freed.insert i (b.report tid addr) } := by
  have entered {t : Table Nat Block} (found : t[i]? = some b) (j : Nat) :
      (t.insert i (b.report tid addr))[j]? =
        if j = i then t[j]?.map fun b => b.report tid addr else t[j]? := by
    rw [Table.get_insert]
    split
    · rename_i own
      rw [own, found, Option.map_some]
    · rfl
  have ends : Table.Ends (h.freed.insert i (b.report tid addr))
      (g.freed.insert i (b.report tid addr)) :=
    newest.freed.pointwise (fun j o => if j = i then o.map fun b => b.report tid addr else o)
      (fun j => ite_self _) (entered found) (entered (newest.freed.found found))
  exact { newest with freed := ends }

/-- A report against a block that `h` has no more. -/
theorem report_aside (newest : h.Newest g) {i : Nat} (before : ∀ j ∈ h.freed, i < j) (b : Block) :
    h.Newest { g with freed := g.freed.insert i b } :=
  { newest with freed := newest.freed.insert_before before b }

end Newest

end Heap

end RaceMonitor
