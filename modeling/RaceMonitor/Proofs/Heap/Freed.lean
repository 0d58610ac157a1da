import RaceMonitor.Heap.Basic
import RaceMonitor.Proofs.Table

/-! What the monitor knows of freed blocks.

A look-up by address finds all freed blocks there, as the index holds every one and the scan
starts far enough below (`Heap.mem_touching`). Of those that an access is a use after free of, the
one freed last is reported (`Heap.reportUse_cases`).

Only a free adds a freed block, and only a report is entered into one. All else that happens to
freed blocks leaves fewer, which are what they were but for what becomes of their range
(`Heap.Thinned`). -/
namespace RaceMonitor

/-- The same freed block, whose range may have been handed out again in between. -/
def Block.Alike (b b' : Block) : Prop := ∃ reused kept, b' = { b with reused, kept }

theorem Block.Alike.refl (b : Block) : b.Alike b := ⟨b.reused, b.kept, rfl⟩

theorem Block.Alike.trans {b b' b'' : Block} (h : b.Alike b') (h' : b'.Alike b'') :
    b.Alike b'' := by
  obtain ⟨_, _, rfl⟩ := h
  obtain ⟨reused, kept, rfl⟩ := h'
  exact ⟨reused, kept, rfl⟩

/-- The report of a use of the freed block by `tid` at `addr`. -/
def Block.useBy (b : Block) (tid : ThreadId) (addr : Word) (history : Option History) :
    UseAfterFree :=
  ⟨(b.prior tid addr history).1, (b.prior tid addr history).2, b.extent⟩

@[simp] theorem Block.isReported_report {b : Block} {tid tid' : ThreadId} {a a' : Word} :
    (b.report tid a).isReported tid' a' = true ↔
      (tid', a') = (tid, a) ∨ b.isReported tid' a' = true := by
  simp only [isReported, report, Std.ExtTreeSet.contains_iff_mem, PairSet.mem_insert_iff]

namespace Heap

/-- Numbers, index and scan fit the freed blocks, and nothing has been reported against a live
block. -/
structure Valid (h : Heap) : Prop where
  numbered : ∀ (seq : Nat) (b : Block), h.freed[seq]? = some b → seq < h.nextSeq
  indexed : ∀ (seq : Nat) (b : Block), h.freed[seq]? = some b → (b.extent.base, seq) ∈ h.index
  widest : ∀ (seq : Nat) (b : Block), h.freed[seq]? = some b → b.extent.size ≤ h.widest
  clean : ∀ (base : Word) (b : Block), h.live[base]? = some b → b.reported = ∅

theorem Valid.empty (maxFreed : Word) (nextSeq : Nat) : (Heap.empty maxFreed nextSeq).Valid := by
  constructor <;> simp [Heap.empty]

/-! ### Looking up -/

theorem pairOrder_isGE {a b : Word} {i : Nat} : (pairOrder (a, i) (b, 0)).isGE = true ↔ b ≤ a := by
  have hi : compare i 0 ≠ .lt := by simp [Nat.compare_eq_lt]
  show ((compare a b).then (compare i 0)).isGE = true ↔ b ≤ a
  cases h : compare a b with
  | lt => simpa using Std.compare_eq_lt.mp h
  | eq =>
    obtain rfl : a = b := Std.LawfulEqOrd.eq_of_compare h
    cases h : compare i 0 <;> simp_all
  | gt => simpa using UInt64.le_of_lt (Std.compare_eq_gt.mp h)

theorem pairOrder_isLT {a b : Word} {i : Nat} : (pairOrder (a, i) (b, 0)).isLT = true ↔ a < b := by
  have hi : compare i 0 ≠ .lt := by simp [Nat.compare_eq_lt]
  show ((compare a b).then (compare i 0)).isLT = true ↔ a < b
  cases h : compare a b with
  | lt => simpa using Std.compare_eq_lt.mp h
  | eq =>
    obtain rfl : a = b := Std.LawfulEqOrd.eq_of_compare h
    cases h : compare i 0 <;> simp_all
  | gt => simpa using UInt64.le_of_lt (Std.compare_eq_gt.mp h)

/-- The look-up of freed blocks by address, as a filter of the index. -/
theorem touching_eq (h : Heap) (e : Extent) : h.touching e =
    ((h.index.toList.filter fun p =>
        (pairOrder p (Word.subSat e.base (Word.subSat h.widest 1), 0)).isGE &&
          (pairOrder p (e.limit, 0)).isLT).map Prod.snd).filter fun seq =>
      h.freed[seq]?.any fun b => b.extent.overlaps e := by
  rw [touching, PairSet.between_eq_filter]

/-- The same in the order of the frees, sorted by insertion. -/
theorem overlapping_eq (h : Heap) (e : Extent) :
    h.overlapping e = (h.touching e).insertionSort (· ≤ ·) :=
  List.mergeSort_eq_insertionSort (· ≤ ·) _

/-- A block starts less than its size below what it overlaps. -/
theorem le_base_of_overlaps {b e : Extent} {widest : Word} (size : b.size ≤ widest)
    (h : b.overlaps e = true) : Word.subSat e.base (Word.subSat widest 1) ≤ b.base := by
  simp only [Extent.overlaps, Extent.limit, Bool.and_eq_true, decide_eq_true_eq,
    UInt64.lt_iff_toNat_lt, UInt64.le_iff_toNat_le, Word.toNat_addSat, Word.toNat_subSat] at *
  have : (1 : Word).toNat = 1 := rfl
  omega

/-- The scan finds the freed blocks that overlap, and no others. -/
theorem mem_touching {h : Heap} (valid : h.Valid) {e : Extent} {seq : Nat} :
    seq ∈ h.touching e ↔ ∃ b, h.freed[seq]? = some b ∧ b.extent.overlaps e = true := by
  simp only [touching, List.mem_filter, List.mem_map, PairSet.mem_between, Prod.exists,
    exists_eq_right, pairOrder_isGE, pairOrder_isLT]
  rw [Option.any_eq_true]
  refine ⟨fun ⟨_, found⟩ => found, fun ⟨b, kept, overlaps⟩ => ?_⟩
  refine ⟨⟨b.extent.base, ?_⟩, b, kept, overlaps⟩
  refine ⟨valid.indexed seq b kept, le_base_of_overlaps (valid.widest seq b kept) overlaps, ?_⟩
  simp only [Extent.overlaps, Bool.and_eq_true, decide_eq_true_eq] at overlaps
  exact overlaps.2

theorem mem_overlapping {h : Heap} (valid : h.Valid) {e : Extent} {seq : Nat} :
    seq ∈ h.overlapping e ↔ ∃ b, h.freed[seq]? = some b ∧ b.extent.overlaps e = true := by
  rw [overlapping, (List.mergeSort_perm _ _).mem_iff, mem_touching valid]

theorem overlapping_sorted (h : Heap) (e : Extent) : (h.overlapping e).Pairwise (· ≤ ·) := by
  have sorted : (h.overlapping e).Pairwise fun a b => decide (a ≤ b) = true :=
    List.pairwise_mergeSort (fun a b c => by simpa using Nat.le_trans)
      (fun a b => by simpa using Nat.le_total a b) (h.touching e)
  simpa using sorted

/-- A range without freed blocks is handed out as it is. -/
theorem handOut_of_untouched {h : Heap} (valid : h.Valid) {e : Extent}
    (untouched : ∀ (seq : Nat) (b : Block), h.freed[seq]? = some b →
      b.extent.overlaps e = false) : h.handOut e = (false, [], h) := by
  have none : h.overlapping e = [] := List.eq_nil_iff_forall_not_mem.mpr fun seq mem => by
    obtain ⟨b, kept, overlaps⟩ := (mem_overlapping valid).mp mem
    simp [untouched seq b kept] at overlaps
  rw [handOut, none]
  rfl

theorem touchesPage_iff {h : Heap} (valid : h.Valid) {page : Word} : h.touchesPage page = true ↔
    ∃ (seq : Nat) (b : Block), h.freed[seq]? = some b ∧
      b.extent.overlaps (Extent.ofPage page) = true := by
  simp only [touchesPage, Bool.not_eq_true', List.isEmpty_eq_false_iff_exists_mem,
    mem_touching valid]

/-! ### The block to report -/

/-- An access by `tid` at `addr` is a use after free of the block with that number, which has
not been reported for it. -/
structure Stale (h : Heap) (tid : ThreadId) (addr : Word) (vc : VectorClock) (seq : Nat)
    (b : Block) : Prop where
  kept : h.freed[seq]? = some b
  covers : b.extent.overlaps (Extent.ofByte addr) = true
  unseen : b.unseenBy tid vc = true
  unreported : b.isReported tid addr = false

/-- The scan for a use after free meets just these. -/
theorem exists_stale_iff {h : Heap} (valid : h.Valid) {tid : ThreadId} {addr : Word}
    {vc : VectorClock} {seq : Nat} : (∃ b, h.Stale tid addr vc seq b) ↔
      seq ∈ h.overlapping (Extent.ofByte addr) ∧
        (h.freed[seq]?.any fun b => b.unseenBy tid vc && !b.isReported tid addr) = true := by
  rw [mem_overlapping valid]
  constructor
  · rintro ⟨b, kept, covers, unseen, unreported⟩
    exact ⟨⟨b, kept, covers⟩, by simp [kept, unseen, unreported]⟩
  · rintro ⟨⟨b, kept, covers⟩, hit⟩
    simp only [kept, Option.any_some, Bool.and_eq_true, Bool.not_eq_true'] at hit
    exact ⟨b, kept, covers, hit.1, hit.2⟩

/-- Of the blocks that an access is a use after free of, the one freed last. -/
structure Due (h : Heap) (tid : ThreadId) (addr : Word) (vc : VectorClock) (seq : Nat)
    (b : Block) : Prop extends h.Stale tid addr vc seq b where
  newest : ∀ seq' b', h.Stale tid addr vc seq' b' → seq' ≤ seq

theorem Due.unique {h : Heap} {tid : ThreadId} {addr : Word} {vc : VectorClock} {seq seq' : Nat}
    {b b' : Block} (first : h.Due tid addr vc seq b) (second : h.Due tid addr vc seq' b') :
    seq = seq' :=
  Nat.le_antisymm (second.newest seq b first.toStale) (first.newest seq' b' second.toStale)

/-- Where the same numbers are stale, the same one is due. -/
theorem due_congr {h h' : Heap} {tid : ThreadId} {addr : Word} {vc : VectorClock}
    (same : ∀ seq, (∃ b, h.Stale tid addr vc seq b) ↔ ∃ b, h'.Stale tid addr vc seq b) (seq : Nat) :
    (∃ b, h.Due tid addr vc seq b) ↔ ∃ b, h'.Due tid addr vc seq b := by
  constructor
  · rintro ⟨b, due⟩
    obtain ⟨b', stale⟩ := (same seq).mp ⟨b, due.toStale⟩
    refine ⟨b', stale, fun seq' c' other => ?_⟩
    obtain ⟨c, other⟩ := (same seq').mpr ⟨c', other⟩
    exact due.newest seq' c other
  · rintro ⟨b', due⟩
    obtain ⟨b, stale⟩ := (same seq).mpr ⟨b', due.toStale⟩
    refine ⟨b, stale, fun seq' c other => ?_⟩
    obtain ⟨c', other⟩ := (same seq').mp ⟨c, other⟩
    exact due.newest seq' c' other

/-- From the end of a list in order, the first hit is the greatest. -/
theorem find?_reverse_eq_some {l : List Nat} (sorted : l.Pairwise (· ≤ ·)) {p : Nat → Bool}
    {x : Nat} (h : l.reverse.find? p = some x) :
    x ∈ l ∧ p x = true ∧ ∀ y ∈ l, p y = true → y ≤ x := by
  obtain ⟨hit, as, bs, split, none⟩ := List.find?_eq_some_iff_append.mp h
  have descending := List.pairwise_reverse.mpr sorted
  have mem : ∀ {y}, y ∈ l ↔ y ∈ as ∨ y = x ∨ y ∈ bs := fun {y} => by
    rw [← List.mem_reverse, split, List.mem_append, List.mem_cons]
  rw [split, List.pairwise_append, List.pairwise_cons] at descending
  refine ⟨mem.mpr (.inr (.inl rfl)), hit, fun y hy hit' => ?_⟩
  rcases mem.mp hy with before | rfl | after
  · exact absurd hit' (by simpa using none y before)
  · exact Nat.le_refl y
  · exact descending.2.1.1 y after

/-- A use after free is reported against one block and recorded in it, unless there is none. -/
theorem reportUse_cases {h : Heap} (valid : h.Valid) (tid : ThreadId) (addr : Word)
    (vc : VectorClock) (history : Option History) :
    (h.reportUse tid addr vc history = none ∧ ∀ seq b, ¬ h.Stale tid addr vc seq b) ∨
    ∃ hit seq b, h.reportUse tid addr vc history =
        some (hit, { h with freed := h.freed.insert seq (b.report tid addr) }) ∧
      hit = b.useBy tid addr history ∧ h.Due tid addr vc seq b := by
  unfold reportUse
  cases found : h.unreported tid addr vc with
  | none =>
    refine .inl ⟨rfl, fun seq b stale => ?_⟩
    obtain ⟨mem, hits⟩ := (exists_stale_iff valid).mp ⟨b, stale⟩
    exact List.find?_eq_none.mp found seq (List.mem_reverse.mpr mem) hits
  | some seq =>
    obtain ⟨mem, hits, greatest⟩ := find?_reverse_eq_some (h.overlapping_sorted _) found
    obtain ⟨b, stale⟩ := (exists_stale_iff valid).mpr ⟨mem, hits⟩
    refine .inr ⟨b.useBy tid addr history, seq, b, ?_, rfl, stale, fun seq' b' stale' => ?_⟩
    · simp only [Option.bind_some, stale.kept, Option.map_some]
      rfl
    · obtain ⟨mem', hits'⟩ := (exists_stale_iff valid).mp ⟨b', stale'⟩
      exact greatest seq' mem' hits'

/-! ### What happens to freed blocks -/

/-- Some freed blocks have gone; those that stay are the same. -/
structure Thinned (h h' : Heap) : Prop where
  nextSeq : h'.nextSeq = h.nextSeq
  maxFreed : h'.maxFreed = h.maxFreed
  kept : ∀ (seq : Nat) (b' : Block), h'.freed[seq]? = some b' →
    ∃ b : Block, h.freed[seq]? = some b ∧ b.Alike b'
  valid : h.Valid → h'.Valid

namespace Thinned

theorem refl (h : Heap) : h.Thinned h := ⟨rfl, rfl, fun _ b kept => ⟨b, kept, .refl b⟩, id⟩

theorem trans {h h' h'' : Heap} (first : h.Thinned h') (second : h'.Thinned h'') :
    h.Thinned h'' where
  nextSeq := second.nextSeq.trans first.nextSeq
  maxFreed := second.maxFreed.trans first.maxFreed
  kept seq b'' kept := by
    obtain ⟨b', kept', alike'⟩ := second.kept seq b'' kept
    obtain ⟨b, kept, alike⟩ := first.kept seq b' kept'
    exact ⟨b, kept, alike.trans alike'⟩
  valid := second.valid ∘ first.valid

theorem foldl {α β : Type} {f : α → β → α} (heap : α → Heap)
    (step : ∀ a b, (heap a).Thinned (heap (f a b))) (a : α) (l : List β) :
    (heap a).Thinned (heap (l.foldl f a)) := by
  induction l generalizing a with
  | nil => exact .refl _
  | cons b l ih => exact (step a b).trans (ih (f a b))

theorem drop (h : Heap) (seq : Nat) : h.Thinned (h.drop seq).2 := by
  unfold Heap.drop
  split
  · exact .refl h
  · rename_i b found
    have kept : ∀ {seq' : Nat} {b' : Block}, (h.freed.erase seq)[seq']? = some b' →
        seq' ≠ seq ∧ h.freed[seq']? = some b' := fun {seq' b'} kept => by
      rw [Table.get_erase] at kept
      split at kept
      · cases kept
      · exact ⟨‹_›, kept⟩
    refine ⟨rfl, rfl, fun seq' b' h' => ⟨b', (kept h').2, .refl b'⟩, fun valid => ?_⟩
    refine ⟨?_, ?_, ?_, valid.clean⟩
    · exact fun seq' b' h' => valid.numbered seq' b' (kept h').2
    · refine fun seq' b' h' => PairSet.mem_erase_iff.mpr ⟨?_, valid.indexed seq' b' (kept h').2⟩
      exact fun same => (kept h').1 (congrArg Prod.snd same)
    · exact fun seq' b' h' => valid.widest seq' b' (kept h').2

theorem modifyFreed (h : Heap) (seq : Nat) {f : Block → Block}
    (alike : ∀ b : Block, b.Alike (f b)) : h.Thinned (h.modifyFreed seq f) := by
  have kept : ∀ (seq' : Nat) (b' : Block), (h.freed.modify seq f)[seq']? = some b' →
      ∃ b : Block, h.freed[seq']? = some b ∧ b.Alike b' := fun seq' b' kept => by
    rw [Table.get_modify] at kept
    split at kept
    · rename_i same
      obtain ⟨b, found, rfl⟩ := Option.map_eq_some_iff.mp kept
      exact ⟨b, same ▸ found, alike b⟩
    · exact ⟨b', kept, .refl b'⟩
  refine ⟨rfl, rfl, kept, fun valid =>
    ⟨fun seq' b' h' => ?_, fun seq' b' h' => ?_, fun seq' b' h' => ?_, valid.clean⟩⟩
  all_goals obtain ⟨b, found, _, _, rfl⟩ := kept seq' b' h'
  · exact valid.numbered seq' b found
  · exact valid.indexed seq' b found
  · exact valid.widest seq' b found

theorem dropAll (h : Heap) (seqs : List Nat) : h.Thinned (h.dropAll seqs).2 :=
  foldl (fun p : List Extent × Heap => p.2) (fun p seq => drop p.2 seq) ([], h) seqs

theorem handOutOne (h : Heap) (seq : Nat) : h.Thinned (h.handOutOne seq).2.2 := by
  unfold Heap.handOutOne
  split
  · exact drop h seq
  · exact modifyFreed h seq fun b => ⟨true, b.kept, rfl⟩

theorem handOut (h : Heap) (e : Extent) : h.Thinned (h.handOut e).2.2 :=
  foldl (fun p : Bool × List Extent × Heap => p.2.2) (fun p seq => handOutOne p.2.2 seq)
    (false, [], h) (h.overlapping e)

theorem keep (h : Heap) (addr : Word) (access : Access) : h.Thinned (h.keep addr access) := by
  unfold Heap.keep
  split
  · exact modifyFreed h _ fun b => ⟨b.reused, b.kept.insert addr access, rfl⟩
  · exact .refl h

theorem keepAll (h : Heap) (kept : List (Word × Access)) :
    h.Thinned (kept.foldl (fun h p => h.keep p.1 p.2) h) := by
  induction kept generalizing h with
  | nil => exact .refl h
  | cons p kept ih => exact (keep h p.1 p.2).trans (ih _)

theorem dropOldest (h : Heap) (n : Nat) : h.Thinned (h.dropOldest n).2 := by
  induction n generalizing h with
  | zero => exact .refl h
  | succ n ih =>
    unfold Heap.dropOldest
    split
    · exact .refl h
    · exact (drop h _).trans (ih _)

theorem evict (h : Heap) : h.Thinned h.evict.2 := by
  unfold Heap.evict
  split
  · exact .refl h
  · exact dropOldest h _

theorem dropObserved (h : Heap) (floor : VectorClock) : h.Thinned (h.dropObserved floor).2 := by
  have reset : h.Thinned { h with sinceSweep := 0 } :=
    ⟨rfl, rfl, fun _ b kept => ⟨b, kept, .refl b⟩,
      fun valid => ⟨valid.numbered, valid.indexed, valid.widest, valid.clean⟩⟩
  exact reset.trans (dropAll _ _)

theorem allocate (h : Heap) {b : Block} (clean : b.reported = ∅) :
    h.Thinned (h.allocate b).2 := by
  refine ⟨rfl, rfl, fun _ b kept => ⟨b, kept, .refl b⟩,
    fun valid => ⟨valid.numbered, valid.indexed, valid.widest, fun base b' live => ?_⟩⟩
  have live : (h.live.insert b.extent.base b)[base]? = some b' := live
  rw [Table.get_insert] at live
  split at live
  · exact Option.some.inj live ▸ clean
  · exact valid.clean base b' live

end Thinned

/-- A free adds the block, with a number of its own. -/
theorem bury_freed (h : Heap) (b : Block) (epoch : Epoch) (seq : Nat) :
    (h.bury b epoch).freed[seq]? =
      if seq = h.nextSeq then some { b with freedAt := some epoch } else h.freed[seq]? :=
  Table.get_insert ..

theorem Valid.bury {h : Heap} (valid : h.Valid) (b : Block) (epoch : Epoch) :
    (h.bury b epoch).Valid := by
  have widest : ∀ {x : Word}, x ≤ h.widest ∨ x ≤ b.extent.size →
      x ≤ max h.widest b.extent.size := by
    simp only [UInt64.le_iff_toNat_le, Word.toNat_max]
    omega
  constructor
  · intro seq b' kept
    rw [bury_freed] at kept
    show seq < h.nextSeq + 1
    split at kept
    · omega
    · exact Nat.lt_succ_of_lt (valid.numbered seq b' kept)
  · intro seq b' kept
    rw [bury_freed] at kept
    refine PairSet.mem_insert_iff.mpr ?_
    split at kept
    · rename_i same
      cases kept
      exact .inl (by rw [same])
    · exact .inr (valid.indexed seq b' kept)
  · intro seq b' kept
    rw [bury_freed] at kept
    split at kept
    · cases kept
      exact widest (.inr (UInt64.le_refl _))
    · exact widest (.inl (valid.widest seq b' kept))
  · intro base b' live
    have live : (h.live.erase b.extent.base)[base]? = some b' := live
    rw [Table.get_erase] at live
    split at live
    · cases live
    · exact valid.clean base b' live

/-- A report changes one freed block. -/
theorem Valid.report {h : Heap} (valid : h.Valid) {seq : Nat} {b : Block}
    (found : h.freed[seq]? = some b) (tid : ThreadId) (addr : Word) :
    Valid { h with freed := h.freed.insert seq (b.report tid addr) } := by
  have kept : ∀ {seq' : Nat} {b' : Block},
      (h.freed.insert seq (b.report tid addr))[seq']? = some b' →
        ∃ b, h.freed[seq']? = some b ∧ b'.extent = b.extent := fun {seq' b'} kept => by
    rw [Table.get_insert] at kept
    split at kept
    · rename_i same
      cases kept
      exact ⟨b, same ▸ found, rfl⟩
    · exact ⟨b', kept, rfl⟩
  refine ⟨fun seq' b' h' => ?_, fun seq' b' h' => ?_, fun seq' b' h' => ?_, valid.clean⟩
  all_goals obtain ⟨b, found, same⟩ := kept h'
  · exact valid.numbered seq' b found
  · exact same ▸ valid.indexed seq' b found
  · exact same ▸ valid.widest seq' b found

end Heap

end RaceMonitor
