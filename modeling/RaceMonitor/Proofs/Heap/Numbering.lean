import RaceMonitor.Proofs.Heap.Freed

/-! Where the numbers of freed blocks start.

Freed blocks are numbered on from one session to the next, so two heaps may hold the same blocks
under numbers a constant apart (`Heap.Renumbered`). Nothing that is asked of a heap tells them
apart, and everything that is done to both keeps them so: numbers only say which block was freed
first, and the order of the index, by address and then by number, is the same for both. -/
namespace RaceMonitor.Heap

/-- The same blocks, the freed ones with numbers `k` higher. -/
structure Renumbered (k : Nat) (h h' : Heap) : Prop where
  live : h'.live = h.live
  freed : Table.Shifted k h.freed h'.freed
  index : PairSet.Shifted k h.index h'.index
  widest : h'.widest = h.widest
  nextSeq : h'.nextSeq = h.nextSeq + k
  sinceSweep : h'.sinceSweep = h.sinceSweep
  maxFreed : h'.maxFreed = h.maxFreed

/-- Both heaps come to the same, and remain the same but for the numbers. -/
def Alike {α : Type} (k : Nat) (res res' : α × Heap) : Prop :=
  res'.1 = res.1 ∧ res.2.Renumbered k res'.2

theorem Renumbered.empty (maxFreed : Word) (nextSeq k : Nat) :
    (empty maxFreed nextSeq).Renumbered k (empty maxFreed (nextSeq + k)) where
  live := rfl
  freed := fun i => by simp [Heap.empty]
  index := fun a i => by simp [Heap.empty]
  widest := rfl
  nextSeq := rfl
  sinceSweep := rfl
  maxFreed := rfl

namespace Renumbered

variable {k : Nat} {h h' : Heap}

/-! ### Looking up -/

theorem touching (same : h.Renumbered k h') (e : Extent) :
    h'.touching e = (h.touching e).map (· + k) := by
  have starts (p : Word × Nat) (a : Word) :
      (pairOrder (p.1, p.2 + k) (a, 0)).isGE = (pairOrder p (a, 0)).isGE :=
    Bool.eq_iff_iff.mpr (pairOrder_isGE.trans pairOrder_isGE.symm)
  have ends (p : Word × Nat) (a : Word) :
      (pairOrder (p.1, p.2 + k) (a, 0)).isLT = (pairOrder p (a, 0)).isLT :=
    Bool.eq_iff_iff.mpr (pairOrder_isLT.trans pairOrder_isLT.symm)
  simp only [touching_eq, same.index.toList, same.widest, List.filter_map, List.map_map,
    Function.comp_def, starts, ends, same.freed.get]

theorem overlapping (same : h.Renumbered k h') (e : Extent) :
    h'.overlapping e = (h.overlapping e).map (· + k) := by
  rw [Heap.overlapping, same.touching, Heap.overlapping]
  refine (List.map_mergeSort fun a _ b _ => ?_).symm
  simp only [Nat.add_le_add_iff_right]

theorem touchesPage (same : h.Renumbered k h') (page : Word) :
    h'.touchesPage page = h.touchesPage page := by
  rw [Heap.touchesPage, same.touching, List.isEmpty_map, Heap.touchesPage]

theorem blockAt (same : h.Renumbered k h') (addr : Word) : h'.blockAt addr = h.blockAt addr := by
  rw [Heap.blockAt, same.live, Heap.blockAt]

theorem observed (same : h.Renumbered k h') (floor : VectorClock) :
    h'.observed floor = (h.observed floor).map (· + k) := by
  simp only [Heap.observed, Std.ExtTreeMap.foldr_eq_foldr_toList, same.freed.toList,
    List.foldr_map]
  induction h.freed.toList with
  | nil => rfl
  | cons p l ih =>
    rw [List.foldr_cons, List.foldr_cons, ih]
    split <;> rfl

theorem unreported (same : h.Renumbered k h') (tid : ThreadId) (addr : Word) (vc : VectorClock) :
    h'.unreported tid addr vc = (h.unreported tid addr vc).map (· + k) := by
  simp only [Heap.unreported, same.overlapping, ← List.map_reverse, List.find?_map,
    Function.comp_def, same.freed.get]

/-! ### What is done to freed blocks -/

theorem drop (same : h.Renumbered k h') (seq : Nat) :
    Alike k (h.drop seq) (h'.drop (seq + k)) := by
  unfold Heap.drop
  rw [same.freed.get]
  cases h.freed[seq]? with
  | none => exact ⟨rfl, same⟩
  | some b => exact ⟨rfl, { same with
      freed := same.freed.erase seq, index := same.index.erase b.extent.base seq }⟩

theorem dropAll (same : h.Renumbered k h') (seqs : List Nat) :
    Alike k (h.dropAll seqs) (h'.dropAll (seqs.map (· + k))) := by
  unfold Heap.dropAll
  generalize ([] : List Extent) = gone
  induction seqs generalizing gone h h' with
  | nil => exact ⟨rfl, same⟩
  | cons seq seqs ih =>
    obtain ⟨out, dropped⟩ := same.drop seq
    simp only [List.map_cons, List.foldl_cons, out]
    exact ih dropped _

theorem modifyFreed (same : h.Renumbered k h') (seq : Nat) (f : Block → Block) :
    (h.modifyFreed seq f).Renumbered k (h'.modifyFreed (seq + k) f) :=
  { same with freed := same.freed.modify seq f }

theorem handOutOne (same : h.Renumbered k h') (seq : Nat) :
    (h'.handOutOne (seq + k)).1 = (h.handOutOne seq).1 ∧
      Alike k (h.handOutOne seq).2 (h'.handOutOne (seq + k)).2 := by
  unfold Heap.handOutOne
  rw [same.freed.get, same.freed.contains]
  split
  · exact ⟨rfl, same.drop seq⟩
  · exact ⟨rfl, rfl, same.modifyFreed seq _⟩

theorem handOut (same : h.Renumbered k h') (e : Extent) :
    (h'.handOut e).1 = (h.handOut e).1 ∧ Alike k (h.handOut e).2 (h'.handOut e).2 := by
  unfold Heap.handOut
  rw [same.overlapping]
  generalize h.overlapping e = seqs, false = any, ([] : List Extent) = gone
  induction seqs generalizing any gone h h' with
  | nil => exact ⟨rfl, rfl, same⟩
  | cons seq seqs ih =>
    obtain ⟨marked, out, one⟩ := same.handOutOne seq
    simp only [List.map_cons, List.foldl_cons, marked, out]
    exact ih one _ _

theorem keep (same : h.Renumbered k h') (addr : Word) (access : Access) :
    (h.keep addr access).Renumbered k (h'.keep addr access) := by
  unfold Heap.keep
  rw [same.overlapping, List.getLast?_map]
  cases (h.overlapping (Extent.ofByte addr)).getLast? with
  | none => exact same
  | some seq => exact same.modifyFreed seq _

theorem keepAll (same : h.Renumbered k h') (kept : List (Word × Access)) :
    (kept.foldl (fun h p => h.keep p.1 p.2) h).Renumbered k
      (kept.foldl (fun h p => h.keep p.1 p.2) h') := by
  induction kept generalizing h h' with
  | nil => exact same
  | cons p kept ih => exact ih (same.keep p.1 p.2)

theorem dropOldest (same : h.Renumbered k h') (n : Nat) :
    Alike k (h.dropOldest n) (h'.dropOldest n) := by
  induction n generalizing h h' with
  | zero => exact ⟨rfl, same⟩
  | succ n ih =>
    unfold Heap.dropOldest
    rw [same.freed.minKey?]
    cases h.freed.minKey? with
    | none => exact ⟨rfl, same⟩
    | some seq =>
      obtain ⟨out, dropped⟩ := same.drop seq
      obtain ⟨outs, oldest⟩ := ih dropped
      simp only [Option.map_some, out, outs]
      exact ⟨rfl, oldest⟩

theorem evict (same : h.Renumbered k h') : Alike k h.evict h'.evict := by
  unfold Heap.evict
  rw [same.maxFreed, same.freed.size]
  split
  · exact ⟨rfl, same⟩
  · exact same.dropOldest _

theorem dropObserved (same : h.Renumbered k h') (floor : VectorClock) :
    Alike k (h.dropObserved floor) (h'.dropObserved floor) := by
  unfold Heap.dropObserved
  rw [same.observed]
  have swept : Renumbered k { h with sinceSweep := 0 } { h' with sinceSweep := 0 } :=
    { same with sinceSweep := rfl }
  exact swept.dropAll _

/-! ### What is done to the heap -/

theorem allocate (same : h.Renumbered k h') (b : Block) :
    Alike k (h.allocate b) (h'.allocate b) := by
  unfold Heap.allocate
  rw [same.live]
  exact ⟨rfl, { same with live := rfl }⟩

theorem bury (same : h.Renumbered k h') (b : Block) (epoch : Epoch) :
    (h.bury b epoch).Renumbered k (h'.bury b epoch) where
  live := by simp only [Heap.bury, same.live]
  freed := by
    simp only [Heap.bury, same.nextSeq]
    exact same.freed.insert _ _
  index := by
    simp only [Heap.bury, same.nextSeq]
    exact same.index.insert _ _
  widest := by simp only [Heap.bury, same.widest]
  nextSeq := by simp only [Heap.bury, same.nextSeq, Nat.add_right_comm]
  sinceSweep := by simp only [Heap.bury, same.sinceSweep]
  maxFreed := same.maxFreed

/-- A free fails on both, or on neither. -/
theorem free (same : h.Renumbered k h') (base : Word) (epoch : Epoch) :
    (∃ fault, h.free base epoch = .error fault ∧ h'.free base epoch = .error fault) ∨
    ∃ freed g g', h.free base epoch = .ok (freed, g) ∧ h'.free base epoch = .ok (freed, g') ∧
      g.Renumbered k g' := by
  unfold Heap.free
  rw [same.live]
  cases h.live[base]? with
  | none =>
    simp only [same.freed.any fun b => b.extent.base == base && !b.reused]
    split
    · exact .inl ⟨_, rfl, rfl⟩
    · exact .inl ⟨_, rfl, rfl⟩
  | some b =>
    have evicted := (same.bury b epoch).evict
    dsimp only
    generalize (h.bury b epoch).evict = res, (h'.bury b epoch).evict = res' at evicted
    obtain ⟨gone, g⟩ := res
    obtain ⟨_, g'⟩ := res'
    obtain ⟨rfl, evicted⟩ := evicted
    exact .inr ⟨_, g, g', rfl, by rw [← evicted.sinceSweep], evicted⟩

/-- A use after free is reported on both, or on neither. -/
theorem reportUse (same : h.Renumbered k h') (tid : ThreadId) (addr : Word) (vc : VectorClock)
    (history : Option History) :
    (h.reportUse tid addr vc history = none ∧ h'.reportUse tid addr vc history = none) ∨
    ∃ hit g g', h.reportUse tid addr vc history = some (hit, g) ∧
      h'.reportUse tid addr vc history = some (hit, g') ∧ g.Renumbered k g' := by
  unfold Heap.reportUse
  rw [same.unreported]
  cases h.unreported tid addr vc with
  | none => exact .inl ⟨rfl, rfl⟩
  | some seq =>
    simp only [Option.map_some, Option.bind_some, same.freed.get]
    cases h.freed[seq]? with
    | none => exact .inl ⟨rfl, rfl⟩
    | some b =>
      exact .inr ⟨_, _, _, rfl, rfl, { same with freed := same.freed.insert seq _ }⟩

theorem clear (same : h.Renumbered k h') : h.clear.Renumbered k h'.clear := by
  unfold Heap.clear
  rw [same.maxFreed, same.nextSeq]
  exact .empty _ _ _

theorem setMaxFreed (same : h.Renumbered k h') (maxFreed : Word) :
    (h.setMaxFreed maxFreed).Renumbered k (h'.setMaxFreed maxFreed) :=
  { same with maxFreed := rfl }

end Renumbered

end RaceMonitor.Heap
