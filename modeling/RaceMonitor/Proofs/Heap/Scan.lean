import RaceMonitor.Proofs.Heap.Exact

/-! The index of freed blocks.

A look-up by address scans a part of the index and sorts what it meets. Whatever a heap has been
asked to do before, the answer is the one of going through all freed blocks (`Heap.scan`), in the
order of their frees (`Heap.overlapping_exact`): every operation keeps one entry of the index for
every freed block, and none that is wider than the scan reaches back. -/
namespace RaceMonitor.Heap

/-- What a heap is asked to do. -/
inductive Operation where
  | allocate (owner : ThreadId) (pc : Word) (e : Extent)
  | handOut (e : Extent)
  | keep (addr : Word) (access : Access)
  | free (base : Word) (epoch : Epoch)
  | dropObserved (floor : VectorClock)
  | reportUse (tid : ThreadId) (addr : Word) (vc : VectorClock) (history : Option History)
  | clear
  | setMaxFreed (maxFreed : Word)

def operate (h : Heap) : Operation → Heap
  | .allocate owner pc e => (h.allocate (Block.new owner pc e)).2
  | .handOut e => (h.handOut e).2.2
  | .keep addr access => h.keep addr access
  | .free base epoch =>
    match h.free base epoch with
    | .ok (_, h) => h
    | .error _ => h
  | .dropObserved floor => (h.dropObserved floor).2
  | .reportUse tid addr vc history => ((h.reportUse tid addr vc history).map Prod.snd).getD h
  | .clear => h.clear
  | .setMaxFreed maxFreed => h.setMaxFreed maxFreed

/-- A new heap, after some operations. -/
def operated (maxFreed : Word) (ops : List Operation) : Heap := ops.foldl operate (empty maxFreed)

/-- The numbers of the freed blocks that overlap a range, by going through all of them. -/
def scan (h : Heap) (e : Extent) : List Nat :=
  (h.freed.toList.filter fun p => p.2.extent.overlaps e).map Prod.fst

/-- Operation `i` frees a live block, and the block gets the number `seq`. -/
structure Buries (maxFreed : Word) (ops : List Operation) (i seq : Nat) : Prop where
  op : ∃ base epoch b, ops[i]? = some (.free base epoch) ∧
    (operated maxFreed (ops.take i)).live[base]? = some b
  number : (operated maxFreed (ops.take i)).nextSeq = seq

/-- The block numbered `seq` was freed before the one numbered `seq'`. -/
def FreedBefore (maxFreed : Word) (ops : List Operation) (seq seq' : Nat) : Prop :=
  ∃ i j, i < j ∧ Buries maxFreed ops i seq ∧ Buries maxFreed ops j seq'

/-- Freed blocks, index and scan fit together. -/
structure Indexed (h : Heap) : Prop where
  valid : h.Valid
  pruned : h.Pruned

variable {h : Heap}

/-! ### The scan -/

theorem mem_scan {e : Extent} {seq : Nat} :
    seq ∈ h.scan e ↔ ∃ b, h.freed[seq]? = some b ∧ b.extent.overlaps e = true := by
  simp only [scan, List.mem_map, List.mem_filter, Prod.exists, exists_and_right, exists_eq_right,
    Std.ExtTreeMap.mem_toList_iff_getElem?_eq_some]

theorem scan_ordered (h : Heap) (e : Extent) : (h.scan e).Pairwise (· < ·) := by
  refine List.pairwise_map.mpr (List.Pairwise.filter _ ?_)
  exact (Std.ExtTreeMap.ordered_keys_toList (t := h.freed)).imp Nat.compare_eq_lt.mp

theorem Indexed.overlapping_ordered (indexed : h.Indexed) (e : Extent) :
    (h.overlapping e).Pairwise (· < ·) :=
  (h.overlapping_sorted e).imp₂ (fun _ _ le ne => Nat.lt_of_le_of_ne le ne)
    (indexed.pruned.overlapping_nodup e)

/-- What is met on the way through a part of the index is what there is. -/
theorem Indexed.overlapping_eq_scan (indexed : h.Indexed) (e : Extent) :
    h.overlapping e = h.scan e :=
  eq_of_ordered (fun _ _ => Nat.lt_asymm) (indexed.overlapping_ordered e) (h.scan_ordered e)
    fun _ => (mem_overlapping indexed.valid).trans mem_scan.symm

theorem Indexed.mem_index (indexed : h.Indexed) {base : Word} {seq : Nat} :
    (base, seq) ∈ h.index ↔ ∃ b, h.freed[seq]? = some b ∧ b.extent.base = base := by
  refine ⟨indexed.pruned base seq, fun there => ?_⟩
  obtain ⟨b, found, rfl⟩ := there
  exact indexed.valid.indexed seq b found

/-- The index has one entry for each freed block. -/
theorem Indexed.index_perm (indexed : h.Indexed) :
    h.index.toList.Perm (h.freed.toList.map fun p => (p.2.extent.base, p.1)) := by
  have less_ne {p q : Word × Nat} (less : pairOrder p q = .lt) : p ≠ q := fun same => by
    have equal : pairOrder q q = .eq := Std.ReflCmp.compare_self
    rw [same, equal] at less
    cases less
  have entries : h.index.toList.Nodup :=
    (Std.ExtTreeSet.ordered_toList (t := h.index)).imp less_ne
  have blocks : (h.freed.toList.map fun p => (p.2.extent.base, p.1)).Nodup := by
    refine List.pairwise_map.mpr ?_
    refine (Std.ExtTreeMap.ordered_keys_toList (t := h.freed)).imp fun less same => ?_
    exact Nat.ne_of_lt (Nat.compare_eq_lt.mp less) (congrArg Prod.snd same)
  refine (List.perm_ext_iff_of_nodup entries blocks).mpr fun ⟨base, seq⟩ => ?_
  simp only [Std.ExtTreeSet.mem_toList, indexed.mem_index, List.mem_map, Prod.exists,
    Prod.mk.injEq, Std.ExtTreeMap.mem_toList_iff_getElem?_eq_some]
  exact ⟨fun ⟨b, found, same⟩ => ⟨seq, b, found, same, rfl⟩,
    fun ⟨_, b, found, same, own⟩ => ⟨b, own ▸ found, same⟩⟩

/-! ### Operations -/

theorem operate_free (h : Heap) (base : Word) (epoch : Epoch) :
    (h.live[base]? = none ∧ h.operate (.free base epoch) = h) ∨
    ∃ b, h.live[base]? = some b ∧ h.operate (.free base epoch) = (h.bury b epoch).evict.2 := by
  simp only [operate, Heap.free]
  cases h.live[base]? with
  | none =>
    refine .inl ⟨rfl, ?_⟩
    dsimp only
    generalize h.freed.any _ = twice
    cases twice <;> rfl
  | some b => exact .inr ⟨b, rfl, rfl⟩

theorem operate_reportUse (valid : h.Valid) (tid : ThreadId) (addr : Word) (vc : VectorClock)
    (history : Option History) : h.operate (.reportUse tid addr vc history) = h ∨
    ∃ seq b, h.freed[seq]? = some b ∧ h.operate (.reportUse tid addr vc history) =
      { h with freed := h.freed.insert seq (b.report tid addr) } := by
  simp only [operate]
  rcases reportUse_cases valid tid addr vc history with ⟨none, _⟩ | ⟨hit, seq, b, found, _, due⟩
  · exact .inl (by rw [none]; rfl)
  · exact .inr ⟨seq, b, due.kept, by rw [found]; rfl⟩

namespace Indexed

theorem empty (maxFreed : Word) (nextSeq : Nat) : (Heap.empty maxFreed nextSeq).Indexed :=
  ⟨.empty maxFreed nextSeq, .empty maxFreed nextSeq⟩

theorem thinned {h' : Heap} (indexed : h.Indexed) (thinned : h.Thinned h')
    (pruned : h.Pruned → h'.Pruned) : h'.Indexed :=
  ⟨thinned.valid indexed.valid, pruned indexed.pruned⟩

theorem free (indexed : h.Indexed) (base : Word) (epoch : Epoch) :
    (h.operate (.free base epoch)).Indexed := by
  rcases h.operate_free base epoch with ⟨_, same⟩ | ⟨b, _, freed⟩
  · rwa [same]
  · have buried : (h.bury b epoch).Indexed :=
      ⟨indexed.valid.bury b epoch, indexed.pruned.bury indexed.valid b epoch⟩
    exact freed ▸ buried.thinned (.evict _) Pruned.evict

theorem reportUse (indexed : h.Indexed) (tid : ThreadId) (addr : Word) (vc : VectorClock)
    (history : Option History) : (h.operate (.reportUse tid addr vc history)).Indexed := by
  rcases operate_reportUse indexed.valid tid addr vc history with same | ⟨seq, b, found, entered⟩
  · rwa [same]
  · rw [entered]
    exact ⟨indexed.valid.report found tid addr, indexed.pruned.report found tid addr⟩

theorem operate (indexed : h.Indexed) (op : Operation) : (h.operate op).Indexed := by
  cases op with
  | allocate owner pc e => exact indexed.thinned (.allocate h rfl) id
  | handOut e => exact indexed.thinned (.handOut h e) fun pruned => pruned.handOut e
  | keep addr access => exact indexed.thinned (.keep h addr access) fun pruned => pruned.keep _ _
  | free base epoch => exact indexed.free base epoch
  | dropObserved floor =>
    exact indexed.thinned (.dropObserved h floor) fun pruned => pruned.dropObserved floor
  | reportUse tid addr vc history => exact indexed.reportUse tid addr vc history
  | clear => exact .empty _ _
  | setMaxFreed maxFreed =>
    exact ⟨⟨indexed.valid.numbered, indexed.valid.indexed, indexed.valid.widest,
      indexed.valid.clean⟩, indexed.pruned⟩

/-- Whatever a heap has been asked to do. -/
theorem operated (maxFreed : Word) (ops : List Operation) :
    (Heap.operated maxFreed ops).Indexed :=
  List.foldlRecOn (motive := Heap.Indexed) ops _ (.empty maxFreed 0)
    fun _ indexed op _ => indexed.operate op

end Indexed

/-! ### Numbers -/

/-- What an operation does to the numbering: a free of a live block gives out a number, and no
other block is freed. -/
inductive Counts (h : Heap) (op : Operation) : Heap → Prop where
  | other (h' : Heap) (nextSeq : h'.nextSeq = h.nextSeq)
    (freed : ∀ seq, seq ∈ h'.freed → seq ∈ h.freed) : Counts h op h'
  | buried (base : Word) (epoch : Epoch) (b : Block) (free : op = .free base epoch)
    (live : h.live[base]? = some b) (h' : Heap) (nextSeq : h'.nextSeq = h.nextSeq + 1)
    (freed : ∀ seq, seq ∈ h'.freed → seq = h.nextSeq ∨ seq ∈ h.freed) : Counts h op h'

theorem Thinned.mem {h' : Heap} (thinned : h.Thinned h') {seq : Nat} (there : seq ∈ h'.freed) :
    seq ∈ h.freed := by
  obtain ⟨b', found⟩ := Table.mem_iff_exists.mp there
  obtain ⟨b, found, _⟩ := thinned.kept seq b' found
  exact Table.mem_iff_exists.mpr ⟨b, found⟩

theorem Counts.thinned {h' : Heap} {op : Operation} (thinned : h.Thinned h') : h.Counts op h' :=
  .other h' thinned.nextSeq fun _ => thinned.mem

theorem operate_counts (valid : h.Valid) (op : Operation) : h.Counts op (h.operate op) := by
  cases op with
  | allocate owner pc e => exact .thinned (.allocate h rfl)
  | handOut e => exact .thinned (.handOut h e)
  | keep addr access => exact .thinned (.keep h addr access)
  | dropObserved floor => exact .thinned (.dropObserved h floor)
  | clear => exact .other _ rfl fun seq there => by simp [operate, Heap.clear, Heap.empty] at there
  | setMaxFreed maxFreed => exact .other _ rfl fun _ => id
  | free base epoch =>
    rcases h.operate_free base epoch with ⟨_, same⟩ | ⟨b, live, freed⟩
    · exact .other _ (congrArg nextSeq same) fun seq there => same ▸ there
    · have evicted := Thinned.evict (h.bury b epoch)
      rw [freed]
      exact .buried base epoch b rfl live _ evicted.nextSeq fun seq there =>
        Table.mem_insert_iff.mp (evicted.mem there)
  | reportUse tid addr vc history =>
    rcases operate_reportUse valid tid addr vc history with same | ⟨i, b, found, entered⟩
    · exact .other _ (congrArg nextSeq same) fun seq there => same ▸ there
    · rw [entered]
      refine .other _ rfl fun seq there => ?_
      rcases Table.mem_insert_iff.mp there with rfl | there
      · exact Table.mem_iff_exists.mpr ⟨b, found⟩
      · exact there

section Run

variable {maxFreed : Word} {ops : List Operation} {i j n seq seq' : Nat}

theorem operated_append (maxFreed : Word) (ops : List Operation) (op : Operation) :
    operated maxFreed (ops ++ [op]) = (operated maxFreed ops).operate op :=
  List.foldl_append

theorem operated_succ (maxFreed : Word) (ops : List Operation) (n : Nat) :
    operated maxFreed (ops.take (n + 1)) = operated maxFreed (ops.take n) ∨
    ∃ op, ops[n]? = some op ∧
      (operated maxFreed (ops.take n)).Counts op (operated maxFreed (ops.take (n + 1))) := by
  rw [List.take_add_one]
  cases found : ops[n]? with
  | none => exact .inl (by simp)
  | some op =>
    refine .inr ⟨op, rfl, ?_⟩
    rw [Option.toList_some, operated_append]
    exact operate_counts (Indexed.operated maxFreed (ops.take n)).valid op

theorem nextSeq_le_succ (maxFreed : Word) (ops : List Operation) (n : Nat) :
    (operated maxFreed (ops.take n)).nextSeq ≤ (operated maxFreed (ops.take (n + 1))).nextSeq := by
  rcases operated_succ maxFreed ops n with same | ⟨op, _, counts⟩
  · exact Nat.le_of_eq (congrArg nextSeq same.symm)
  · cases counts with
    | other _ nextSeq => exact Nat.le_of_eq nextSeq.symm
    | buried _ _ _ _ _ _ nextSeq => omega

theorem nextSeq_mono (maxFreed : Word) (ops : List Operation) (le : i ≤ j) :
    (operated maxFreed (ops.take i)).nextSeq ≤ (operated maxFreed (ops.take j)).nextSeq := by
  induction le with
  | refl => exact Nat.le_refl _
  | step _ ih => exact Nat.le_trans ih (nextSeq_le_succ maxFreed ops _)

/-- The number is given out. -/
theorem Buries.taken (buries : Buries maxFreed ops i seq) :
    (operated maxFreed (ops.take (i + 1))).nextSeq = seq + 1 := by
  obtain ⟨⟨base, epoch, b, op, live⟩, number⟩ := buries
  rw [List.take_add_one, op, Option.toList_some, operated_append]
  rcases operate_free _ base epoch with ⟨missing, _⟩ | ⟨b', _, freed⟩
  · cases live.symm.trans missing
  · rw [freed, ← number]
    exact (Thinned.evict _).nextSeq

/-- Greater numbers are given out later. -/
theorem Buries.lt_of_lt (first : Buries maxFreed ops i seq) (second : Buries maxFreed ops j seq')
    (lt : seq < seq') : i < j := by
  by_contra late
  have after := first.number
  rcases Nat.eq_or_lt_of_le (Nat.not_lt.mp late) with rfl | before
  · exact Nat.ne_of_lt lt (after.symm.trans second.number)
  · have mono := nextSeq_mono maxFreed ops (Nat.succ_le_of_lt before)
    rw [after, Nat.succ_eq_add_one, second.taken] at mono
    omega

/-- Every freed block has been freed by an operation. -/
theorem buries_of_freed (there : seq ∈ (operated maxFreed (ops.take n)).freed) :
    ∃ i, Buries maxFreed ops i seq := by
  induction n with
  | zero => simp [operated, Heap.empty] at there
  | succ n ih =>
    rcases operated_succ maxFreed ops n with same | ⟨op, found, counts⟩
    · exact ih (same ▸ there)
    · generalize operated maxFreed (ops.take (n + 1)) = h' at there counts
      cases counts with
      | other _ _ freed => exact ih (freed seq there)
      | buried base epoch b free live _ _ freed =>
        rcases freed seq there with rfl | there
        · exact ⟨n, ⟨base, epoch, b, free ▸ found, live⟩, rfl⟩
        · exact ih there

/-- **A look-up by address finds all freed blocks there, the oldest first.** Whatever a heap has
been asked to do, the scan of the index gives for any range what going through all freed blocks
gives, each once and in the order in which they were freed; the index has exactly one entry for each
freed block, and no freed block is wider than the scan reaches back. -/
theorem overlapping_exact (maxFreed : Word) (ops : List Operation) :
    (∀ e : Extent, (operated maxFreed ops).overlapping e = (operated maxFreed ops).scan e ∧
      ((operated maxFreed ops).overlapping e).Nodup ∧
      ((operated maxFreed ops).overlapping e).Pairwise (FreedBefore maxFreed ops)) ∧
    (operated maxFreed ops).index.toList.Perm
      ((operated maxFreed ops).freed.toList.map fun p => (p.2.extent.base, p.1)) ∧
    ∀ (seq : Nat) (b : Block), (operated maxFreed ops).freed[seq]? = some b →
      b.extent.size ≤ (operated maxFreed ops).widest := by
  have indexed := Indexed.operated maxFreed ops
  refine ⟨fun e => ⟨indexed.overlapping_eq_scan e, indexed.pruned.overlapping_nodup e, ?_⟩,
    indexed.index_perm, indexed.valid.widest⟩
  have buried {seq : Nat} (mem : seq ∈ (operated maxFreed ops).overlapping e) :
      ∃ i, Buries maxFreed ops i seq := by
    obtain ⟨b, found, _⟩ := (mem_overlapping indexed.valid).mp mem
    refine buries_of_freed (n := ops.length) ?_
    rw [List.take_length]
    exact Table.mem_iff_exists.mpr ⟨b, found⟩
  refine (indexed.overlapping_ordered e).imp_of_mem fun mem mem' lt => ?_
  obtain ⟨i, first⟩ := buried mem
  obtain ⟨j, second⟩ := buried mem'
  exact ⟨i, j, first.lt_of_lt second lt, first, second⟩

end Run

end RaceMonitor.Heap
