import RaceMonitor.Proofs.Heap.Live
import RaceMonitor.Proofs.Heap.Pages

/-! What becomes of each freed block.

Dropping is by number. Handing a range out again marks each freed block on it or, if it was marked
before, drops it (`Heap.handOut_freed`): as the index holds nothing but the freed blocks
(`Heap.Pruned`), the scan meets none of them twice. What is then kept of an address goes to a
block that covers it (`Heap.keepAll_freed`).

What a block keeps and what has been reported against it do not decide what becomes of it
(`Heap.core`). -/
namespace RaceMonitor

namespace Block

/-- What becomes of a freed block when part of its range is handed out: it is marked, or if it was
before, dropped. -/
def handedOut (b : Block) : Option Block :=
  if b.reused then none else some { b with reused := true }

/-- What becomes of a freed block when the range `e` is handed out. -/
def reissue (e : Extent) (b : Block) : Option Block :=
  if b.extent.overlaps e then b.handedOut else some b

theorem handedOut_eq_some {b b' : Block} :
    b.handedOut = some b' ↔ b.reused = false ∧ b' = { b with reused := true } := by
  unfold handedOut
  cases b.reused <;> simp [eq_comm]

/-- The block without what it keeps and what has been reported against it. -/
def core (b : Block) : Block := { b with kept := ∅, reported := ∅ }

@[simp] theorem core_extent (b : Block) : b.core.extent = b.extent := rfl

@[simp] theorem core_freedAt (b : Block) : b.core.freedAt = b.freedAt := rfl

theorem unseenBy_core (b : Block) (tid : ThreadId) (vc : VectorClock) :
    b.core.unseenBy tid vc = b.unseenBy tid vc := rfl

theorem reissue_core (e : Extent) (b : Block) : (b.reissue e).map core = b.core.reissue e := by
  unfold reissue
  rw [core_extent]
  split
  · have same : b.core.reused = b.reused := rfl
    rw [handedOut, handedOut, same]
    split <;> rfl
  · rfl

end Block

/-- The same block, with accesses from `l` kept at addresses that it covers. -/
def Block.KeptFrom (l : List (Word × Access)) (b b' : Block) : Prop :=
  (∃ kept, b' = { b with kept }) ∧ ∀ (x : Word) (a : Access), b'.kept[x]? = some a →
    b.kept[x]? = some a ∨ (b.extent.overlaps (Extent.ofByte x) = true ∧ (x, a) ∈ l)

theorem Block.KeptFrom.refl (l : List (Word × Access)) (b : Block) : b.KeptFrom l b :=
  ⟨⟨b.kept, rfl⟩, fun _ _ found => .inl found⟩

namespace Heap

variable {h : Heap}

/-- The index holds nothing but the freed blocks. -/
def Pruned (h : Heap) : Prop :=
  ∀ (base : Word) (seq : Nat), (base, seq) ∈ h.index →
    ∃ b : Block, h.freed[seq]? = some b ∧ b.extent.base = base

theorem Pruned.empty (maxFreed : Word) (nextSeq : Nat) : (Heap.empty maxFreed nextSeq).Pruned :=
  fun base seq mem => by simp [Heap.empty] at mem

/-- The scan meets no block twice. -/
theorem Pruned.overlapping_nodup (pruned : h.Pruned) (e : Extent) : (h.overlapping e).Nodup := by
  rw [overlapping, (List.mergeSort_perm _ _).nodup_iff, touching_eq]
  refine List.Nodup.filter _ (List.Nodup.map_on ?_ (List.Nodup.filter _ ?_))
  · intro p mem q mem' same
    have there := Std.ExtTreeSet.mem_toList.mp (List.mem_of_mem_filter mem)
    have there' := Std.ExtTreeSet.mem_toList.mp (List.mem_of_mem_filter mem')
    obtain ⟨_, found, base⟩ := pruned p.1 p.2 there
    obtain ⟨_, found', base'⟩ := pruned q.1 q.2 there'
    rw [same] at found
    cases found.symm.trans found'
    exact Prod.ext (base.symm.trans base') same
  · exact (Std.ExtTreeSet.ordered_toList (t := h.index)).imp fun {_ q} less same => by
      have equal : pairOrder q q = .eq := Std.ReflCmp.compare_self
      rw [same, equal] at less
      cases less

/-! ### Dropping -/

theorem drop_freed (h : Heap) (seq i : Nat) :
    (h.drop seq).2.freed[i]? = if i = seq then none else h.freed[i]? := by
  unfold drop
  split
  · rename_i missing
    split
    · rename_i same
      rw [same, missing]
    · rfl
  · exact Table.get_erase ..

theorem dropAll_freed (h : Heap) (seqs : List Nat) (i : Nat) :
    (h.dropAll seqs).2.freed[i]? = if i ∈ seqs then none else h.freed[i]? := by
  unfold dropAll
  generalize ([] : List Extent) = gone
  induction seqs generalizing gone h with
  | nil => simp
  | cons seq seqs ih =>
    refine (ih (h.drop seq).2 _).trans ?_
    rw [drop_freed]
    by_cases mem : i ∈ seqs <;> by_cases same : i = seq <;> simp [mem, same]

theorem Pruned.drop (pruned : h.Pruned) (seq : Nat) : (h.drop seq).2.Pruned := by
  intro base i mem
  rw [drop_freed]
  unfold Heap.drop at mem
  split at mem
  · rename_i missing
    obtain ⟨b, found, same⟩ := pruned base i mem
    refine ⟨b, ?_, same⟩
    rw [if_neg fun own => ?_, found]
    rw [own, missing] at found
    cases found
  · rename_i c there
    obtain ⟨other, mem⟩ := PairSet.mem_erase_iff.mp mem
    obtain ⟨b, found, same⟩ := pruned base i mem
    refine ⟨b, ?_, same⟩
    rw [if_neg fun own => ?_, found]
    subst own
    obtain rfl := Option.some.inj (there.symm.trans found)
    exact other (by rw [same])

theorem Pruned.dropAll (pruned : h.Pruned) (seqs : List Nat) : (h.dropAll seqs).2.Pruned :=
  List.foldlRecOn (motive := fun p : List Extent × Heap => p.2.Pruned) seqs _ pruned
    fun _ pruned seq _ => pruned.drop seq

theorem Pruned.dropOldest (pruned : h.Pruned) (n : Nat) : (h.dropOldest n).2.Pruned := by
  induction n generalizing h with
  | zero => exact pruned
  | succ n ih =>
    unfold Heap.dropOldest
    split
    · exact pruned
    · exact ih (pruned.drop _)

theorem Pruned.evict (pruned : h.Pruned) : h.evict.2.Pruned := by
  unfold Heap.evict
  split
  · exact pruned
  · exact pruned.dropOldest _

/-- Room is made by dropping. -/
theorem evict_freed (h : Heap) {i : Nat} {b : Block} (found : h.evict.2.freed[i]? = some b) :
    h.freed[i]? = some b := by
  have oldest : ∀ (n : Nat) (h : Heap), (h.dropOldest n).2.freed[i]? = some b →
      h.freed[i]? = some b := by
    intro n
    induction n with
    | zero => exact fun _ => id
    | succ n ih =>
      intro h found
      unfold dropOldest at found
      split at found
      · exact found
      · have left := ih _ found
        rw [drop_freed] at left
        split at left
        · cases left
        · exact left
  unfold evict at found
  split at found
  · exact found
  · exact oldest _ h found

theorem mem_observed (h : Heap) (floor : VectorClock) (seq : Nat) : seq ∈ h.observed floor ↔
    ∃ b : Block, h.freed[seq]? = some b ∧ (b.freedAt.any fun e => e.observedBy floor) = true := by
  have entries : ∀ l : List (Nat × Block), seq ∈ l.foldr (fun p seqs =>
      if p.2.freedAt.any fun e => e.observedBy floor then p.1 :: seqs else seqs) [] ↔
      ∃ b, (seq, b) ∈ l ∧ (b.freedAt.any fun e => e.observedBy floor) = true := by
    intro l
    induction l with
    | nil => simp
    | cons p l ih =>
      obtain ⟨i, c⟩ := p
      rw [List.foldr_cons]
      split <;> simp only [List.mem_cons, ih, Prod.mk.injEq] <;> grind
  rw [observed, Std.ExtTreeMap.foldr_eq_foldr_toList]
  refine (entries _).trans ?_
  simp only [Std.ExtTreeMap.mem_toList_iff_getElem?_eq_some]

/-- What a sweep leaves. -/
theorem dropObserved_freed (h : Heap) (floor : VectorClock) (i : Nat) :
    (h.dropObserved floor).2.freed[i]? =
      h.freed[i]?.filter fun b => !b.freedAt.any fun e => e.observedBy floor := by
  refine (dropAll_freed ..).trans ?_
  show (if i ∈ h.observed floor then none else h.freed[i]?) = _
  cases found : h.freed[i]? with
  | none => simp
  | some b =>
    have mem : i ∈ h.observed floor ↔ (b.freedAt.any fun e => e.observedBy floor) = true := by
      rw [mem_observed]
      exact ⟨fun ⟨c, there, seen⟩ => Option.some.inj (found.symm.trans there) ▸ seen,
        fun seen => ⟨b, found, seen⟩⟩
    rw [Option.filter_some]
    by_cases seen : (b.freedAt.any fun e => e.observedBy floor) = true
    · rw [if_pos (mem.mpr seen), if_neg (by simp [seen])]
    · rw [if_neg (mem.not.mpr seen), if_pos (by simpa using seen)]

theorem Pruned.dropObserved (pruned : h.Pruned) (floor : VectorClock) :
    (h.dropObserved floor).2.Pruned :=
  Pruned.dropAll (h := { h with sinceSweep := 0 }) pruned _

/-! ### Burying and reporting -/

theorem Pruned.bury (pruned : h.Pruned) (valid : h.Valid) (b : Block) (epoch : Epoch) :
    (h.bury b epoch).Pruned := by
  intro base seq mem
  rw [bury_freed]
  rcases PairSet.mem_insert_iff.mp mem with same | mem
  · cases same
    exact ⟨_, if_pos rfl, rfl⟩
  · obtain ⟨c, found, same⟩ := pruned base seq mem
    exact ⟨c, (if_neg (Nat.ne_of_lt (valid.numbered seq c found))).trans found, same⟩

theorem Pruned.report (pruned : h.Pruned) {seq : Nat} {b : Block} (found : h.freed[seq]? = some b)
    (tid : ThreadId) (addr : Word) :
    Pruned { h with freed := h.freed.insert seq (b.report tid addr) } := by
  intro base i mem
  obtain ⟨c, there, same⟩ := pruned base i mem
  show ∃ d, (h.freed.insert seq (b.report tid addr))[i]? = some d ∧ _
  rw [Table.get_insert]
  split
  · rename_i own
    obtain rfl := Option.some.inj (found.symm.trans (own ▸ there))
    exact ⟨_, rfl, same⟩
  · exact ⟨c, there, same⟩

/-! ### Handing out -/

theorem handOutOne_freed (h : Heap) (seq i : Nat) : (h.handOutOne seq).2.2.freed[i]? =
    if i = seq then h.freed[i]?.bind Block.handedOut else h.freed[i]? := by
  unfold handOutOne
  split
  · rename_i reused
    obtain ⟨b, found, reused⟩ := (Option.any_eq_true _ _).mp reused
    rw [show (h.drop seq).2.freed[i]? = _ from h.drop_freed seq i]
    split
    · rename_i same
      rw [same, found, Option.bind_some, Block.handedOut, if_pos reused]
    · rfl
  · rename_i unused
    refine (Table.get_modify ..).trans ?_
    split
    · rename_i same
      rw [same]
      cases found : h.freed[seq]? with
      | none => rfl
      | some b =>
        rw [found, Option.any_some] at unused
        rw [Option.map_some, Option.bind_some, Block.handedOut, if_neg unused]
    · rfl

theorem handOut_freed (valid : h.Valid) (pruned : h.Pruned) (e : Extent) (i : Nat) :
    (h.handOut e).2.2.freed[i]? =
      h.freed[i]?.bind (Block.reissue e) := by
  have each : ∀ (seqs : List Nat) (h : Heap) (any : Bool) (gone : List Extent), seqs.Nodup →
      (seqs.foldl (fun p seq => (p.1 || (p.2.2.handOutOne seq).1,
          p.2.1 ++ (p.2.2.handOutOne seq).2.1.toList, (p.2.2.handOutOne seq).2.2))
        (any, gone, h)).2.2.freed[i]? =
      if i ∈ seqs then h.freed[i]?.bind Block.handedOut else h.freed[i]? := by
    intro seqs
    induction seqs with
    | nil => simp
    | cons seq seqs ih =>
      intro h any gone nodup
      obtain ⟨once, nodup⟩ := List.nodup_cons.mp nodup
      refine (ih (h.handOutOne seq).2.2 _ _ nodup).trans ?_
      rw [handOutOne_freed]
      by_cases same : i = seq
      · simp [same, once]
      · simp [same]
  refine (each _ h false [] (pruned.overlapping_nodup e)).trans ?_
  cases found : h.freed[i]? with
  | none => simp
  | some b =>
    have mem : i ∈ h.overlapping e ↔ b.extent.overlaps e = true := by
      rw [mem_overlapping valid]
      exact ⟨fun ⟨c, there, overlaps⟩ => Option.some.inj (found.symm.trans there) ▸ overlaps,
        fun overlaps => ⟨b, found, overlaps⟩⟩
    simp only [mem, Option.bind_some, Block.reissue]

theorem Pruned.modifyFreed (pruned : h.Pruned) (seq : Nat) {f : Block → Block}
    (extent : ∀ b, (f b).extent = b.extent) : (h.modifyFreed seq f).Pruned := by
  intro base i mem
  obtain ⟨b, found, same⟩ := pruned base i mem
  have modified : (h.modifyFreed seq f).freed[i]? =
      if i = seq then h.freed[seq]?.map f else h.freed[i]? := Table.get_modify ..
  rw [modified]
  split
  · rename_i own
    exact ⟨f b, by rw [← own, found]; rfl, (congrArg Extent.base (extent b)).trans same⟩
  · exact ⟨b, found, same⟩

theorem Pruned.handOutOne (pruned : h.Pruned) (seq : Nat) : (h.handOutOne seq).2.2.Pruned := by
  unfold Heap.handOutOne
  split
  · exact pruned.drop seq
  · exact pruned.modifyFreed seq fun _ => rfl

theorem Pruned.handOut (pruned : h.Pruned) (e : Extent) : (h.handOut e).2.2.Pruned :=
  List.foldlRecOn (motive := fun p : Bool × List Extent × Heap => p.2.2.Pruned) _ _ pruned
    fun _ pruned seq _ => pruned.handOutOne seq

/-! ### Keeping accesses -/

theorem keep_freed (h : Heap) (x : Word) (a : Access) (i : Nat) : (h.keep x a).freed[i]? =
    if (h.overlapping (Extent.ofByte x)).getLast? = some i then
      h.freed[i]?.map fun b => { b with kept := b.kept.insert x a }
    else h.freed[i]? := by
  unfold keep
  split
  · rename_i seq last
    refine (Table.get_modify ..).trans ?_
    by_cases same : i = seq
    · rw [if_pos same, if_pos (last.trans (congrArg some same.symm)), same]
    · rw [if_neg same, if_neg fun own => same (Option.some.inj (own.symm.trans last))]
  · rename_i none
    rw [if_neg fun own => nomatch own.symm.trans none]

theorem Pruned.keep (pruned : h.Pruned) (x : Word) (a : Access) : (h.keep x a).Pruned := by
  unfold Heap.keep
  split
  · exact pruned.modifyFreed _ fun _ => rfl
  · exact pruned

theorem Pruned.keepAll (pruned : h.Pruned) (l : List (Word × Access)) :
    (l.foldl (fun h p => h.keep p.1 p.2) h).Pruned :=
  List.foldlRecOn (motive := Heap.Pruned) l _ pruned fun _ pruned p _ => pruned.keep p.1 p.2

/-- Each freed block is what it was but for the accesses that it keeps. -/
theorem keepAll_freed (valid : h.Valid) (l : List (Word × Access)) (i : Nat) :
    (h.freed[i]? = none ∧ (l.foldl (fun h p => h.keep p.1 p.2) h).freed[i]? = none) ∨
    ∃ b b', h.freed[i]? = some b ∧
      (l.foldl (fun h p => h.keep p.1 p.2) h).freed[i]? = some b' ∧ b.KeptFrom l b' := by
  induction l generalizing h with
  | nil =>
    cases found : h.freed[i]? with
    | none => exact .inl ⟨rfl, found⟩
    | some b => exact .inr ⟨b, b, rfl, found, .refl [] b⟩
  | cons p l ih =>
    have step := h.keep_freed p.1 p.2 i
    rcases ih ((Thinned.keep h p.1 p.2).valid valid) with
      ⟨gone, gone'⟩ | ⟨b', b'', found', found'', kept⟩
    · refine .inl ⟨?_, gone'⟩
      rw [gone] at step
      split at step
      · exact Option.map_eq_none_iff.mp step.symm
      · exact step.symm
    · rw [found'] at step
      split at step
      · rename_i last
        obtain ⟨b, found, rfl⟩ := Option.map_eq_some_iff.mp step.symm
        obtain ⟨_, there, covers⟩ := (mem_overlapping valid).mp (List.mem_of_getLast? last)
        obtain rfl := Option.some.inj (found.symm.trans there)
        refine .inr ⟨b, b'', found, found'', ?_, fun x a mem => ?_⟩
        · obtain ⟨⟨kept, rfl⟩, _⟩ := kept
          exact ⟨kept, rfl⟩
        · rcases kept.2 x a mem with mem | ⟨covers, mem⟩
          · have mem : (b.kept.insert p.1 p.2)[x]? = some a := mem
            rw [Table.get_insert] at mem
            split at mem
            · rename_i own
              cases mem
              exact .inr ⟨own ▸ covers, own ▸ List.mem_cons_self⟩
            · exact .inl mem
          · exact .inr ⟨covers, List.mem_cons_of_mem p mem⟩
      · refine .inr ⟨b', b'', step.symm, found'', kept.1, fun x a mem => ?_⟩
        rcases kept.2 x a mem with mem | ⟨covers, mem⟩
        · exact .inl mem
        · exact .inr ⟨covers, List.mem_cons_of_mem p mem⟩

/-! ### Cores -/

/-- The core of a freed block. -/
def core (h : Heap) (seq : Nat) : Option Block := h.freed[seq]?.map Block.core

theorem core_eq_some {seq : Nat} {c : Block} :
    h.core seq = some c ↔ ∃ b : Block, h.freed[seq]? = some b ∧ b.core = c :=
  Option.map_eq_some_iff

/-- Whether a block is stale is read off its core and what has been reported against it. -/
theorem Stale.of_core {h h' : Heap} {tid : ThreadId} {addr : Word} {vc : VectorClock} {seq : Nat}
    {b c : Block} (stale : h.Stale tid addr vc seq b) (found : h'.freed[seq]? = some c)
    (same : c.core = b.core) (marks : c.isReported tid addr = b.isReported tid addr) :
    h'.Stale tid addr vc seq c where
  kept := found
  covers := by
    rw [← c.core_extent, same]
    exact stale.covers
  unseen := by
    rw [← c.unseenBy_core, same]
    exact stale.unseen
  unreported := marks.trans stale.unreported

theorem core_handOut (valid : h.Valid) (pruned : h.Pruned) (e : Extent) (i : Nat) :
    (h.handOut e).2.2.core i = (h.core i).bind (Block.reissue e) := by
  rw [core, core, handOut_freed valid pruned, Option.map_bind, Option.bind_map]
  exact congrArg _ (funext fun b => b.reissue_core e)

theorem core_keepAll (h : Heap) (l : List (Word × Access)) (i : Nat) :
    (l.foldl (fun h p => h.keep p.1 p.2) h).core i = h.core i := by
  induction l generalizing h with
  | nil => rfl
  | cons p l ih =>
    refine (ih (h.keep p.1 p.2)).trans ?_
    rw [core, core, keep_freed]
    split
    · rw [Option.map_map]
      rfl
    · rfl

theorem core_bury (h : Heap) (b : Block) (epoch : Epoch) (i : Nat) : (h.bury b epoch).core i =
    if i = h.nextSeq then some { b.core with freedAt := some epoch } else h.core i := by
  rw [core, bury_freed]
  split <;> rfl

/-- Where one heap has the freed blocks of another, it still has them after the same free. -/
theorem core_bury_of_core {g : Heap} (numbers : g.nextSeq = h.nextSeq)
    (kept : ∀ i c, h.core i = some c → g.core i = some c) (b : Block) (epoch : Epoch) {i : Nat}
    {c : Block} (found : (h.bury b epoch).core i = some c) :
    (g.bury b epoch).core i = some c := by
  rw [core_bury] at found ⊢
  rw [numbers]
  split at found
  · rename_i own
    rw [if_pos own, found]
  · rename_i older
    rw [if_neg older]
    exact kept i c found

theorem core_dropObserved (h : Heap) (floor : VectorClock) (i : Nat) :
    (h.dropObserved floor).2.core i =
      (h.core i).filter fun b => !b.freedAt.any fun e => e.observedBy floor := by
  rw [core, core, dropObserved_freed, Option.filter_map]
  rfl

theorem core_report {seq : Nat} {b : Block} (found : h.freed[seq]? = some b) (tid : ThreadId)
    (addr : Word) (i : Nat) :
    core { h with freed := h.freed.insert seq (b.report tid addr) } i = h.core i := by
  rw [core, core, Table.get_insert]
  split
  · rename_i own
    rw [own, found]
    rfl
  · rfl

/-- What is left of `h` where it may have been swept. -/
def MaySweep (h : Heap) (floor : VectorClock) (h' : Heap) : Prop :=
  h' = h ∨ h' = (h.dropObserved floor).2

namespace MaySweep

variable {floor : VectorClock} {h' : Heap}

theorem live (step : h.MaySweep floor h') : h'.live = h.live := by
  rcases step with rfl | rfl
  · rfl
  · exact dropObserved_live h floor

theorem nextSeq (step : h.MaySweep floor h') : h'.nextSeq = h.nextSeq := by
  rcases step with rfl | rfl
  · rfl
  · exact (Thinned.dropObserved h floor).nextSeq

theorem freed (step : h.MaySweep floor h') {seq : Nat} {b : Block}
    (found : h'.freed[seq]? = some b) : h.freed[seq]? = some b := by
  rcases step with rfl | rfl
  · exact found
  · rw [dropObserved_freed] at found
    exact (Option.filter_eq_some_iff.mp found).1

theorem pruned (step : h.MaySweep floor h') (pruned : h.Pruned) : h'.Pruned := by
  rcases step with rfl | rfl
  · exact pruned
  · exact pruned.dropObserved floor

/-- What goes is what the floor has observed. -/
theorem observed (step : h.MaySweep floor h') {seq : Nat} {c : Block}
    (there : h.core seq = some c) (gone : h'.core seq = none) :
    (c.freedAt.any fun e => e.observedBy floor) = true := by
  rcases step with rfl | rfl
  · cases there.symm.trans gone
  · rw [core_dropObserved, there] at gone
    simpa [Option.filter] using gone

end MaySweep

/-- What is left of `h` after a free: there is room again, and when it is time to, it is swept. -/
def tidied (h : Heap) (floor : VectorClock) : Heap :=
  if sweepEvery ≤ h.evict.2.sinceSweep then (h.evict.2.dropObserved floor).2 else h.evict.2

theorem evict_of_unlimited (unlimited : h.maxFreed = 0) : h.evict = ([], h) := if_pos unlimited

theorem maySweep_tidied (unlimited : h.maxFreed = 0) (floor : VectorClock) :
    h.MaySweep floor (h.tidied floor) := by
  unfold tidied
  rw [evict_of_unlimited unlimited]
  split
  · exact .inr rfl
  · exact .inl rfl

/-- It is not time to sweep yet after the first free since the last sweep. -/
theorem tidied_bury (unlimited : h.maxFreed = 0) (unhurried : h.sinceSweep = 0) (b : Block)
    (epoch : Epoch) (floor : VectorClock) :
    (h.bury b epoch).tidied floor = h.bury b epoch := by
  have unlimited : (h.bury b epoch).maxFreed = 0 := unlimited
  have first : (h.bury b epoch).sinceSweep = 1 := congrArg (· + 1) unhurried
  rw [tidied, evict_of_unlimited unlimited, first]
  exact if_neg (by decide)

end Heap

end RaceMonitor
