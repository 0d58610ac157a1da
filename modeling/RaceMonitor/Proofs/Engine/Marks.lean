import RaceMonitor.Proofs.Engine.Reached

/-! The marked pages as a filter.

An access looks for freed blocks only on a marked page, and its answer is the one of looking in any
case. Marks do not pile up either: whatever drops freed blocks names them all (`Heap.Sheds`), and
for each of their pages the remaining blocks are asked whether one is still on it. So every mark is
there for a freed block that is kept (`Tables.Warranted`), and where none is kept, none is left
(`Reached.marks_exact`). -/
namespace RaceMonitor

/-! ### Blocks that go -/

namespace Heap

/-- Of the freed blocks of `h`, those that `h'` has no more are among `gone`. -/
def Sheds (h : Heap) (gone : List Extent) (h' : Heap) : Prop :=
  ∀ (seq : Nat) (b : Block), h.freed[seq]? = some b →
    b.extent ∈ gone ∨ ∃ b' : Block, h'.freed[seq]? = some b' ∧ b'.extent = b.extent

namespace Sheds

variable {h h' h'' : Heap} {gone gone' : List Extent}

theorem refl (h : Heap) : h.Sheds [] h := fun _ b found => .inr ⟨b, found, rfl⟩

theorem trans (first : h.Sheds gone h') (second : h'.Sheds gone' h'') :
    h.Sheds (gone ++ gone') h'' := by
  intro seq b found
  rcases first seq b found with told | ⟨b', found', extent'⟩
  · exact .inl (List.mem_append_left _ told)
  · rcases second seq b' found' with told | ⟨b'', found'', extent''⟩
    · exact .inl (List.mem_append_right _ (extent' ▸ told))
    · exact .inr ⟨b'', found'', extent''.trans extent'⟩

theorem drop (h : Heap) (seq : Nat) : h.Sheds (h.drop seq).1.toList (h.drop seq).2 := by
  intro i b found
  by_cases own : i = seq
  · subst own
    exact .inl (by simp [Heap.drop, found])
  · exact .inr ⟨b, by rw [drop_freed, if_neg own, found], rfl⟩

theorem dropAll (h : Heap) (seqs : List Nat) :
    h.Sheds (h.dropAll seqs).1 (h.dropAll seqs).2 :=
  List.foldlRecOn (motive := fun p : List Extent × Heap => h.Sheds p.1 p.2) seqs _ (refl h)
    fun _ sheds seq _ => sheds.trans (drop _ seq)

theorem modifyFreed (h : Heap) (seq : Nat) {f : Block → Block}
    (extent : ∀ b, (f b).extent = b.extent) : h.Sheds [] (h.modifyFreed seq f) := by
  intro i b found
  have modified : (h.modifyFreed seq f).freed[i]? =
      if i = seq then h.freed[seq]?.map f else h.freed[i]? := Table.get_modify ..
  rw [modified]
  split
  · rename_i own
    exact .inr ⟨f b, by rw [← own, found]; rfl, extent b⟩
  · exact .inr ⟨b, found, rfl⟩

theorem handOutOne (h : Heap) (seq : Nat) :
    h.Sheds (h.handOutOne seq).2.1.toList (h.handOutOne seq).2.2 := by
  unfold Heap.handOutOne
  split
  · exact drop h seq
  · exact modifyFreed h seq fun _ => rfl

theorem handOut (h : Heap) (e : Extent) : h.Sheds (h.handOut e).2.1 (h.handOut e).2.2 :=
  List.foldlRecOn (motive := fun p : Bool × List Extent × Heap => h.Sheds p.2.1 p.2.2) _ _ (refl h)
    fun _ sheds seq _ => sheds.trans (handOutOne _ seq)

theorem keep (h : Heap) (addr : Word) (access : Access) : h.Sheds [] (h.keep addr access) := by
  unfold Heap.keep
  split
  · exact modifyFreed h _ fun _ => rfl
  · exact refl h

theorem keepAll (h : Heap) (kept : List (Word × Access)) :
    h.Sheds [] (kept.foldl (fun h p => h.keep p.1 p.2) h) :=
  List.foldlRecOn (motive := h.Sheds []) kept _ (refl h) fun _ sheds p _ =>
    sheds.trans (keep _ p.1 p.2)

theorem dropOldest (h : Heap) (n : Nat) :
    h.Sheds (h.dropOldest n).1 (h.dropOldest n).2 := by
  induction n generalizing h with
  | zero => exact refl h
  | succ n ih =>
    unfold Heap.dropOldest
    split
    · exact refl h
    · exact (drop h _).trans (ih _)

theorem evict (h : Heap) : h.Sheds h.evict.1 h.evict.2 := by
  unfold Heap.evict
  split
  · exact refl h
  · exact dropOldest h _

theorem dropObserved (h : Heap) (floor : VectorClock) :
    h.Sheds (h.dropObserved floor).1 (h.dropObserved floor).2 :=
  dropAll { h with sinceSweep := 0 } _

end Sheds

end Heap

/-! ### Marks -/

namespace Tables

/-- Every marked page is touched by a freed block. -/
def Warranted (t : Tables) : Prop :=
  ∀ p ∈ t.freedPages, ∃ (seq : Nat) (b : Block), t.heap.freed[seq]? = some b ∧ p ∈ b.extent.pages

/-- A mark goes with the blocks on its page. -/
theorem mem_unmarkPages (t : Tables) (gone : List Extent) (p : Word) :
    p ∈ (t.unmarkPages gone).freedPages ↔ p ∈ t.freedPages ∧
      (p ∈ gone.flatMap Extent.pages → t.heap.touchesPage p = true) := by
  unfold unmarkPages
  dsimp only
  generalize t.freedPages = marks
  induction gone.flatMap Extent.pages generalizing marks with
  | nil => simp
  | cons q qs ih =>
    rw [List.foldl_cons, ih, List.mem_cons]
    split
    · rename_i touched
      by_cases own : p = q
      · simp [own, touched]
      · simp [own]
    · rename_i untouched
      rw [KeySet.mem_erase_iff]
      by_cases own : p = q
      · simp [own, untouched]
      · simp [own]

namespace Warranted

variable {t t' : Tables}

theorem empty (maxFreed : Word) (nextSeq : Nat) : (Tables.empty maxFreed nextSeq).Warranted :=
  fun p marked => by simp [Tables.empty] at marked

theorem of_same (warranted : t.Warranted) (heap : t'.heap = t.heap)
    (freedPages : t'.freedPages = t.freedPages) : t'.Warranted := by
  unfold Warranted
  rw [heap, freedPages]
  exact warranted

/-- When blocks go, the marks that were there for them alone go, too. -/
theorem shed (warranted : t.Warranted) {heap : Heap} {gone : List Extent}
    (sheds : t.heap.Sheds gone heap) (valid : heap.Valid) :
    ((t.putHeap heap).unmarkPages gone).Warranted := by
  intro p marked
  obtain ⟨marked, needed⟩ := (mem_unmarkPages _ _ _).mp marked
  obtain ⟨seq, b, found, touches⟩ := warranted p marked
  rcases sheds seq b found with told | ⟨b', found', extent⟩
  · have touched := needed (List.mem_flatMap.mpr ⟨b.extent, told, touches⟩)
    obtain ⟨seq', b', found', overlaps⟩ := (Heap.touchesPage_iff valid).mp touched
    exact ⟨seq', b', found', Extent.mem_pages_of_overlaps touches overlaps⟩
  · exact ⟨seq, b', found', extent ▸ touches⟩

/-- The marks of a free are there for its block. -/
theorem buried (warranted : t.Warranted) (valid : t.heap.Valid) (b : Block) (epoch : Epoch) :
    ((t.putHeap (t.heap.bury b epoch)).markPages b.extent).Warranted := by
  intro p marked
  show ∃ (seq : Nat) (b' : Block), (t.heap.bury b epoch).freed[seq]? = some b' ∧ p ∈ b'.extent.pages
  rcases Filtered.mem_foldl_insert.mp marked with own | marked
  · exact ⟨t.heap.nextSeq, { b with freedAt := some epoch }, by rw [Heap.bury_freed, if_pos rfl],
      own⟩
  · obtain ⟨seq, b', found, touches⟩ := warranted p marked
    refine ⟨seq, b', ?_, touches⟩
    rw [Heap.bury_freed, if_neg (Nat.ne_of_lt (valid.numbered seq b' found)), found]

/-- A report leaves blocks and marks where they are. -/
theorem reported (warranted : t.Warranted) {seq : Nat} {b : Block}
    (found : t.heap.freed[seq]? = some b) (tid : ThreadId) (addr : Word) :
    (t.putHeap { t.heap with freed := t.heap.freed.insert seq (b.report tid addr) }).Warranted := by
  intro p marked
  obtain ⟨i, c, there, touches⟩ := warranted p marked
  show ∃ (i : Nat) (c : Block), (t.heap.freed.insert seq (b.report tid addr))[i]? = some c ∧
    p ∈ c.extent.pages
  by_cases own : i = seq
  · subst own
    obtain rfl := Option.some.inj (there.symm.trans found)
    exact ⟨i, c.report tid addr, by rw [Table.get_insert, if_pos rfl], touches⟩
  · exact ⟨i, c, by rw [Table.get_insert, if_neg own, there], touches⟩

end Warranted

end Tables

/-! ### Events -/

namespace State

variable {s : State} {h : Host}

theorem allocate_warranted (filtered : s.tables.Filtered) (warranted : s.tables.Warranted)
    {tid : ThreadId} {pc addr size : Word} {res : State × List Output}
    (allocates : Allocates s h tid pc addr size res) : res.1.tables.Warranted := by
  cases allocates with
  | ignored => exact warranted
  | @made reused gone kept _ handed heap shadow _ _ hand _ placed =>
    have out := Heap.Sheds.handOut s.tables.heap ⟨addr, size⟩
    have left := (Heap.Thinned.handOut s.tables.heap ⟨addr, size⟩).valid filtered.valid
    rw [hand] at out left
    have stashed : handed.Sheds [] (if reused then kept.foldl (fun h p => h.keep p.1 p.2) handed
        else handed) ∧ (if reused then kept.foldl (fun h p => h.keep p.1 p.2) handed
        else handed).Valid := by
      split
      · exact ⟨.keepAll handed kept, (Heap.Thinned.keepAll handed kept).valid left⟩
      · exact ⟨.refl handed, left⟩
    generalize (if reused then kept.foldl (fun h p => h.keep p.1 p.2) handed else handed) = heap'
      at stashed placed
    obtain rfl : (heap'.allocate (Block.new tid pc ⟨addr, size⟩)).2 = heap :=
      congrArg Prod.snd placed
    have sheds := out.trans stashed.1
    rw [List.append_nil] at sheds
    have placed : s.tables.heap.Sheds gone (heap'.allocate (Block.new tid pc ⟨addr, size⟩)).2 :=
      sheds
    have valid : (heap'.allocate (Block.new tid pc ⟨addr, size⟩)).2.Valid :=
      (Heap.Thinned.allocate heap' rfl).valid stashed.2
    exact (warranted.shed placed valid).of_same rfl rfl

theorem sweep_warranted (filtered : s.tables.Filtered) (warranted : s.tables.Warranted)
    (h : Host) : (s.sweep h).1.tables.Warranted :=
  warranted.shed (.dropObserved _ _) ((Heap.Thinned.dropObserved _ _).valid filtered.valid)

/-- A free that finds its block, before it is asked whether it is time to sweep. -/
theorem freed_warranted (filtered : s.tables.Filtered) (warranted : s.tables.Warranted)
    {addr : Word} {epoch : Epoch} {freed : Freed} {heap : Heap}
    (done : s.tables.heap.free addr epoch = .ok (freed, heap)) :
    (((s.tables.putHeap heap).markPages freed.block).unmarkPages freed.evicted).Filtered ∧
      (((s.tables.putHeap heap).markPages freed.block).unmarkPages freed.evicted).Warranted := by
  obtain ⟨b, _, block, evicted, rfl⟩ := Heap.live_of_free done
  rw [block, evicted]
  have marks := (filtered.buried b epoch).thinned (.evict _)
  have left := (Heap.Thinned.evict (s.tables.heap.bury b epoch)).valid (filtered.valid.bury b epoch)
  exact ⟨marks.unmarkPages _, (warranted.buried filtered.valid b epoch).shed (.evict _) left⟩

theorem deallocate_warranted (filtered : s.tables.Filtered) (warranted : s.tables.Warranted)
    {tid : ThreadId} {addr : Word} {res : State × List Output}
    (frees : Frees s h tid addr res) : res.1.tables.Warranted := by
  cases frees with
  | ignored => exact warranted
  | refused _ met =>
    obtain ⟨_, x, rfl⟩ := thread_refused met
    exact warranted
  | misused _ met =>
    have same := (thread_entered met).sameMemory
    exact warranted.of_same same.heap same.freedPages
  | @freed t s₁ _ _ _ _ met done =>
    have same := (thread_entered met).sameMemory
    have filtered := filtered.of_same same.heap same.freedPages
    exact (freed_warranted filtered (warranted.of_same same.heap same.freedPages) done).2
  | @swept t s₁ s₂ _ _ _ _ _ met done _ sweeps =>
    have same := (thread_entered met).sameMemory
    have filtered := filtered.of_same same.heap same.freedPages
    obtain ⟨filtered, warranted⟩ :=
      freed_warranted filtered (warranted.of_same same.heap same.freedPages) done
    obtain rfl : (State.sweep _ h).1 = s₂ := congrArg Prod.fst sweeps
    exact sweep_warranted (s := s₁.withTables _) filtered warranted h

/-- Neither an allocation nor a free: marks stay, and blocks where they are. -/
theorem step_warranted_of_other (quiet : h.Quiet) (filtered : s.tables.Filtered)
    (warranted : s.tables.Warranted) {e : Event}
    (allocates : ∀ tid pc addr size, e ≠ .alloc tid pc addr size)
    (frees : ∀ tid addr, e ≠ .free tid addr) : (s.step h e).1.tables.Warranted := by
  have step := s.step_remembers quiet e
  generalize (s.step h e).1 = s' at step
  generalize races (s.step h e).2 = delivered at step
  cases step with
  | accessed handled =>
    cases handled with
    | refused _ _ _ _ tables => exact tables ▸ warranted
    | entered t s₁ _ _ _ _ accessed =>
      rcases reportUse_cases filtered t _ with ⟨_, same, _⟩ | ⟨_, seq, b, _, heap, _, due⟩
      · exact warranted.of_same (accessed.heap.trans same) accessed.freedPages
      · exact (warranted.reported due.kept t.tid _).of_same (accessed.heap.trans heap)
          accessed.freedPages
  | allocated => exact absurd rfl (allocates _ _ _ _)
  | freed => exact absurd rfl (frees _ _)
  | aside _ _ aside => exact warranted.of_same aside.heap aside.freedPages

/-- Every event leaves only marks that are needed. -/
theorem step_warranted (quiet : h.Quiet) (filtered : s.tables.Filtered)
    (warranted : s.tables.Warranted) (e : Event) : (s.step h e).1.tables.Warranted := by
  cases e with
  | alloc tid pc addr size =>
    exact allocate_warranted filtered warranted (s.allocate_allocates h tid pc addr size)
  | free tid addr => exact deallocate_warranted filtered warranted (s.deallocate_frees h tid addr)
  | _ => exact step_warranted_of_other quiet filtered warranted nofun nofun

/-- The check of an access against the freed blocks, on whatever page. -/
def reportUseAnywhere (s : State) (t : Thread) (addr : Word) : Option UseAfterFree × State :=
  if s.config.trackAllocations then
    match s.tables.heap.reportUse t.tid addr t.clock s.tables.shadow[addr]? with
    | some (hit, heap) => (some hit, s.withTables (s.tables.putHeap heap))
    | none => (none, s)
  else (none, s)

/-- On an unmarked page there is nothing to find. -/
theorem reportUse_eq_anywhere (filtered : s.tables.Filtered) (t : Thread) (addr : Word) :
    s.reportUse t addr = s.reportUseAnywhere t addr := by
  unfold reportUse reportUseAnywhere
  cases s.config.trackAllocations with
  | false => rfl
  | true =>
    rw [Bool.true_and]
    by_cases marked : Extent.pageOf addr ∈ s.tables.freedPages
    · exact (if_pos (Std.ExtTreeSet.contains_iff_mem.mpr marked)).trans (if_pos rfl).symm
    · rw [if_neg (Std.ExtTreeSet.contains_iff_mem.not.mpr marked), if_pos rfl]
      rcases Heap.reportUse_cases filtered.valid t.tid addr t.clock s.tables.shadow[addr]? with
        ⟨none, _⟩ | ⟨_, seq, b, _, _, due⟩
      · rw [none]
      · exact absurd (filtered.marked seq b addr due.kept due.covers) marked

end State

namespace Reached

variable {s : State} {out : List Output}

/-- All freed blocks are on marked pages, and all marks are there for freed blocks. -/
theorem marked (reached : Reached s out) : s.tables.Filtered ∧ s.tables.Warranted :=
  reached.tables (P := fun t => t.Filtered ∧ t.Warranted)
    { empty := fun maxFreed nextSeq => ⟨.empty maxFreed nextSeq, .empty maxFreed nextSeq⟩
      step := fun s order e ⟨filtered, warranted⟩ =>
        ⟨s.step_filtered (Host.recorder_quiet order) filtered e,
          s.step_warranted (Host.recorder_quiet order) filtered warranted e⟩ }

/-- **The marked pages change no answer, and no mark is left behind.** In every state that an engine
gets to, the check of any access against the freed blocks comes to the same, in what it reports and
in the blocks that it leaves, as if it did not ask for the mark; and each marked page is touched by
a freed block that is still kept, so that without freed blocks no page is marked. -/
theorem marks_exact (reached : Reached s out) :
    (∀ (t : Thread) (addr : Word), s.reportUse t addr = s.reportUseAnywhere t addr) ∧
    (∀ p ∈ s.tables.freedPages, ∃ (seq : Nat) (b : Block),
      s.tables.heap.freed[seq]? = some b ∧ p ∈ b.extent.pages) ∧
    (s.tables.heap.freed = ∅ → s.tables.freedPages = ∅) := by
  obtain ⟨filtered, warranted⟩ := reached.marked
  refine ⟨State.reportUse_eq_anywhere filtered, warranted, fun none => ?_⟩
  refine Std.ExtTreeSet.eq_empty_iff_forall_not_mem.mpr fun p marked => ?_
  obtain ⟨seq, b, found, _⟩ := warranted p marked
  simp [none] at found

end Reached

/-- A block is allocated and freed. -/
def Command.disposal : List Command := [.event (.alloc 1 1 256 8), .event (.free 1 256)]

/-- The freed block touches the one marked page. -/
theorem Reached.marks_exact_disposal :
    let built := State.build .concurrent Config.default true false
    let disposed := built.1.execAll (.recorder .sorted) Command.disposal
    Reached disposed.1 (built.2 ++ disposed.2) ∧ 0 ∈ disposed.1.tables.freedPages ∧
      ∃ (seq : Nat) (b : Block), disposed.1.tables.heap.freed[seq]? = some b ∧
        0 ∈ b.extent.pages := by
  intro built disposed
  have reached : Reached disposed.1 (built.2 ++ disposed.2) :=
    (Reached.built .concurrent Config.default true false).execAll (.notes .sorted)
      Command.disposal
  have marked : disposed.1.tables.freedPages.contains 0 = true := by
    simp only [disposed, Command.disposal, State.execAll, State.exec, State.step, State.allocate,
      Heap.handOut, Heap.overlapping, Heap.touching_eq]
    decide +kernel
  have marked := Std.ExtTreeSet.contains_iff_mem.mp marked
  exact ⟨reached, marked, (Reached.marks_exact reached).2.1 0 marked⟩

end RaceMonitor
