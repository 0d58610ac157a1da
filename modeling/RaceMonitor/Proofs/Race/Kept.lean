import RaceMonitor.Proofs.Engine.Stored
import RaceMonitor.Proofs.Race.Genuine
import RaceMonitor.Proofs.Session.Live

/-! The accesses that freed blocks keep.

A freed block keeps nothing until part of its range is handed out again. Then the last access at
each address that is handed out is moved to it, and nothing is added later, as the next allocation
on its range drops the block (`reissued`). What it keeps is therefore from before the first
allocation on its range, at an address of the block (`kept_before_reissue`). That need not be
before the free: an access in between is one after the free, and may be kept. -/
namespace RaceMonitor

namespace Session

variable {r : Session}

/-- Event `k` allocates a range that overlaps `e`, and allocations are tracked. -/
def Reissues (r : Session) (k : Nat) (e : Extent) : Prop :=
  r.start.config.trackAllocations = true ∧ ∃ tid pc e',
    r.events[k]? = some (.alloc tid pc e'.base e'.size) ∧ e'.size ≠ 0 ∧ e.overlaps e' = true

/-- The last access on record at `x` when event `k` comes. -/
def LastAt (r : Session) (k : Nat) (x : Word) (a : Access) : Prop :=
  ∃ history, (r.state k).tables.shadow[x]? = some history ∧ history.last = some a

/-- What is on record was recorded since the history was last dropped. -/
theorem LastAt.recorded {k : Nat} {x : Word} {a : Access} (h : r.LastAt k x a) :
    ∃ m < k, r.Recorded m x a ∧ ∀ j, m < j → j < k → ¬ r.Wipes j x := by
  obtain ⟨history, found, last⟩ := h
  refine r.kept_recorded k x a ?_
  rw [State.history, found]
  exact History.last_mem last

/-- A live block keeps nothing, and its range has not been handed out again. -/
theorem live_pristine (tracking : r.start.config.trackAllocations = true) {n : Nat} {base : Word}
    {b : Block} (live : (r.heap n).live[base]? = some b) : b.reused = false ∧ b.kept = ∅ := by
  induction n generalizing base b with
  | zero =>
    cases (r.live_zero _).symm.trans live
  | succ n ih =>
    cases liveStep tracking n with
    | same unchanged => exact ih (unchanged ▸ live)
    | allocated tid pc e _ _ inserted =>
      rw [inserted, Table.get_insert] at live
      split at live
      · cases live
        exact ⟨rfl, rfl⟩
      · exact ih live
    | freed tid base' b' _ _ erased =>
      rw [erased, Table.get_erase] at live
      split at live
      · cases live
      · exact ih live

/-! ### What a block comes to keep -/

/-- How the freed block numbered `seq` comes out of event `n`. -/
inductive Passage (r : Session) (n seq : Nat) (b' : Block) : Prop where
  | same (b : Block) (found : (r.heap n).freed[seq]? = some b) (extent : b'.extent = b.extent)
    (reused : b'.reused = b.reused)
    (kept : ∀ (x : Word) (a : Access), b'.kept[x]? = some a → b.kept[x]? = some a)
    (untouched : ¬ r.Reissues n b.extent)
  | reissued (b : Block) (found : (r.heap n).freed[seq]? = some b) (extent : b'.extent = b.extent)
    (reissues : r.Reissues n b.extent) (unused : b.reused = false) (reused : b'.reused = true)
    (kept : ∀ (x : Word) (a : Access), b'.kept[x]? = some a → b.kept[x]? = some a ∨
      (b.extent.overlaps (Extent.ofByte x) = true ∧ r.Wipes n x ∧ r.LastAt n x a))
  | fresh (numbers : r.Numbers n seq) (unused : b'.reused = false) (kept : b'.kept = ∅)

theorem Passage.unchanged {n seq : Nat} {b : Block} (found : (r.heap n).freed[seq]? = some b)
    (untouched : ¬ r.Reissues n b.extent) : r.Passage n seq b :=
  .same b found rfl rfl (fun _ _ kept => kept) untouched

/-- An allocation marks the blocks on its range, and the last accesses move to them. -/
theorem passage_alloc (tracking : r.start.config.trackAllocations = true) {n seq : Nat}
    {tid : ThreadId} {pc : Word} {e : Extent}
    (event : r.events[n]? = some (.alloc tid pc e.base e.size)) {b' : Block}
    (left : (r.heap (n + 1)).freed[seq]? = some b') : r.Passage n seq b' := by
  have issues {e' : Extent} (issued : r.Reissues n e') : e.size ≠ 0 ∧ e'.overlaps e = true := by
    obtain ⟨_, _, _, ⟨base, size⟩, event', nonempty, overlaps⟩ := issued
    have same := Option.some.inj (event.symm.trans event')
    simp only [Event.alloc.injEq] at same
    obtain ⟨_, _, rfl, rfl⟩ := same
    exact ⟨nonempty, overlaps⟩
  by_cases empty : e.size = 0
  · have ignored : r.state (n + 1) = r.state n := by
      rw [state_succ event, State.step, State.allocate, if_pos (by simp [empty])]
    rw [heap, ignored] at left
    exact .unchanged left fun issued => (issues issued).1 empty
  · obtain ⟨l, from_, same⟩ :=
      (r.state n).allocate_heap r.host tid pc ((r.config n).symm ▸ tracking) empty
    rw [heap, state_succ event, State.step, same] at left
    have valid := (r.filtered n).valid
    rcases Heap.keepAll_freed ((Heap.Thinned.handOut _ e).valid valid) l seq with
      ⟨_, none⟩ | ⟨c, _, found, there, ⟨kept, rfl⟩, keeps⟩
    · cases none.symm.trans left
    · cases there.symm.trans left
      rw [Heap.handOut_freed valid (r.pruned n)] at found
      obtain ⟨b, known, handed⟩ := Option.bind_eq_some_iff.mp found
      unfold Block.reissue at handed
      split at handed
      · rename_i overlaps
        obtain ⟨unused, rfl⟩ := Block.handedOut_eq_some.mp handed
        refine .reissued b known rfl ⟨tracking, tid, pc, e, event, empty, overlaps⟩ unused rfl
          fun x a mem => ?_
        rcases keeps x a mem with old | ⟨covers, mem⟩
        · exact .inl old
        · obtain ⟨spans, last⟩ := from_ x a mem
          exact .inr ⟨covers, ⟨tracking, tid, pc, e.base, e.size, event, spans⟩, last⟩
      · rename_i apart
        obtain rfl := Option.some.inj handed
        refine .same b known rfl rfl (fun x a mem => ?_) fun issued => apart (issues issued).2
        rcases keeps x a mem with old | ⟨covers, mem⟩
        · exact old
        · exact absurd (Extent.overlaps_of_common covers (from_ x a mem).1) apart

/-- A free adds a block that keeps nothing. -/
theorem passage_free (tracking : r.start.config.trackAllocations = true) {n seq : Nat}
    {tid : ThreadId} {addr : Word} (event : r.events[n]? = some (.free tid addr))
    (deallocated : Deallocated (r.state n) r.host tid addr (r.state (n + 1))) {b' : Block}
    (left : (r.heap (n + 1)).freed[seq]? = some b') : r.Passage n seq b' := by
  have unissued (e : Extent) : ¬ r.Reissues n e := fun issued => by
    obtain ⟨_, _, _, _, event', _⟩ := issued
    cases event.symm.trans event'
  have fresh := freed_succ tracking left
  rw [heap] at left
  generalize r.state (n + 1) = s' at deallocated left
  rcases deallocated.heap_cases with same | ⟨t, b, _, live, swept⟩
  · rw [same] at left
    exact .unchanged left (unissued _)
  · have buried := Heap.evict_freed _ (swept.freed left)
    rw [Heap.bury_freed] at buried
    split at buried
    · rename_i own
      obtain rfl := Option.some.inj buried
      obtain ⟨unused, none⟩ := live_pristine tracking live
      rcases fresh with ⟨c, found, _⟩ | ⟨numbers, _⟩
      · exact absurd own (Nat.ne_of_lt ((r.filtered n).valid.numbered seq c found))
      · exact .fresh numbers unused none
    · exact .unchanged buried (unissued _)

theorem passage (tracking : r.start.config.trackAllocations = true) {n seq : Nat} {b' : Block}
    (left : (r.heap (n + 1)).freed[seq]? = some b') : r.Passage n seq b' := by
  have unissued (unallocated : ∀ tid pc addr size, r.events[n]? ≠ some (.alloc tid pc addr size))
      (e : Extent) : ¬ r.Reissues n e := fun issued => by
    obtain ⟨_, tid, pc, e', event, _⟩ := issued
    exact unallocated tid pc e'.base e'.size event
  cases event : r.events[n]? with
  | none =>
    rw [heap, state_succ_of_none event] at left
    exact .unchanged left (unissued (by simp [event]) _)
  | some e =>
    have step := remembers event
    generalize r.races n = delivered at step
    generalize hs : r.state (n + 1) = s' at step
    have after : r.heap (n + 1) = s'.tables.heap := by rw [heap, hs]
    cases step with
    | accessed handled =>
      rename_i write tid pc addr size
      subst hs
      have unissued := unissued fun _ _ _ _ he => by
        rw [event] at he
        cases write <;> cases he
      rcases processed_of_handled event handled with ⟨_, tables, _⟩ | ⟨t, processed, accessed⟩
      · rw [heap, tables] at left
        exact .unchanged left (unissued _)
      · rw [heap, accessed.heap] at left
        rcases State.reportUse_cases (r.filtered n) t addr with
          ⟨_, same, _⟩ | ⟨_, seq', b, _, found, _, due⟩
        · rw [same] at left
          exact .unchanged left (unissued _)
        · rw [found, Table.get_insert] at left
          split at left
          · rename_i own
            cases left
            exact .same b (own ▸ due.kept) rfl rfl (fun _ _ kept => kept) (unissued _)
          · exact .unchanged left (unissued _)
    | allocated => exact passage_alloc tracking (e := ⟨_, _⟩) event left
    | freed deallocated =>
      subst hs
      exact passage_free tracking event deallocated left
    | aside _ unallocated aside =>
      rw [after, aside.heap] at left
      exact .unchanged left (unissued (fun _ _ _ _ he =>
        unallocated _ _ _ _ (Option.some.inj (event.symm.trans he))) _)

/-! ### From before the range was handed out again -/

/-- Of the events after `f` and before `n`, event `k` alone hands out part of `e` again. -/
structure OnlyReissue (r : Session) (n f : Nat) (e : Extent) (k : Nat) : Prop where
  after : f < k
  before : k < n
  reissues : r.Reissues k e
  only : ∀ j, f < j → j < n → r.Reissues j e → j = k

/-- A freed block is untouched and keeps nothing, or its range has been handed out again once, and
what it keeps was then the last access on record. -/
theorem reissued (tracking : r.start.config.trackAllocations = true) {n f seq : Nat} {b : Block}
    (numbers : r.Numbers f seq) (found : (r.heap n).freed[seq]? = some b) :
    (b.reused = false ∧ (∀ x : Word, b.kept[x]? = none) ∧
      ∀ k, f < k → k < n → ¬ r.Reissues k b.extent) ∨
    (b.reused = true ∧ ∃ k, r.OnlyReissue n f b.extent k ∧
      ∀ (x : Word) (a : Access), b.kept[x]? = some a →
        b.extent.overlaps (Extent.ofByte x) = true ∧ r.Wipes k x ∧ r.LastAt k x a) := by
  induction n generalizing b with
  | zero =>
    cases (r.freed_zero _).symm.trans found
  | succ n ih =>
    cases passage tracking found with
    | same c there extent reused kept untouched =>
      rw [extent, reused]
      rcases ih there with ⟨unused, none, unissued⟩ | ⟨used, k, only, origin⟩
      · refine .inl ⟨unused, fun x => ?_, fun k after before => ?_⟩
        · refine Option.eq_none_iff_forall_ne_some.mpr fun a mem => ?_
          simpa [none x] using kept x a mem
        · rcases Nat.lt_succ_iff_lt_or_eq.mp before with before | rfl
          · exact unissued k after before
          · exact untouched
      · refine .inr ⟨used, k, ⟨only.after, Nat.lt_succ_of_lt only.before, only.reissues,
          fun j after before issued => ?_⟩, fun x a mem => origin x a (kept x a mem)⟩
        rcases Nat.lt_succ_iff_lt_or_eq.mp before with before | rfl
        · exact only.only j after before issued
        · exact absurd issued untouched
    | reissued c there extent reissues unused reused kept =>
      rw [extent]
      rcases ih there with ⟨_, none, unissued⟩ | ⟨used, _⟩
      · obtain ⟨g, lt, numbers', _⟩ := retained_of_freed tracking there
        obtain rfl := numbers.unique numbers'
        refine .inr ⟨reused, n, ⟨lt, Nat.lt_succ_self n, reissues, fun j after before issued => ?_⟩,
          fun x a mem => (kept x a mem).resolve_left (by simp [none x])⟩
        rcases Nat.lt_succ_iff_lt_or_eq.mp before with before | rfl
        · exact absurd issued (unissued j after before)
        · rfl
      · cases unused.symm.trans used
    | fresh numbers' unused kept =>
      obtain rfl := numbers.unique numbers'
      exact .inl ⟨unused, fun x => by simp [kept], fun k after before =>
        absurd (Nat.lt_succ_iff.mp before) (Nat.not_le.mpr after)⟩

/-- **What a freed block keeps**: at an address of the block, the last access before its range was
handed out again, which has happened once. It is from before the free, unless the address was
accessed in between, after the free. -/
theorem kept_before_reissue {n f : Nat} {b : Block} (retained : r.Retained n f b) {x : Word}
    {a : Access} (kept : b.kept[x]? = some a) :
    b.extent.covers x ∧ ∃ k, r.OnlyReissue n f b.extent k ∧ r.Wipes k x ∧ r.LastAt k x a ∧
      ∃ m < k, r.Recorded m x a ∧ (∀ j, m < j → j < k → ¬ r.Wipes j x) ∧
        ((∀ j, f < j → j < k → ∀ write tid pc size t, ¬ r.Processed j write tid pc x size t) →
          m < f) := by
  obtain ⟨seq, numbers, found⟩ := retained
  rcases reissued numbers.tracking numbers found with ⟨_, none, _⟩ | ⟨_, k, only, origin⟩
  · simp [none x] at kept
  · obtain ⟨covers, wipes, last⟩ := origin x a kept
    obtain ⟨m, lt, recorded, since⟩ := last.recorded
    refine ⟨Extent.covers_of_overlaps covers, k, only, wipes, last, m, lt, recorded, since,
      fun untouched => ?_⟩
    obtain ⟨t, processed, _⟩ := recorded
    rcases Nat.lt_trichotomy m f with before | rfl | after
    · exact before
    · obtain ⟨⟨_, _, event⟩, _⟩ := numbers
      cases write : a.write
      all_goals
        have event' := processed.event
        rw [write] at event'
        cases event.symm.trans event'
    · exact absurd processed (untouched m after lt _ _ _ _ t)

/-- A block is written to, freed, and its range allocated again. -/
def recycled : Session :=
  .default [.alloc 1 1 256 8, .write 2 2 256 8, .free 1 256, .alloc 1 3 256 8]

theorem kept_before_reissue_recycled : ∃ b a, recycled.Retained 4 2 b ∧
    b.kept[(256 : Word)]? = some a ∧ b.extent.covers 256 ∧
    ∃ m < 2, recycled.Recorded m 256 a := by
  obtain ⟨block, number, taken⟩ :
      ((recycled.heap 4).freed[0]?.any fun b => b.kept.contains 256) = true ∧
      (recycled.heap 2).nextSeq = 0 ∧ (recycled.heap 3).nextSeq = 1 := by
    simp only [recycled, heap, state, Session.default, host, List.take, State.run, State.step,
      State.allocate, Heap.handOut, Heap.keep, State.access, State.accessBy, State.reportUse,
      Heap.reportUse, Heap.unreported, Heap.overlapping, Heap.touching_eq]
    decide +kernel
  have numbers : recycled.Numbers 2 0 := ⟨⟨1, 256, rfl⟩, number, taken⟩
  obtain ⟨b, found, keeps⟩ := (Option.any_eq_true _ _).mp block
  obtain ⟨a, kept⟩ := Table.mem_iff_exists.mp (Std.ExtTreeMap.mem_iff_contains.mpr keeps)
  have retained : recycled.Retained 4 2 b := ⟨0, numbers, found⟩
  obtain ⟨covers, k, only, _, _, m, _, recorded, _, early⟩ := kept_before_reissue retained kept
  have between (j : Nat) (after : 2 < j) (before : j < k) : False := by
    have := only.before
    omega
  exact ⟨b, a, retained, kept, covers, m, early fun j after before => (between j after before).elim,
    recorded⟩

/-- The same, with another write after the free. -/
def overwritten : Session :=
  .default [.alloc 1 1 256 8, .write 1 2 256 8, .free 1 256, .write 2 3 256 8, .alloc 1 4 256 8]

/-- What the block keeps is the write after the free. -/
theorem overwritten_keeps : ∃ b a, overwritten.Retained 5 2 b ∧ b.kept[(256 : Word)]? = some a ∧
    ∀ m, overwritten.Recorded m 256 a → 2 < m := by
  obtain ⟨block, number, taken⟩ : ((overwritten.heap 5).freed[0]?.any fun b =>
      b.kept[(256 : Word)]?.any fun a => a.tid == 2) = true ∧
      (overwritten.heap 2).nextSeq = 0 ∧ (overwritten.heap 3).nextSeq = 1 := by
    simp only [overwritten, heap, state, Session.default, host, List.take, State.run, State.step,
      State.allocate, Heap.handOut, Heap.keep, State.access, State.accessBy, State.reportUse,
      Heap.reportUse, Heap.unreported, Heap.overlapping, Heap.touching_eq]
    decide +kernel
  have numbers : overwritten.Numbers 2 0 := ⟨⟨1, 256, rfl⟩, number, taken⟩
  obtain ⟨b, found, keeps⟩ := (Option.any_eq_true _ _).mp block
  obtain ⟨a, kept, thread⟩ := (Option.any_eq_true _ _).mp keeps
  have thread : a.tid = 2 := by simpa using thread
  refine ⟨b, a, ⟨0, numbers, found⟩, kept, fun m recorded => ?_⟩
  obtain ⟨_, processed, _⟩ := recorded
  have actor : overwritten.actor? m = some 2 := thread ▸ processed.touches.actor
  rcases m with _ | _ | _ | m
  · exact absurd actor (by decide)
  · exact absurd actor (by decide)
  · exact absurd actor (by decide)
  · omega

end Session

end RaceMonitor
