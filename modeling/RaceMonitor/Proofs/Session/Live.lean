import RaceMonitor.Proofs.Heap.Live
import RaceMonitor.Proofs.Session.Frees

/-! Live blocks in a session.

A host that allocates only what it does not hold leaves no address in two live blocks, as long as
its frees arrive. An allocation is entered for any thread, but a free only for one that is
tracked: the free of another is dropped, its block stays behind, and the host may well allocate
the same addresses again. Nothing else makes live blocks overlap (`overlap_leaked`), and nothing
else hides a live block from the look-up of an address (`live_disjoint`). -/
namespace RaceMonitor

theorem Extent.contains_iff {e : Extent} {a : Word} : e.contains a = true ↔ e.covers a := by
  simp only [contains, covers, Bool.and_eq_true, decide_eq_true_eq, UInt64.le_iff_toNat_le,
    UInt64.lt_iff_toNat_lt]
  refine and_congr_right fun le => ?_
  rw [UInt64.toNat_sub_of_le _ _ (UInt64.le_iff_toNat_le.mpr le)]
  omega

theorem Extent.covers_of_overlaps {e : Extent} {x : Word} (h : e.overlaps (ofByte x) = true) :
    e.covers x := by
  obtain ⟨ge, lt⟩ := overlaps_ofByte.mp h
  rw [UInt64.lt_iff_toNat_lt, limit, Word.toNat_addSat] at lt
  exact ⟨UInt64.le_iff_toNat_le.mp ge, by omega⟩

/-- A range that is not empty covers its first address. -/
theorem Extent.covers_base {e : Extent} (nonempty : e.size ≠ 0) : e.covers e.base := by
  have : e.size.toNat ≠ 0 := fun zero => nonempty (UInt64.toNat_inj.mp zero)
  exact ⟨Nat.le_refl _, by omega⟩

theorem Extent.nonempty_of_covers {e : Extent} {x : Word} (covers : e.covers x) : e.size ≠ 0 := by
  obtain ⟨ge, lt⟩ := covers
  intro empty
  rw [empty, UInt64.toNat_zero] at lt
  omega

namespace Session

variable {r : Session}

/-- Event `i` allocates the range `e`. -/
def Allocates (r : Session) (i : Nat) (e : Extent) : Prop :=
  ∃ tid pc, r.events[i]? = some (.alloc tid pc e.base e.size)

/-- Event `j` frees what starts at `base`. -/
def Frees (r : Session) (j : Nat) (base : Word) : Prop :=
  ∃ tid, r.events[j]? = some (.free tid base)

/-- When event `n` comes, the host holds the range `e`: it has been allocated, and not freed
since. -/
def Holds (r : Session) (n : Nat) (e : Extent) : Prop :=
  ∃ i < n, r.Allocates i e ∧ ∀ j, i < j → j < n → ¬ r.Frees j e.base

/-- Each range that the host allocates is not empty, and disjoint from all that it holds. -/
def WellBehaved (r : Session) : Prop :=
  ∀ n e, r.Allocates n e → e.size ≠ 0 ∧ ∀ e', r.Holds n e' → ∀ x, e.covers x → ¬ e'.covers x

/-- Event `j` frees what starts at `base`, by a thread that is not tracked: it is dropped. -/
def Drops (r : Session) (j : Nat) (base : Word) : Prop :=
  ∃ tid, r.events[j]? = some (.free tid base) ∧ tid ∉ (r.state (j + 1)).tables.threads

/-- The host has freed the range `e` before event `n`, and that free was dropped. -/
def Leaked (r : Session) (n : Nat) (e : Extent) : Prop :=
  ∃ i j, i < j ∧ j < n ∧ r.Allocates i e ∧ r.Drops j e.base

/-! ### Where live blocks come from -/

/-- What event `n` makes of the live blocks. -/
inductive LiveStep (r : Session) (n : Nat) : Prop where
  | same (live : (r.heap (n + 1)).live = (r.heap n).live)
    (frees : ∀ base, r.Frees n base → (r.heap n).live[base]? = none ∨ r.Drops n base)
  | allocated (tid : ThreadId) (pc : Word) (e : Extent) (nonempty : e.size ≠ 0)
    (event : r.events[n]? = some (.alloc tid pc e.base e.size))
    (live : (r.heap (n + 1)).live = (r.heap n).live.insert e.base (Block.new tid pc e))
  | freed (tid : ThreadId) (base : Word) (b : Block)
    (event : r.events[n]? = some (.free tid base)) (there : (r.heap n).live[base]? = some b)
    (live : (r.heap (n + 1)).live = (r.heap n).live.erase b.extent.base)

theorem liveStep (tracking : r.start.config.trackAllocations = true) (n : Nat) : r.LiveStep n := by
  cases event : r.events[n]? with
  | none => exact .same (by rw [heap, state_succ_of_none event, heap]) (by simp [Frees, event])
  | some e =>
    have other (unfreed : ∀ tid base, e ≠ .free tid base) :
        ∀ base, r.Frees n base → (r.heap n).live[base]? = none ∨ r.Drops n base := by
      intro base frees
      obtain ⟨tid, event'⟩ := frees
      exact absurd (Option.some.inj (event.symm.trans event')) (unfreed tid base)
    have step := remembers event
    generalize r.races n = delivered at step
    generalize hs : r.state (n + 1) = s' at step
    have after : r.heap (n + 1) = s'.tables.heap := by rw [heap, hs]
    cases step with
    | accessed handled =>
      rename_i write tid pc addr size
      subst hs
      refine .same ?_ (other fun _ _ he => by cases write <;> cases he)
      rcases processed_of_handled event handled with ⟨_, tables, _⟩ | ⟨t, processed, accessed⟩
      · rw [heap, tables, heap]
      · obtain ⟨_, marked, _⟩ := accessed.marked (r.filtered n)
        rw [heap, marked, heap]
    | allocated allocated =>
      rename_i tid pc addr size
      have live := allocated.live_eq
      rw [r.config, ← after] at live
      split at live
      · rename_i takes
        exact .allocated tid pc ⟨addr, size⟩ takes.2 event live
      · exact .same live (other (by simp))
    | freed deallocated =>
      rename_i tid addr
      cases deallocated with
      | ignored why => simp [r.config, tracking] at why
      | refused missing _ _ _ tables =>
        refine .same (by rw [after, tables, heap]) fun base frees => .inr ?_
        obtain ⟨tid', event'⟩ := frees
        cases Option.some.inj (event.symm.trans event')
        exact ⟨tid, event, by rw [hs, tables]; exact missing⟩
      | fault t s₁ enter missing _ _ _ tables =>
        refine .same (by rw [after, tables, enter.sameMemory.heap, heap]) fun base frees => .inl ?_
        obtain ⟨tid', event'⟩ := frees
        cases Option.some.inj (event.symm.trans event')
        exact missing
      | freed _ t s₁ enter b live gone heap' blocks _ swept =>
        refine .freed tid addr b event live ?_
        have buried : heap'.live = (r.heap n).live.erase b.extent.base := by
          rw [blocks, Heap.evict_live]
          rfl
        rw [after, ← buried]
        rcases swept with rfl | rfl
        · rfl
        · exact Heap.dropObserved_live ..
    | aside _ unallocated aside =>
      refine .same (by rw [after, aside.heap, heap]) (other fun tid base he => ?_)
      subst he
      rename_i other
      cases other

/-- A live block: it starts at `base`, event `i` has allocated it, and no free of it since has
arrived. -/
structure Origin (r : Session) (n : Nat) (base : Word) (b : Block) (i : Nat) : Prop where
  keyed : b.extent.base = base
  nonempty : b.extent.size ≠ 0
  before : i < n
  allocates : r.Allocates i b.extent
  dropped : ∀ j, i < j → j < n → r.Frees j base → r.Drops j base

theorem Origin.succ {n i : Nat} {base : Word} {b : Block} (h : r.Origin n base b i)
    (missed : r.Frees n base → r.Drops n base) : r.Origin (n + 1) base b i where
  keyed := h.keyed
  nonempty := h.nonempty
  before := Nat.lt_succ_of_lt h.before
  allocates := h.allocates
  dropped j lt le frees := by
    rcases Nat.lt_succ_iff_lt_or_eq.mp le with lt' | rfl
    · exact h.dropped j lt lt' frees
    · exact missed frees

theorem live_origin (tracking : r.start.config.trackAllocations = true) {n : Nat} {base : Word}
    {b : Block} (live : (r.heap n).live[base]? = some b) : ∃ i, r.Origin n base b i := by
  induction n generalizing base b with
  | zero =>
    cases (r.live_zero _).symm.trans live
  | succ n ih =>
    cases liveStep tracking n with
    | same unchanged frees =>
      rw [unchanged] at live
      obtain ⟨i, origin⟩ := ih live
      refine ⟨i, origin.succ fun missed => ?_⟩
      exact (frees base missed).resolve_left (by simp [live])
    | allocated tid pc e nonempty event inserted =>
      rw [inserted, Table.get_insert] at live
      split at live
      · rename_i own
        cases live
        exact ⟨n, own.symm, nonempty, Nat.lt_succ_self n, ⟨tid, pc, event⟩, fun j lt le =>
          absurd (Nat.lt_succ_iff.mp le) (Nat.not_le.mpr lt)⟩
      · obtain ⟨i, origin⟩ := ih live
        refine ⟨i, origin.succ fun missed => ?_⟩
        obtain ⟨tid', event'⟩ := missed
        cases Option.some.inj (event.symm.trans event')
    | freed tid base' b' event there erased =>
      obtain ⟨_, origin'⟩ := ih there
      rw [erased, origin'.keyed, Table.get_erase] at live
      split at live
      · cases live
      · rename_i other
        obtain ⟨i, origin⟩ := ih live
        refine ⟨i, origin.succ fun missed => ?_⟩
        obtain ⟨tid', event'⟩ := missed
        cases Option.some.inj (event.symm.trans event')
        exact absurd rfl other

/-! ### Disjointness -/

/-- Of two live blocks with a common address the one allocated first is leaked. -/
theorem Origin.leaked (behaved : r.WellBehaved) {n i i' : Nat} {base base' : Word} {b b' : Block}
    (first : r.Origin n base b i) (second : r.Origin n base' b' i') (lt : i < i') {x : Word}
    (covers : b.extent.covers x) (covers' : b'.extent.covers x) : r.Leaked n b.extent := by
  obtain ⟨_, apart⟩ := behaved i' b'.extent second.allocates
  have released : ¬ r.Holds i' b.extent := fun holds => apart b.extent holds x covers' covers
  have freed : ∃ j, i < j ∧ j < i' ∧ r.Frees j b.extent.base := by
    by_contra none
    refine released ⟨i, lt, first.allocates, fun j lt lt' frees => none ⟨j, lt, lt', frees⟩⟩
  obtain ⟨j, after, before, frees⟩ := freed
  have early := Nat.lt_trans before second.before
  exact ⟨i, j, after, early, first.allocates,
    first.keyed ▸ first.dropped j after early (first.keyed ▸ frees)⟩

/-- Two live blocks with a common address: the free of one of them has been dropped. -/
theorem overlap_leaked (tracking : r.start.config.trackAllocations = true)
    (behaved : r.WellBehaved) {n : Nat} {base base' : Word} {b b' : Block}
    (live : (r.heap n).live[base]? = some b) (live' : (r.heap n).live[base']? = some b')
    (other : base ≠ base') {x : Word} (covers : b.extent.covers x) (covers' : b'.extent.covers x) :
    r.Leaked n b.extent ∨ r.Leaked n b'.extent := by
  obtain ⟨i, origin⟩ := live_origin tracking live
  obtain ⟨i', origin'⟩ := live_origin tracking live'
  rcases Nat.lt_trichotomy i i' with lt | rfl | gt
  · exact .inl (origin.leaked behaved origin' lt covers covers')
  · obtain ⟨tid, pc, event⟩ := origin.allocates
    obtain ⟨tid', pc', event'⟩ := origin'.allocates
    have same := Option.some.inj (event.symm.trans event')
    simp only [Event.alloc.injEq] at same
    exact absurd (origin.keyed.symm.trans (same.2.2.1.trans origin'.keyed)) other
  · exact .inr (origin'.leaked behaved origin gt covers' covers)

/-- **Live blocks of a well-behaved host**: no two of them have an address in common, unless the
free of one of them has been dropped; and the block around an address is found if there is a live
one, unless the free of that or of one that starts inside it has been dropped. -/
theorem live_disjoint (tracking : r.start.config.trackAllocations = true)
    (behaved : r.WellBehaved) (n : Nat) :
    (∀ (base base' : Word) (b b' : Block) (x : Word),
      (r.heap n).live[base]? = some b → (r.heap n).live[base']? = some b' → base ≠ base' →
      b.extent.covers x → b'.extent.covers x → r.Leaked n b.extent ∨ r.Leaked n b'.extent) ∧
    ∀ (base : Word) (b : Block) (x : Word),
      (r.heap n).live[base]? = some b → b.extent.covers x →
      (r.state n).blockAt x = some b.extent ∨ r.Leaked n b.extent ∨
        ∃ (base' : Word) (b' : Block), (r.heap n).live[base']? = some b' ∧
          b.extent.covers base' ∧ r.Leaked n b'.extent := by
  refine ⟨fun base base' b b' x live live' other covers covers' =>
    overlap_leaked tracking behaved live live' other covers covers', fun base b x live covers => ?_⟩
  obtain ⟨i, origin⟩ := live_origin tracking live
  have le : base ≤ x := UInt64.le_iff_toNat_le.mpr (origin.keyed ▸ covers.1)
  obtain ⟨base', b', live', ge, le', found⟩ := Heap.blockAt_nearest live le
  by_cases own : base = base'
  · subst own
    obtain rfl : b = b' := Option.some.inj (live.symm.trans live')
    rw [if_pos (Extent.contains_iff.mpr covers)] at found
    refine .inl ?_
    rw [State.blockAt, r.config, tracking]
    exact found
  · -- The nearest block starts inside the one that covers the address.
    obtain ⟨i', origin'⟩ := live_origin tracking live'
    have inside : b.extent.covers base' := by
      have ge := UInt64.le_iff_toNat_le.mp ge
      have le' := UInt64.le_iff_toNat_le.mp le'
      have keyed := congrArg UInt64.toNat origin.keyed
      exact ⟨by omega, Nat.lt_of_le_of_lt le' covers.2⟩
    have starts : b'.extent.covers base' := origin'.keyed ▸ Extent.covers_base origin'.nonempty
    rcases overlap_leaked tracking behaved live live' own inside starts with leaked | leaked
    · exact .inr (.inl leaked)
    · exact .inr (.inr ⟨base', b', live', inside, leaked⟩)

/-- Two blocks side by side. -/
def adjacent : Session := .default [.alloc 1 1 256 8, .alloc 2 2 264 8]

theorem adjacent_behaved : adjacent.WellBehaved := by
  have ranges {i : Nat} {e : Extent} (allocates : adjacent.Allocates i e) :
      i = 0 ∧ e = ⟨256, 8⟩ ∨ i = 1 ∧ e = ⟨264, 8⟩ := by
    obtain ⟨tid, pc, event⟩ := allocates
    obtain ⟨base, size⟩ := e
    rcases i with _ | _ | i
    all_goals simp [adjacent, Session.default] at event
    · exact .inl ⟨rfl, by rw [event.2.2.1, event.2.2.2]⟩
    · exact .inr ⟨rfl, by rw [event.2.2.1, event.2.2.2]⟩
  intro n e allocates
  rcases ranges allocates with ⟨rfl, rfl⟩ | ⟨rfl, rfl⟩
  · exact ⟨by decide, fun e' holds => by
      obtain ⟨_, lt, _⟩ := holds
      exact absurd lt (Nat.not_lt_zero _)⟩
  · refine ⟨by decide, fun e' holds x covers covers' => ?_⟩
    obtain ⟨i, lt, allocates', _⟩ := holds
    rcases ranges allocates' with ⟨rfl, rfl⟩ | ⟨rfl, rfl⟩
    · have below : x.toNat < 256 + 8 := covers'.2
      have above : 264 ≤ x.toNat := covers.1
      omega
    · exact absurd lt (Nat.lt_irrefl 1)

theorem live_disjoint_adjacent : adjacent.start.config.trackAllocations = true ∧
    adjacent.WellBehaved ∧ (adjacent.state 2).blockAt 264 = some ⟨264, 8⟩ := by
  have live : ((adjacent.heap 2).live[(264 : Word)]?.any fun b => b.extent == ⟨264, 8⟩) = true := by
    simp only [adjacent, heap, state, Session.default, host, List.take, State.run, State.step,
      State.allocate, Heap.handOut, Heap.overlapping, Heap.touching_eq]
    decide +kernel
  obtain ⟨b, live, extent⟩ := (Option.any_eq_true _ _).mp live
  have extent : b.extent = ⟨264, 8⟩ := by simpa using extent
  have unleaked (e : Extent) : ¬ adjacent.Leaked 2 e := fun leaked => by
    obtain ⟨_, j, _, lt, _, _, event, _⟩ := leaked
    rcases j with _ | _ | j
    · cases event
    · cases event
    · omega
  obtain ⟨_, found⟩ := live_disjoint (r := adjacent) rfl adjacent_behaved 2
  have covers : b.extent.covers 264 := Extent.contains_iff.mp (by rw [extent]; decide)
  rcases found 264 b 264 live covers with block | leaked | ⟨_, _, _, _, leaked⟩
  · exact ⟨rfl, adjacent_behaved, extent ▸ block⟩
  · exact absurd leaked (unleaked _)
  · exact absurd leaked (unleaked _)

/-- With room for one thread only, another one frees a block, and a part of its range is allocated
again. -/
def leaky : Session :=
  .under { Config.default with maxThreads := 1 }
    [.read 1 1 8 8, .alloc 1 2 256 32, .free 2 256, .alloc 1 3 264 4]

theorem leaky_behaved : leaky.WellBehaved := by
  have ranges {i : Nat} {e : Extent} (allocates : leaky.Allocates i e) :
      i = 1 ∧ e = ⟨256, 32⟩ ∨ i = 3 ∧ e = ⟨264, 4⟩ := by
    obtain ⟨tid, pc, event⟩ := allocates
    obtain ⟨base, size⟩ := e
    rcases i with _ | _ | _ | _ | i
    all_goals simp [leaky, Session.under] at event
    · exact .inl ⟨rfl, by rw [event.2.2.1, event.2.2.2]⟩
    · exact .inr ⟨rfl, by rw [event.2.2.1, event.2.2.2]⟩
  intro n e allocates
  rcases ranges allocates with ⟨rfl, rfl⟩ | ⟨rfl, rfl⟩
  · refine ⟨by decide, fun e' holds => ?_⟩
    obtain ⟨i, lt, allocates', _⟩ := holds
    rcases ranges allocates' with ⟨rfl, _⟩ | ⟨rfl, _⟩ <;> omega
  · refine ⟨by decide, fun e' holds => ?_⟩
    obtain ⟨i, lt, allocates', unfreed⟩ := holds
    rcases ranges allocates' with ⟨rfl, rfl⟩ | ⟨rfl, rfl⟩
    · exact absurd ⟨2, rfl⟩ (unfreed 2 (by decide) (by decide))
    · omega

/-- The dropped free leaves a block behind: it overlaps the later one, which hides it. -/
theorem leaky_overlap : leaky.start.config.trackAllocations = true ∧ leaky.WellBehaved ∧
    ∃ b b', (leaky.heap 4).live[(256 : Word)]? = some b ∧
      (leaky.heap 4).live[(264 : Word)]? = some b' ∧
      b.extent.covers 264 ∧ b'.extent.covers 264 ∧
      b.extent.covers 272 ∧ (leaky.state 4).blockAt 272 = none := by
  have after : ((leaky.heap 4).live[(256 : Word)]?.any fun b => b.extent == ⟨256, 32⟩) = true ∧
      ((leaky.heap 4).live[(264 : Word)]?.any fun b => b.extent == ⟨264, 4⟩) = true ∧
      (leaky.state 4).blockAt 272 = none := by
    simp only [leaky, heap, state, Session.under, host, List.take, State.run, State.step,
      State.allocate, Heap.handOut, Heap.overlapping, State.access, State.accessBy,
      State.reportUse, Heap.reportUse, Heap.unreported, Heap.touching_eq]
    decide +kernel
  obtain ⟨live, live', hidden⟩ := after
  obtain ⟨b, live, extent⟩ := (Option.any_eq_true _ _).mp live
  obtain ⟨b', live', extent'⟩ := (Option.any_eq_true _ _).mp live'
  have extent : b.extent = ⟨256, 32⟩ := by simpa using extent
  have extent' : b'.extent = ⟨264, 4⟩ := by simpa using extent'
  refine ⟨rfl, leaky_behaved, b, b', live, live', ?_, ?_, ?_, hidden⟩
  · exact Extent.contains_iff.mp (by rw [extent]; decide)
  · exact Extent.contains_iff.mp (by rw [extent']; decide)
  · exact Extent.contains_iff.mp (by rw [extent]; decide)

end Session

end RaceMonitor
