import Mathlib.Data.List.Induction
import RaceMonitor.Proofs.Engine.Enumeration
import RaceMonitor.Proofs.Engine.Filtered
import RaceMonitor.Proofs.Engine.Reached
import RaceMonitor.Proofs.Order.Turns

/-! What a sweep drops, and that it is no loss.

A sweep is part of a free. It drops the freed blocks whose free all live threads have observed, and
no others: the floor of their clocks has observed what each of them has. Whoever has observed a free
has done so for good, and so have the threads that they fork (`State.lineage_versed`). So an access
by one of these will never be a use after free of a block that is gone (`Sweepable.sweep_exact`). -/
namespace RaceMonitor

/-! ### Dates -/

namespace Heap

/-- The free of each block is on record, by a thread whose time had begun. -/
def Dated (h : Heap) : Prop :=
  ∀ (seq : Nat) (b : Block), h.freed[seq]? = some b →
    ∃ e : Epoch, b.freedAt = some e ∧ 1 ≤ e.clock.toNat

namespace Dated

variable {h h' : Heap}

theorem empty (maxFreed : Word) (nextSeq : Nat) : (Heap.empty maxFreed nextSeq).Dated :=
  fun _ _ found => by simp [Heap.empty] at found

theorem thinned (dated : h.Dated) (thinned : h.Thinned h') : h'.Dated := by
  intro seq b' found'
  obtain ⟨b, found, _, _, rfl⟩ := thinned.kept seq b' found'
  exact dated seq b found

theorem of_core (dated : h.Dated) (same : ∀ i, h'.core i = h.core i) : h'.Dated := by
  intro seq b' found'
  obtain ⟨b, found, core⟩ := core_eq_some.mp
    ((same seq).symm.trans (core_eq_some.mpr ⟨b', found', rfl⟩))
  obtain ⟨e, freedAt, begun⟩ := dated seq b found
  refine ⟨e, ?_, begun⟩
  rw [← b'.core_freedAt, ← core, b.core_freedAt, freedAt]

theorem bury (dated : h.Dated) (b : Block) {epoch : Epoch} (begun : 1 ≤ epoch.clock.toNat) :
    (h.bury b epoch).Dated := by
  intro seq c found
  rw [bury_freed] at found
  split at found
  · cases found
    exact ⟨epoch, rfl, begun⟩
  · exact dated seq c found

theorem free (dated : h.Dated) {base : Word} {epoch : Epoch}
    (begun : 1 ≤ epoch.clock.toNat) {freed : Freed} (done : h.free base epoch = .ok (freed, h')) :
    h'.Dated := by
  unfold Heap.free at done
  split at done
  · rename_i b live
    cases done
    exact (dated.bury b begun).thinned (.evict _)
  · split at done <;> cases done

end Dated

end Heap

namespace Tables

/-- The clocks are in order, and the frees of the blocks that are kept have a place in time. -/
structure Timed (t : Tables) : Prop where
  tidy : t.Tidy
  sound : t.board.Sound none
  dated : t.heap.Dated

theorem Timed.empty (maxFreed : Word) (nextSeq : Nat) : (Tables.empty maxFreed nextSeq).Timed :=
  ⟨.empty _ _, empty_sound _ _, .empty _ _⟩

/-- The time of a live thread has begun. -/
theorem Tidy.begun {t : Tables} (tidy : t.Tidy) (sound : t.board.Sound none) {tid : ThreadId}
    {th : Thread} (there : t.threads[tid]? = some th) : 1 ≤ th.epoch.clock.toNat := by
  have started := sound.started tid (Table.mem_iff_exists.mpr ⟨th, there⟩)
  simpa only [board, clockAt_thread there, Thread.epoch, VectorClock.epoch,
    tidy.keyed tid th there] using started

end Tables

namespace State

variable {s : State} {h : Host}

theorem step_timed (quiet : h.Quiet) (filtered : s.tables.Filtered) (timed : s.tables.Timed)
    (e : Event) : (s.step h e).1.tables.Timed := by
  obtain ⟨tidy, b, admits, turn⟩ := State.turned quiet timed.tidy timed.sound e
  have sound := (timed.sound.admits admits).turn turn
  refine ⟨tidy, sound, ?_⟩
  have step := s.step_remembers quiet e
  generalize (s.step h e).1 = s' at step tidy sound
  generalize races (s.step h e).2 = delivered at step
  cases step with
  | accessed handled =>
    cases handled with
    | refused _ _ _ _ tables => exact tables ▸ timed.dated
    | entered t s₁ _ _ _ _ accessed =>
      obtain ⟨_, _, same⟩ := accessed.marked filtered
      exact timed.dated.of_core same
  | allocated allocated => exact timed.dated.thinned allocated.thinned.heap
  | freed deallocated =>
    rcases deallocated.disposed with thinned | ⟨t, b, there, _, thinned⟩
    · exact timed.dated.thinned thinned.heap
    · exact (timed.dated.bury b (tidy.begun sound there)).thinned thinned.heap
  | aside _ _ aside => exact aside.heap ▸ timed.dated

end State

theorem Reached.timed {s : State} {out : List Output} (reached : Reached s out) :
    s.tables.Timed :=
  (reached.tables (P := fun t => t.Filtered ∧ t.Timed)
    { empty := fun maxFreed nextSeq => ⟨.empty maxFreed nextSeq, .empty maxFreed nextSeq⟩
      step := fun s order e ⟨filtered, timed⟩ =>
        ⟨s.step_filtered (Host.recorder_quiet order) filtered e,
          s.step_timed (Host.recorder_quiet order) filtered timed e⟩ }).2

/-! ### Sweeps -/

/-- Everyone live has observed the free of the block. Someone is live whenever an engine sweeps, the
thread that frees. Without anyone nothing counts as observed: the floor is then the empty clock. -/
def State.Observed (s : State) (b : Block) : Prop :=
  (∃ tid, tid ∈ s.tables.threads) ∧
    ∀ (tid : ThreadId) (t : Thread), s.tables.threads[tid]? = some t →
      ∃ e : Epoch, b.freedAt = some e ∧ e.observedBy t.clock = true

/-- States that a sweep may start from: those that an engine gets to, and those in the midst of a
free, after the block has moved to the freed ones and the oldest have gone. -/
inductive Sweepable : State → Prop where
  | reached {s : State} {out : List Output} (reached : Reached s out) : Sweepable s
  | freeing {s s₁ : State} {out notes : List Output} (reached : Reached s out) {tid : ThreadId}
    {t : Thread} (admitted : s.thread tid = (some t, s₁, notes)) {addr : Word} {freed : Freed}
    {heap : Heap} (done : s₁.tables.heap.free addr t.epoch = .ok (freed, heap)) :
    Sweepable (s₁.withTables
      (((s₁.tables.putHeap heap).markPages freed.block).unmarkPages freed.evicted))

/-- The clocks and frees are in order there. -/
theorem Sweepable.timed {s : State} (sweepable : Sweepable s) : s.tables.Timed := by
  cases sweepable with
  | reached reached => exact reached.timed
  | @freeing s s₁ out notes reached tid t admitted addr freed heap done =>
    have timed := reached.timed
    have enter := State.thread_entered admitted
    have tidy := enter.tidy timed.tidy
    have sound := timed.sound.admits enter.admits
    have dated : s₁.tables.heap.Dated := enter.sameMemory.heap ▸ timed.dated
    have same : s₁.tables.SameClocks (((s₁.tables.putHeap heap).markPages
      freed.block).unmarkPages freed.evicted) := .of_eq rfl rfl rfl rfl
    exact ⟨same.tidy tidy, same.board.symm ▸ sound,
      dated.free (tidy.begun sound enter.there) done⟩

namespace State

variable {s : State}

/-- The floor of the clocks has observed the frees that everyone has. -/
theorem observed_iff (dated : s.tables.heap.Dated) (order : Enumeration) {seq : Nat} {b : Block}
    (found : s.tables.heap.freed[seq]? = some b) :
    (b.freedAt.any fun e => e.observedBy (s.tables.floor order)) = true ↔ s.Observed b := by
  obtain ⟨e, freedAt, begun⟩ := dated seq b found
  simp only [Observed, freedAt, Option.any_some, Option.some.injEq, exists_eq_left']
  by_cases live : ∃ tid, tid ∈ s.tables.threads
  · obtain ⟨tid, there⟩ := live
    rw [Tables.observedBy_floor order there]
    exact (and_iff_right ⟨tid, there⟩).symm
  · rw [Tables.floor_of_none order fun tid there => live ⟨tid, there⟩]
    refine iff_of_false (fun observed => ?_) fun all => live all.1
    have nothing := Epoch.observedBy_iff.mp observed
    simp only [VectorClock.get_empty, UInt32.toNat_zero] at nothing
    omega

theorem sweep_freed (dated : s.tables.heap.Dated) (h : Host) (seq : Nat) (b : Block) :
    (s.sweep h).1.tables.heap.freed[seq]? = some b ↔
      s.tables.heap.freed[seq]? = some b ∧ ¬ s.Observed b := by
  have left : (s.sweep h).1.tables.heap.freed[seq]? = _ :=
    s.tables.heap.dropObserved_freed (s.tables.floor h.order) seq
  rw [left, Option.filter_eq_some_iff]
  refine and_congr_right fun found => ?_
  rw [Bool.not_eq_true', ← Bool.not_eq_true, observed_iff dated h.order found]

/-! ### Lineage -/

/-- The threads that are live in `s`, and those forked by one of them, or by one so forked, as the
events come. -/
inductive Lineage (s : State) (h : Host) : List Event → ThreadId → Prop where
  | live (es : List Event) (tid : ThreadId) (live : tid ∈ s.tables.threads) : Lineage s h es tid
  | forked (before after : List Event) (parent child : ThreadId)
    (accepts : (s.run h before).1.Accepts h (.fork parent child))
    (older : Lineage s h before parent) : Lineage s h (before ++ .fork parent child :: after) child

/-- Before any event it is the threads that are live. -/
theorem Lineage.of_nil {h : Host} {tid : ThreadId} (lineage : s.Lineage h [] tid) :
    tid ∈ s.tables.threads := by
  generalize none : ([] : List Event) = es at lineage
  cases lineage with
  | live _ _ live => exact live
  | forked before => simp at none

/-- With one more event, the lineage gains the child that it forks, if any. -/
theorem Lineage.of_concat {h : Host} {es : List Event} {e : Event} {tid : ThreadId}
    (lineage : s.Lineage h (es ++ [e]) tid) : s.Lineage h es tid ∨
      ∃ p, s.Lineage h es p ∧ (s.run h es).1.Makes h e (.fork p tid) := by
  generalize split : es ++ [e] = l at lineage
  cases lineage with
  | live _ _ live => exact .inl (.live es tid live)
  | forked before after p c accepts older =>
    rcases List.eq_nil_or_concat after with rfl | ⟨after, last, rfl⟩
    · obtain ⟨rfl, rfl⟩ := List.append_inj' split rfl |>.imp id List.head_eq_of_cons_eq
      exact .inr ⟨p, older, .fork accepts⟩
    · have split : es ++ [e] = (before ++ .fork p tid :: after) ++ [last] := by simpa using split
      obtain ⟨rfl, _⟩ := List.append_inj' split rfl
      exact .inl (.forked before after p tid accepts older)

/-- What all threads that are live in `s` know is known to their lineage for good. -/
theorem lineage_versed {h : Host} (quiet : h.Quiet) (tidy : s.tables.Tidy)
    (sound : s.tables.board.Sound none) {u : ThreadId} {c : Nat}
    (all : ∀ tid, s.tables.board.live tid → c ≤ s.tables.board.known (.thread tid) u)
    (es : List Event) : (s.run h es).1.tables.Tidy ∧ (s.run h es).1.tables.board.Sound none ∧
      (s.run h es).1.tables.board.Versed (s.Lineage h es) u c := by
  induction es using List.reverseRecOn with
  | nil =>
    refine ⟨tidy, sound, fun tid lineage => ?_⟩
    exact ⟨fun unborn => unborn.1 lineage.of_nil, all tid⟩
  | append_singleton es e ih =>
    obtain ⟨tidy, sound, versed⟩ := ih
    obtain ⟨tidy', b, admits, turn⟩ := State.turned quiet tidy sound e
    have sound' := sound.admits admits
    have run : (s.run h (es ++ [e])).1 = ((s.run h es).1.step h e).1 := by
      rw [run_append]
      rfl
    rw [run]
    exact ⟨tidy', sound'.turn turn,
      ((versed.admits admits).turn sound' turn).of_imp fun tid lineage => lineage.of_concat⟩

end State

/-- **A sweep drops exactly the frees that everyone has observed, and for them and their lineage
that is final.** Other freed blocks stay as they are, and so do the live ones. However the session
goes on, neither a thread that was live at the sweep nor one that descends from such a thread by
accepted forks has a clock that would make an access to a dropped block a use after free. -/
theorem Sweepable.sweep_exact {s : State} (sweepable : Sweepable s) (h : Host) :
    (s.sweep h).1.tables.heap.live = s.tables.heap.live ∧
    (∀ (seq : Nat) (b : Block), (s.sweep h).1.tables.heap.freed[seq]? = some b ↔
      s.tables.heap.freed[seq]? = some b ∧ ¬ s.Observed b) ∧
    ∀ (seq : Nat) (b : Block), s.tables.heap.freed[seq]? = some b →
      (s.sweep h).1.tables.heap.freed[seq]? = none →
      ∀ (order : Enumeration) (es : List Event) (tid : ThreadId) (t : Thread),
        (s.sweep h).1.Lineage (.recorder order) es tid →
        ((s.sweep h).1.run (.recorder order) es).1.tables.threads[tid]? = some t →
        b.unseenBy tid t.clock = false := by
  obtain ⟨tidy, sound, dated⟩ := sweepable.timed
  have left := State.sweep_freed dated h
  refine ⟨Heap.dropObserved_live _ _, left, fun seq b found gone order es tid t lineage there => ?_⟩
  have observed : s.Observed b := by
    by_contra unobserved
    cases gone.symm.trans ((left seq b).mpr ⟨found, unobserved⟩)
  obtain ⟨e, freedAt, _⟩ := dated seq b found
  have same : s.tables.SameClocks (s.sweep h).1.tables := .of_eq rfl rfl rfl rfl
  have all (v : ThreadId) (live : (s.sweep h).1.tables.board.live v) :
      e.clock.toNat ≤ (s.sweep h).1.tables.board.known (.thread v) e.tid := by
    rw [same.board] at live ⊢
    obtain ⟨th, there⟩ := Table.mem_iff_exists.mp live
    obtain ⟨e', freedAt', known⟩ := observed.2 v th there
    cases freedAt.symm.trans freedAt'
    simpa only [Tables.board, Tables.clockAt_thread there] using Epoch.observedBy_iff.mp known
  obtain ⟨_, _, versed⟩ := State.lineage_versed (s := (s.sweep h).1) (Host.recorder_quiet order)
    (same.tidy tidy) (same.board ▸ sound) all es
  have known := (versed tid lineage).2 (Table.mem_iff_exists.mpr ⟨t, there⟩)
  have observed : e.observedBy t.clock = true := by
    refine Epoch.observedBy_iff.mpr ?_
    simpa only [Tables.board, Tables.clockAt_thread there] using known
  rw [Block.unseenBy, freedAt, Option.any_some, observed, Bool.not_true, Bool.and_false]

/-- A thread allocates and frees a block, and then forks another. -/
def Command.bequest : List Command :=
  [.event (.alloc 1 1 256 8), .event (.free 1 256), .event (.fork 1 2)]

/-- Both have observed the free. The block goes, and a later child of the second does not miss
it. -/
theorem Sweepable.sweep_exact_bequest :
    let s := ((State.build .concurrent Config.default true false).1.execAll (.recorder .sorted)
      Command.bequest).1
    let swept := (s.sweep (.recorder .sorted)).1
    Sweepable s ∧ swept.Lineage (.recorder .sorted) [.fork 2 3] 3 ∧
      ∃ (b : Block) (t : Thread), s.tables.heap.freed[0]? = some b ∧
        swept.tables.heap.freed[0]? = none ∧
        (swept.run (.recorder .sorted) [.fork 2 3]).1.tables.threads[(3 : ThreadId)]? = some t ∧
        b.unseenBy 3 t.clock = false := by
  intro s swept
  have sweepable : Sweepable s := .reached
    ((Reached.built .concurrent Config.default true false).execAll (.notes .sorted) Command.bequest)
  have run : s.tables.heap.freed[0]?.isSome = true ∧ swept.tables.heap.freed[0]?.isNone = true ∧
      (swept.run (.recorder .sorted)
        [.fork 2 3]).1.tables.threads[(3 : ThreadId)]?.isSome = true ∧
      2 ∈ swept.tables.threads ∧ swept.Accepts (.recorder .sorted) (.fork 2 3) := by
    simp only [s, swept, State.Accepts, Command.bequest, State.execAll, State.exec, State.step,
      State.allocate, Heap.handOut, Heap.overlapping, Heap.touching_eq]
    decide +kernel
  obtain ⟨freed, gone, forked, live, accepts⟩ := run
  obtain ⟨b, found⟩ := Option.isSome_iff_exists.mp freed
  obtain ⟨t, there⟩ := Option.isSome_iff_exists.mp forked
  have gone := Option.isNone_iff_eq_none.mp gone
  have lineage : swept.Lineage (.recorder .sorted) [.fork 2 3] 3 :=
    .forked [] [] 2 3 accepts (.live [] 2 live)
  obtain ⟨_, _, final⟩ := Sweepable.sweep_exact sweepable (.recorder .sorted)
  exact ⟨sweepable, lineage, b, t, found, gone, there,
    final 0 b found gone .sorted [.fork 2 3] 3 t lineage there⟩

end RaceMonitor
