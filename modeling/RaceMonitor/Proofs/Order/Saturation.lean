import RaceMonitor.Proofs.Order.Turns

/-! The flag of a saturated thread.

A thread is marked as saturated in the tick that takes its own time to the last value, and remains
so. Whatever else happens to its clock leaves its own time alone: others know no more of it than the
thread itself does (`Entered.behind`). So the flag says whether its time has run out
(`State.step_flagged`). -/
namespace RaceMonitor

/-- The thread is marked as saturated just if its own time is at the end. -/
def Thread.Flagged (t : Thread) : Prop := t.saturated = true ↔ t.clock.get t.tid = Tick.last

namespace Thread

variable {t : Thread}

theorem root_flagged (tid : ThreadId) : (root tid).Flagged := by
  have one : (root tid).clock.get (root tid).tid = 1 := by
    rw [root, VectorClock.get_increment, if_pos rfl, VectorClock.get_empty]
    rfl
  exact iff_of_false Bool.false_ne_true (by rw [one]; decide)

/-- As no one has heard of the child yet, its time starts with it. -/
theorem forked_flagged {child : ThreadId} (unknown : t.clock.get child = 0) :
    (forked child t).Flagged := by
  have one : (forked child t).clock.get (forked child t).tid = 1 := by
    rw [forked, VectorClock.get_increment, if_pos rfl, unknown]
    rfl
  exact iff_of_false Bool.false_ne_true (by rw [one]; decide)

theorem Flagged.tick (flagged : t.Flagged) : t.tick.Flagged := by
  have own : t.tick.clock.get t.tid = (t.clock.get t.tid).next := by
    show (t.clock.increment t.tid).get t.tid = _
    rw [VectorClock.get_increment, if_pos rfl]
  have flag : t.tick.saturated = (t.saturated || t.tick.clock.get t.tid == Tick.last) := rfl
  show t.tick.saturated = true ↔ t.tick.clock.get t.tid = Tick.last
  rw [flag, Bool.or_eq_true, beq_iff_eq]
  refine or_iff_right_of_imp fun already => ?_
  rw [own, flagged.mp already]
  rfl

theorem Flagged.observe (flagged : t.Flagged) {vc : VectorClock}
    (behind : vc.get t.tid ≤ t.clock.get t.tid) : (t.observe vc).Flagged := by
  have own : (t.observe vc).clock.get t.tid = t.clock.get t.tid := by
    show (t.clock.join vc).get t.tid = _
    rw [VectorClock.get_join, ← UInt32.toNat_inj, Tick.toNat_max]
    exact Nat.max_eq_left (UInt32.le_iff_toNat_le.mp behind)
  show t.saturated = true ↔ (t.observe vc).clock.get t.tid = Tick.last
  rw [own]
  exact flagged

end Thread

/-- All threads are. -/
def Tables.Flagged (t : Tables) : Prop :=
  ∀ (u : ThreadId) (th : Thread), t.threads[u]? = some th → th.Flagged

namespace Tables.Flagged

variable {t t' : Tables}

theorem empty (maxFreed : Word) (nextSeq : Nat) : (Tables.empty maxFreed nextSeq).Flagged :=
  fun _ _ there => by simp [Tables.empty] at there

theorem of_eq (flagged : t.Flagged) (same : t'.threads = t.threads) : t'.Flagged := by
  intro u th there
  rw [same] at there
  exact flagged u th there

theorem putThread (flagged : t.Flagged) {th : Thread} (own : th.Flagged) :
    (t.putThread th).Flagged := by
  intro u x there
  rw [Tables.putThread, Table.get_insert] at there
  split at there
  · exact Option.some.inj there ▸ own
  · exact flagged u x there

theorem retire (flagged : t.Flagged) (tid : ThreadId) : (t.retire tid).Flagged := by
  intro u x there
  rw [Tables.retire, Table.get_erase] at there
  split at there
  · cases there
  · exact flagged u x there

end Tables.Flagged

variable {s s₁ : State} {tid : ThreadId} {t : Thread} {h : Host}

namespace Entered

/-- Looking up a thread leaves all flagged. -/
theorem flagged (enter : Entered s tid t s₁) (flagged : s.tables.Flagged) :
    s₁.tables.Flagged ∧ t.Flagged := by
  have all : s₁.tables.Flagged := by
    cases enter with
    | known => exact flagged
    | made => exact flagged.putThread (Thread.root_flagged tid)
  exact ⟨all, all tid t enter.there⟩

/-- Nowhere is more known of the thread than it knows itself. -/
theorem behind (enter : Entered s tid t s₁) (tidy : s.tables.Tidy)
    (sound : s.tables.board.Sound none) (p : Place) :
    (s₁.tables.clockAt p).get t.tid ≤ t.clock.get t.tid := by
  have ahead := (sound.admits enter.admits).ahead p tid enter.live
  rw [UInt32.le_iff_toNat_le, enter.tid_eq tidy]
  simpa only [Tables.board, Tables.clockAt_thread enter.there] using ahead

end Entered

namespace State

variable {out : List Output} (flagged : s.tables.Flagged)
include flagged

theorem thread_flagged {t : Option Thread} (met : s.thread tid = (t, s₁, out)) :
    s₁.tables.Flagged := by
  cases t with
  | none =>
    obtain ⟨_, x, rfl⟩ := thread_refused met
    exact flagged
  | some t => exact ((thread_entered met).flagged flagged).1

/-- Nobody has heard of a child that is not there. -/
theorem fork_flagged (sound : s.tables.board.Sound none) {child : ThreadId}
    (summons : s.Summons (.fork tid child) tid) (enter : Entered s tid t s₁) :
    ((s₁.tables.putThread t.tick).putThread (Thread.forked child t)).Flagged := by
  obtain ⟨all, own⟩ := enter.flagged flagged
  have unborn : s₁.tables.board.Unborn child := by
    cases summons with
    | fork other missing alive => exact enter.unborn other ⟨missing, alive⟩
  have unknown : t.clock.get child = 0 := by
    have known := (sound.admits enter.admits).unborn (.thread tid) child unborn
    rw [← UInt32.toNat_inj, UInt32.toNat_zero]
    simpa only [Tables.board, Tables.clockAt_thread enter.there] using known
  exact (all.putThread own.tick).putThread (Thread.forked_flagged unknown)

/-- Every event leaves all threads flagged as they should be. -/
theorem step_flagged (quiet : h.Quiet) (tidy : s.tables.Tidy) (sound : s.tables.board.Sound none)
    (e : Event) : (s.step h e).1.tables.Flagged := by
  have performed := s.performed h e
  generalize s.step h e = res at performed ⊢
  cases performed with
  | accused | mapped => exact flagged
  | refused _ met | misused _ met => exact (thread_flagged flagged met).of_eq rfl
  | full _ met full =>
    obtain ⟨x, rfl⟩ := reserve_shape full
    exact (thread_flagged flagged met).of_eq rfl
  | forked summons met => exact fork_flagged flagged sound summons (thread_entered met)
  | @joined _ child _ _ _ _ _ there _ met =>
    have enter := thread_entered met
    obtain ⟨all, own⟩ := enter.flagged flagged
    have behind := enter.behind tidy sound (.thread child)
    rw [Tables.clockAt_thread (enter.keeps there)] at behind
    exact (all.putThread (own.observe behind).tick).retire child
  | @detached _ tid t there =>
    have own : t.detach.Flagged := flagged tid t there
    exact flagged.putThread own
  | finished => exact flagged.retire _
  | @entered _ pc t _ _ met =>
    obtain ⟨all, own⟩ := (thread_entered met).flagged flagged
    have own : (t.enter pc).Flagged := own
    exact all.putThread own
  | exited met left =>
    obtain ⟨all, own⟩ := (thread_entered met).flagged flagged
    obtain ⟨frame, _, left⟩ := Option.map_eq_some_iff.mp left
    cases left
    exact all.putThread own
  | unlocked met found | reacquired met found =>
    obtain ⟨x, locks, rfl⟩ := lock_shape found
    exact (thread_flagged flagged met).of_eq rfl
  | @acquired _ id _ _ t l l' _ _ _ _ met found outermost =>
    have enter := thread_entered met
    obtain ⟨all, own⟩ := enter.flagged flagged
    have behind : l'.clock.get t.tid ≤ t.clock.get t.tid := by
      have same : l'.clock = l.clock := congrArg (·.2.clock) outermost.symm
      rw [same, lock_given found, Tables.clock_lock]
      exact enter.behind tidy sound (.channel (.lock id))
    obtain ⟨x, locks, rfl⟩ := lock_shape found
    exact Tables.Flagged.putThread all (own.observe behind).tick
  | released met =>
    obtain ⟨all, own⟩ := (thread_entered met).flagged flagged
    exact Tables.Flagged.putThread all own.tick
  | unnested met => exact (thread_flagged flagged met).of_eq rfl
  | unsignalled _ met found =>
    obtain ⟨x, signals, rfl⟩ := signal_shape found
    exact (thread_flagged flagged met).of_eq rfl
  | signalled met found =>
    obtain ⟨all, own⟩ := (thread_entered met).flagged flagged
    obtain ⟨x, signals, rfl⟩ := signal_shape found
    exact Tables.Flagged.putThread all own.tick
  | @awaited _ id t vc _ _ _ _ met found =>
    have enter := thread_entered met
    obtain ⟨all, own⟩ := enter.flagged flagged
    have behind : vc.get t.tid ≤ t.clock.get t.tid := by
      rw [signal_given found]
      exact enter.behind tidy sound (.channel (.signal id))
    obtain ⟨x, signals, rfl⟩ := signal_shape found
    exact Tables.Flagged.putThread all (own.observe behind)
  | allocated allocates => cases allocates <;> exact flagged
  | freed frees =>
    cases frees with
    | ignored => exact flagged
    | refused _ met | misused _ met | freed _ met => exact (thread_flagged flagged met).of_eq rfl
    | swept _ met _ _ sweeps =>
      cases sweeps
      exact (thread_flagged flagged met).of_eq rfl
  | unseen _ met => exact (thread_flagged (s := s.countAccess _ _) flagged met).of_eq rfl
  | accessed _ met made =>
    obtain ⟨x, c, shadow, heap, rfl⟩ := accessBy_shape quiet made
    exact (thread_flagged (s := s.countAccess _ _) flagged met).of_eq rfl

end State

end RaceMonitor
