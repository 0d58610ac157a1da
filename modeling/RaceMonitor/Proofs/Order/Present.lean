import RaceMonitor.Proofs.Engine.Accounts
import RaceMonitor.Proofs.Engine.Lives
import RaceMonitor.Proofs.Engine.Stored
import RaceMonitor.Proofs.Engine.Sweep
import RaceMonitor.Proofs.Order.Growth
import RaceMonitor.Proofs.Order.Saturation

/-! Only a thread knows its own present.

In every state that an engine gets to, the clocks of threads, locks and signals fit together with
the flags of the threads and with the epochs that are stored (`Tables.Coherent`): no one is ahead
of a thread in its own time, and as long as that has not run out, no one else is as far
(`Reached.present_own`). Whoever a clock mentions was live in the course of the session, and what is
stored was someone's present then. From one event to the next knowledge only grows. -/
namespace RaceMonitor

/-- The clocks are in order, the threads flagged, and the epochs that are stored have been
reached. -/
structure Tables.Coherent (t : Tables) : Prop where
  filtered : t.Filtered
  pruned : t.heap.Pruned
  timed : t.Timed
  flagged : t.Flagged
  elapsed : ∀ x, t.Stores x → t.board.Elapsed x.tid x.clock.toNat

namespace Tables

variable {t : Tables} {x : Epoch}

theorem not_empty_stores (maxFreed : Word) (nextSeq : Nat) :
    ¬ (empty maxFreed nextSeq).Stores x := by
  intro stores
  cases stores with
  | recorded addr history a found => simp [empty] at found
  | block stores =>
    cases stores with
    | live base b found => simp [empty, Heap.empty] at found
    | freed seq b found => simp [empty, Heap.empty] at found

/-- A present has been reached. -/
theorem Presents.elapsed (present : t.Presents x) (tidy : t.Tidy) (sound : t.board.Sound none) :
    t.board.Elapsed x.tid x.clock.toNat := by
  obtain ⟨u, th, there, rfl⟩ := present
  have own : th.epoch.tid = u := tidy.keyed u th there
  refine ⟨tidy.begun sound there, fun unborn => ?_, fun _ => ?_⟩
  · exact unborn.1 (own ▸ Table.mem_iff_exists.mpr ⟨th, there⟩)
  · rw [own]
    show (th.clock.get th.tid).toNat ≤ ((t.clockAt (.thread u)).get u).toNat
    rw [clockAt_thread there, tidy.keyed u th there]

/-- All events keep clocks, flags and stored epochs together. -/
theorem coherent_lasting : Tables.Lasting Coherent where
  empty maxFreed nextSeq :=
    { filtered := .empty maxFreed nextSeq
      pruned := .empty maxFreed nextSeq
      timed := .empty maxFreed nextSeq
      flagged := .empty maxFreed nextSeq
      elapsed := fun _ stores => absurd stores (not_empty_stores maxFreed nextSeq) }
  step s order e coherent := by
    have quiet := Host.recorder_quiet order
    obtain ⟨filtered, pruned, timed, flagged, elapsed⟩ := coherent
    have later := s.step_timed quiet filtered timed e
    obtain ⟨_, b, admits, turn⟩ := State.turned quiet timed.tidy timed.sound e
    refine ⟨s.step_filtered quiet filtered e, s.step_pruned quiet filtered pruned e, later,
      s.step_flagged flagged quiet timed.tidy timed.sound e, fun x stores => ?_⟩
    rcases s.step_stored quiet filtered pruned e stores with old | present
    · exact ((elapsed x old).admits admits).turn (timed.sound.admits admits) turn
    · exact present.elapsed later.tidy later.sound

namespace Coherent

variable (coherent : t.Coherent) {u : ThreadId} {th : Thread}
include coherent

theorem begun (there : t.threads[u]? = some th) : 1 ≤ th.clock.get u := by
  have begun := coherent.timed.tidy.begun coherent.timed.sound there
  rw [Thread.epoch, VectorClock.epoch, coherent.timed.tidy.keyed u th there] at begun
  exact UInt32.le_iff_toNat_le.mpr begun

theorem saturated_iff (there : t.threads[u]? = some th) :
    th.saturated = true ↔ th.clock.get u = Tick.last := by
  have flagged := coherent.flagged u th there
  rwa [Thread.Flagged, coherent.timed.tidy.keyed u th there] at flagged

/-- Nowhere is more known of a thread than it knows itself. -/
theorem ahead (there : t.threads[u]? = some th) (p : Place) :
    (t.clockAt p).get u ≤ th.clock.get u := by
  have ahead := coherent.timed.sound.ahead p u (Table.mem_iff_exists.mpr ⟨th, there⟩)
  rw [UInt32.le_iff_toNat_le]
  simpa only [board, clockAt_thread there] using ahead

/-- Nowhere else is as much known, unless its time has run out. -/
theorem alone (there : t.threads[u]? = some th) (unsaturated : th.saturated = false) {p : Place}
    (other : p ≠ .thread u) : (t.clockAt p).get u < th.clock.get u := by
  have live : t.board.live u := Table.mem_iff_exists.mpr ⟨th, there⟩
  have alone := coherent.timed.sound.alone p u live (by simp) other
  simp only [board, clockAt_thread there] at alone
  rcases alone with less | last
  · exact UInt32.lt_iff_toNat_lt.mpr less
  · have flag := (coherent.saturated_iff there).mpr (UInt32.toNat_inj.mp last)
    exact absurd (unsaturated.symm.trans flag) Bool.false_ne_true

theorem stored (stores : t.Stores x) :
    1 ≤ x.clock ∧ ∀ th : Thread, t.threads[x.tid]? = some th → x.clock ≤ th.clock.get x.tid := by
  obtain ⟨pos, _, reached⟩ := coherent.elapsed x stores
  refine ⟨UInt32.le_iff_toNat_le.mpr pos, fun th there => ?_⟩
  have reached := reached (Table.mem_iff_exists.mpr ⟨th, there⟩)
  rw [UInt32.le_iff_toNat_le]
  simpa only [board, clockAt_thread there] using reached

/-- A thread that a clock mentions has been seen. -/
theorem seen {p : Place} (mentioned : (t.clockAt p).get u ≠ 0) : t.lives u ≠ .unborn := by
  intro unborn
  have none := coherent.timed.sound.unborn p u (unborn_iff.mp unborn)
  exact mentioned (UInt32.toNat_inj.mp none)

end Coherent

end Tables

/-! ### The course of a session -/

namespace Course

variable {s : State} {past : List Tables} (course : Course s past)
include course

theorem coherent : s.tables.Coherent := course.keeps Tables.coherent_lasting

/-- Who has been seen was live once. -/
theorem born {u : ThreadId} (seen : s.tables.lives u ≠ .unborn) : ∃ t ∈ past, u ∈ t.threads := by
  induction course with
  | opened maxFreed nextSeq fresh =>
    rw [fresh] at seen
    exact absurd (Tables.unborn_iff.mpr ⟨by simp [Tables.empty], by simp [Tables.empty]⟩) seen
  | listen _ _ ih => exact ih seen
  | @event s past course order e ih =>
    by_cases unborn : s.tables.lives u = .unborn
    · have fate := s.step_fate (Host.recorder_quiet order) course.coherent.timed.tidy e
      have moves := fate.moves course.coherent.timed.tidy u
      rw [unborn] at moves
      generalize hl : (s.step (.recorder order) e).1.tables.lives u = l at moves seen
      refine ⟨_, List.mem_cons_self, Tables.live_iff.mp ?_⟩
      rw [hl]
      cases moves with
      | stays => exact absurd rfl seen
      | born => rfl
      | retires live => cases live
    · obtain ⟨t, mem, live⟩ := ih unborn
      exact ⟨t, List.mem_cons_of_mem _ mem, live⟩

/-- What is stored was the present of a thread. -/
theorem stored {x : Epoch} (stores : s.tables.Stores x) : ∃ t ∈ past, t.Presents x := by
  induction course with
  | opened maxFreed nextSeq fresh =>
    rw [fresh] at stores
    exact absurd stores (Tables.not_empty_stores maxFreed nextSeq)
  | listen _ _ ih => exact ih stores
  | @event s past course order e ih =>
    have coherent := course.coherent
    rcases s.step_stored (Host.recorder_quiet order) coherent.filtered coherent.pruned e stores with
      old | present
    · obtain ⟨t, mem, present⟩ := ih old
      exact ⟨t, List.mem_cons_of_mem _ mem, present⟩
    · exact ⟨_, List.mem_cons_self, present⟩

end Course

/-- Within a session knowledge only grows. -/
theorem Tables.Coherent.grows : State.Lasts (fun c => c.within = true) fun s s' =>
    s.tables.Coherent → s'.tables.Coherent ∧ s.tables.board.Grows s'.tables.board where
  refl s coherent := ⟨coherent, .refl _⟩
  trans first second := fun coherent => by
    obtain ⟨between, grows⟩ := first coherent
    obtain ⟨after, grows'⟩ := second between
    exact ⟨after, grows.trans grows'⟩
  step s order e := fun coherent => by
    obtain ⟨_, b, admits, turn⟩ :=
      State.turned (Host.recorder_quiet order) coherent.timed.tidy coherent.timed.sound e
    have sound := coherent.timed.sound
    exact ⟨coherent_lasting.step s order e coherent,
      (Board.Grows.admits sound admits).trans (.turn (sound.admits admits) turn)⟩
  listen s _ := fun coherent => ⟨coherent, .refl _⟩
  init _ _ within := nomatch within
  finalize _ _ within := nomatch within

/-- **Only a thread knows its own present.** In every state that an engine gets to, the time of a
live thread has begun, and the thread is marked as saturated just if its time has run out. No other
thread, lock or signal is ahead of it there, nor as far while it is not saturated. An epoch of the
thread that is stored is no later than its present. Whoever a clock mentions was live in the course
of the session, and what is stored was the present of a thread. And no event takes back what a live
thread, a lock or a signal knows, whatever callbacks do within the session. -/
theorem Reached.present_own {s : State} {out : List Output} (reached : Reached s out) :
    (∀ (u : ThreadId) (th : Thread), s.tables.threads[u]? = some th →
      1 ≤ th.clock.get u ∧ (th.saturated = true ↔ th.clock.get u = Tick.last) ∧
      ∀ p, p ≠ Place.thread u → (s.tables.clockAt p).get u ≤ th.clock.get u ∧
        (th.saturated = false → (s.tables.clockAt p).get u < th.clock.get u)) ∧
    (∀ x, s.tables.Stores x → 1 ≤ x.clock ∧
      ∀ th : Thread, s.tables.threads[x.tid]? = some th → x.clock ≤ th.clock.get x.tid) ∧
    ((∃ past, Course s past) ∧ ∀ past, Course s past →
      (∀ p u, (s.tables.clockAt p).get u ≠ 0 → ∃ t ∈ past, u ∈ t.threads) ∧
      ∀ x, s.tables.Stores x → ∃ t ∈ past, t.Presents x) ∧
    ∀ (h : Host) (e : Event), h.ActsBy (fun c => c.within = true) →
      (∀ u, u ∈ s.tables.threads →
        u ∈ (s.step h e).1.tables.threads ∨ u ∈ (s.step h e).1.tables.retired) ∧
      ∀ p, (∀ u, p = .thread u → u ∈ (s.step h e).1.tables.threads) →
        ∀ u, (s.tables.clockAt p).get u ≤ ((s.step h e).1.tables.clockAt p).get u := by
  have coherent := reached.tables Tables.coherent_lasting
  refine ⟨fun u th there => ⟨coherent.begun there, coherent.saturated_iff there,
    fun p other => ⟨coherent.ahead there p, fun unsaturated => ?_⟩⟩, fun x stores => ?_,
    ⟨reached.course, fun past course => ⟨fun p u mentioned => ?_, fun x stores => ?_⟩⟩,
    fun h e stays => ?_⟩
  · exact coherent.alone there unsaturated other
  · exact coherent.stored stores
  · exact course.born (coherent.seen mentioned)
  · exact course.stored stores
  · have lasts := Tables.Coherent.grows
    obtain ⟨later, grows⟩ := lasts.exec (lasts.called stays) s (c := .event e) rfl coherent
    refine ⟨grows.left, fun p live u => ?_⟩
    have vacant : ∀ t, p = .thread t → ¬ (s.step h e).1.tables.board.retired t := fun t here =>
      later.timed.sound.apart t (live t here)
    exact UInt32.le_iff_toNat_le.mpr (grows.known p u vacant)

/-- A thread writes, forks another and signals, and the other awaits the signal. -/
def Command.relay : List Command :=
  [.event (.write 1 2 256 8), .event (.fork 1 2), .event (.happensBefore 1 20),
   .event (.happensAfter 2 20)]

/-- The first thread is at 3, and the other knows of it up to 2. Its write was at 1. -/
theorem Reached.present_own_relay :
    let built := State.build .concurrent Config.default true false
    let run := built.1.execAll (.recorder .sorted) Command.relay
    Reached run.1 (built.2 ++ run.2) ∧
      (∃ th : Thread, run.1.tables.threads[(1 : ThreadId)]? = some th ∧ th.saturated = false ∧
        (run.1.tables.clockAt (.thread 2)).get 1 < th.clock.get 1) ∧
      (∃ past, Course run.1 past ∧ (∃ t ∈ past, 1 ∈ t.threads) ∧ ∃ t ∈ past, t.Presents ⟨1, 1⟩) ∧
      ∀ e, 2 ≤
        ((run.1.step (.recorder .sorted) e).1.tables.clockAt (.channel (.signal 20))).get 1 := by
  intro built run
  have reached : Reached run.1 (built.2 ++ run.2) :=
    (Reached.built .concurrent Config.default true false).execAll (.notes .sorted) Command.relay
  have first : (run.1.tables.threads[(1 : ThreadId)]?.any fun th =>
      !th.saturated && th.clock.get 1 == 3) = true := by
    decide +kernel
  have known : (run.1.tables.clockAt (.thread 2)).get 1 = 2 := by decide +kernel
  have signalled : (run.1.tables.clockAt (.channel (.signal 20))).get 1 = 2 := by decide +kernel
  have written : (run.1.tables.shadow[(256 : Word)]?.any fun history =>
      history.accesses.any fun a => a.epoch == ⟨1, 1⟩) = true := by
    decide +kernel
  obtain ⟨th, there, values⟩ := (Option.any_eq_true _ _).mp first
  obtain ⟨unsaturated, _⟩ : th.saturated = false ∧ th.clock.get 1 = 3 := by simpa using values
  obtain ⟨history, found, kept⟩ := (Option.any_eq_true _ _).mp written
  obtain ⟨a, mem, epoch⟩ := List.any_eq_true.mp kept
  obtain ⟨own, _, ⟨⟨past, course⟩, once⟩, grows⟩ := Reached.present_own reached
  obtain ⟨mentioned, stored⟩ := once past course
  obtain ⟨_, _, others⟩ := own 1 th there
  have less := (others (.thread 2) (by decide)).2 unsaturated
  have live := mentioned (.thread 2) 1 (by rw [known]; decide)
  have present := stored ⟨1, 1⟩ (.recorded 256 history a found mem (beq_iff_eq.mp epoch))
  refine ⟨reached, ⟨th, there, unsaturated, less⟩, ⟨past, course, live, present⟩, fun e => ?_⟩
  have later := (grows (.recorder .sorted) e (.notes .sorted)).2 (.channel (.signal 20)) nofun 1
  exact signalled ▸ later

end RaceMonitor
