import RaceMonitor.Proofs.Engine.Lookup
import RaceMonitor.Proofs.Nesting
import RaceMonitor.Proofs.Order.Board

/-! The engine's clocks as a board.

The board of the tables shows what the clocks of threads, locks and signals know (`board`), and
every operation of the engine on the tables is one of its moves. From this follows what an
event does: its thread may enter, and then the board takes a turn that fits the links that the
event makes (`State.turned`). -/
namespace RaceMonitor

namespace Tables

/-- The clock kept at a place; nothing known, when nothing is there. -/
def clockAt (t : Tables) : Place → VectorClock
  | .thread tid => (t.threads[tid]?.map Thread.clock).getD .empty
  | .channel (.lock id) => (t.locks[id]?.map Lock.clock).getD .empty
  | .channel (.signal id) => t.signals[id]?.getD .empty

def board (t : Tables) : Board where
  known p u := ((t.clockAt p).get u).toNat
  live u := u ∈ t.threads
  retired u := u ∈ t.retired

/-- Threads are kept by their ids, and no lock is held zero times or twice by one thread. -/
structure Tidy (t : Tables) : Prop where
  keyed : ∀ (tid : ThreadId) (th : Thread), t.threads[tid]? = some th → th.tid = tid
  nested : ∀ (id : Word) (l : Lock), t.locks[id]? = some l → l.Valid

theorem Tidy.empty (maxFreed : Word) (nextSeq : Nat) : (Tables.empty maxFreed nextSeq).Tidy :=
  ⟨by simp [Tables.empty], by simp [Tables.empty]⟩

/-- Where nobody is, nothing is known. -/
theorem empty_sound (maxFreed : Word) (nextSeq : Nat) :
    (Tables.empty maxFreed nextSeq).board.Sound none := by
  have known : ∀ p u, (Tables.empty maxFreed nextSeq).board.known p u = 0 := fun p u => by
    rcases p with t | lock | signal <;> simp [board, clockAt, Tables.empty]
  have live : ∀ t, ¬ (Tables.empty maxFreed nextSeq).board.live t := fun t => by
    simp [board, Tables.empty]
  exact ⟨fun p u => by simp [known], fun t ht => absurd ht (live t), fun t u _ => known _ _,
    fun p t _ => known _ _, fun t ht => absurd ht (live t), fun p t ht => absurd ht (live t),
    fun p t ht => absurd ht (live t)⟩

variable {t : Tables}

theorem clockAt_thread {tid : ThreadId} {th : Thread} (there : t.threads[tid]? = some th) :
    t.clockAt (.thread tid) = th.clock := by
  simp only [clockAt, there, Option.map_some, Option.getD_some]

theorem clockAt_putThread (th : Thread) (p : Place) :
    (t.putThread th).clockAt p = if p = .thread th.tid then th.clock else t.clockAt p := by
  rcases p with tid | lock | signal
  · simp only [clockAt, putThread, Table.get_insert, Place.thread.injEq]
    split <;> rfl
  · rfl
  · rfl

theorem clockAt_putLock (id : Word) (l : Lock) (p : Place) :
    (t.putLock id l).clockAt p = if p = .channel (.lock id) then l.clock else t.clockAt p := by
  rcases p with tid | lock | signal
  · rfl
  · simp only [clockAt, putLock, Table.get_insert, Place.channel.injEq, Channel.lock.injEq]
    split <;> rfl
  · rfl

theorem clockAt_putSignal (id : Word) (vc : VectorClock) (p : Place) :
    (t.putSignal id vc).clockAt p = if p = .channel (.signal id) then vc else t.clockAt p := by
  rcases p with tid | lock | signal
  · rfl
  · rfl
  · simp only [clockAt, putSignal, Table.get_insert, Place.channel.injEq, Channel.signal.injEq]
    split <;> rfl

theorem clockAt_retire (tid : ThreadId) (p : Place) :
    (t.retire tid).clockAt p = if p = .thread tid then .empty else t.clockAt p := by
  rcases p with u | lock | signal
  · simp only [clockAt, retire, Table.get_erase, Place.thread.injEq]
    split <;> rfl
  · rfl
  · rfl

theorem Tidy.putThread (h : t.Tidy) (th : Thread) : (t.putThread th).Tidy where
  keyed tid u hu := by
    simp only [Tables.putThread, Table.get_insert] at hu
    split at hu
    · rename_i he
      rw [he, Option.some.inj hu]
    · exact h.keyed tid u hu
  nested := h.nested

theorem Tidy.putLock (h : t.Tidy) (id : Word) {l : Lock} (hl : l.Valid) :
    (t.putLock id l).Tidy where
  keyed := h.keyed
  nested id' l' hl' := by
    simp only [Tables.putLock, Table.get_insert] at hl'
    split at hl'
    · exact Option.some.inj hl' ▸ hl
    · exact h.nested id' l' hl'

theorem Tidy.putSignal (h : t.Tidy) (id : Word) (vc : VectorClock) : (t.putSignal id vc).Tidy :=
  ⟨h.keyed, h.nested⟩

theorem Tidy.retire (h : t.Tidy) (tid : ThreadId) : (t.retire tid).Tidy where
  keyed u th hu := by
    simp only [Tables.retire, Table.get_erase] at hu
    split at hu
    · simp at hu
    · exact h.keyed u th hu
  nested := h.nested

theorem Tidy.lock (h : t.Tidy) (id : Word) : (t.locks[id]?.getD .fresh).Valid := by
  cases hl : t.locks[id]? with
  | none => exact Lock.fresh_valid
  | some l => exact h.nested id l hl

theorem clock_lock (t : Tables) (id : Word) :
    (t.locks[id]?.getD .fresh).clock = t.clockAt (.channel (.lock id)) := by
  cases hl : t.locks[id]? <;> simp [clockAt, hl, Lock.fresh]

/-- Nothing has happened to threads and clocks. -/
structure SameClocks (t t' : Tables) : Prop where
  threads : t'.threads = t.threads
  retired : t'.retired = t.retired
  clockAt : ∀ p, t'.clockAt p = t.clockAt p
  tidy : t.Tidy → t'.Tidy

theorem SameClocks.refl (t : Tables) : t.SameClocks t := ⟨rfl, rfl, fun _ => rfl, id⟩

theorem SameClocks.trans {t' t'' : Tables} (h : t.SameClocks t') (h' : t'.SameClocks t'') :
    t.SameClocks t'' where
  threads := h'.threads.trans h.threads
  retired := h'.retired.trans h.retired
  clockAt p := (h'.clockAt p).trans (h.clockAt p)
  tidy ht := h'.tidy (h.tidy ht)

/-- Where only the access histories, regions and blocks differ, the clocks are the same. -/
theorem SameClocks.of_eq {t' : Tables} (threads : t'.threads = t.threads)
    (retired : t'.retired = t.retired) (locks : t'.locks = t.locks)
    (signals : t'.signals = t.signals) : t.SameClocks t' where
  threads := threads
  retired := retired
  clockAt p := by
    rcases p with tid | lock | signal
    · simp only [Tables.clockAt, threads]
    · simp only [Tables.clockAt, locks]
    · simp only [Tables.clockAt, signals]
  tidy h := ⟨threads ▸ h.keyed, locks ▸ h.nested⟩

theorem SameClocks.board {t' : Tables} (h : t.SameClocks t') : t'.board = t.board := by
  simp only [Tables.board, h.threads, h.retired, h.clockAt]

end Tables

open Tables

/-! ### Looking up -/

variable {s s' : State} {tid : ThreadId} {th : Thread}

theorem Entered.tidy (h : Entered s tid th s') (ht : s.tables.Tidy) : s'.tables.Tidy := by
  cases h with
  | known _ there => exact ht
  | made missing alive => exact ht.putThread _

theorem Entered.tid_eq (h : Entered s tid th s') (ht : s.tables.Tidy) : th.tid = tid :=
  (h.tidy ht).keyed tid th h.there

theorem Entered.live (h : Entered s tid th s') : s'.tables.board.live tid :=
  Table.mem_iff_exists.mpr ⟨th, h.there⟩

theorem Entered.admits (h : Entered s tid th s') :
    Board.Admits (some tid) s.tables.board s'.tables.board := by
  cases h with
  | known _ there => exact .known
  | made missing alive =>
    have he : (s.tables.putThread (Thread.root tid)).board = s.tables.board.enter tid := by
      have habsent : s.tables.clockAt (.thread tid) = .empty := by
        simp [Tables.clockAt, Table.not_mem_iff.mp missing]
      ext p u
      · simp only [board, Board.enter, clockAt_putThread]
        by_cases hp : p = .thread tid
        · subst hp
          by_cases hu : u = tid
          · subst hu
            simp [Thread.root, VectorClock.get_increment]
            rfl
          · simp [Thread.root, VectorClock.get_increment, hu, habsent]
        · simp [Thread.root, hp]
      · exact Table.mem_insert_iff
      · rfl
    show Board.Admits _ _ (s.tables.putThread (Thread.root tid)).board
    rw [he]
    exact .entered tid rfl ⟨missing, alive⟩

theorem Entered.counters (h : Entered s tid th s') : s'.counters = s.counters := by
  cases h <;> rfl

theorem Entered.mem_iff (h : Entered s tid th s') {u : ThreadId} :
    u ∈ s'.tables.threads ↔ u = tid ∨ u ∈ s.tables.threads := by
  cases h with
  | known _ there =>
    exact (or_iff_right_of_imp fun hu => hu ▸ Table.mem_iff_exists.mpr ⟨_, there⟩).symm
  | made missing alive => exact Table.mem_insert_iff

/-- Who was there stays as it was. -/
theorem Entered.keeps (h : Entered s tid th s') {u : ThreadId} {x : Thread}
    (there : s.tables.threads[u]? = some x) : s'.tables.threads[u]? = some x := by
  cases h with
  | known _ _ => exact there
  | made missing alive =>
    have hne : u ≠ tid := fun he => missing (Table.mem_iff_exists.mpr ⟨x, he ▸ there⟩)
    show (s.tables.threads.insert tid _)[u]? = _
    rw [Table.get_insert, if_neg hne, there]

theorem Entered.retired (h : Entered s tid th s') : s'.tables.retired = s.tables.retired := by
  cases h <;> rfl

theorem Entered.unborn (h : Entered s tid th s') {u : ThreadId} (other : u ≠ tid)
    (unborn : s.tables.board.Unborn u) : s'.tables.board.Unborn u := by
  refine ⟨fun live => (h.mem_iff.mp live).elim other unborn.1, fun gone => unborn.2 ?_⟩
  show u ∈ s.tables.retired
  rwa [← h.retired]

theorem Entered.locks (h : Entered s tid th s') : s'.tables.locks = s.tables.locks := by
  cases h <;> rfl

namespace State

variable {t : Option Thread} {id : Word} {out : List Output}

/-- Looking up a thread leaves the tables tidy. -/
theorem thread_tidy (met : s.thread tid = (t, s', out)) (tidy : s.tables.Tidy) :
    s'.tables.Tidy := by
  cases t with
  | none =>
    obtain ⟨_, x, rfl⟩ := thread_refused met
    exact tidy
  | some t => exact (thread_entered met).tidy tidy

/-- The thread of an event may enter as it is looked up. -/
theorem thread_admits (met : s.thread tid = (t, s', out)) {e : Event}
    (actor : e.actor? = some tid) : Board.Admits e.actor? s.tables.board s'.tables.board := by
  cases t with
  | none =>
    obtain ⟨_, x, rfl⟩ := thread_refused met
    exact .known
  | some t =>
    rw [actor]
    exact (thread_entered met).admits

/-- A lock that is made on the spot is as good as one that was there and never used. -/
theorem lock_sameClocks {l : Option Lock} (found : s.lock id = (l, s', out)) :
    s.tables.SameClocks s'.tables := by
  have looked := s.lock_found id
  rw [found] at looked
  cases looked with
  | known => exact .refl _
  | refused => exact .refl _
  | made missing =>
    refine ⟨rfl, rfl, fun p => (clockAt_putLock id .fresh p).trans ?_,
      fun tidy => tidy.putLock id Lock.fresh_valid⟩
    split
    · rename_i named
      simp [named, Tables.clockAt, missing, Lock.fresh]
    · rfl

/-- So is a signal. -/
theorem signal_sameClocks {vc : Option VectorClock} (found : s.signal id = (vc, s', out)) :
    s.tables.SameClocks s'.tables := by
  have looked := s.signal_found id
  rw [found] at looked
  cases looked with
  | known => exact .refl _
  | refused => exact .refl _
  | made missing =>
    refine ⟨rfl, rfl, fun p => (clockAt_putSignal id .empty p).trans ?_,
      fun tidy => tidy.putSignal id .empty⟩
    split
    · rename_i named
      simp [named, Tables.clockAt, missing]
    · rfl

end State

/-! ### Moves -/

/-- What is known of `u` in a clock. -/
theorem Thread.known_tick (t : Thread) (u : ThreadId) : (t.tick.clock.get u).toNat =
    if u = t.tid then min ((t.clock.get u).toNat + 1) Tick.limit else (t.clock.get u).toNat := by
  show ((t.clock.increment t.tid).get u).toNat = _
  rw [VectorClock.get_increment]
  split
  · rename_i hu
    rw [hu, Tick.toNat_next]
    rfl
  · rfl

theorem VectorClock.known_join (a b : VectorClock) (u : ThreadId) :
    ((a.join b).get u).toNat = max (a.get u).toNat (b.get u).toNat := by
  rw [VectorClock.get_join, Tick.toNat_max]

namespace Tables

variable {t : Tables} {th : Thread}

theorem board_putThread_tick (t : Tables) (th : Thread) :
    (t.putThread th.tick).board = (t.putThread th).board.tick th.tid := by
  have htid : th.tick.tid = th.tid := rfl
  ext p u
  · simp only [board, clockAt_putThread, htid, Board.tick]
    by_cases hp : p = .thread th.tid
    · simp only [hp, if_true, true_and, Thread.known_tick]
    · simp only [hp, if_false, false_and]
  · simp only [board, Board.tick, putThread, Table.mem_insert_iff, htid]
  · rfl

/-- A known thread is replaced. -/
theorem live_putThread (there : th.tid ∈ t.threads) (u : ThreadId) :
    u ∈ (t.putThread th).threads ↔ u ∈ t.threads :=
  Table.mem_insert_iff.trans (or_iff_right_of_imp fun hu => hu ▸ there)

theorem board_putThread_same {old : Thread} (there : t.threads[th.tid]? = some old)
    (same : th.clock = old.clock) : (t.putThread th).board = t.board := by
  ext p u
  · simp only [board, clockAt_putThread]
    split
    · rename_i hp
      rw [hp, clockAt_thread there, same]
    · rfl
  · exact live_putThread (Table.mem_iff_exists.mpr ⟨old, there⟩) _
  · rfl

theorem board_putThread_observe (there : t.threads[th.tid]? = some th) (src : Place) :
    (t.putThread (th.observe (t.clockAt src))).board = t.board.flow src (.thread th.tid) := by
  have htid : (th.observe (t.clockAt src)).tid = th.tid := rfl
  ext p u
  · simp only [board, clockAt_putThread, htid, Board.flow]
    split
    · rename_i hp
      rw [hp, clockAt_thread there]
      exact VectorClock.known_join _ _ u
    · rfl
  · have : (th.observe (t.clockAt src)).tid ∈ t.threads := Table.mem_iff_exists.mpr ⟨th, there⟩
    exact live_putThread this _
  · rfl

theorem board_putLock {id : Word} {l : Lock} {src : Place}
    (clock : l.clock = (t.clockAt (.channel (.lock id))).join (t.clockAt src)) :
    (t.putLock id l).board = t.board.flow src (.channel (.lock id)) := by
  ext p u
  · simp only [board, clockAt_putLock, Board.flow]
    split
    · rename_i hp
      rw [hp, clock]
      exact VectorClock.known_join _ _ u
    · rfl
  · rfl
  · rfl

theorem board_putSignal {id : Word} {src : Place} :
    (t.putSignal id ((t.clockAt (.channel (.signal id))).join (t.clockAt src))).board =
      t.board.flow src (.channel (.signal id)) := by
  ext p u
  · simp only [board, clockAt_putSignal, Board.flow]
    split
    · rename_i hp
      rw [hp]
      exact VectorClock.known_join _ _ u
    · rfl
  · rfl
  · rfl

/-- Who holds a lock does not matter to the clocks. -/
theorem sameClocks_putLock {id : Word} {l : Lock}
    (clock : l.clock = t.clockAt (.channel (.lock id))) (valid : l.Valid) :
    t.SameClocks (t.putLock id l) where
  threads := rfl
  retired := rfl
  clockAt p := by
    rw [clockAt_putLock]
    split
    · rename_i hp
      rw [hp, clock]
    · rfl
  tidy h := h.putLock id valid

theorem board_retire (t : Tables) (tid : ThreadId) :
    (t.retire tid).board = t.board.retire tid := by
  ext p u
  · simp only [board, clockAt_retire, Board.retire]
    split <;> rfl
  · exact Table.mem_erase_iff
  · exact KeySet.mem_insert_iff

theorem board_putThread_comm (t : Tables) {a b : Thread} (ne : a.tid ≠ b.tid) :
    ((t.putThread a).putThread b).board = ((t.putThread b).putThread a).board := by
  ext p u
  · simp only [board, clockAt_putThread]
    by_cases hp : p = .thread a.tid
    · simp [hp, ne]
    · simp [hp]
  · simp only [board, putThread, Table.mem_insert_iff]
    exact or_left_comm
  · rfl

/-- A new child knows what its parent does. -/
theorem board_putThread_forked (sound : t.board.Sound none) {child : ThreadId}
    (there : t.threads[th.tid]? = some th) (unborn : t.board.Unborn child) :
    (t.putThread (Thread.forked child th)).board =
      (t.board.enter child).flow (.thread th.tid) (.thread child) := by
  have hne : th.tid ≠ child := fun he =>
    unborn.1 (Table.mem_iff_exists.mpr ⟨th, he ▸ there⟩)
  have hclock : ∀ u, t.board.known (.thread th.tid) u = (th.clock.get u).toNat := fun u => by
    simp only [board, clockAt_thread there]
  have hzero : (th.clock.get child).toNat = 0 := (hclock child).symm.trans (sound.unborn _ _ unborn)
  have hfresh : ∀ u, t.board.known (.thread child) u = 0 := fun u => sound.absent child u unborn.1
  ext p u
  · simp only [Board.flow, Board.enter, Place.thread.injEq, hne, false_and, if_false, hclock]
    by_cases hp : p = .thread child
    · have hget : ((t.putThread (Thread.forked child th)).board.known p u) =
          ((th.clock.increment child).get u).toNat := by
        simp only [board, clockAt_putThread, Thread.forked, hp, if_true]
      rw [hget, VectorClock.get_increment]
      subst hp
      by_cases hu : u = child
      · subst hu
        simp [Tick.toNat_next, hzero, Tick.toNat_last]
      · simp [hu, hfresh]
    · simp only [board, clockAt_putThread, Thread.forked, hp, if_false, false_and]
  · exact Table.mem_insert_iff
  · rfl

theorem board_fork (sound : t.board.Sound none) {child : ThreadId}
    (there : t.threads[th.tid]? = some th) (unborn : t.board.Unborn child) :
    ((t.putThread th.tick).putThread (Thread.forked child th)).board =
      ((t.board.enter child).flow (.thread th.tid) (.thread child)).tick th.tid := by
  have hne : th.tid ≠ child := fun he =>
    unborn.1 (Table.mem_iff_exists.mpr ⟨th, he ▸ there⟩)
  have hthere : (t.putThread (Thread.forked child th)).threads[th.tid]? = some th := by
    show (t.threads.insert child _)[th.tid]? = _
    rw [Table.get_insert, if_neg hne, there]
  have hcomm : th.tick.tid ≠ (Thread.forked child th).tid := hne
  rw [board_putThread_comm t hcomm, board_putThread_tick, board_putThread_same hthere rfl,
    board_putThread_forked sound there unborn]

end Tables

end RaceMonitor
