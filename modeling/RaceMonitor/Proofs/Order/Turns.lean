import RaceMonitor.Engine.Basic
import RaceMonitor.Proofs.Engine.Memory
import RaceMonitor.Proofs.Order.Clocks

/-! What events do to the clocks.

One lemma an event that makes a link: after its thread has entered, the board moves as the link
says. Any other leaves it alone, but for `finish` (`State.turned`). A rejected event, too, may have
let its thread enter or have made a lock. -/
namespace RaceMonitor

/-- The event leaves the tables tidy, and the board takes a turn. -/
structure Turned (s : State) (h : Host) (e : Event) : Prop where
  tidy : (s.step h e).1.tables.Tidy
  turn : ∃ b, Board.Admits e.actor? s.tables.board b ∧
    Board.Turn e.actor? (s.Makes h e) b (s.step h e).1.tables.board

variable {s : State} {h : Host}

/-! ### Which links are made -/

theorem Word.succ_ne (n : Word) : n + 1 ≠ n := by
  intro he
  have := congrArg UInt64.toNat he
  rw [UInt64.toNat_add, UInt64.toNat_one] at this
  omega

theorem State.accepts_of_same {e : Event} {s' : State} (step : (s.step h e).1 = s')
    (same : s'.counters = s.counters) : s.Accepts h e := by
  subst step
  exact ⟨by rw [same], by rw [same]⟩

theorem State.not_accepts_of_untracked {e : Event} {s' : State} (step : (s.step h e).1 = s')
    (counted : s'.counters.untracked = s.counters.untracked + 1) : ¬ s.Accepts h e := by
  subst step
  exact fun ok => Word.succ_ne _ (counted.symm.trans ok.2)

theorem State.not_accepts_of_anomaly {e : Event} {s' : State} (step : (s.step h e).1 = s')
    (counted : s'.counters.anomalies = s.counters.anomalies + 1) : ¬ s.Accepts h e := by
  subst step
  exact fun ok => Word.succ_ne _ (counted.symm.trans ok.1)

/-- An event that was counted untracked makes no link. -/
theorem State.no_link_of_untracked {e : Event} {s' : State} (step : (s.step h e).1 = s')
    (counted : s'.counters.untracked = s.counters.untracked + 1) (k : Link) :
    ¬ s.Makes h e k := by
  have rejected := State.not_accepts_of_untracked step counted
  intro makes
  cases makes <;> exact rejected (by assumption)

/-- Nor does an anomaly. -/
theorem State.no_link_of_anomaly {e : Event} {s' : State} (step : (s.step h e).1 = s')
    (counted : s'.counters.anomalies = s.counters.anomalies + 1) (k : Link) :
    ¬ s.Makes h e k := by
  have rejected := State.not_accepts_of_anomaly step counted
  intro makes
  cases makes <;> exact rejected (by assumption)

theorem State.no_link_of_access {write : Bool} {tid : ThreadId} {pc addr size : Word} (k : Link) :
    ¬ s.Makes h (.access write tid pc addr size) k := by
  cases write <;> nofun

/-- The thread of an event may enter, and then nothing happens to the clocks. -/
theorem Turned.idle {e : Event} {s₁ s' : State} (step : (s.step h e).1 = s')
    (tidy : s₁.tables.Tidy) (admits : Board.Admits e.actor? s.tables.board s₁.tables.board)
    (same : s₁.tables.SameClocks s'.tables) (none : ∀ k, ¬ s.Makes h e k) : Turned s h e := by
  subst step
  exact ⟨same.tidy tidy, _, same.board.symm ▸ admits, .idle none⟩

/-- Nothing happens to the clocks at all. -/
theorem Turned.aside {e : Event} {s' : State} (tidy : s.tables.Tidy)
    (step : (s.step h e).1 = s') (same : s.tables.SameClocks s'.tables)
    (none : ∀ k, ¬ s.Makes h e k) : Turned s h e :=
  .idle step tidy .known same none

theorem State.makes_fork {parent child : ThreadId} (ok : s.Accepts h (.fork parent child))
    (k : Link) : s.Makes h (.fork parent child) k ↔ k = .fork parent child :=
  ⟨fun hk => by cases hk; rfl, fun hk => hk ▸ .fork ok⟩

theorem State.makes_join {parent child : ThreadId} (ok : s.Accepts h (.join parent child))
    (k : Link) : s.Makes h (.join parent child) k ↔ k = .join parent child :=
  ⟨fun hk => by cases hk; rfl, fun hk => hk ▸ .join ok⟩

theorem State.makes_signal {tid : ThreadId} {id : Word} (ok : s.Accepts h (.happensBefore tid id))
    (k : Link) : s.Makes h (.happensBefore tid id) k ↔ k = .publish tid (.signal id) :=
  ⟨fun hk => by cases hk; rfl, fun hk => hk ▸ .signal ok⟩

theorem State.makes_await {tid : ThreadId} {id : Word} (ok : s.Accepts h (.happensAfter tid id))
    (k : Link) : s.Makes h (.happensAfter tid id) k ↔ k = .take tid (.signal id) :=
  ⟨fun hk => by cases hk; rfl, fun hk => hk ▸ .await ok⟩

theorem State.makes_acquire {tid : ThreadId} {lock : Word} {recursive isWrite : Bool}
    (ok : s.Accepts h (.acquire tid lock recursive isWrite)) (k : Link) :
    s.Makes h (.acquire tid lock recursive isWrite) k ↔
      s.nesting lock tid = 0 ∧ k = .take tid (.lock lock) :=
  ⟨fun hk => by cases hk; exact ⟨by assumption, rfl⟩, fun hk => hk.2 ▸ .acquire ok hk.1⟩

theorem State.makes_release {tid : ThreadId} {lock : Word} {isWrite : Bool}
    (ok : s.Accepts h (.release tid lock isWrite)) (k : Link) :
    s.Makes h (.release tid lock isWrite) k ↔
      (s.step h (.release tid lock isWrite)).1.nesting lock tid = 0 ∧
        k = .publish tid (.lock lock) :=
  ⟨fun hk => by cases hk; exact ⟨by assumption, rfl⟩, fun hk => hk.2 ▸ .release ok hk.1⟩

/-! ### Threads -/

section Threads

variable {tid parent child : ThreadId} {c t : Thread} {s₁ : State} {noted : List Output}

theorem fork_turned (tidy : s.tables.Tidy) (sound : s.tables.board.Sound none)
    (summons : s.Summons (.fork parent child) parent) (met : s.thread parent = (some t, s₁, noted))
    (step : (s.step h (.fork parent child)).1 =
      s₁.withTables ((s₁.tables.putThread t.tick).putThread (Thread.forked child t))) :
    Turned s h (.fork parent child) := by
  have enter := State.thread_entered met
  have ok := State.accepts_of_same step enter.counters
  have own := enter.tid_eq tidy
  have unborn : s₁.tables.board.Unborn child := by
    cases summons with
    | fork other missing alive => exact enter.unborn other ⟨missing, alive⟩
  refine ⟨step ▸ ((enter.tidy tidy).putThread _).putThread _, _, enter.admits, ?_⟩
  rw [step]
  show Board.Turn _ _ _ ((s₁.tables.putThread t.tick).putThread (Thread.forked child t)).board
  rw [Tables.board_fork (sound.admits enter.admits) (own ▸ enter.there) unborn, own]
  exact .fork parent child rfl enter.live unborn (State.makes_fork ok)

theorem join_turned (tidy : s.tables.Tidy) (other : child ≠ parent)
    (there : s.tables.threads[child]? = some c) (met : s.thread parent = (some t, s₁, noted))
    (step : (s.step h (.join parent child)).1 =
      s₁.withTables ((s₁.tables.putThread (t.observe c.clock).tick).retire child)) :
    Turned s h (.join parent child) := by
  have enter := State.thread_entered met
  have ok := State.accepts_of_same step enter.counters
  have own := enter.tid_eq tidy
  have clock : c.clock = s₁.tables.clockAt (.thread child) :=
    (Tables.clockAt_thread (enter.keeps there)).symm
  have live : s₁.tables.board.live child :=
    enter.mem_iff.mpr (.inr (Table.mem_iff_exists.mpr ⟨c, there⟩))
  refine ⟨step ▸ ((enter.tidy tidy).putThread _).retire _, _, enter.admits, ?_⟩
  rw [step]
  show Board.Turn _ _ _ ((s₁.tables.putThread (t.observe c.clock).tick).retire child).board
  rw [Tables.board_retire, Tables.board_putThread_tick, clock,
    Tables.board_putThread_observe (own ▸ enter.there)]
  show Board.Turn _ _ _
    (((s₁.tables.board.flow (.thread child) (.thread t.tid)).tick t.tid).retire child)
  rw [own]
  exact .join parent child rfl enter.live live other (State.makes_join ok)

/-- A thread goes on with the clock that it had. -/
theorem Turned.replaced {e : Event} {t' : Thread} (tidy : s₁.tables.Tidy)
    (admits : Board.Admits e.actor? s.tables.board s₁.tables.board)
    (there : s₁.tables.threads[tid]? = some t)
    (step : (s.step h e).1 = s₁.withTables (s₁.tables.putThread t')) (tid_eq : t'.tid = t.tid)
    (clock : t'.clock = t.clock) (none : ∀ k, ¬ s.Makes h e k) : Turned s h e := by
  have there : s₁.tables.threads[t'.tid]? = some t := by
    rw [tid_eq, tidy.keyed tid t there, there]
  refine ⟨step ▸ tidy.putThread _, _, admits, ?_⟩
  rw [step]
  show Board.Turn _ _ _ (s₁.tables.putThread t').board
  rw [Tables.board_putThread_same there clock]
  exact .idle none

theorem finish_turned {by_ : ThreadId} (tidy : s.tables.Tidy) (there : tid ∈ s.tables.threads)
    (step : (s.step h (.finish by_ tid)).1 = s.withTables (s.tables.retire tid)) :
    Turned s h (.finish by_ tid) := by
  refine ⟨step ▸ tidy.retire tid, _, .known, ?_⟩
  rw [step]
  show Board.Turn _ _ _ (s.tables.retire tid).board
  rw [Tables.board_retire]
  exact .finish tid there nofun

end Threads

/-! ### Locks and signals -/

section Channels

variable {tid : ThreadId} {t : Thread} {s₁ s₂ : State} {noted noted' : List Output}

theorem nesting_of_locks {id : Word} {l : Lock} {tid : ThreadId}
    (locks : s.tables.locks[id]? = some l) : s.nesting id tid = l.depth tid := by
  simp only [State.nesting, locks, Option.getD_some]

/-- The lock of a thread that has looked it up is held as often as before. -/
theorem nesting_of_found {id : Word} {l : Lock} (met : s.thread tid = (some t, s₁, noted))
    (found : s₁.lock id = (some l, s₂, noted')) (u : ThreadId) : l.depth u = s.nesting id u := by
  rw [State.lock_given found, State.nesting, (State.thread_entered met).locks]

/-- The holders of a lock are none of the clocks' business. -/
theorem held_sameClocks {id : Word} {l : Lock} (valid : l.Valid)
    (found : s.lock id = (some l, s₁, noted)) (tid : ThreadId) :
    s.tables.SameClocks (s₁.tables.putLock id (l.acquire tid).2) := by
  have same := State.lock_sameClocks found
  refine same.trans (Tables.sameClocks_putLock ?_ (Lock.acquire_valid valid tid))
  rw [same.clockAt, ← Tables.clock_lock, ← State.lock_given found]
  rfl

section Acquires

variable {id : Word} {recursive isWrite : Bool} {l l' : Lock}

theorem acquire_turned (tidy : s.tables.Tidy) (met : s.thread tid = (some t, s₁, noted))
    (found : s₁.lock id = (some l, s₂, noted')) (outermost : l.acquire tid = (true, l'))
    (step : (s.step h (.acquire tid id recursive isWrite)).1 =
      s₂.withTables ((s₂.tables.putLock id l').putThread (t.observe l'.clock).tick)) :
    Turned s h (.acquire tid id recursive isWrite) := by
  have enter := State.thread_entered met
  have ok := State.accepts_of_same step ((State.lock_counters found).trans enter.counters)
  have valid : l.Valid := State.lock_given found ▸ (enter.tidy tidy).lock id
  have held : s₁.tables.SameClocks (s₂.tables.putLock id l') := by
    simpa only [outermost] using held_sameClocks valid found tid
  have free : s.nesting id tid = 0 := by
    rw [← nesting_of_found met found]
    exact (Lock.acquire_outermost valid tid).mp (by rw [outermost])
  have clock : l'.clock = (s₂.tables.putLock id l').clockAt (.channel (.lock id)) := by
    simp [Tables.clockAt_putLock]
  have there : (s₂.tables.putLock id l').threads[t.tid]? = some t := by
    rw [held.threads, enter.tid_eq tidy, enter.there]
  refine ⟨step ▸ (held.tidy (enter.tidy tidy)).putThread _, _, enter.admits, ?_⟩
  rw [step]
  show Board.Turn _ _ _ ((s₂.tables.putLock id l').putThread (t.observe l'.clock).tick).board
  rw [Tables.board_putThread_tick, clock, Tables.board_putThread_observe there, held.board]
  show Board.Turn _ _ _ ((s₁.tables.board.flow _ (.thread t.tid)).tick t.tid)
  rw [enter.tid_eq tidy]
  exact .acquire tid (.lock id) rfl enter.live fun k =>
    (State.makes_acquire ok k).trans (and_iff_right free)

theorem reacquire_turned (tidy : s.tables.Tidy) (met : s.thread tid = (some t, s₁, noted))
    (found : s₁.lock id = (some l, s₂, noted')) (nested : l.acquire tid = (false, l'))
    (step : (s.step h (.acquire tid id recursive isWrite)).1 =
      s₂.withTables (s₂.tables.putLock id l')) :
    Turned s h (.acquire tid id recursive isWrite) := by
  have enter := State.thread_entered met
  have ok := State.accepts_of_same step ((State.lock_counters found).trans enter.counters)
  have valid : l.Valid := State.lock_given found ▸ (enter.tidy tidy).lock id
  have held : s₁.tables.SameClocks (s₂.tables.putLock id l') := by
    simpa only [nested] using held_sameClocks valid found tid
  have taken : s.nesting id tid ≠ 0 := fun free => by
    rw [← nesting_of_found met found] at free
    have outermost := (Lock.acquire_outermost valid tid).mpr free
    rw [nested] at outermost
    cases outermost
  exact .idle step (enter.tidy tidy) enter.admits held
    fun k makes => taken ((State.makes_acquire ok k).mp makes).1

end Acquires

section Releases

variable {id : Word} {isWrite : Bool} {l : Lock}

theorem release_turned (tidy : s.tables.Tidy) (met : s.thread tid = (some t, s₁, noted))
    (outermost : (s₁.tables.locks[id]?.getD .fresh).release tid = (.released, l))
    (step : (s.step h (.release tid id isWrite)).1 =
      s₁.withTables ((s₁.tables.putLock id (l.absorb t.clock)).putThread t.tick)) :
    Turned s h (.release tid id isWrite) := by
  have enter := State.thread_entered met
  have ok := State.accepts_of_same step enter.counters
  have released := Lock.released ((enter.tidy tidy).lock id) tid
  rw [outermost] at released
  cases released with
  | released _ once valid clock depths =>
    have free : (s.step h (.release tid id isWrite)).1.nesting id tid = 0 := by
      have there : (s₁.withTables ((s₁.tables.putLock id (l.absorb t.clock)).putThread
          t.tick)).tables.locks[id]? = some (l.absorb t.clock) :=
        Std.ExtTreeMap.getElem?_insert_self
      rw [step, nesting_of_locks there]
      exact (depths tid).trans (if_pos rfl)
    have there : (s₁.tables.putLock id (l.absorb t.clock)).threads[t.tid]? = some t := by
      show s₁.tables.threads[t.tid]? = _
      rw [enter.tid_eq tidy, enter.there]
    have absorbed : (l.absorb t.clock).clock = (s₁.tables.clockAt (.channel (.lock id))).join
        (s₁.tables.clockAt (.thread tid)) := by
      rw [Tables.clockAt_thread enter.there, ← Tables.clock_lock, ← clock]
      rfl
    refine ⟨step ▸ ((enter.tidy tidy).putLock id (valid.absorb t.clock)).putThread _, _,
      enter.admits, ?_⟩
    rw [step]
    show Board.Turn _ _ _ ((s₁.tables.putLock id (l.absorb t.clock)).putThread t.tick).board
    rw [Tables.board_putThread_tick, Tables.board_putThread_same there rfl,
      Tables.board_putLock absorbed, enter.tid_eq tidy]
    exact .publish tid (.lock id) rfl enter.live fun k =>
      (State.makes_release ok k).trans (and_iff_right free)

theorem unnest_turned (tidy : s.tables.Tidy) (met : s.thread tid = (some t, s₁, noted))
    (nested : (s₁.tables.locks[id]?.getD .fresh).release tid = (.nested, l))
    (step : (s.step h (.release tid id isWrite)).1 = s₁.withTables (s₁.tables.putLock id l)) :
    Turned s h (.release tid id isWrite) := by
  have enter := State.thread_entered met
  have ok := State.accepts_of_same step enter.counters
  have released := Lock.released ((enter.tidy tidy).lock id) tid
  rw [nested] at released
  cases released with
  | nested _ deep valid clock depths =>
    have held : (s.step h (.release tid id isWrite)).1.nesting id tid ≠ 0 := by
      have there : (s₁.withTables (s₁.tables.putLock id l)).tables.locks[id]? = some l :=
        Std.ExtTreeMap.getElem?_insert_self
      rw [step, nesting_of_locks there, depths, if_pos rfl]
      intro none
      have le : (1 : UInt32) ≤ (s₁.tables.locks[id]?.getD .fresh).depth tid :=
        UInt32.le_iff_toNat_le.mpr (Nat.le_of_lt deep)
      have none := congrArg UInt32.toNat none
      rw [UInt32.toNat_sub_of_le _ _ le, UInt32.toNat_one, UInt32.toNat_zero] at none
      omega
    exact .idle step (enter.tidy tidy) enter.admits
      (Tables.sameClocks_putLock (clock.trans (Tables.clock_lock ..)) valid)
      fun k makes => held ((State.makes_release ok k).mp makes).1

end Releases

section Signals

variable {id : Word} {vc : VectorClock}

theorem happensBefore_turned (tidy : s.tables.Tidy) (met : s.thread tid = (some t, s₁, noted))
    (found : s₁.signal id = (some vc, s₂, noted'))
    (step : (s.step h (.happensBefore tid id)).1 =
      s₂.withTables ((s₂.tables.putSignal id (vc.join t.clock)).putThread t.tick)) :
    Turned s h (.happensBefore tid id) := by
  have enter := State.thread_entered met
  have same := State.signal_sameClocks found
  have ok := State.accepts_of_same step ((State.signal_counters found).trans enter.counters)
  have clock : vc.join t.clock = (s₂.tables.clockAt (.channel (.signal id))).join
      (s₂.tables.clockAt (.thread tid)) := by
    rw [same.clockAt, same.clockAt, Tables.clockAt_thread enter.there, State.signal_given found]
    rfl
  have there : (s₂.tables.putSignal id (vc.join t.clock)).threads[t.tid]? = some t := by
    show s₂.tables.threads[t.tid]? = _
    rw [same.threads, enter.tid_eq tidy, enter.there]
  refine ⟨step ▸ ((same.tidy (enter.tidy tidy)).putSignal id _).putThread _, _, enter.admits, ?_⟩
  rw [step]
  show Board.Turn _ _ _ ((s₂.tables.putSignal id (vc.join t.clock)).putThread t.tick).board
  rw [Tables.board_putThread_tick, Tables.board_putThread_same there rfl, clock,
    Tables.board_putSignal, same.board, enter.tid_eq tidy]
  exact .publish tid (.signal id) rfl enter.live (State.makes_signal ok)

theorem happensAfter_turned (tidy : s.tables.Tidy) (met : s.thread tid = (some t, s₁, noted))
    (found : s₁.signal id = (some vc, s₂, noted'))
    (step : (s.step h (.happensAfter tid id)).1 =
      s₂.withTables (s₂.tables.putThread (t.observe vc))) : Turned s h (.happensAfter tid id) := by
  have enter := State.thread_entered met
  have same := State.signal_sameClocks found
  have ok := State.accepts_of_same step ((State.signal_counters found).trans enter.counters)
  have clock : vc = s₂.tables.clockAt (.channel (.signal id)) := by
    rw [same.clockAt, State.signal_given found]
    rfl
  have there : s₂.tables.threads[t.tid]? = some t := by
    rw [same.threads, enter.tid_eq tidy, enter.there]
  refine ⟨step ▸ (same.tidy (enter.tidy tidy)).putThread _, _, enter.admits, ?_⟩
  rw [step]
  show Board.Turn _ _ _ (s₂.tables.putThread (t.observe vc)).board
  rw [clock, Tables.board_putThread_observe there, same.board, enter.tid_eq tidy]
  exact .await tid (.signal id) rfl enter.live (State.makes_await ok)

end Signals

end Channels

/-- **What an event does to the clocks**: its thread may enter, and then the board takes a turn
that fits the links that the event makes. -/
theorem State.turned (quiet : h.Quiet) (tidy : s.tables.Tidy) (sound : s.tables.board.Sound none)
    (e : Event) : Turned s h e := by
  obtain ⟨res, step⟩ : ∃ res, s.step h e = res := ⟨_, rfl⟩
  have performed := step ▸ s.performed h e
  replace step := congrArg Prod.fst step
  cases performed with
  | accused => exact .aside tidy step (.refl _) (no_link_of_anomaly step rfl)
  | refused summons met =>
    have none := no_link_of_untracked step (congrArg (·.untracked + 1) (thread_counters met))
    exact .idle step (thread_tidy met tidy) (thread_admits met summons.actor) (.refl _) none
  | misused summons met =>
    have none := no_link_of_anomaly step (congrArg (·.anomalies + 1) (thread_counters met))
    exact .idle step (thread_tidy met tidy) (thread_admits met summons.actor) (.refl _) none
  | full summons met full =>
    obtain ⟨x, rfl⟩ := reserve_shape full
    have none := no_link_of_untracked step (congrArg (·.untracked + 1) (thread_counters met))
    exact .idle step (thread_tidy met tidy) (thread_admits met rfl) (.refl _) none
  | forked summons met => exact fork_turned tidy sound summons met step
  | joined other there _ met => exact join_turned tidy other there met step
  | detached there => exact .replaced tidy .known there step rfl rfl nofun
  | finished there => exact finish_turned tidy there step
  | entered met =>
    exact .replaced (thread_tidy met tidy) (thread_admits met rfl) (thread_entered met).there step
      rfl rfl nofun
  | exited met left =>
    obtain ⟨frame, _, left⟩ := Option.map_eq_some_iff.mp left
    cases left
    exact .replaced (thread_tidy met tidy) (thread_admits met rfl) (thread_entered met).there step
      rfl rfl nofun
  | unlocked met found =>
    have counted := (lock_counters found).trans (thread_counters met)
    have none := no_link_of_untracked step (congrArg (·.untracked + 1) counted)
    have clocks := lock_sameClocks found
    exact .idle step (thread_tidy met tidy) (thread_admits met rfl) clocks none
  | acquired met found outermost => exact acquire_turned tidy met found outermost step
  | reacquired met found nested => exact reacquire_turned tidy met found nested step
  | released met outermost => exact release_turned tidy met outermost step
  | unnested met nested => exact unnest_turned tidy met nested step
  | @unsignalled _ tid _ _ _ _ _ _ _ names met found =>
    have actor : e.actor? = some tid := by rcases names with rfl | rfl <;> rfl
    have counted := (signal_counters found).trans (thread_counters met)
    have none := no_link_of_untracked step (congrArg (·.untracked + 1) counted)
    have clocks := signal_sameClocks found
    exact .idle step (thread_tidy met tidy) (thread_admits met actor) clocks none
  | signalled met found => exact happensBefore_turned tidy met found step
  | awaited met found => exact happensAfter_turned tidy met found step
  | allocated allocates => cases allocates <;> exact .aside tidy step (.of_eq rfl rfl rfl rfl) nofun
  | freed frees =>
    cases frees with
    | ignored => exact .aside tidy step (.refl _) nofun
    | refused _ met | misused _ met | freed _ met =>
      exact .idle step (thread_tidy met tidy) (thread_admits met rfl) (.of_eq rfl rfl rfl rfl) nofun
    | swept _ met _ _ sweeps =>
      cases sweeps
      exact .idle step (thread_tidy met tidy) (thread_admits met rfl) (.of_eq rfl rfl rfl rfl) nofun
  | mapped => exact .aside tidy step (.of_eq rfl rfl rfl rfl) nofun
  | unseen access met =>
    subst access
    exact .idle step (thread_tidy met tidy) (thread_admits met (Event.actor?_access ..)) (.refl _)
      no_link_of_access
  | accessed access met made =>
    subst access
    obtain ⟨x, c, shadow, heap, rfl⟩ := accessBy_shape quiet made
    exact .idle step (thread_tidy met tidy) (thread_admits met (Event.actor?_access ..))
      (.of_eq rfl rfl rfl rfl) no_link_of_access

end RaceMonitor
