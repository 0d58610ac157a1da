import RaceMonitor.Proofs.Engine.Anomalies
import RaceMonitor.Proofs.Engine.Refused
import RaceMonitor.Proofs.Session.Access

/-! Which threads are live, and how many there is room for.

A thread that has retired does nothing any more, except that it can still make a lock, a signal or
a block (`Session.retired_event_ignored`).

A fork by a live parent is an anomaly, or it is accepted, or it is dropped as there is no room for
the child (`State.fork_forked`). Where there is no room, nobody else comes in either until a thread
retires (`Session.Settled.mem_of_mem`): neither a forked child nor a thread that is named for the
first time. -/
namespace RaceMonitor

/-- A turn makes a thread live only by forking it. -/
theorem Board.Turn.live {a : Option ThreadId} {l : Link → Prop} {b b' : Board}
    (step : Board.Turn a l b b') {u : ThreadId} (live : b'.live u) :
    b.live u ∨ ∃ p, l (.fork p u) := by
  cases step with
  | idle | publish | acquire | await => exact .inl live
  | finish | join => exact .inl live.2
  | fork p c _ _ _ only =>
    rcases live with rfl | live
    · exact .inr ⟨p, (only _).mpr rfl⟩
    · exact .inl live

namespace State

variable {s : State} {h : Host}

/-- There is no room for another thread. -/
def Packed (s : State) : Prop := ¬ s.Room .threads s.tables.threads.size

/-- What a fork by a live parent comes to. -/
inductive Forked (s : State) (p c : ThreadId) : State × List Output → Prop where
  | reused : Forked s p c (s.raiseAnomaly (.threadReused p c))
  | made (room : s.Room .threads s.tables.threads.size) (s' : State) (out : List Output)
    (counters : s'.counters = s.counters) : Forked s p c (s', out)
  | dropped (packed : s.Packed) (missing : c ∉ s.tables.threads) (e : Exhausted)
    (out : List Output) : Forked s p c (State.countUntracked { s with exhausted := e }, out)

theorem fork_forked {p : ThreadId} (known : p ∈ s.tables.threads) (c : ThreadId) :
    Forked s p c (s.step h (.fork p c)) := by
  obtain ⟨t, there⟩ := Table.mem_iff_exists.mp known
  have met : s.thread p = (some t, s, []) := by simp only [State.thread, there]
  by_cases reused : c = p ∨ c ∈ s.tables.threads ∨ c ∈ s.tables.retired
  · rw [Performed.step_eq (h := h) (.accused (.reused reused))]
    exact .reused
  · obtain ⟨other, missing, alive⟩ :
        c ≠ p ∧ c ∉ s.tables.threads ∧ c ∉ s.tables.retired := by simpa using reused
    have summons : s.Summons (.fork p c) p := .fork other missing alive
    by_cases room : s.Room .threads s.tables.threads.size
    · rw [Performed.step_eq (h := h) (.forked summons met room)]
      exact .made room _ _ rfl
    · obtain ⟨e, out, full, _⟩ := reserve_of_full room
      rw [Performed.step_eq (h := h) (.full summons met full)]
      exact .dropped room missing e _

/-- Without room, a live parent does not get a child. -/
theorem Packed.not_forks (packed : s.Packed) {p : ThreadId} (known : p ∈ s.tables.threads)
    (c : ThreadId) (k : Link) : ¬ s.Makes h (.fork p c) k := by
  obtain ⟨res, step⟩ : ∃ res, s.step h (.fork p c) = res := ⟨_, rfl⟩
  have forked := step ▸ fork_forked (h := h) known c
  replace step := congrArg Prod.fst step
  cases forked with
  | reused => exact no_link_of_anomaly step rfl k
  | made room => exact absurd room packed
  | dropped => exact no_link_of_untracked step rfl k

/-- A fork by a live parent that is no anomaly is accepted, or there is no room. -/
theorem accepts_or_packed {p c : ThreadId} (known : p ∈ s.tables.threads)
    (new : Anomaly.threadReused p c ∉ anomalies (s.step h (.fork p c)).2) :
    s.Accepts h (.fork p c) ∨ (s.Packed ∧ c ∉ s.tables.threads) := by
  obtain ⟨res, step⟩ : ∃ res, s.step h (.fork p c) = res := ⟨_, rfl⟩
  have forked := step ▸ fork_forked (h := h) known c
  cases forked with
  | reused =>
    rw [step] at new
    exact absurd (by simp) new
  | made room s' out counters => exact .inl (accepts_of_same (congrArg Prod.fst step) counters)
  | dropped packed missing => exact .inr ⟨packed, missing⟩

theorem mem_of_mem_detach {by_ tid u : ThreadId} (tidy : s.tables.Tidy)
    (live : u ∈ (s.step h (.detach by_ tid)).1.tables.threads) : u ∈ s.tables.threads := by
  by_cases known : tid ∈ s.tables.threads
  · obtain ⟨t, there⟩ := Table.mem_iff_exists.mp known
    have own : t.detach.tid = tid := tidy.keyed tid t there
    rw [Performed.step_eq (h := h) (.detached there)] at live
    exact (Tables.live_putThread (own.symm ▸ known) u).mp live
  · rwa [Performed.step_eq (h := h) (.accused (.undetachable known))] at live

theorem mem_of_mem_finish {by_ tid u : ThreadId}
    (live : u ∈ (s.step h (.finish by_ tid)).1.tables.threads) : u ∈ s.tables.threads := by
  by_cases known : tid ∈ s.tables.threads
  · rw [Performed.step_eq (h := h) (.finished known)] at live
    exact (Table.mem_erase_iff.mp live).2
  · rwa [Performed.step_eq (h := h) (.accused (.unfinishable known))] at live

/-- Without room, no thread comes in. -/
theorem Packed.mem_of_mem_step (packed : s.Packed) (quiet : h.Quiet) (tidy : s.tables.Tidy)
    (sound : s.tables.board.Sound none) {e : Event} {u : ThreadId}
    (live : u ∈ (s.step h e).1.tables.threads) : u ∈ s.tables.threads := by
  by_cases known : ∀ tid, e.actor? = some tid → tid ∈ s.tables.threads
  · obtain ⟨b, admits, turn⟩ := (turned quiet tidy sound e).turn
    have idle : b = s.tables.board := by
      cases admits with
      | known => rfl
      | entered t actor unborn => exact absurd (known t actor) unborn.1
    subst idle
    rcases turn.live live with live | ⟨p, makes⟩
    · exact live
    · cases makes with
      | fork ok => exact absurd (.fork ok) (packed.not_forks (known _ rfl) _ _)
  · obtain ⟨tid, actor, missing⟩ : ∃ tid, e.actor? = some tid ∧ tid ∉ s.tables.threads := by
      simpa using known
    have refused : s.Refuses tid := ⟨missing, .inr packed⟩
    by_cases own : ∀ v, e ≠ .detach tid v ∧ e ≠ .finish tid v
    · rwa [refused.threads actor own] at live
    · obtain ⟨v, own⟩ : ∃ v, e ≠ .detach tid v → e = .finish tid v := by simpa using own
      by_cases detaches : e = .detach tid v
      · subst detaches
        exact mem_of_mem_detach tidy live
      · obtain rfl := own detaches
        exact mem_of_mem_finish live

end State

namespace Session

variable {r : Session}

/-! ### Retired threads -/

/-- **Events of retired threads are dropped, but for what comes before the thread is asked for**:
no race is delivered, and the populations stay as they are, except that a lock or signal which the
event names comes into being, and that an allocation takes place as any other. -/
theorem retired_event_ignored {n : Nat} {tid : ThreadId}
    (retired : tid ∈ (r.state n).tables.retired) {e : Event} (actor : e.actor? = some tid)
    (own : ∀ u, e ≠ .detach tid u ∧ e ≠ .finish tid u) :
    RaceMonitor.races ((r.state n).step r.host e).2 = [] ∧
    ((∀ pc addr size, e ≠ .alloc tid pc addr size) →
      ((r.state n).step r.host e).1.tables = (r.state n).founded e) ∧
    ∀ pc addr size, e = .alloc tid pc addr size →
      if r.start.config.trackAllocations = false ∨ size = 0 then
        ((r.state n).step r.host e).1.tables = (r.state n).tables
      else ((r.state n).step r.host e).1.tables.heap.live[addr]? =
        some (Block.new tid pc ⟨addr, size⟩) := by
  have refused : (r.state n).Refuses tid :=
    ⟨fun live => (r.sound n).apart tid live retired, .inl retired⟩
  refine ⟨refused.races actor, refused.tables actor own, fun pc addr size he => ?_⟩
  obtain rfl := he
  obtain ⟨allocated, _⟩ := (r.state n).allocate_allocated r.host tid pc addr size
  split
  · rename_i idle
    have idle : (!(r.state n).config.trackAllocations || size == 0) = true := by
      rw [r.config n]
      simpa using idle
    simp only [State.step, State.allocate, idle, if_true]
  · rename_i takes
    obtain ⟨tracking, nonempty⟩ := not_or.mp takes
    exact allocated.live (by rw [r.config n]; simpa using tracking) nonempty

/-- A thread that has finished acquires a lock, and then another thread acquires one; there is
room for a single lock. -/
def haunted : Session :=
  .under { Config.default with maxLocks := 1 }
    [.enter 1 1, .finish 1 1, .acquire 1 10 false true, .acquire 2 20 false true]

theorem retired_event_ignored_haunted : 1 ∈ (haunted.state 2).tables.retired ∧
    RaceMonitor.races ((haunted.state 2).step haunted.host (.acquire 1 10 false true)).2 = [] ∧
    ((haunted.state 2).step haunted.host (.acquire 1 10 false true)).1.tables =
      (haunted.state 2).tables.putLock 10 .fresh := by
  have retired : 1 ∈ (haunted.state 2).tables.retired := by decide +kernel
  obtain ⟨races, tables, _⟩ := retired_event_ignored (e := .acquire 1 10 false true) retired rfl
    (by simp)
  have room : 10 ∉ (haunted.state 2).tables.locks ∧ (haunted.state 2).Room .locks
      ((haunted.state 2).tables.locks.size + (haunted.state 2).tables.signals.size) := by
    decide +kernel
  have founded : (haunted.state 2).founded (.acquire 1 10 false true) =
      (haunted.state 2).tables.putLock 10 .fresh := by
    rw [State.founded, if_pos room]
  exact ⟨retired, races, (tables (by simp)).trans founded⟩

/-- The lock of the finished thread takes the place of the live one's. -/
theorem haunted_exhausts : 1 ∈ (haunted.state 2).tables.retired ∧
    (haunted.state 2).tables.locks.isEmpty = true ∧ 10 ∈ (haunted.state 3).tables.locks ∧
    2 ∈ (haunted.state 4).tables.threads ∧ 20 ∉ (haunted.state 4).tables.locks := by
  decide +kernel

/-! ### Room -/

/-- A live thread stays live until it retires. -/
theorem live_of_le {n m : Nat} (le : n ≤ m) {tid : ThreadId}
    (live : tid ∈ (r.state n).tables.threads) (stays : tid ∉ (r.state m).tables.retired) :
    tid ∈ (r.state m).tables.threads := by
  have born := (Session.elapsed (r := r) live le).born
  exact Classical.byContradiction fun gone => born ⟨gone, stays⟩

/-- No thread retires from event `n` on until event `m` comes. -/
def Settled (r : Session) (n m : Nat) : Prop :=
  ∀ t, t ∈ (r.state m).tables.retired → t ∈ (r.state n).tables.retired

theorem Settled.live {n m : Nat} (settled : r.Settled n m) (le : n ≤ m) {tid : ThreadId}
    (live : tid ∈ (r.state n).tables.threads) : tid ∈ (r.state m).tables.threads :=
  live_of_le le live fun retired => (r.sound n).apart tid live (settled tid retired)

/-- Where there is no room, there is none until a thread retires. -/
theorem Settled.packed {n m : Nat} (settled : r.Settled n m) (le : n ≤ m)
    (packed : (r.state n).Packed) : (r.state m).Packed := by
  have more := Table.size_le_of_subset fun _ live => settled.live le live
  simp only [State.Packed, State.Room, Config.full, r.config, Bool.not_eq_false, Bool.and_eq_true,
    decide_eq_true_eq] at packed ⊢
  exact ⟨packed.1, Nat.le_trans packed.2 more⟩

theorem mem_of_mem_succ {n : Nat} (packed : (r.state n).Packed) {u : ThreadId}
    (live : u ∈ (r.state (n + 1)).tables.threads) : u ∈ (r.state n).tables.threads := by
  cases event : r.events[n]? with
  | none => rwa [state_succ_of_none event] at live
  | some e =>
    rw [state_succ event] at live
    exact packed.mem_of_mem_step r.quiet (r.tidy n) (r.sound n) live

/-- Where there is no room, no thread comes in until one retires. -/
theorem Settled.mem_of_mem {n m : Nat} (settled : r.Settled n m) (le : n ≤ m)
    (packed : (r.state n).Packed) {u : ThreadId} (live : u ∈ (r.state m).tables.threads) :
    u ∈ (r.state n).tables.threads := by
  induction le with
  | refl => exact live
  | @step m le ih =>
    have settled' : r.Settled n m := fun t ht => settled t (retired_of_le (Nat.le_succ m) ht)
    exact ih settled' (mem_of_mem_succ (settled'.packed le packed) live)

end Session

end RaceMonitor
