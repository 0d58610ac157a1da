import RaceMonitor.Engine.Basic
import RaceMonitor.Proofs.Engine.Output
import RaceMonitor.Proofs.Table

/-! What looking something up may come to.

Threads, locks, signals and locations are looked up in one way: what is there is found, and what
is not there is made if there is room. `Found` lists the three outcomes. What a look-up lets out is
plain, and a refusal marks the limit as reached; nothing else changes. -/
namespace RaceMonitor

/-- Looking up `got`, for which there is `room`; a new one is `fresh` and leaves the tables `t`. -/
inductive Found {α : Type} (s : State) (got : Option α) (room : Prop) (fresh : α) (t : Tables) :
    Option α × State × List Output → Prop where
  | known (a : α) (there : got = some a) : Found s got room fresh t (some a, s, [])
  | refused (missing : got = none) (full : ¬ room) (x : Exhausted) (out : List Output)
    (plain : Plain out) : Found s got room fresh t (none, { s with exhausted := x }, out)
  | made (missing : got = none) (free : room) (out : List Output) (plain : Plain out) :
    Found s got room fresh t (some fresh, s.withTables t, out)

theorem Found.plain {α : Type} {s : State} {got : Option α} {room : Prop} {fresh : α} {t : Tables}
    {res : Option α × State × List Output} (found : Found s got room fresh t res) :
    Plain res.2.2 := by
  cases found with
  | known => exact .nil
  | refused _ _ _ _ plain => exact plain
  | made _ _ _ plain => exact plain

/-- What is given is what was there, or new. -/
theorem Found.given {α : Type} {s : State} {got : Option α} {room : Prop} {fresh a : α} {t : Tables}
    {res : Option α × State × List Output} (found : Found s got room fresh t res)
    (given : res.1 = some a) : a = got.getD fresh := by
  cases found with
  | known _ there =>
    rw [there]
    exact (Option.some.inj given).symm
  | refused => cases given
  | made missing =>
    rw [missing]
    exact (Option.some.inj given).symm

namespace State

/-- Whether one more fits beside a population of `size`. -/
def Room (s : State) (k : Resource) (size : Nat) : Prop :=
  Config.full (s.config.limit k).toNat size = false

theorem Room.of_unlimited {s : State} {k : Resource} (unlimited : s.config.limit k = 0)
    (size : Nat) : s.Room k size := by
  simp [Room, unlimited, Config.full]

theorem reserve_of_room {s : State} {k : Resource} {size : Nat} (h : s.Room k size) :
    s.reserve k size = (true, s, []) := by
  unfold reserve
  rw [if_neg (by rw [h]; decide)]

theorem reserve_of_full {s : State} {k : Resource} {size : Nat} (h : ¬ s.Room k size) :
    ∃ (x : Exhausted) (out : List Output),
      s.reserve k size = (false, { s with exhausted := x }, out) ∧ Plain out := by
  unfold reserve
  rw [if_pos (by simpa [Room] using h)]
  split
  · exact ⟨s.exhausted, [], rfl, .nil⟩
  · exact ⟨_, _, rfl, rfl, rfl⟩

theorem thread_found (s : State) (tid : ThreadId) :
    Found s s.tables.threads[tid]?
      (tid ∉ s.tables.retired ∧ s.Room .threads s.tables.threads.size) (Thread.root tid)
      (s.tables.putThread (Thread.root tid)) (s.thread tid) := by
  unfold thread
  split
  · rename_i a h
    exact .known a h
  · rename_i h
    split
    · rename_i hr
      exact .refused h (fun hf => hf.1 (by simpa using hr)) s.exhausted _ ⟨rfl, rfl⟩
    · rename_i hr
      by_cases hroom : s.Room .threads s.tables.threads.size
      · rw [reserve_of_room hroom]
        exact .made h ⟨by simpa using hr, hroom⟩ _ ⟨rfl, rfl⟩
      · obtain ⟨x, out, hres, plain⟩ := reserve_of_full hroom
        rw [hres]
        exact .refused h (fun hf => hroom hf.2) x out plain

/-- A look-up that finds nothing makes it, if there is room. -/
theorem made_found {α : Type} {s : State} {k : Resource} {size : Nat} {got : Option α} {fresh : α}
    (make : Tables → Tables) (missing : got = none) :
    Found s got (s.Room k size) fresh (make s.tables) (match s.reserve k size with
      | (false, s, out) => (none, s, out)
      | (true, s, out) => (some fresh, s.withTables (make s.tables), out)) := by
  by_cases room : s.Room k size
  · rw [reserve_of_room room]
    exact .made missing room [] .nil
  · obtain ⟨x, out, full, plain⟩ := reserve_of_full room
    rw [full]
    exact .refused missing room x out plain

theorem lock_found (s : State) (id : Word) :
    Found s s.tables.locks[id]? (s.Room .locks (s.tables.locks.size + s.tables.signals.size))
      .fresh (s.tables.putLock id .fresh) (s.lock id) := by
  unfold lock
  split
  · rename_i a h
    exact .known a h
  · rename_i missing
    exact made_found (fun t => t.putLock id .fresh) missing

theorem signal_found (s : State) (id : Word) :
    Found s s.tables.signals[id]? (s.Room .locks (s.tables.locks.size + s.tables.signals.size))
      .empty (s.tables.putSignal id .empty) (s.signal id) := by
  unfold signal
  split
  · rename_i a h
    exact .known a h
  · rename_i missing
    exact made_found (fun t => t.putSignal id .empty) missing

theorem location_found (s : State) (addr : Word) :
    Found s s.tables.shadow[addr]? (s.Room .locations s.tables.shadow.size) .empty
      (s.tables.putHistory addr .empty) (s.location addr) := by
  unfold location
  split
  · rename_i a h
    exact .known a h
  · rename_i missing
    exact made_found (fun t => t.putHistory addr .empty) missing

end State

/-- The thread `tid` of `s`, known or made on the spot, is `t` in `s'`. -/
inductive Entered (s : State) (tid : ThreadId) : Thread → State → Prop where
  | known (t : Thread) (there : s.tables.threads[tid]? = some t) : Entered s tid t s
  | made (missing : tid ∉ s.tables.threads) (alive : tid ∉ s.tables.retired) :
    Entered s tid (Thread.root tid) (s.withTables (s.tables.putThread (Thread.root tid)))

theorem Entered.there {s s' : State} {tid : ThreadId} {t : Thread} (h : Entered s tid t s') :
    s'.tables.threads[tid]? = some t := by
  cases h with
  | known _ there => exact there
  | made missing alive => simp [State.withTables, Tables.putThread, Thread.root]

namespace State

variable {s s' : State} {tid : ThreadId} {id addr : Word} {out : List Output}

/-- A thread that is given has entered. -/
theorem thread_entered {t : Thread} (met : s.thread tid = (some t, s', out)) :
    Entered s tid t s' := by
  have found := s.thread_found tid
  rw [met] at found
  cases found with
  | known _ there => exact .known t there
  | made missing free => exact .made (Table.not_mem_iff.mpr missing) free.1

/-- A thread that is not given is not there, and does not come in. -/
theorem thread_refused (met : s.thread tid = (none, s', out)) :
    tid ∉ s.tables.threads ∧ ∃ x, s' = { s with exhausted := x } := by
  have found := s.thread_found tid
  rw [met] at found
  cases found with
  | refused missing _ x => exact ⟨Table.not_mem_iff.mpr missing, x, rfl⟩

theorem lock_given {l : Lock} (found : s.lock id = (some l, s', out)) :
    l = s.tables.locks[id]?.getD .fresh :=
  (s.lock_found id).given (by rw [found])

theorem signal_given {vc : VectorClock} (found : s.signal id = (some vc, s', out)) :
    vc = s.tables.signals[id]?.getD .empty :=
  (s.signal_found id).given (by rw [found])

/-! What is given is there. -/

theorem lock_there {l : Lock} (found : s.lock id = (some l, s', out)) : id ∈ s'.tables.locks := by
  have looked := s.lock_found id
  rw [found] at looked
  cases looked with
  | known _ there => exact Table.mem_iff_exists.mpr ⟨l, there⟩
  | made => exact Table.mem_insert_iff.mpr (.inl rfl)

theorem signal_there {vc : VectorClock} (found : s.signal id = (some vc, s', out)) :
    id ∈ s'.tables.signals := by
  have looked := s.signal_found id
  rw [found] at looked
  cases looked with
  | known _ there => exact Table.mem_iff_exists.mpr ⟨vc, there⟩
  | made => exact Table.mem_insert_iff.mpr (.inl rfl)

theorem location_there {history : History} (found : s.location addr = (some history, s', out)) :
    addr ∈ s'.tables.shadow := by
  have looked := s.location_found addr
  rw [found] at looked
  cases looked with
  | known _ there => exact Table.mem_iff_exists.mpr ⟨history, there⟩
  | made => exact Table.mem_insert_iff.mpr (.inl rfl)

/-! ### Where a look-up may leave a trace -/

theorem thread_shape {t : Option Thread} (met : s.thread tid = (t, s', out)) :
    ∃ x threads, s' = { s with exhausted := x, tables := { s.tables with threads } } := by
  have found := s.thread_found tid
  rw [met] at found
  cases found <;> exact ⟨_, _, rfl⟩

theorem lock_shape {l : Option Lock} (found : s.lock id = (l, s', out)) :
    ∃ x locks, s' = { s with exhausted := x, tables := { s.tables with locks } } := by
  have looked := s.lock_found id
  rw [found] at looked
  cases looked <;> exact ⟨_, _, rfl⟩

theorem signal_shape {vc : Option VectorClock} (found : s.signal id = (vc, s', out)) :
    ∃ x signals, s' = { s with exhausted := x, tables := { s.tables with signals } } := by
  have looked := s.signal_found id
  rw [found] at looked
  cases looked <;> exact ⟨_, _, rfl⟩

theorem location_shape {history : Option History} (found : s.location addr = (history, s', out)) :
    ∃ x shadow, s' = { s with exhausted := x, tables := { s.tables with shadow } } := by
  have looked := s.location_found addr
  rw [found] at looked
  cases looked <;> exact ⟨_, _, rfl⟩

theorem reserve_shape {k : Resource} {size : Nat} {free : Bool}
    (reserved : s.reserve k size = (free, s', out)) : ∃ x, s' = { s with exhausted := x } := by
  by_cases room : s.Room k size
  · rw [reserve_of_room room] at reserved
    cases reserved
    exact ⟨_, rfl⟩
  · obtain ⟨x, out, full, _⟩ := reserve_of_full room
    cases full.symm.trans reserved
    exact ⟨x, rfl⟩

/-! Looking up a lock or a signal leaves the threads alone. -/

theorem lock_threads {l : Option Lock} (found : s.lock id = (l, s', out)) :
    s'.tables.threads = s.tables.threads := by
  obtain ⟨x, locks, rfl⟩ := lock_shape found
  rfl

theorem signal_threads {vc : Option VectorClock} (found : s.signal id = (vc, s', out)) :
    s'.tables.threads = s.tables.threads := by
  obtain ⟨x, signals, rfl⟩ := signal_shape found
  rfl

/-! Nothing is counted on the way. -/

theorem thread_counters {t : Option Thread} (met : s.thread tid = (t, s', out)) :
    s'.counters = s.counters := by
  obtain ⟨x, threads, rfl⟩ := thread_shape met
  rfl

theorem lock_counters {l : Option Lock} (found : s.lock id = (l, s', out)) :
    s'.counters = s.counters := by
  obtain ⟨x, locks, rfl⟩ := lock_shape found
  rfl

theorem signal_counters {vc : Option VectorClock} (found : s.signal id = (vc, s', out)) :
    s'.counters = s.counters := by
  obtain ⟨x, signals, rfl⟩ := signal_shape found
  rfl

/-! ### What a look-up lets out -/

theorem thread_plain {t : Option Thread} (met : s.thread tid = (t, s', out)) : Plain out := by
  simpa only [met] using (s.thread_found tid).plain

theorem lock_plain {l : Option Lock} (found : s.lock id = (l, s', out)) : Plain out := by
  simpa only [found] using (s.lock_found id).plain

theorem signal_plain {vc : Option VectorClock} (found : s.signal id = (vc, s', out)) :
    Plain out := by
  simpa only [found] using (s.signal_found id).plain

theorem location_plain {history : Option History}
    (found : s.location addr = (history, s', out)) : Plain out := by
  simpa only [found] using (s.location_found addr).plain

theorem reserve_plain {k : Resource} {size : Nat} {free : Bool}
    (reserved : s.reserve k size = (free, s', out)) : Plain out := by
  by_cases room : s.Room k size
  · rw [reserve_of_room room] at reserved
    cases reserved
    exact .nil
  · obtain ⟨x, out, full, plain⟩ := reserve_of_full room
    cases full.symm.trans reserved
    exact plain

end State

end RaceMonitor
