import RaceMonitor.Proofs.Engine.Step

/-! Threads that are not let in.

A thread that has retired does not come back, and one not seen before does not come in while
there is no room. The events of such a thread are dropped and deliver nothing
(`State.Refuses.tables`, `State.Refuses.races`), but the lock or signal that an event names is
made all the same if it is not there (`State.founded`), and an allocation takes place whoever
asks for it (`Allocated.live`). -/
namespace RaceMonitor

/-- What a look-up leaves of the populations: what is missing is put there if there is room. -/
theorem Found.tables {α : Type} {s : State} {got : Option α} {room : Prop} [Decidable room]
    {fresh : α} {t : Tables} {res : Option α × State × List Output}
    (found : Found s got room fresh t res) :
    res.2.1.tables = if got = none ∧ room then t else s.tables := by
  cases found with
  | known a there => rw [if_neg (by simp [there])]
  | refused missing full => rw [if_neg fun new => full new.2]
  | made missing free => rw [if_pos ⟨missing, free⟩]; rfl

namespace State

instance (s : State) (k : Resource) (size : Nat) : Decidable (s.Room k size) :=
  inferInstanceAs (Decidable (_ = false))

/-- The thread `tid` is not there and does not come in. -/
structure Refuses (s : State) (tid : ThreadId) : Prop where
  missing : tid ∉ s.tables.threads
  shut : tid ∈ s.tables.retired ∨ ¬ s.Room .threads s.tables.threads.size

/-- The populations with the lock or signal that an event names: where it is not there and there
is room, it is made. -/
def founded (s : State) : Event → Tables
  | .acquire _ id .. =>
    if id ∉ s.tables.locks ∧ s.Room .locks (s.tables.locks.size + s.tables.signals.size) then
      s.tables.putLock id .fresh
    else s.tables
  | .happensBefore _ id | .happensAfter _ id =>
    if id ∉ s.tables.signals ∧ s.Room .locks (s.tables.locks.size + s.tables.signals.size) then
      s.tables.putSignal id .empty
    else s.tables
  | _ => s.tables

@[simp] theorem founded_threads (s : State) (e : Event) :
    (s.founded e).threads = s.tables.threads := by
  unfold founded
  split
  · split <;> rfl
  · split <;> rfl
  · split <;> rfl
  · rfl

variable {s : State} {h : Host} {tid : ThreadId}

/-- The thread is not given. -/
theorem Refuses.thread (refused : s.Refuses tid) {t : Option Thread} {s₁ : State}
    {out : List Output} (met : s.thread tid = (t, s₁, out)) : t = none := by
  have found := s.thread_found tid
  rw [met] at found
  cases found with
  | known t there => exact absurd (Table.mem_iff_exists.mpr ⟨t, there⟩) refused.missing
  | refused => rfl
  | made _ free =>
    rcases refused.shut with retired | full
    · exact absurd retired free.1
    · exact absurd free.2 full

theorem lock_tables {id : Word} {l : Option Lock} {s' : State} {out : List Output}
    (found : s.lock id = (l, s', out)) (tid : ThreadId) (recursive isWrite : Bool) :
    s'.tables = s.founded (.acquire tid id recursive isWrite) := by
  have tables := Found.tables (s.lock_found id)
  rw [found] at tables
  simpa only [founded, Table.not_mem_iff] using tables

theorem signal_tables {id : Word} {vc : Option VectorClock} {s' : State} {out : List Output}
    (found : s.signal id = (vc, s', out)) (tid : ThreadId) :
    s'.tables = s.founded (.happensBefore tid id) := by
  have tables := Found.tables (s.signal_found id)
  rw [found] at tables
  simpa only [founded, Table.not_mem_iff] using tables

theorem Refuses.countAccess (refused : s.Refuses tid) (write : Bool) (addr : Word) :
    (s.countAccess write addr).Refuses tid :=
  ⟨refused.missing, refused.shut⟩

/-- An event of a thread that is not let in: nothing happens beyond the lock or signal that it
names, unless it is an allocation. -/
theorem Refuses.tables (refused : s.Refuses tid) {e : Event} (actor : e.actor? = some tid)
    (own : ∀ u, e ≠ .detach tid u ∧ e ≠ .finish tid u)
    (unallocated : ∀ pc addr size, e ≠ .alloc tid pc addr size) :
    (s.step h e).1.tables = s.founded e := by
  have performed := s.performed h e
  generalize s.step h e = res at performed ⊢
  -- whoever is given is another thread
  have other {u : ThreadId} {t : Thread} {s₁ : State} {out : List Output}
      (met : s.thread u = (some t, s₁, out)) (named : e.actor? = some u) : False := by
    obtain rfl := Option.some.inj (named.symm.trans actor)
    cases refused.thread met
  cases performed with
  | accused accuses => cases accuses <;> rfl
  | refused summons met =>
    obtain ⟨_, x, rfl⟩ := thread_refused met
    cases summons <;> rfl
  | misused summons met | full summons met | forked summons met =>
    exact (other met summons.actor).elim
  | joined _ _ _ met | entered met | exited met | acquired met | reacquired met | released met
  | unnested met | signalled met | awaited met => exact (other met rfl).elim
  | detached =>
    cases actor
    exact absurd rfl (own _).1
  | finished =>
    cases actor
    exact absurd rfl (own _).2
  | @unlocked _ _ recursive isWrite _ _ _ _ _ _ met found =>
    cases actor
    obtain rfl := refused.thread met
    obtain ⟨_, x, rfl⟩ := thread_refused met
    exact lock_tables found tid recursive isWrite
  | unsignalled names met found =>
    rcases names with rfl | rfl <;>
    · cases actor
      obtain rfl := refused.thread met
      obtain ⟨_, x, rfl⟩ := thread_refused met
      exact signal_tables found tid
  | allocated =>
    cases actor
    exact absurd rfl (unallocated _ _ _)
  | freed frees =>
    cases frees with
    | ignored => rfl
    | refused _ met =>
      obtain ⟨_, x, rfl⟩ := thread_refused met
      rfl
    | misused _ met | freed _ met | swept _ met => exact (other met rfl).elim
  | mapped => cases actor
  | @unseen _ write _ _ _ _ _ _ access met =>
    subst access
    obtain ⟨_, x, rfl⟩ := thread_refused met
    cases write <;> rfl
  | accessed access met =>
    subst access
    rw [Event.actor?_access] at actor
    cases actor
    cases (refused.countAccess _ _).thread met

theorem Refuses.races (refused : s.Refuses tid) {e : Event} (actor : e.actor? = some tid) :
    RaceMonitor.races (s.step h e).2 = [] := by
  cases heeds : e.heeds with
  | false => exact (s.reports_of_heedless h heeds).races
  | true =>
    have access (write : Bool) (pc addr size : Word) :
        RaceMonitor.races (s.access h write tid pc addr size).2 = [] := by
      rcases met : (s.countAccess write addr).thread tid with ⟨t, s₁, out⟩
      obtain rfl := (refused.countAccess write addr).thread met
      rw [access_refused met]
      exact (thread_plain met).races
    cases e with
    | read u pc addr size =>
      cases actor
      exact access false pc addr size
    | write u pc addr size =>
      cases actor
      exact access true pc addr size
    | alloc u pc addr size => exact (s.allocate_allocated h u pc addr size).2
    | free u addr => exact (s.deallocate_deallocated h u addr).2
    | _ => cases heeds

/-- No thread comes or goes. -/
theorem Refuses.threads (refused : s.Refuses tid) {e : Event} (actor : e.actor? = some tid)
    (own : ∀ u, e ≠ .detach tid u ∧ e ≠ .finish tid u) :
    (s.step h e).1.tables.threads = s.tables.threads := by
  by_cases allocation : ∃ pc addr size, e = .alloc tid pc addr size
  · obtain ⟨pc, addr, size, rfl⟩ := allocation
    obtain ⟨allocated, _⟩ := s.allocate_allocated h tid pc addr size
    show (s.allocate h tid pc addr size).1.tables.threads = _
    generalize (s.allocate h tid pc addr size).1 = s' at allocated ⊢
    cases allocated <;> rfl
  · rw [refused.tables actor own fun pc addr size he => allocation ⟨pc, addr, size, he⟩,
      founded_threads]

end State

/-- An allocation that takes place leaves a live block of the thread that asked for it. -/
theorem Allocated.live {s s' : State} {tid : ThreadId} {pc addr size : Word}
    (h : Allocated s tid pc addr size s') (tracking : s.config.trackAllocations = true)
    (nonempty : size ≠ 0) :
    s'.tables.heap.live[addr]? = some (Block.new tid pc ⟨addr, size⟩) := by
  rw [h.live_eq, if_pos ⟨tracking, nonempty⟩]
  exact Std.ExtTreeMap.getElem?_insert_self

end RaceMonitor
