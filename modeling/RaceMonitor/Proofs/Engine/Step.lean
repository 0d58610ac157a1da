import RaceMonitor.Proofs.Engine.Anomalies
import RaceMonitor.Proofs.Engine.Memory

/-! What a step leaves alone.

The threads, the marks of limits and the counters may change with any event, and everything else
with some events only (`State.step_frame`): no event changes the configuration or the callbacks,
and only accesses, allocations and frees touch histories and blocks. Only accesses deliver races
(`State.step_remembers`). -/
namespace RaceMonitor

/-- What the event `e` leaves alone in `s`. -/
structure Frame (s : State) (e : Event) (s' : State) : Prop where
  policy : s'.policy = s.policy
  config : s'.config = s.config
  active : s'.active = s.active
  heard : s'.heard = s.heard
  listening : s'.listening = s.listening
  locks : (∀ id, e.subject? ≠ some (.lock id)) → s'.tables.locks = s.tables.locks
  signals : (∀ id, e.subject? ≠ some (.signal id)) → s'.tables.signals = s.tables.signals
  regions : e.region? = none → s'.tables.regions = s.tables.regions
  shadow : e.heeds = false → s'.tables.shadow = s.tables.shadow
  heap : e.heeds = false → s'.tables.heap = s.tables.heap
  freedPages : e.heeds = false → s'.tables.freedPages = s.tables.freedPages

namespace Frame

variable {s : State} {e : Event}

/-- Nothing but threads, marks and counters has changed. -/
theorem of_threads (s : State) (e : Event) (x : Exhausted) (c : Counters)
    (threads : Table ThreadId Thread) (retired : KeySet ThreadId) :
    Frame s e
      { s with exhausted := x, counters := c, tables := { s.tables with threads, retired } } :=
  ⟨rfl, rfl, rfl, rfl, rfl, fun _ => rfl, fun _ => rfl, fun _ => rfl, fun _ => rfl, fun _ => rfl,
    fun _ => rfl⟩

/-- Nor anything but the locks, if the event names one. -/
theorem of_locks (names : ∃ id, e.subject? = some (.lock id)) (x : Exhausted) (c : Counters)
    (threads : Table ThreadId Thread) (locks : Table Word Lock) :
    Frame s e
      { s with exhausted := x, counters := c, tables := { s.tables with threads, locks } } :=
  ⟨rfl, rfl, rfl, rfl, rfl, fun other => absurd names.choose_spec (other _), fun _ => rfl,
    fun _ => rfl, fun _ => rfl, fun _ => rfl, fun _ => rfl⟩

/-- Nor anything but the signals, if the event names one. -/
theorem of_signals (names : ∃ id, e.subject? = some (.signal id)) (x : Exhausted) (c : Counters)
    (threads : Table ThreadId Thread) (signals : Table Word VectorClock) :
    Frame s e
      { s with exhausted := x, counters := c, tables := { s.tables with threads, signals } } :=
  ⟨rfl, rfl, rfl, rfl, rfl, fun _ => rfl, fun other => absurd names.choose_spec (other _),
    fun _ => rfl, fun _ => rfl, fun _ => rfl, fun _ => rfl⟩

/-- Nor anything but histories and blocks, if the event looks at them. -/
theorem of_memory (heeds : e.heeds = true) (x : Exhausted) (c : Counters)
    (threads : Table ThreadId Thread) (shadow : Table Word History) (heap : Heap)
    (freedPages : KeySet Word) :
    Frame s e { s with
      exhausted := x, counters := c
      tables := { s.tables with threads, shadow, heap, freedPages } } :=
  have looks (heedless : e.heeds = false) : False := by rw [heeds] at heedless; cases heedless
  ⟨rfl, rfl, rfl, rfl, rfl, fun _ => rfl, fun _ => rfl, fun _ => rfl, fun heedless =>
    (looks heedless).elim, fun heedless => (looks heedless).elim,
    fun heedless => (looks heedless).elim⟩

end Frame

namespace State

variable {s : State} {h : Host}

/-- **What an event leaves alone.** -/
theorem step_frame (quiet : h.Quiet) (s : State) (e : Event) : Frame s e (s.step h e).1 := by
  have performed := s.performed h e
  generalize s.step h e = res at performed ⊢
  cases performed with
  | accused => exact .of_threads s e _ _ _ _
  | refused _ met =>
    obtain ⟨_, x, rfl⟩ := thread_refused met
    exact .of_threads s e _ _ _ _
  | misused _ met | forked _ met | joined _ _ _ met | entered met | exited met =>
    obtain ⟨x, threads, rfl⟩ := thread_shape met
    exact .of_threads s _ _ _ _ _
  | full _ met full =>
    obtain ⟨x, threads, rfl⟩ := thread_shape met
    obtain ⟨y, rfl⟩ := reserve_shape full
    exact .of_threads s _ _ _ _ _
  | detached | finished => exact .of_threads s _ _ _ _ _
  | unlocked met found | acquired met found | reacquired met found =>
    obtain ⟨x, threads, rfl⟩ := thread_shape met
    obtain ⟨y, locks, rfl⟩ := lock_shape found
    exact .of_locks ⟨_, rfl⟩ _ _ _ _
  | released met | unnested met =>
    obtain ⟨x, threads, rfl⟩ := thread_shape met
    exact .of_locks ⟨_, rfl⟩ _ _ _ _
  | unsignalled names met found =>
    obtain ⟨x, threads, rfl⟩ := thread_shape met
    obtain ⟨y, signals, rfl⟩ := signal_shape found
    exact .of_signals (by rcases names with rfl | rfl <;> exact ⟨_, rfl⟩) _ _ _ _
  | signalled met found | awaited met found =>
    obtain ⟨x, threads, rfl⟩ := thread_shape met
    obtain ⟨y, signals, rfl⟩ := signal_shape found
    exact .of_signals ⟨_, rfl⟩ _ _ _ _
  | allocated allocates => cases allocates <;> exact .of_memory rfl _ _ _ _ _ _
  | freed frees =>
    cases frees with
    | ignored => exact .of_memory rfl _ _ _ _ _ _
    | refused _ met | misused _ met | freed _ met =>
      obtain ⟨x, threads, rfl⟩ := thread_shape met
      exact .of_memory rfl _ _ _ _ _ _
    | swept _ met _ _ sweeps =>
      obtain ⟨x, threads, rfl⟩ := thread_shape met
      cases sweeps
      exact .of_memory rfl _ _ _ _ _ _
  | mapped =>
    exact ⟨rfl, rfl, rfl, rfl, rfl, fun _ => rfl, fun _ => rfl, nofun, fun _ => rfl, fun _ => rfl,
      fun _ => rfl⟩
  | unseen access met =>
    obtain ⟨x, threads, rfl⟩ := thread_shape met
    exact .of_memory (access ▸ Event.heeds_access ..) _ _ _ _ _ _
  | accessed access met made =>
    obtain ⟨x, threads, rfl⟩ := thread_shape met
    obtain ⟨y, c, shadow, heap, rfl⟩ := accessBy_shape quiet made
    exact .of_memory (access ▸ Event.heeds_access ..) _ _ _ _ _ _

end State

/-- Events that do not look at the blocks leave alone all that accesses look at. -/
theorem Frame.sameMemory {s s' : State} {e : Event} (frame : Frame s e s')
    (heedless : e.heeds = false) : SameMemory s s' :=
  ⟨frame.config, frame.heard, frame.shadow heedless, frame.heap heedless,
    frame.freedPages heedless⟩

namespace State

variable {s : State}

/-- What an event does to histories and blocks, and the races that it delivers. -/
inductive Remembers (s : State) (h : Host) : Event → State → List Race → Prop where
  | accessed {write : Bool} {tid : ThreadId} {pc addr size : Word} {s' : State}
    {delivered : List Race} (handled : Handled s write tid pc addr size s' delivered) :
    Remembers s h (.access write tid pc addr size) s' delivered
  | allocated {tid : ThreadId} {pc addr size : Word} {s' : State}
    (allocated : Allocated s tid pc addr size s') : Remembers s h (.alloc tid pc addr size) s' []
  | freed {tid : ThreadId} {addr : Word} {s' : State} (deallocated : Deallocated s h tid addr s') :
    Remembers s h (.free tid addr) s' []
  | aside {e : Event} {s' : State} (other : e.memory? = none)
    (unallocated : ∀ tid pc addr size, e ≠ .alloc tid pc addr size) (same : SameMemory s s') :
    Remembers s h e s' []

/-- An event that does not look at the blocks is no access. -/
theorem reports_of_heedless {e : Event} (h : Host) (s : State) (heedless : e.heeds = false) :
    Reports s e (s.step h e) := by
  refine (s.performed h e).reports fun write tid pc addr size access => ?_
  rw [access, Event.heeds_access] at heedless
  cases heedless

theorem step_remembers {h : Host} (quiet : h.Quiet) (s : State) (e : Event) :
    Remembers s h e (s.step h e).1 (races (s.step h e).2) := by
  cases heeds : e.heeds with
  | false =>
    have other : e.memory? = none := by cases e <;> first | rfl | cases heeds
    have unallocated : ∀ tid pc addr size, e ≠ .alloc tid pc addr size := by
      rintro tid pc addr size rfl
      cases heeds
    rw [(s.reports_of_heedless h heeds).races]
    exact .aside other unallocated ((step_frame quiet s e).sameMemory heeds)
  | true =>
    cases e with
    | read tid pc addr size =>
      show Remembers s h (.access false tid pc addr size) _ _
      exact .accessed (access_handled quiet s false tid pc addr size)
    | write tid pc addr size =>
      show Remembers s h (.access true tid pc addr size) _ _
      exact .accessed (access_handled quiet s true tid pc addr size)
    | alloc tid pc addr size =>
      obtain ⟨allocated, none⟩ := s.allocate_allocated h tid pc addr size
      have none : races (s.step h (.alloc tid pc addr size)).2 = [] := none
      exact none ▸ .allocated allocated
    | free tid addr =>
      obtain ⟨deallocated, none⟩ := s.deallocate_deallocated h tid addr
      have none : races (s.step h (.free tid addr)).2 = [] := none
      exact none ▸ .freed deallocated
    | _ => cases heeds

end State

end RaceMonitor
