import RaceMonitor.Proofs.Engine.Updates
import RaceMonitor.Proofs.Order.Clocks

/-! What an event sees and what it leaves.

An access, a synchronisation or a call concerns its thread and at most one thing besides: a
location, a lock or a signal (`Event.subject?`). Where there is room for all, such an event of a
live thread makes updates there and nowhere else, and what it sees of the state decides which
updates those are and what is let out (`State.step_does`). -/
namespace RaceMonitor

namespace Event

/-- Accesses, synchronisation through locks and signals, and calls. -/
def isLocal : Event → Bool
  | .read .. | .write .. | .acquire .. | .release .. | .happensBefore .. | .happensAfter .. => true
  | .enter .. | .exit _ => true
  | _ => false

/-- The event reads at `addr`. -/
def Reads (e : Event) (addr : Word) : Prop := ∃ tid pc size, e = .access false tid pc addr size

/-- The updates that an event may make. -/
def Owns (e : Event) : Update → Prop
  | .thread t => e.actor? = some t.tid
  | .lock id _ => e.subject? = some (.lock id)
  | .signal id _ => e.subject? = some (.signal id)
  | .access isWrite tid _ addr _ => ∃ pc size, e = .access isWrite tid pc addr size
  | .report _ tid _ => e.actor? = some tid
  | .count _ => True

end Event

namespace State

variable {s : State} {t : Thread} {h : Host}

/-- `s'` is as `s` in all that the event sees. -/
structure Seems (s : State) (e : Event) (s' : State) : Prop where
  config : s'.config = s.config
  heard : s'.heard = s.heard
  listening : s'.listening = s.listening
  regions : s'.tables.regions = s.tables.regions
  live : s'.tables.heap.live = s.tables.heap.live
  thread : ∀ tid, e.actor? = some tid → s'.tables.threads[tid]? = s.tables.threads[tid]?
  lock : ∀ id, e.subject? = some (.lock id) → s'.tables.locks[id]? = s.tables.locks[id]?
  signal : ∀ id, e.subject? = some (.signal id) → s'.tables.signals[id]? = s.tables.signals[id]?
  use : ∀ (t : Thread) (addr : Word), e.actor? = some t.tid →
    e.subject? = some (.location addr) → s'.use? t addr = s.use? t addr
  outcome : ∀ (isWrite : Bool) (t : Thread) (pc addr size : Word),
    e = .access isWrite t.tid pc addr size →
      (s'.checked t isWrite pc addr size).1 = (s.checked t isWrite pc addr size).1

theorem Seems.refl (s : State) (e : Event) : s.Seems e s :=
  ⟨rfl, rfl, rfl, rfl, rfl, fun _ _ => rfl, fun _ _ => rfl, fun _ _ => rfl, fun _ _ _ _ => rfl,
    fun _ _ _ _ _ _ => rfl⟩

theorem Seems.trans {e : Event} {s' s'' : State} (seems : s.Seems e s')
    (seems' : s'.Seems e s'') : s.Seems e s'' where
  config := seems'.config.trans seems.config
  heard := seems'.heard.trans seems.heard
  listening := seems'.listening.trans seems.listening
  regions := seems'.regions.trans seems.regions
  live := seems'.live.trans seems.live
  thread tid actor := (seems'.thread tid actor).trans (seems.thread tid actor)
  lock id subject := (seems'.lock id subject).trans (seems.lock id subject)
  signal id subject := (seems'.signal id subject).trans (seems.signal id subject)
  use t addr actor subject :=
    (seems'.use t addr actor subject).trans (seems.use t addr actor subject)
  outcome isWrite t pc addr size event :=
    (seems'.outcome isWrite t pc addr size event).trans
      (seems.outcome isWrite t pc addr size event)

/-- Wherever the event sees the same as in `s`, it makes the updates `us`, all of its own, and lets
out `out`. -/
structure Does (s : State) (h : Host) (e : Event) (us : List Update) (out : List Output) :
    Prop where
  owns : ∀ u ∈ us, e.Owns u
  step : ∀ s', s.Seems e s' → s'.step h e = (s'.updates us, out)

/-! ### What an event leaves -/

/-- The updates of an access are its own. -/
theorem owns_access {isWrite : Bool} {pc addr size : Word} {u : Update}
    (mem : u ∈ s.countUpdates isWrite addr ++ s.accessUpdates t isWrite pc addr size) :
    (Event.access isWrite t.tid pc addr size).Owns u := by
  rcases List.mem_append.mp mem with mem | mem
  · rcases List.mem_cons.mp mem with rfl | mem
    · trivial
    · split at mem
      · obtain rfl := List.mem_singleton.mp mem
        trivial
      · cases mem
  · rcases List.mem_append.mp mem with mem | mem
    · obtain ⟨use, _, rfl⟩ := List.mem_map.mp mem
      exact Event.actor?_access ..
    · rcases List.mem_cons.mp mem with rfl | mem
      · exact ⟨pc, size, rfl⟩
      · obtain ⟨c, _, rfl⟩ := List.mem_map.mp mem
        trivial

section Does

variable (there : s.tables.threads[t.tid]? = some t) (unlimited : ∀ k, s.config.limit k = 0)
include there

theorem enter_does (h : Host) (pc : Word) :
    s.Does h (.enter t.tid pc) [.thread (t.enter pc)] [] where
  owns u mem := by
    obtain rfl := List.mem_singleton.mp mem
    rfl
  step s' seems := by
    have met := thread_known ((seems.thread t.tid rfl).trans there)
    exact (Performed.entered met).step_eq

theorem exit_does (h : Host) : ∃ us out, s.Does h (.exit t.tid) us out := by
  have known {s' : State} (seems : s.Seems (.exit t.tid) s') :
      s'.thread t.tid = (some t, s', []) := thread_known ((seems.thread t.tid rfl).trans there)
  cases left : t.exit? with
  | some p =>
    refine ⟨[.thread p.2], [], fun u mem => ?_, fun s' seems => ?_⟩
    · obtain rfl := List.mem_singleton.mp mem
      obtain ⟨_, _, rfl⟩ := Option.map_eq_some_iff.mp left
      rfl
    · exact (Performed.exited (known seems) left).step_eq
  | none =>
    refine ⟨[.count .anomalies], .note (.anomaly (.stackUnderflow t.tid)) ::
      if s.listening then [.anomaly (.stackUnderflow t.tid)] else [], fun u mem => ?_,
      fun s' seems => ?_⟩
    · obtain rfl := List.mem_singleton.mp mem
      trivial
    · rw [← seems.listening]
      exact (Performed.misused .exit (known seems) (.exit left)).step_eq

include unlimited

theorem acquire_does (h : Host) (id : Word) (recursive isWrite : Bool) :
    ∃ us out, s.Does h (.acquire t.tid id recursive isWrite) us out := by
  have looked {s' : State} (seems : s.Seems (.acquire t.tid id recursive isWrite) s') :
      s'.thread t.tid = (some t, s', []) ∧
      s'.lock id = (some (s.tables.locks[id]?.getD .fresh),
        s'.update (.lock id (s.tables.locks[id]?.getD .fresh)), []) := by
    refine ⟨thread_known ((seems.thread t.tid rfl).trans there), ?_⟩
    rw [lock_open (seems.config ▸ unlimited .locks), seems.lock id rfl]
  generalize s.tables.locks[id]?.getD .fresh = l at looked
  rcases acquired : l.acquire t.tid with ⟨outermost, l'⟩
  cases outermost with
  | true =>
    refine ⟨[.lock id l', .thread (t.observe l'.clock).tick],
      tickNote (t.observe l'.clock) ++
        [.note (.acquired t.tid id recursive isWrite (l'.depth t.tid))],
      fun u mem => ?_, fun s' seems => ?_⟩
    · rcases List.mem_pair.mp mem with rfl | rfl <;> rfl
    · obtain ⟨met, found⟩ := looked seems
      refine (Performed.acquired met found acquired).step_eq.trans ?_
      exact congrArg (fun s₁ : State => (s₁.update (.thread (t.observe l'.clock).tick), _))
        (update_lock_lock s' id l l')
  | false =>
    refine ⟨[.lock id l'], [.note (.acquired t.tid id recursive isWrite (l'.depth t.tid))],
      fun u mem => ?_, fun s' seems => ?_⟩
    · obtain rfl := List.mem_singleton.mp mem
      rfl
    · obtain ⟨met, found⟩ := looked seems
      refine (Performed.reacquired met found acquired).step_eq.trans ?_
      exact congrArg (fun s₁ : State => (s₁, _)) (update_lock_lock s' id l l')

theorem signal_looked {e : Event} {id : Word} {s' : State} (seems : s.Seems e s')
    (actor : e.actor? = some t.tid) (subject : e.subject? = some (.signal id)) :
    s'.thread t.tid = (some t, s', []) ∧
      s'.signal id = (some (s.tables.signals[id]?.getD .empty),
        s'.update (.signal id (s.tables.signals[id]?.getD .empty)), []) := by
  refine ⟨thread_known ((seems.thread t.tid actor).trans there), ?_⟩
  rw [signal_open (seems.config ▸ unlimited .locks), seems.signal id subject]

theorem happensBefore_does (h : Host) (id : Word) :
    ∃ us out, s.Does h (.happensBefore t.tid id) us out := by
  have looked {s' : State} (seems : s.Seems (.happensBefore t.tid id) s') :=
    signal_looked there unlimited seems rfl rfl
  generalize s.tables.signals[id]?.getD .empty = vc at looked
  refine ⟨[.signal id (vc.join t.clock), .thread t.tick],
    tickNote t ++ [.note (.signalled t.tid id)], fun u mem => ?_, fun s' seems => ?_⟩
  · rcases List.mem_pair.mp mem with rfl | rfl <;> rfl
  · obtain ⟨met, found⟩ := looked seems
    refine (Performed.signalled met found).step_eq.trans ?_
    exact congrArg (fun s₁ : State => (s₁.update (.thread t.tick), _))
      (update_signal_signal s' id vc (vc.join t.clock))

theorem happensAfter_does (h : Host) (id : Word) :
    ∃ us out, s.Does h (.happensAfter t.tid id) us out := by
  have looked {s' : State} (seems : s.Seems (.happensAfter t.tid id) s') :=
    signal_looked there unlimited seems rfl rfl
  generalize s.tables.signals[id]?.getD .empty = vc at looked
  refine ⟨[.signal id vc, .thread (t.observe vc)], [.note (.awaited t.tid id)],
    fun u mem => ?_, fun s' seems => ?_⟩
  · rcases List.mem_pair.mp mem with rfl | rfl <;> rfl
  · obtain ⟨met, found⟩ := looked seems
    exact (Performed.awaited met found).step_eq

omit unlimited in
theorem release_does (h : Host) (id : Word) (isWrite : Bool) :
    ∃ us out, s.Does h (.release t.tid id isWrite) us out := by
  have looked {s' : State} (seems : s.Seems (.release t.tid id isWrite) s') :
      s'.thread t.tid = (some t, s', []) ∧
      s'.tables.locks[id]?.getD .fresh = s.tables.locks[id]?.getD .fresh :=
    ⟨thread_known ((seems.thread t.tid rfl).trans there), by rw [seems.lock id rfl]⟩
  rcases released : (s.tables.locks[id]?.getD .fresh).release t.tid with ⟨outcome, l⟩
  cases outcome with
  | released =>
    refine ⟨[.lock id (l.absorb t.clock), .thread t.tick],
      tickNote t ++ [.note (.released t.tid id isWrite .released)], fun u mem => ?_,
      fun s' seems => ?_⟩
    · rcases List.mem_pair.mp mem with rfl | rfl <;> rfl
    · obtain ⟨met, lock⟩ := looked seems
      exact (Performed.released met (lock.symm ▸ released)).step_eq
  | nested =>
    refine ⟨[.lock id l], [.note (.released t.tid id isWrite .nested)], fun u mem => ?_,
      fun s' seems => ?_⟩
    · obtain rfl := List.mem_singleton.mp mem
      rfl
    · obtain ⟨met, lock⟩ := looked seems
      exact (Performed.unnested met (lock.symm ▸ released)).step_eq
  | notHeld =>
    refine ⟨[.count .anomalies], .note (.anomaly (.releaseWithoutAcquire t.tid id)) ::
      if s.listening then [.anomaly (.releaseWithoutAcquire t.tid id)] else [], fun u mem => ?_,
      fun s' seems => ?_⟩
    · obtain rfl := List.mem_singleton.mp mem
      trivial
    · obtain ⟨met, lock⟩ := looked seems
      rw [← seems.listening]
      exact (Performed.misused .release met (.release (lock.symm ▸ released))).step_eq

theorem access_does {h : Host} (quiet : h.Quiet) (isWrite : Bool) (pc addr size : Word) :
    s.Does h (.access isWrite t.tid pc addr size)
      (s.countUpdates isWrite addr ++ s.accessUpdates t isWrite pc addr size)
      (s.accessOutput t isWrite pc addr size) where
  owns _ := owns_access
  step s' seems := by
    have there' := (seems.thread t.tid (Event.actor?_access ..)).trans there
    have unlimited' : s'.config.limit .locations = 0 := seems.config ▸ unlimited .locations
    have use := seems.use t addr (Event.actor?_access ..) (Event.subject?_access ..)
    have outcome := seems.outcome isWrite t pc addr size rfl
    have counts : s'.countUpdates isWrite addr = s.countUpdates isWrite addr := by
      rw [countUpdates, Tables.isUnmapped, seems.regions]
      rfl
    have updates : s'.accessUpdates t isWrite pc addr size =
        s.accessUpdates t isWrite pc addr size := by
      rw [accessUpdates, accessCounts, use, outcome]
      rfl
    have output : s'.accessOutput t isWrite pc addr size =
        s.accessOutput t isWrite pc addr size := by
      simp only [accessOutput, use, outcome, seems.heard, useReport_congr seems.config seems.live,
        conflictReport_congr seems.config seems.live]
    rw [step_access, access_eq quiet there' unlimited', counts, updates, output]

end Does

/-- An event of a live thread, where there is room for all, is decided by what it sees. -/
theorem step_does {e : Event} {tid : ThreadId} (quiet : h.Quiet) (tidy : s.tables.Tidy)
    (unlimited : ∀ k, s.config.limit k = 0) (isLocal : e.isLocal = true)
    (actor : e.actor? = some tid) (live : tid ∈ s.tables.threads) :
    ∃ us out, s.Does h e us out := by
  obtain ⟨t, there⟩ := Table.mem_iff_exists.mp live
  obtain rfl := tidy.keyed tid t there
  cases e with
  | read tid pc addr size =>
    obtain rfl := Option.some.inj actor
    exact ⟨_, _, access_does there unlimited quiet false pc addr size⟩
  | write tid pc addr size =>
    obtain rfl := Option.some.inj actor
    exact ⟨_, _, access_does there unlimited quiet true pc addr size⟩
  | acquire tid id recursive isWrite =>
    obtain rfl := Option.some.inj actor
    exact acquire_does there unlimited h id recursive isWrite
  | release tid id isWrite =>
    obtain rfl := Option.some.inj actor
    exact release_does there h id isWrite
  | happensBefore tid id =>
    obtain rfl := Option.some.inj actor
    exact happensBefore_does there unlimited h id
  | happensAfter tid id =>
    obtain rfl := Option.some.inj actor
    exact happensAfter_does there unlimited h id
  | enter tid pc =>
    obtain rfl := Option.some.inj actor
    exact ⟨_, _, enter_does there h pc⟩
  | exit tid =>
    obtain rfl := Option.some.inj actor
    exact exit_does there h
  | fork | join | detach | finish | alloc | free | mapShadow => cases isLocal

end State

end RaceMonitor
