import RaceMonitor.Proofs.Engine.Lookup
import RaceMonitor.Proofs.Session.Basic

/-! The ways in which an event ends.

An event is turned away, or its thread and whatever else it names are looked up, and then it is
dropped, found to be a misuse, or done. `Performed` lists these ways, with the look-ups as
premises, and is the handlers read as a relation: an event ends in one of them
(`State.performed`), and there is nothing more to it than the one it ends in
(`Performed.step_eq`). What is to hold of every event is proved way by way, so the handlers are
opened here only. Reads and writes have ways of their own (`Made`), since a race may turn to the
host. -/
namespace RaceMonitor

namespace State

/-- The anomaly that an event is turned away for, with nothing looked up. -/
inductive Accuses (s : State) : Event → Anomaly → Prop where
  | reused {parent child : ThreadId}
    (taken : child = parent ∨ child ∈ s.tables.threads ∨ child ∈ s.tables.retired) :
    s.Accuses (.fork parent child) (.threadReused parent child)
  | unjoinable {parent child : ThreadId} (unknown : child = parent ∨ child ∉ s.tables.threads) :
    s.Accuses (.join parent child) (.unknownThread child)
  | detached {parent child : ThreadId} {c : Thread} (other : child ≠ parent)
    (there : s.tables.threads[child]? = some c) (detached : c.lifecycle = .detached) :
    s.Accuses (.join parent child) (.joinDetached parent child)
  | undetachable {by_ tid : ThreadId} (unknown : tid ∉ s.tables.threads) :
    s.Accuses (.detach by_ tid) (.unknownThread tid)
  | unfinishable {by_ tid : ThreadId} (unknown : tid ∉ s.tables.threads) :
    s.Accuses (.finish by_ tid) (.unknownThread tid)

/-- An event that is not turned away, and that needs no more than its thread to be tracked. -/
inductive Summons (s : State) : Event → ThreadId → Prop where
  | fork {parent child : ThreadId} (other : child ≠ parent)
    (missing : child ∉ s.tables.threads) (alive : child ∉ s.tables.retired) :
    s.Summons (.fork parent child) parent
  | join {parent child : ThreadId} {c : Thread} (other : child ≠ parent)
    (there : s.tables.threads[child]? = some c) (joinable : c.lifecycle ≠ .detached) :
    s.Summons (.join parent child) parent
  | enter {tid : ThreadId} {pc : Word} : s.Summons (.enter tid pc) tid
  | exit {tid : ThreadId} : s.Summons (.exit tid) tid
  | release {tid : ThreadId} {id : Word} {isWrite : Bool} : s.Summons (.release tid id isWrite) tid

theorem Summons.actor {s : State} {e : Event} {tid : ThreadId} (summons : s.Summons e tid) :
    e.actor? = some tid := by
  cases summons <;> rfl

/-- The anomaly that an event of the tracked thread `t` turns out to be. -/
inductive Misuses (s : State) (t : Thread) : Event → Anomaly → Prop where
  | release {tid : ThreadId} {id : Word} {isWrite : Bool} {l : Lock}
    (unheld : (s.tables.locks[id]?.getD .fresh).release tid = (.notHeld, l)) :
    s.Misuses t (.release tid id isWrite) (.releaseWithoutAcquire tid id)
  | exit {tid : ThreadId} (empty : t.exit? = none) : s.Misuses t (.exit tid) (.stackUnderflow tid)

end State

/-- The anomaly that a free comes to when it fails. -/
def FreeFault.anomaly (tid : ThreadId) (addr : Word) : FreeFault → Anomaly
  | .doubleFree => .doubleFree tid addr
  | .unknown => .unknownAllocation tid addr

/-- How an allocation ends. -/
inductive Allocates (s : State) (h : Host) (tid : ThreadId) (pc addr size : Word) :
    State × List Output → Prop where
  | ignored (why : s.config.trackAllocations = false ∨ size = 0) :
    Allocates s h tid pc addr size (s, [])
  | made {reused : Bool} {gone : List Extent} {kept : List (Word × Access)}
    {replaced : Option Extent} {handed heap : Heap} {shadow : Table Word History}
    (tracking : s.config.trackAllocations = true) (nonempty : size ≠ 0)
    (hand : s.tables.heap.handOut ⟨addr, size⟩ = (reused, gone, handed))
    (forgot : Tables.forgetRange h.order s.tables.shadow ⟨addr, size⟩ = (kept, shadow))
    (placed : (if reused then kept.foldl (fun heap p => heap.keep p.1 p.2) handed
      else handed).allocate (Block.new tid pc ⟨addr, size⟩) = (replaced, heap)) :
    Allocates s h tid pc addr size
      (s.withTables (((s.tables.putHeap heap).putShadow shadow).unmarkPages gone),
        (replaced.map fun old => Output.note (.blockReplaced old.base)).toList ++
          [.note (.allocated tid addr size)])

/-- How a free ends. -/
inductive Frees (s : State) (h : Host) (tid : ThreadId) (addr : Word) :
    State × List Output → Prop where
  | ignored (why : s.config.trackAllocations = false) : Frees s h tid addr (s, [])
  | refused {s₁ : State} {noted : List Output} (tracking : s.config.trackAllocations = true)
    (met : s.thread tid = (none, s₁, noted)) : Frees s h tid addr (s₁.countUntracked, noted)
  | misused {t : Thread} {s₁ : State} {noted : List Output} {fault : FreeFault}
    (tracking : s.config.trackAllocations = true) (met : s.thread tid = (some t, s₁, noted))
    (failed : s₁.tables.heap.free addr t.epoch = .error fault) :
    Frees s h tid addr ((s₁.raiseAnomaly (fault.anomaly tid addr)).1,
      noted ++ (s₁.raiseAnomaly (fault.anomaly tid addr)).2)
  | freed {t : Thread} {s₁ : State} {noted : List Output} {freed : Freed} {heap : Heap}
    (tracking : s.config.trackAllocations = true) (met : s.thread tid = (some t, s₁, noted))
    (done : s₁.tables.heap.free addr t.epoch = .ok (freed, heap))
    (early : freed.sweepDue = false) :
    Frees s h tid addr
      (s₁.withTables (((s₁.tables.putHeap heap).markPages freed.block).unmarkPages freed.evicted),
        noted ++ [.note (.deallocated tid addr t.epoch)])
  | swept {t : Thread} {s₁ s₂ : State} {noted out : List Output} {freed : Freed} {heap : Heap}
    (tracking : s.config.trackAllocations = true) (met : s.thread tid = (some t, s₁, noted))
    (done : s₁.tables.heap.free addr t.epoch = .ok (freed, heap)) (due : freed.sweepDue = true)
    (sweeps : (s₁.withTables (((s₁.tables.putHeap heap).markPages freed.block).unmarkPages
      freed.evicted)).sweep h = (s₂, out)) :
    Frees s h tid addr (s₂, noted ++ [.note (.deallocated tid addr t.epoch)] ++ out)

/-- How an event ends: the state that it leaves, and what it lets out. -/
inductive Performed (s : State) (h : Host) : Event → State × List Output → Prop where
  | accused {e : Event} {a : Anomaly} (accuses : s.Accuses e a) :
    Performed s h e (s.raiseAnomaly a)
  | refused {e : Event} {tid : ThreadId} {s₁ : State} {noted : List Output}
    (summons : s.Summons e tid) (met : s.thread tid = (none, s₁, noted)) :
    Performed s h e (s₁.countUntracked, noted)
  | misused {e : Event} {tid : ThreadId} {t : Thread} {s₁ : State} {noted : List Output}
    {a : Anomaly} (summons : s.Summons e tid) (met : s.thread tid = (some t, s₁, noted))
    (misuses : s₁.Misuses t e a) :
    Performed s h e ((s₁.raiseAnomaly a).1, noted ++ (s₁.raiseAnomaly a).2)
  /-- There is no room for the child. -/
  | full {parent child : ThreadId} {t : Thread} {s₁ s₂ : State} {noted noted' : List Output}
    (summons : s.Summons (.fork parent child) parent)
    (met : s.thread parent = (some t, s₁, noted))
    (full : s₁.reserve .threads s₁.tables.threads.size = (false, s₂, noted')) :
    Performed s h (.fork parent child) (s₂.countUntracked, noted ++ noted')
  | forked {parent child : ThreadId} {t : Thread} {s₁ : State} {noted : List Output}
    (summons : s.Summons (.fork parent child) parent)
    (met : s.thread parent = (some t, s₁, noted))
    (room : s₁.Room .threads s₁.tables.threads.size) :
    Performed s h (.fork parent child)
      (s₁.withTables ((s₁.tables.putThread t.tick).putThread (Thread.forked child t)),
        noted ++ State.tickNote t ++ [.note (.forked parent child)])
  | joined {parent child : ThreadId} {c t : Thread} {s₁ : State} {noted : List Output}
    (other : child ≠ parent) (there : s.tables.threads[child]? = some c)
    (joinable : c.lifecycle ≠ .detached) (met : s.thread parent = (some t, s₁, noted)) :
    Performed s h (.join parent child)
      (s₁.withTables ((s₁.tables.putThread (t.observe c.clock).tick).retire child),
        noted ++ State.tickNote (t.observe c.clock) ++ [.note (.joined parent child)])
  | detached {by_ tid : ThreadId} {t : Thread} (there : s.tables.threads[tid]? = some t) :
    Performed s h (.detach by_ tid)
      (s.withTables (s.tables.putThread t.detach), [.note (.detached by_ tid)])
  | finished {by_ tid : ThreadId} (there : tid ∈ s.tables.threads) :
    Performed s h (.finish by_ tid)
      (s.withTables (s.tables.retire tid), [.note (.finished by_ tid)])
  | entered {tid : ThreadId} {pc : Word} {t : Thread} {s₁ : State} {noted : List Output}
    (met : s.thread tid = (some t, s₁, noted)) :
    Performed s h (.enter tid pc) (s₁.withTables (s₁.tables.putThread (t.enter pc)), noted)
  | exited {tid : ThreadId} {pc : Word} {t t' : Thread} {s₁ : State} {noted : List Output}
    (met : s.thread tid = (some t, s₁, noted)) (left : t.exit? = some (pc, t')) :
    Performed s h (.exit tid) (s₁.withTables (s₁.tables.putThread t'), noted)
  /-- The thread is not tracked, or the lock is not; the other one is made all the same. -/
  | unlocked {tid : ThreadId} {id : Word} {recursive isWrite : Bool} {t : Option Thread}
    {l : Option Lock} {s₁ s₂ : State} {noted noted' : List Output}
    (met : s.thread tid = (t, s₁, noted)) (found : s₁.lock id = (l, s₂, noted'))
    (missing : t = none ∨ l = none) :
    Performed s h (.acquire tid id recursive isWrite) (s₂.countUntracked, noted ++ noted')
  | acquired {tid : ThreadId} {id : Word} {recursive isWrite : Bool} {t : Thread} {l l' : Lock}
    {s₁ s₂ : State} {noted noted' : List Output} (met : s.thread tid = (some t, s₁, noted))
    (found : s₁.lock id = (some l, s₂, noted')) (outermost : l.acquire tid = (true, l')) :
    Performed s h (.acquire tid id recursive isWrite)
      (s₂.withTables ((s₂.tables.putLock id l').putThread (t.observe l'.clock).tick),
        noted ++ noted' ++ State.tickNote (t.observe l'.clock) ++
          [.note (.acquired tid id recursive isWrite (l'.depth tid))])
  | reacquired {tid : ThreadId} {id : Word} {recursive isWrite : Bool} {t : Thread}
    {l l' : Lock} {s₁ s₂ : State} {noted noted' : List Output}
    (met : s.thread tid = (some t, s₁, noted)) (found : s₁.lock id = (some l, s₂, noted'))
    (nested : l.acquire tid = (false, l')) :
    Performed s h (.acquire tid id recursive isWrite) (s₂.withTables (s₂.tables.putLock id l'),
      noted ++ noted' ++ [.note (.acquired tid id recursive isWrite (l'.depth tid))])
  | released {tid : ThreadId} {id : Word} {isWrite : Bool} {t : Thread} {l : Lock} {s₁ : State}
    {noted : List Output} (met : s.thread tid = (some t, s₁, noted))
    (outermost : (s₁.tables.locks[id]?.getD .fresh).release tid = (.released, l)) :
    Performed s h (.release tid id isWrite)
      (s₁.withTables ((s₁.tables.putLock id (l.absorb t.clock)).putThread t.tick),
        noted ++ State.tickNote t ++ [.note (.released tid id isWrite .released)])
  | unnested {tid : ThreadId} {id : Word} {isWrite : Bool} {t : Thread} {l : Lock} {s₁ : State}
    {noted : List Output} (met : s.thread tid = (some t, s₁, noted))
    (nested : (s₁.tables.locks[id]?.getD .fresh).release tid = (.nested, l)) :
    Performed s h (.release tid id isWrite) (s₁.withTables (s₁.tables.putLock id l),
      noted ++ [.note (.released tid id isWrite .nested)])
  /-- The thread is not tracked, or the signal is not; the other one is made all the same. -/
  | unsignalled {e : Event} {tid : ThreadId} {id : Word} {t : Option Thread}
    {vc : Option VectorClock} {s₁ s₂ : State} {noted noted' : List Output}
    (names : e = .happensBefore tid id ∨ e = .happensAfter tid id)
    (met : s.thread tid = (t, s₁, noted)) (found : s₁.signal id = (vc, s₂, noted'))
    (missing : t = none ∨ vc = none) :
    Performed s h e (s₂.countUntracked, noted ++ noted')
  | signalled {tid : ThreadId} {id : Word} {t : Thread} {vc : VectorClock} {s₁ s₂ : State}
    {noted noted' : List Output} (met : s.thread tid = (some t, s₁, noted))
    (found : s₁.signal id = (some vc, s₂, noted')) :
    Performed s h (.happensBefore tid id)
      (s₂.withTables ((s₂.tables.putSignal id (vc.join t.clock)).putThread t.tick),
        noted ++ noted' ++ State.tickNote t ++ [.note (.signalled tid id)])
  | awaited {tid : ThreadId} {id : Word} {t : Thread} {vc : VectorClock} {s₁ s₂ : State}
    {noted noted' : List Output} (met : s.thread tid = (some t, s₁, noted))
    (found : s₁.signal id = (some vc, s₂, noted')) :
    Performed s h (.happensAfter tid id)
      (s₂.withTables (s₂.tables.putThread (t.observe vc)),
        noted ++ noted' ++ [.note (.awaited tid id)])
  | allocated {tid : ThreadId} {pc addr size : Word} {res : State × List Output}
    (allocates : Allocates s h tid pc addr size res) : Performed s h (.alloc tid pc addr size) res
  | freed {tid : ThreadId} {addr : Word} {res : State × List Output}
    (frees : Frees s h tid addr res) : Performed s h (.free tid addr) res
  | mapped {start size : Word} :
    Performed s h (.mapShadow start size) (s.mapShadow start size)
  | unseen {e : Event} {write : Bool} {tid : ThreadId} {pc addr size : Word} {s₁ : State}
    {noted : List Output} (access : e = .access write tid pc addr size)
    (met : (s.countAccess write addr).thread tid = (none, s₁, noted)) :
    Performed s h e (s₁.countUntracked, noted)
  | accessed {e : Event} {write : Bool} {tid : ThreadId} {pc addr size : Word} {t : Thread}
    {s₁ s₂ : State} {noted out : List Output} (access : e = .access write tid pc addr size)
    (met : (s.countAccess write addr).thread tid = (some t, s₁, noted))
    (made : s₁.accessBy h t write pc addr size = (s₂, out)) :
    Performed s h e (s₂, noted ++ out)

/-! ### What is let out on the way -/

theorem Plain.tickNote (t : Thread) : Plain (State.tickNote t) := by
  unfold State.tickNote
  split <;> exact ⟨rfl, rfl⟩

theorem State.sweep_plain {s s' : State} {h : Host} {out : List Output}
    (sweeps : s.sweep h = (s', out)) : Plain out := by
  obtain rfl : (s.sweep h).2 = out := congrArg Prod.snd sweeps
  unfold sweep
  dsimp only
  split <;> exact ⟨rfl, rfl⟩

theorem Allocates.plain {s : State} {h : Host} {tid : ThreadId} {pc addr size : Word}
    {res : State × List Output} (allocates : Allocates s h tid pc addr size res) :
    Plain res.2 := by
  cases allocates with
  | ignored => exact .nil
  | @made _ _ _ replaced => cases replaced <;> exact ⟨rfl, rfl⟩

/-! ### Every event ends in one of these ways -/

namespace State

variable (s : State) (h : Host)

theorem fork_performed (parent child : ThreadId) :
    Performed s h (.fork parent child) (s.fork parent child) := by
  unfold fork
  split
  · rename_i taken
    exact .accused (.reused (by simpa [or_assoc] using taken))
  · rename_i free
    obtain ⟨⟨other, missing⟩, alive⟩ : (child ≠ parent ∧ child ∉ s.tables.threads) ∧
        child ∉ s.tables.retired := by simpa using free
    have summons : s.Summons (.fork parent child) parent := .fork other missing alive
    rcases met : s.thread parent with ⟨_ | p, s₁, noted⟩
    · exact .refused summons met
    · dsimp only
      by_cases room : s₁.Room .threads s₁.tables.threads.size
      · rw [reserve_of_room room]
        dsimp only
        rw [List.append_nil]
        exact .forked summons met room
      · obtain ⟨x, out, full, _⟩ := reserve_of_full room
        rw [full]
        exact .full summons met full

theorem join_performed (parent child : ThreadId) :
    Performed s h (.join parent child) (s.join parent child) := by
  unfold join
  split
  · rename_i missing
    refine .accused (.unjoinable ?_)
    by_contra known
    obtain ⟨other, there⟩ : child ≠ parent ∧ child ∈ s.tables.threads := by simpa using known
    obtain ⟨c, there⟩ := Table.mem_iff_exists.mp there
    simp [there, Option.filter, other] at missing
  · rename_i c found
    obtain ⟨there, other⟩ : s.tables.threads[child]? = some c ∧ child ≠ parent := by
      simpa [Option.filter_eq_some_iff] using found
    split
    · rename_i detached
      exact .accused (.detached other there detached)
    · rename_i joinable
      rcases met : s.thread parent with ⟨_ | p, s₁, noted⟩
      · exact .refused (.join other there joinable) met
      · exact .joined other there joinable met

theorem detach_performed (by_ tid : ThreadId) :
    Performed s h (.detach by_ tid) (s.detach by_ tid) := by
  unfold detach
  split
  · rename_i t there
    exact .detached there
  · rename_i missing
    exact .accused (.undetachable (Table.not_mem_iff.mpr missing))

theorem finish_performed (by_ tid : ThreadId) :
    Performed s h (.finish by_ tid) (s.finish by_ tid) := by
  unfold finish
  split
  · rename_i there
    exact .finished (by simpa using there)
  · rename_i missing
    exact .accused (.unfinishable (by simpa using missing))

theorem enter_performed (tid : ThreadId) (pc : Word) :
    Performed s h (.enter tid pc) (s.enter tid pc) := by
  unfold enter
  rcases met : s.thread tid with ⟨_ | t, s₁, noted⟩
  · exact .refused .enter met
  · exact .entered met

theorem exit_performed (tid : ThreadId) : Performed s h (.exit tid) (s.exit tid) := by
  unfold exit
  rcases met : s.thread tid with ⟨_ | t, s₁, noted⟩
  · exact .refused .exit met
  · dsimp only
    split
    · rename_i left
      exact .exited met left
    · rename_i empty
      exact .misused .exit met (.exit empty)

theorem acquire_performed (tid : ThreadId) (id : Word) (recursive isWrite : Bool) :
    Performed s h (.acquire tid id recursive isWrite) (s.acquire tid id recursive isWrite) := by
  unfold acquire
  rcases met : s.thread tid with ⟨t, s₁, noted⟩
  dsimp only
  rcases found : s₁.lock id with ⟨l, s₂, noted'⟩
  cases t with
  | none => exact .unlocked met found (.inl rfl)
  | some t =>
    cases l with
    | none => exact .unlocked met found (.inr rfl)
    | some l =>
      dsimp only
      rcases acquired : l.acquire tid with ⟨_ | _, l'⟩
      · exact .reacquired met found acquired
      · exact .acquired met found acquired

theorem release_performed (tid : ThreadId) (id : Word) (isWrite : Bool) :
    Performed s h (.release tid id isWrite) (s.release tid id isWrite) := by
  unfold release
  rcases met : s.thread tid with ⟨_ | t, s₁, noted⟩
  · exact .refused .release met
  · dsimp only
    rcases released : (s₁.tables.locks[id]?.getD .fresh).release tid with ⟨_ | _ | _, l⟩
    · exact .released met released
    · exact .unnested met released
    · exact .misused .release met (.release released)

theorem happensBefore_performed (tid : ThreadId) (id : Word) :
    Performed s h (.happensBefore tid id) (s.happensBefore tid id) := by
  unfold happensBefore
  rcases met : s.thread tid with ⟨t, s₁, noted⟩
  dsimp only
  rcases found : s₁.signal id with ⟨vc, s₂, noted'⟩
  cases t with
  | none => exact .unsignalled (.inl rfl) met found (.inl rfl)
  | some t =>
    cases vc with
    | none => exact .unsignalled (.inl rfl) met found (.inr rfl)
    | some vc => exact .signalled met found

theorem happensAfter_performed (tid : ThreadId) (id : Word) :
    Performed s h (.happensAfter tid id) (s.happensAfter tid id) := by
  unfold happensAfter
  rcases met : s.thread tid with ⟨t, s₁, noted⟩
  dsimp only
  rcases found : s₁.signal id with ⟨vc, s₂, noted'⟩
  cases t with
  | none => exact .unsignalled (.inr rfl) met found (.inl rfl)
  | some t =>
    cases vc with
    | none => exact .unsignalled (.inr rfl) met found (.inr rfl)
    | some vc => exact .awaited met found

theorem allocate_allocates (tid : ThreadId) (pc addr size : Word) :
    Allocates s h tid pc addr size (s.allocate h tid pc addr size) := by
  unfold allocate
  split
  · rename_i why
    exact .ignored (by simpa using why)
  · rename_i why
    obtain ⟨tracking, nonempty⟩ : s.config.trackAllocations = true ∧ size ≠ 0 := by
      simpa using why
    exact .made tracking nonempty rfl rfl rfl

theorem deallocate_frees (tid : ThreadId) (addr : Word) :
    Frees s h tid addr (s.deallocate h tid addr) := by
  unfold deallocate
  split
  · rename_i why
    exact .ignored (by simpa using why)
  · rename_i why
    have tracking : s.config.trackAllocations = true := by simpa using why
    rcases met : s.thread tid with ⟨_ | t, s₁, noted⟩
    · exact .refused tracking met
    · dsimp only
      rcases done : s₁.tables.heap.free addr t.epoch with fault | ⟨freed, heap⟩
      · cases fault <;> exact .misused tracking met done
      · dsimp only
        split
        · rename_i due
          exact .swept tracking met done due rfl
        · rename_i early
          exact .freed tracking met done (by simpa using early)

variable {s h} in
/-- An access of a thread that is not tracked. -/
theorem access_refused {write : Bool} {tid : ThreadId} {addr : Word} {s₁ : State}
    {noted : List Output} (met : (s.countAccess write addr).thread tid = (none, s₁, noted))
    (pc size : Word) : s.access h write tid pc addr size = (s₁.countUntracked, noted) := by
  rw [access, met]

variable {s h} in
/-- An access of a thread that is. -/
theorem access_entered {write : Bool} {tid : ThreadId} {t : Thread} {addr : Word} {s₁ : State}
    {noted : List Output} (met : (s.countAccess write addr).thread tid = (some t, s₁, noted))
    (pc size : Word) : s.access h write tid pc addr size =
      ((s₁.accessBy h t write pc addr size).1,
        noted ++ (s₁.accessBy h t write pc addr size).2) := by
  rw [access, met]

theorem access_performed (write : Bool) (tid : ThreadId) (pc addr size : Word) :
    Performed s h (.access write tid pc addr size) (s.access h write tid pc addr size) := by
  rcases met : (s.countAccess write addr).thread tid with ⟨_ | t, s₁, noted⟩
  · rw [access_refused met]
    exact .unseen rfl met
  · rw [access_entered met]
    exact .accessed rfl met rfl

/-- **Every event ends in one of the ways listed.** -/
theorem performed (e : Event) : Performed s h e (s.step h e) := by
  cases e with
  | fork parent child => exact s.fork_performed h parent child
  | join parent child => exact s.join_performed h parent child
  | detach by_ tid => exact s.detach_performed h by_ tid
  | finish by_ tid => exact s.finish_performed h by_ tid
  | read tid pc addr size => exact s.access_performed h false tid pc addr size
  | write tid pc addr size => exact s.access_performed h true tid pc addr size
  | acquire tid lock recursive isWrite => exact s.acquire_performed h tid lock recursive isWrite
  | release tid lock isWrite => exact s.release_performed h tid lock isWrite
  | alloc tid pc addr size => exact .allocated (s.allocate_allocates h tid pc addr size)
  | free tid addr => exact .freed (s.deallocate_frees h tid addr)
  | happensBefore tid id => exact s.happensBefore_performed h tid id
  | happensAfter tid id => exact s.happensAfter_performed h tid id
  | enter tid pc => exact s.enter_performed h tid pc
  | exit tid => exact s.exit_performed h tid
  | mapShadow start size => exact .mapped

/-! ### An event is what it ends in -/

variable {s h} {e : Event} {tid : ThreadId} {t : Thread} {s₁ : State} {noted : List Output}
  {a : Anomaly} {res : State × List Output}

theorem Accuses.step_eq (accuses : s.Accuses e a) : s.step h e = s.raiseAnomaly a := by
  cases accuses with
  | reused taken => exact if_pos (by simpa [or_assoc] using taken)
  | @unjoinable parent child unknown =>
    have missing : (s.tables.threads[child]?.filter fun _ => child != parent) = none := by
      rw [Option.filter_eq_none_iff]
      rintro c there
      rcases unknown with self | missing
      · simpa using self
      · rw [Table.not_mem_iff.mp missing] at there
        cases there
    rw [step, join, missing]
  | @detached parent child c other there detached =>
    have known : (s.tables.threads[child]?.filter fun _ => child != parent) = some c :=
      Option.filter_eq_some_iff.mpr ⟨there, by simpa using other⟩
    rw [step, join, known]
    exact if_pos detached
  | undetachable unknown => rw [step, detach, Table.not_mem_iff.mp unknown]
  | unfinishable unknown => exact if_neg (by simpa using unknown)

/-- A fork that is not turned away. -/
theorem step_fork {parent child : ThreadId} (summons : s.Summons (.fork parent child) parent) :
    s.step h (.fork parent child) =
      match s.thread parent with
      | (none, s, noted) => (s.countUntracked, noted)
      | (some p, s, noted) =>
        match s.reserve .threads s.tables.threads.size with
        | (false, s, out) => (s.countUntracked, noted ++ out)
        | (true, s, out) =>
          (s.withTables ((s.tables.putThread p.tick).putThread (Thread.forked child p)),
            noted ++ out ++ tickNote p ++ [.note (.forked parent child)]) := by
  cases summons with
  | fork other missing alive =>
    rw [step, fork, if_neg (by simp [other, missing, alive])]
    rcases s.thread parent with ⟨_ | p, s₁, noted⟩
    · rfl
    · rcases reserved : s₁.reserve .threads s₁.tables.threads.size with ⟨_ | _, s₂, noted'⟩ <;>
        simp only [reserved]

/-- A join that is not turned away. -/
theorem step_join {parent child : ThreadId} {c : Thread} (other : child ≠ parent)
    (there : s.tables.threads[child]? = some c) (joinable : c.lifecycle ≠ .detached) :
    s.step h (.join parent child) =
      match s.thread parent with
      | (none, s, noted) => (s.countUntracked, noted)
      | (some p, s, noted) =>
        (s.withTables ((s.tables.putThread (p.observe c.clock).tick).retire child),
          noted ++ tickNote (p.observe c.clock) ++ [.note (.joined parent child)]) := by
  have known : (s.tables.threads[child]?.filter fun _ => child != parent) = some c :=
    Option.filter_eq_some_iff.mpr ⟨there, by simpa using other⟩
  rw [step, join, known]
  refine (if_neg joinable).trans ?_
  rcases s.thread parent with ⟨_ | p, s₁, noted⟩ <;> rfl

theorem Summons.refused_eq (summons : s.Summons e tid) (met : s.thread tid = (none, s₁, noted)) :
    s.step h e = (s₁.countUntracked, noted) := by
  cases summons with
  | fork other missing alive => rw [step_fork (.fork other missing alive), met]
  | join other there joinable => rw [step_join other there joinable, met]
  | enter | exit | release => simp only [step, State.enter, State.exit, State.release, met]

theorem Summons.misused_eq (summons : s.Summons e tid)
    (met : s.thread tid = (some t, s₁, noted)) (misuses : s₁.Misuses t e a) :
    s.step h e = ((s₁.raiseAnomaly a).1, noted ++ (s₁.raiseAnomaly a).2) := by
  cases misuses with
  | release unheld => cases summons with
    | release => simp only [step, State.release, met, unheld]
  | exit empty => cases summons with
    | exit => simp only [step, State.exit, met, empty]

end State

/-- The way in which an allocation ends decides all that it does. -/
theorem Allocates.eq {s : State} {h : Host} {tid : ThreadId} {pc addr size : Word}
    {res : State × List Output} (allocates : Allocates s h tid pc addr size res) :
    s.allocate h tid pc addr size = res := by
  cases allocates with
  | ignored why => exact if_pos (by simpa using why)
  | made tracking nonempty hand forgot placed =>
    rw [State.allocate, if_neg (by simp [tracking, nonempty])]
    simp only [hand, forgot, placed]

/-- The way in which a free ends decides all that it does. -/
theorem Frees.eq {s : State} {h : Host} {tid : ThreadId} {addr : Word}
    {res : State × List Output} (frees : Frees s h tid addr res) :
    s.deallocate h tid addr = res := by
  have taken (tracking : s.config.trackAllocations = true) :
      ¬ (!s.config.trackAllocations) = true := by simp [tracking]
  cases frees with
  | ignored why => exact if_pos (by simpa using why)
  | refused tracking met =>
    rw [State.deallocate, if_neg (taken tracking), met]
  | @misused _ _ _ fault tracking met failed =>
    rw [State.deallocate, if_neg (taken tracking), met]
    simp only [failed]
    cases fault <;> rfl
  | freed tracking met done early =>
    rw [State.deallocate, if_neg (taken tracking), met]
    simp only [done, early]
    rfl
  | swept tracking met done due sweeps =>
    rw [State.deallocate, if_neg (taken tracking), met]
    simp only [done, due, sweeps, if_true]

/-- **The way in which an event ends decides all that it does.** -/
theorem Performed.step_eq {s : State} {h : Host} {e : Event} {res : State × List Output}
    (performed : Performed s h e res) : s.step h e = res := by
  cases performed with
  | accused accuses => exact accuses.step_eq
  | refused summons met => exact summons.refused_eq met
  | misused summons met misuses => exact summons.misused_eq met misuses
  | full summons met full => simp only [State.step_fork summons, met, full]
  | forked summons met room =>
    simp only [State.step_fork summons, met, State.reserve_of_room room, List.append_nil]
  | joined other there joinable met => simp only [State.step_join other there joinable, met]
  | detached there => simp only [State.step, State.detach, there]
  | finished there => exact if_pos (by simpa using there)
  | entered met => simp only [State.step, State.enter, met]
  | exited met left => simp only [State.step, State.exit, met, left]
  | unlocked met found missing =>
    simp only [State.step, State.acquire, met, found]
    rcases missing with rfl | rfl
    · rfl
    · split <;> first | rfl | contradiction
  | acquired met found outermost =>
    simp only [State.step, State.acquire, met, found, outermost]
    rfl
  | reacquired met found nested => simp only [State.step, State.acquire, met, found, nested]; rfl
  | released met outermost => simp only [State.step, State.release, met, outermost]
  | unnested met nested => simp only [State.step, State.release, met, nested]
  | unsignalled names met found missing =>
    rcases names with rfl | rfl
    · simp only [State.step, State.happensBefore, met, found]
      rcases missing with rfl | rfl
      · rfl
      · split <;> first | rfl | contradiction
    · simp only [State.step, State.happensAfter, met, found]
      rcases missing with rfl | rfl
      · rfl
      · split <;> first | rfl | contradiction
  | signalled met found => simp only [State.step, State.happensBefore, met, found]
  | awaited met found => simp only [State.step, State.happensAfter, met, found]
  | allocated allocates => exact allocates.eq
  | freed frees => exact frees.eq
  | mapped => rfl
  | unseen access met => rw [access, State.step_access, State.access_refused met]
  | accessed access met made => rw [access, State.step_access, State.access_entered met, made]

end RaceMonitor
