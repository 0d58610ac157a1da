import RaceMonitor.Proofs.Engine.Footprint
import RaceMonitor.Proofs.Race.Genuine
import RaceMonitor.Proofs.Session.Live

/-! Independent events.

Events by two threads that do not concern the same thing are independent, and so are two reads at
an address with no freed block around it (`State.Independent`). What the one updates the other does
not see (`State.Independent.seems_updates`): of the reports against a freed block each asks for its
thread's alone, and so it does of the reads on record at one address. So the two may come in either
order (`Session.independent_events_commute`). -/
namespace RaceMonitor

/-- No freed block is around `addr`. -/
def Heap.Unburied (h : Heap) (addr : Word) : Prop :=
  ∀ (seq : Nat) (b : Block), h.freed[seq]? = some b → ¬ b.extent.covers addr

namespace Heap

variable {h : Heap}

/-- Nobody else sees that a use has been reported. -/
theorem use?_report {tid tid' : ThreadId} (ne : tid' ≠ tid) (h : Heap) (seq : Nat)
    (x addr : Word) (vc : VectorClock) (history : Option History) :
    (h.reported seq tid' x).use? tid addr vc history = h.use? tid addr vc history := by
  have unheard (b : Block) : (b.report tid' x).isReported tid addr = b.isReported tid addr := by
    rw [Bool.eq_iff_iff, Block.isReported_report, Prod.mk.injEq]
    exact or_iff_right fun same => ne same.1.symm
  have due (i : Nat) := any_modifyFreed (f := fun b => b.report tid' x)
    (p := fun b => b.unseenBy tid vc && !b.isReported tid addr)
    (fun b => congrArg (fun r => b.unseenBy tid vc && !r) (unheard b)) h seq i
  have found : (h.reported seq tid' x).unreported tid addr vc = h.unreported tid addr vc := by
    rw [unreported, reported, overlapping_modifyFreed h seq (f := fun b => b.report tid' x)
      fun _ => rfl]
    exact congrArg (List.find? · _) (funext due)
  rw [use?, found, use?]
  exact congrArg _ (funext fun i =>
    map_modifyFreed (f := fun b => b.report tid' x) (fun _ => rfl) h seq i)

theorem use?_of_unburied {addr : Word} (unburied : h.Unburied addr) (tid : ThreadId)
    (vc : VectorClock) (history : Option History) : h.use? tid addr vc history = none := by
  have none : h.touching (Extent.ofByte addr) = [] := by
    refine List.filter_eq_nil_iff.mpr fun seq _ hit => ?_
    obtain ⟨b, found, overlaps⟩ := (Option.any_eq_true _ _).mp hit
    exact unburied seq b found (Extent.covers_of_overlaps overlaps)
  rw [use?, unreported, overlapping, none, List.mergeSort_nil]
  rfl

theorem Unburied.reported {addr : Word} (unburied : h.Unburied addr) (seq : Nat)
    (tid : ThreadId) (x : Word) : (h.reported seq tid x).Unburied addr := by
  intro i b found covers
  have extents := map_modifyFreed (f := fun b => b.report tid x) (g := Block.extent)
    (fun _ => rfl) h seq i
  obtain ⟨b', found', extent⟩ := Option.map_eq_some_iff.mp
    (extents.symm.trans (congrArg (Option.map Block.extent) found))
  exact unburied i b' found' (extent ▸ covers)

end Heap

namespace State

variable {s : State} {t : Thread} {h : Host}

theorem use?_of_unburied {addr : Word} (unburied : s.tables.heap.Unburied addr) (t : Thread) :
    s.use? t addr = none := by
  rw [use?, Heap.use?_of_unburied unburied, ite_self]

/-- Accesses at other addresses are not asked for. -/
theorem use?_access {isWrite : Bool} {tid : ThreadId} {vc : VectorClock} {addr x : Word}
    {site : Site} (ne : x ≠ addr) (s : State) :
    (s.update (.access isWrite tid vc addr site)).use? t x = s.use? t x := by
  have histories : (s.update (.access isWrite tid vc addr site)).tables.shadow[x]? =
      s.tables.shadow[x]? := (Table.get_insert ..).trans (if_neg ne)
  rw [use?, histories]
  rfl

theorem use?_report {tid : ThreadId} (ne : tid ≠ t.tid) (s : State) (seq : Nat) (addr x : Word) :
    (s.update (.report seq tid addr)).use? t x = s.use? t x := by
  have blocks := Heap.use?_report ne s.tables.heap seq addr x t.clock s.tables.shadow[x]?
  rw [use?, use?, ← blocks]
  rfl

/-- The events are by different threads and do not concern the same thing, unless both read at an
address with no freed block around it. -/
structure Independent (s : State) (e f : Event) : Prop where
  actors : e.actor? ≠ f.actor?
  subjects : ∀ o, e.subject? = some o → f.subject? = some o →
    ∃ addr, o = .location addr ∧ e.Reads addr ∧ f.Reads addr ∧ s.tables.heap.Unburied addr

namespace Independent

variable {e f : Event} {u v : Update}

theorem symm (ind : s.Independent e f) : s.Independent f e where
  actors := ind.actors.symm
  subjects o subject subject' := by
    obtain ⟨addr, eq, reads, reads', unburied⟩ := ind.subjects o subject' subject
    exact ⟨addr, eq, reads', reads, unburied⟩

/-- Only a location can concern both. -/
theorem elsewhere (ind : s.Independent e f) {o : Subject} (subject : e.subject? = some o)
    (other : ∀ addr, o ≠ .location addr) : f.subject? ≠ some o := by
  intro subject'
  obtain ⟨addr, location, _⟩ := ind.subjects o subject subject'
  exact other addr location

/-- Accesses at one location are reads by two threads. -/
theorem reads (ind : s.Independent e f) {isWrite isWrite' : Bool} {tid tid' : ThreadId}
    {pc pc' addr size size' : Word} (event : e = .access isWrite tid pc addr size)
    (event' : f = .access isWrite' tid' pc' addr size') :
    isWrite = false ∧ isWrite' = false ∧ tid ≠ tid' := by
  subst event event'
  obtain ⟨_, same, ⟨_, _, _, read⟩, ⟨_, _, _, read'⟩, _⟩ := ind.subjects (.location addr)
    (Event.subject?_access ..) (Event.subject?_access ..)
  obtain rfl := Subject.location.inj same
  refine ⟨(Event.access_inj.mp read).1, (Event.access_inj.mp read').1, fun eq => ?_⟩
  exact ind.actors (by rw [Event.actor?_access, Event.actor?_access, eq])

theorem apart (ind : s.Independent e f) (owns : e.Owns u) (owns' : f.Owns v) : u.Apart v := by
  cases u with
  | thread t =>
    cases v with
    | thread u => exact fun same => ind.actors (owns.trans (same ▸ owns'.symm))
    | _ => trivial
  | lock id l =>
    cases v with
    | lock id' l' => exact fun same => ind.elsewhere owns (fun _ => nofun) (same ▸ owns')
    | _ => trivial
  | signal id vc =>
    cases v with
    | signal id' vc' => exact fun same => ind.elsewhere owns (fun _ => nofun) (same ▸ owns')
    | _ => trivial
  | access isWrite tid vc addr site =>
    cases v with
    | access isWrite' tid' vc' addr' site' =>
      rintro rfl
      obtain ⟨pc, size, event⟩ := owns
      obtain ⟨pc', size', event'⟩ := owns'
      exact ind.reads event event'
    | _ => trivial
  | report | count =>
    cases v <;> trivial

/-- No update of the one event is seen by the other. -/
theorem seems (ind : s.Independent e f) (owns : e.Owns u) : s.Seems f (s.update u) := by
  cases u with
  | thread t =>
    exact { Seems.refl s f with
      thread := fun tid actor => by
        refine (Table.get_insert ..).trans (if_neg fun same => ind.actors ?_)
        rw [actor, same]
        exact owns }
  | lock id l =>
    exact { Seems.refl s f with
      lock := fun id' subject => by
        refine (Table.get_insert ..).trans (if_neg ?_)
        rintro rfl
        exact ind.elsewhere owns (fun _ => nofun) subject }
  | signal id vc =>
    exact { Seems.refl s f with
      signal := fun id' subject => by
        refine (Table.get_insert ..).trans (if_neg ?_)
        rintro rfl
        exact ind.elsewhere owns (fun _ => nofun) subject }
  | access isWrite tid vc addr site =>
    obtain ⟨pc, size, event⟩ := owns
    exact { Seems.refl s f with
      use := fun t x actor subject => by
        by_cases same : x = addr
        · -- Both read there, and there is no block to report either against.
          subst same event
          obtain ⟨_, location, _, _, unburied⟩ := ind.subjects _ (Event.subject?_access ..) subject
          obtain rfl := Subject.location.inj location
          rw [use?_of_unburied unburied]
          exact use?_of_unburied (s := s.update (.access isWrite tid vc x site)) unburied t
        · exact use?_access same s
      outcome := fun isWrite' t pc' x size' event' => by
        rw [checked, history_access]
        split
        · rename_i same
          subst same
          obtain ⟨rfl, rfl, ne⟩ := ind.reads event event'
          exact (s.history x).onRead_outcome ne
        · rfl }
  | report seq tid addr =>
    exact { Seems.refl s f with
      use := fun t x actor _ =>
        use?_report (fun same : tid = t.tid => ind.actors (owns.trans (same ▸ actor.symm)))
          s seq addr x }
  | count c => exact { Seems.refl s f with }

theorem update (ind : s.Independent e f) (u : Update) : (s.update u).Independent e f where
  actors := ind.actors
  subjects o subject subject' := by
    obtain ⟨addr, location, reads, reads', unburied⟩ := ind.subjects o subject subject'
    refine ⟨addr, location, reads, reads', ?_⟩
    cases u with
    | report seq tid x => exact unburied.reported seq tid x
    | _ => exact unburied

theorem seems_updates (ind : s.Independent e f) {us : List Update} (owns : ∀ u ∈ us, e.Owns u) :
    s.Seems f (s.updates us) := by
  induction us generalizing s with
  | nil => exact .refl s f
  | cons u us ih =>
    exact (ind.seems (owns u List.mem_cons_self)).trans
      (ih (ind.update u) fun v mem => owns v (List.mem_cons_of_mem u mem))

end Independent

/-- Independent events that are decided by what they see may come in either order. -/
theorem Does.comm {e f : Event} (ind : s.Independent e f) {us vs : List Update}
    {out out' : List Output} (does : s.Does h e us out) (does' : s.Does h f vs out') :
    ((s.step h e).1.step h f).1 = ((s.step h f).1.step h e).1 ∧
      ((s.step h e).1.step h f).2 = (s.step h f).2 ∧
      ((s.step h f).1.step h e).2 = (s.step h e).2 := by
  rw [does.step s (.refl s e), does'.step s (.refl s f)]
  dsimp only
  rw [does'.step _ (ind.seems_updates does.owns), does.step _ (ind.symm.seems_updates does'.owns)]
  exact ⟨updates_comm (fun u mem v mem' => ind.apart (does.owns u mem) (does'.owns v mem')) s,
    rfl, rfl⟩

end State

namespace Session

/-- **Independent events commute.** Where there is room for all, take two accesses,
synchronisations or calls by two live threads that do not concern the same location, lock or
signal; or two reads of one location with no freed block around it. In either order they lead to
the same state, counters included, and each of them lets out the same. -/
theorem independent_events_commute (r : Session) {n : Nat} {e f : Event} {t u : ThreadId}
    (unlimited : ∀ k, r.start.config.limit k = 0) (isLocal : e.isLocal = true)
    (isLocal' : f.isLocal = true) (actor : e.actor? = some t) (actor' : f.actor? = some u)
    (live : t ∈ (r.state n).tables.threads) (live' : u ∈ (r.state n).tables.threads)
    (independent : (r.state n).Independent e f) :
    (((r.state n).step r.host e).1.step r.host f).1 =
        (((r.state n).step r.host f).1.step r.host e).1 ∧
      (((r.state n).step r.host e).1.step r.host f).2 = ((r.state n).step r.host f).2 ∧
      (((r.state n).step r.host f).1.step r.host e).2 = ((r.state n).step r.host e).2 := by
  have unlimited' (k : Resource) : (r.state n).config.limit k = 0 := r.config n ▸ unlimited k
  obtain ⟨_, _, does⟩ := State.step_does r.quiet (r.tidy n) unlimited' isLocal actor live
  obtain ⟨_, _, does'⟩ := State.step_does r.quiet (r.tidy n) unlimited' isLocal' actor' live'
  exact does.comm independent does'

/-- Thread 1 frees a block and writes elsewhere. -/
def readers : Session :=
  .default [.fork 1 2, .alloc 1 1 256 8, .free 1 256, .write 1 2 512 8]

theorem readers_runs : (readers.state 4).tables.threads.contains 1 = true ∧
    (readers.state 4).tables.threads.contains 2 = true ∧
    (readers.state 4).tables.heap.freed.values.map Block.extent = [⟨256, 8⟩] ∧
    (RaceMonitor.races ((readers.state 4).step readers.host (.read 2 3 512 8)).2).map Race.kind =
      [.writeRead] := by
  simp only [state_eq_foldl, State.step.eq_def, State.allocate.eq_def,
    State.deallocate.eq_def, State.sweep.eq_def, State.access.eq_def, State.accessBy.eq_def,
    State.reportUse.eq_def, Tables.unmarkPages.eq_def, Heap.handOut.eq_def, Heap.keep.eq_def,
    Heap.reportUse.eq_def, Heap.unreported.eq_def, Heap.touchesPage.eq_def, Heap.free.eq_def,
    Heap.evict.eq_def, Heap.overlapping_eq, Heap.touching_eq]
  decide +kernel

/-- The race of the second reader is the same, whether the first one has read or not. -/
theorem independent_events_commute_readers : (∀ k, readers.start.config.limit k = 0) ∧
    1 ∈ (readers.state 4).tables.threads ∧ 2 ∈ (readers.state 4).tables.threads ∧
    (readers.state 4).Independent (.read 1 5 512 8) (.read 2 3 512 8) ∧
    (RaceMonitor.races (((readers.state 4).step readers.host (.read 1 5 512 8)).1.step readers.host
      (.read 2 3 512 8)).2).map Race.kind = [.writeRead] := by
  obtain ⟨first, second, freed, race⟩ := readers_runs
  have unlimited (k : Resource) : readers.start.config.limit k = 0 := by cases k <;> rfl
  have live := Std.ExtTreeMap.mem_iff_contains.mpr first
  have live' := Std.ExtTreeMap.mem_iff_contains.mpr second
  have independent : (readers.state 4).Independent (.read 1 5 512 8) (.read 2 3 512 8) := by
    refine ⟨by decide, fun o subject _ => ?_⟩
    obtain rfl := Option.some.inj subject
    refine ⟨512, rfl, ⟨1, 5, 8, rfl⟩, ⟨2, 3, 8, rfl⟩, fun seq b found covers => ?_⟩
    have extent : b.extent = ⟨256, 8⟩ :=
      List.mem_singleton.mp (freed ▸ List.mem_map_of_mem (Table.mem_values.mpr ⟨seq, found⟩))
    rw [extent] at covers
    exact absurd covers.2 (by decide)
  refine ⟨unlimited, live, live', independent, ?_⟩
  rw [(readers.independent_events_commute unlimited rfl rfl rfl rfl live live' independent).2.1]
  exact race

end Session

end RaceMonitor
