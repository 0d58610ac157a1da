import Mathlib.Data.List.SplitBy
import RaceMonitor.Proofs.Engine.Lives
import RaceMonitor.Proofs.Engine.Sweep
import RaceMonitor.Proofs.Session.Independence

/-! Writers that never synchronise.

Threads that do nothing but read and write stay in their epochs, and nobody learns of anybody
else's. So of a run of writes by one thread the first is checked and kept, the others repeat it,
and the next thread's write conflicts with the one that was kept (`State.Kept.write_again`,
`State.Kept.write_other`). Whatever goes on at other addresses, the conflicts at one address are
those between one run of writes and the next (`Reached.writers_clash`). -/
namespace RaceMonitor

/-! ### Runs of writes -/

namespace Access

variable {a b : Access}

def sameThread (a b : Access) : Bool := a.tid == b.tid

/-- The first access of each maximal run of accesses by one thread. -/
def leads (as : List Access) : List Access := (as.splitBy sameThread).filterMap List.head?

theorem splitBy_cons (r : Access → Access → Bool) (a : Access) (as : List Access) :
    ∃ run runs, (a :: as).splitBy r = (a :: run) :: runs := by
  have joined := List.flatten_splitBy r (a :: as)
  have nonempty := List.nil_notMem_splitBy r (a :: as)
  generalize (a :: as).splitBy r = runs at joined nonempty ⊢
  rcases runs with _ | ⟨_ | ⟨c, run⟩, runs⟩
  · cases joined
  · exact absurd List.mem_cons_self nonempty
  · cases joined
    exact ⟨run, runs, rfl⟩

theorem leads_cons (a : Access) (as : List Access) : ∃ rest, leads (a :: as) = a :: rest := by
  obtain ⟨run, runs, split⟩ := splitBy_cons sameThread a as
  exact ⟨_, by rw [leads, split]; rfl⟩

/-- An access that goes on with a run does not show. -/
theorem leads_cons_same (same : b.tid = a.tid) (as : List Access) :
    leads (a :: b :: as) = leads (a :: as) := by
  have alike : sameThread b = sameThread a := by
    funext c
    rw [sameThread, same, sameThread]
  obtain ⟨run, runs, split⟩ := splitBy_cons sameThread a as
  obtain ⟨joined, nonempty, chains, seams⟩ := List.splitBy_eq_iff.mp split
  have chain := chains (a :: run) List.mem_cons_self
  rw [List.isChain_cons] at seams
  have split' : (a :: b :: as).splitBy sameThread = (a :: b :: run) :: runs := by
    refine List.splitBy_eq_iff.mpr ⟨?_, ?_, fun m mem => ?_, ?_⟩
    · rw [List.flatten_cons, List.cons_append] at joined ⊢
      rw [(List.cons.inj joined).2]
      rfl
    · simpa using nonempty
    · rcases List.mem_cons.mp mem with rfl | mem
      · refine List.isChain_cons_cons.mpr ⟨by simp [sameThread, same], ?_⟩
        rw [List.isChain_cons] at chain ⊢
        exact ⟨alike ▸ chain.1, chain.2⟩
      · exact chains m (List.mem_cons_of_mem _ mem)
    · refine List.isChain_cons.mpr ⟨fun next mem => ?_, seams.2⟩
      obtain ⟨_, hnext, seam⟩ := seams.1 next mem
      refine ⟨List.cons_ne_nil _ _, hnext, ?_⟩
      cases run with
      | nil => exact alike ▸ seam
      | cons c run => exact seam
  rw [leads, leads, split, split']
  rfl

theorem leads_cons_other (other : b.tid ≠ a.tid) (as : List Access) :
    leads (a :: b :: as) = a :: leads (b :: as) := by
  have split : ([a] ++ b :: as).splitBy sameThread = [[a]] ++ (b :: as).splitBy sameThread :=
    List.splitBy_append (by simpa [sameThread] using other.symm)
  rw [leads, ← List.singleton_append, split]
  rfl

end Access

/-! ### The history -/

namespace History

variable {a : Access} {tid : ThreadId} {vc : VectorClock} {site : Site}

theorem onWrite_empty : empty.onWrite tid vc site =
    (.ordered, ⟨some ⟨vc.epoch tid, true, site⟩, .none⟩) := rfl

theorem onWrite_repeated (same : a.epoch = vc.epoch tid) (reads : Readers) :
    onWrite ⟨some a, reads⟩ tid vc site = (.sameEpoch, ⟨some a, reads⟩) := by
  simp [onWrite, same]

theorem onWrite_unobserved (unobserved : a.epoch.observedBy vc = false) (reads : Readers) :
    onWrite ⟨some a, reads⟩ tid vc site =
      (.race .writeWrite a, ⟨some ⟨vc.epoch tid, true, site⟩, .none⟩) := by
  have other : a.epoch ≠ vc.epoch tid := fun same => by
    rw [same, Bool.eq_false_iff] at unobserved
    exact unobserved (Epoch.observedBy_iff.mpr (Nat.le_refl _))
  have kept : unobservedWrite ⟨some a, reads⟩ vc = some a := by
    simp [unobservedWrite, unobserved]
  simp [onWrite, other, kept]

end History

/-! ### Accesses and nothing else -/

namespace State

variable {s s' s'' : State} {h : Host} {x : Word}

/-- The thread as it makes its next access: one that has not been seen yet comes in by then. -/
def actor (s : State) (tid : ThreadId) : Thread := s.tables.threads[tid]?.getD (Thread.root tid)

/-- An event that is a write to `x`, as the access that it is. -/
def writeAt? (s : State) (x : Word) : Event → Option Access
  | .write tid pc addr size =>
    if addr = x then some ((s.actor tid).accessing true pc size) else none
  | _ => none

/-- The report that `second` conflicts with `first`, a write at `x` as well. -/
def clash (s : State) (x : Word) (first second : Access) : Race :=
  ⟨.writeWrite, s.side first x (s.blockAt x), s.side second x (s.blockAt x)⟩

/-- No more than accesses has come between. -/
structure Alongside (s s' : State) : Prop where
  config : s'.config = s.config
  heard : s'.heard = s.heard
  live : s'.tables.heap.live = s.tables.heap.live
  retired : s'.tables.retired = s.tables.retired
  stays : ∀ tid, tid ∈ s.tables.threads → tid ∈ s'.tables.threads
  actor : ∀ tid, s'.actor tid = s.actor tid

theorem Alongside.writeAt? (h : s.Alongside s') (x : Word) : s'.writeAt? x = s.writeAt? x := by
  funext e
  simp only [State.writeAt?, h.actor]

theorem Alongside.clash (h : s.Alongside s') (x : Word) : s'.clash x = s.clash x := by
  funext a b
  simp only [State.clash, side, blockAt_congr h.config h.live, h.config]

/-- A state in which an access at `x` can come to nothing but a conflict. -/
structure Bare (s : State) (x : Word) : Prop where
  tidy : s.tables.Tidy
  sound : s.tables.board.Sound none
  unlimited : ∀ k, s.config.limit k = 0
  heard : s.heard = true
  unburied : s.tables.heap.Unburied x
  early : ∀ tid, (s.actor tid).clock.get tid ≠ Tick.last

theorem Entered.actor_eq {tid : ThreadId} {t : Thread} (enter : Entered s tid t s') :
    s.actor tid = t := by
  cases enter with
  | known t there => rw [actor, there, Option.getD_some]
  | made missing => rw [actor, Table.not_mem_iff.mp missing, Option.getD_none]

theorem Entered.same_actor {tid : ThreadId} {t : Thread} (enter : Entered s tid t s')
    (u : ThreadId) : s'.actor u = s.actor u := by
  cases enter with
  | known => rfl
  | made missing =>
    show ((s.tables.threads.insert tid (Thread.root tid))[u]?).getD _ =
      (s.tables.threads[u]?).getD _
    rw [Table.get_insert]
    split
    · rename_i own
      rw [own, Table.not_mem_iff.mp missing]
      rfl
    · rfl

theorem actor_congr (same : s'.tables.threads = s.tables.threads) (tid : ThreadId) :
    s'.actor tid = s.actor tid := by
  rw [actor, actor, same]

theorem unburied_reportUse (unburied : s.tables.heap.Unburied x) (t : Thread) (addr : Word) :
    (s.reportUse t addr).2.tables.heap.Unburied x := by
  rw [reportUse_eq]
  cases s.use? t addr with
  | none => exact unburied
  | some use => exact unburied.reported use.1 t.tid addr

theorem Bare.access (bare : s.Bare x) (quiet : h.Quiet) (write : Bool) (tid : ThreadId)
    (pc addr size : Word) : s.Alongside (s.step h (.access write tid pc addr size)).1 ∧
      (s.step h (.access write tid pc addr size)).1.Bare x := by
  obtain ⟨tidy, b, admits, turn⟩ := turned quiet bare.tidy bare.sound
    (.access write tid pc addr size)
  have handled := access_handled quiet s write tid pc addr size
  rw [step_access] at tidy turn ⊢
  generalize (s.access h write tid pc addr size).1 = s' at handled tidy turn ⊢
  generalize races (s.access h write tid pc addr size).2 = delivered at handled
  obtain ⟨beside, unburied⟩ : s.Alongside s' ∧ s'.tables.heap.Unburied x := by
    cases handled with
    | refused _ _ config heard tables =>
      exact ⟨⟨config, heard, by rw [tables], by rw [tables], fun _ live => tables ▸ live,
        actor_congr (by rw [tables])⟩, tables ▸ bare.unburied⟩
    | entered t s₁ enter _ threads _ accessed =>
      refine ⟨⟨accessed.config, accessed.heard, ?_, threads.2.1.trans enter.retired,
        fun u live => ?_, fun u => ?_⟩, ?_⟩
      · rw [accessed.heap]
        exact (s.reportUse_frame t addr).2
      · rw [threads.1]
        exact enter.mem_iff.mpr (.inr live)
      · exact (actor_congr threads.1 u).trans (Entered.same_actor enter u)
      · rw [accessed.heap]
        exact unburied_reportUse bare.unburied t addr
  exact ⟨beside, tidy, (bare.sound.admits admits).turn turn,
    fun k => beside.config ▸ bare.unlimited k, beside.heard.trans bare.heard, unburied,
    fun u => beside.actor u ▸ bare.early u⟩

theorem actor_there {tid : ThreadId} (live : tid ∈ s.tables.threads) :
    s.tables.threads[tid]? = some (s.actor tid) := by
  obtain ⟨t, there⟩ := Table.mem_iff_exists.mp live
  rw [actor, there, Option.getD_some]

theorem Bare.actor_tid (bare : s.Bare x) (tid : ThreadId) : (s.actor tid).tid = tid := by
  cases there : s.tables.threads[tid]? with
  | some t => rw [actor, there, Option.getD_some, bare.tidy.keyed tid t there]
  | none => rw [actor, there, Option.getD_none, Thread.root]

/-- Nobody else has observed the present of a thread. -/
theorem Bare.unobserved (bare : s.Bare x) {t u : ThreadId} (live : t ∈ s.tables.threads)
    (live' : u ∈ s.tables.threads) (ne : t ≠ u) :
    (s.actor t).epoch.observedBy (s.actor u).clock = false := by
  have known (p v : ThreadId) (live : p ∈ s.tables.threads) :
      s.tables.board.known (.thread p) v = ((s.actor p).clock.get v).toNat := by
    simp only [Tables.board, Tables.clockAt_thread (actor_there live)]
  refine Bool.eq_false_iff.mpr fun observed => ?_
  have clock : (s.actor t).epoch.clock = (s.actor t).clock.get t := by
    rw [Thread.epoch, VectorClock.epoch, bare.actor_tid]
  have owner : (s.actor t).epoch.tid = t := bare.actor_tid t
  rw [Epoch.observedBy_iff, clock, owner, ← known u t live', ← known t t live] at observed
  rcases bare.sound.alone (.thread u) t live (by simp) (by simpa using ne.symm) with less | last
  · omega
  · rw [known t t live] at last
    exact bare.early t (UInt32.toNat_inj.mp last)

/-! ### One access -/

/-- A report names the address of the access that it is about. -/
theorem second_addr_of_report {t : Thread} {write : Bool} {pc addr size : Word} {race : Race}
    (reported : race ∈ s.report t write pc addr size) : race.second.addr = addr := by
  unfold report at reported
  split at reported
  · obtain rfl := List.mem_singleton.mp reported
    exact side_addr ..
  · split at reported
    · unfold conflictReport at reported
      split at reported
      · obtain rfl := List.mem_singleton.mp reported
        exact side_addr ..
      · cases reported
    · cases reported

/-- `a` is all that is on record at `x`, and its thread is in the same epoch still. -/
structure Kept (s : State) (x : Word) (a : Access) : Prop where
  history : s.history x = ⟨some a, .none⟩
  live : a.tid ∈ s.tables.threads
  present : (s.actor a.tid).epoch = a.epoch

theorem Kept.of_alongside {a : Access} (kept : s.Kept x a) (beside : s.Alongside s')
    (same : s'.history x = s.history x) : s'.Kept x a where
  history := same.trans kept.history
  live := beside.stays _ kept.live
  present := by rw [beside.actor, kept.present]

/-- The races that are delivered at `x`. -/
def racesAt (x : Word) (out : List Output) : List Race :=
  (races out).filter fun race => race.second.addr == x

/-- An access at another address. -/
theorem elsewhere (quiet : h.Quiet) (write : Bool) (tid : ThreadId) (pc size : Word) {addr : Word}
    (other : addr ≠ x) :
    (s.step h (.access write tid pc addr size)).1.history x = s.history x ∧
      racesAt x (s.step h (.access write tid pc addr size)).2 = [] := by
  have handled := access_handled quiet s write tid pc addr size
  rw [step_access, racesAt]
  generalize (s.access h write tid pc addr size).1 = s' at handled ⊢
  generalize races (s.access h write tid pc addr size).2 = delivered at handled ⊢
  cases handled with
  | refused _ _ _ _ tables => exact ⟨by rw [history, tables, history], rfl⟩
  | entered t s₁ enter _ threads _ accessed =>
    refine ⟨?_, List.filter_eq_nil_iff.mpr fun race mem => ?_⟩
    · rw [history, accessed.shadow, if_neg fun same => other same.1.symm, history]
    · rw [accessed.races] at mem
      split at mem
      · rw [second_addr_of_report mem]
        simpa using other
      · cases mem

/-- A write at `x` is checked against the history, and nothing else. -/
theorem Bare.write (bare : s.Bare x) (quiet : h.Quiet) {tid : ThreadId}
    (alive : tid ∉ s.tables.retired) (pc size : Word) :
    tid ∈ (s.step h (.write tid pc x size)).1.tables.threads ∧
      (s.step h (.write tid pc x size)).1.history x =
        (s.checked (s.actor tid) true pc x size).2 ∧
      racesAt x (s.step h (.write tid pc x size)).2 =
        s.conflictReport x ((s.actor tid).accessing true pc size)
          (s.checked (s.actor tid) true pc x size).1 := by
  have free : (s.countAccess true x).Open tid := ⟨bare.unlimited .threads, alive⟩
  obtain ⟨t, s₁, noted, met⟩ := free.met
  have enter := thread_entered met
  have own : (s.countAccess true x).actor tid = t := Entered.actor_eq enter
  obtain rfl : s.actor tid = t := own
  obtain ⟨accessed, threads⟩ := accessBy_accessed quiet s₁ (s.actor tid) true pc x size
  obtain ⟨config, heard, shadow, heap, freedPages⟩ := enter.sameMemory
  have accessed := accessed.of_same (s := s) ⟨config, heard, shadow, heap, freedPages⟩
  have step : s.step h (.write tid pc x size) = _ := access_entered met pc size
  have tracked : s.tracks x = true := by simp [tracks, bare.unlimited, Config.full]
  have reported : races (s.step h (.write tid pc x size)).2 =
      s.report (s.actor tid) true pc x size := by
    rw [step, races_append, (thread_plain met).races, List.nil_append, accessed.races,
      if_pos bare.heard]
  have unused : (s.reportUse (s.actor tid) x).1 = none := by
    rw [reportUse_eq, use?_of_unburied bare.unburied]
    rfl
  refine ⟨?_, ?_, ?_⟩
  · rw [step, threads.1]
    exact enter.live
  · rw [step, history, accessed.shadow, if_pos ⟨rfl, tracked⟩, Option.getD_some]
  · rw [racesAt, reported, List.filter_eq_self.mpr fun race mem => by
      simpa using second_addr_of_report mem]
    rw [report, unused, if_pos tracked]

/-- A write that has gone into the history is kept. -/
theorem Bare.kept (bare : s.Bare x) (beside : s.Alongside s') {tid : ThreadId}
    (live : tid ∈ s'.tables.threads) {pc size : Word}
    (history : s'.history x = ⟨some ((s.actor tid).accessing true pc size), .none⟩) :
    s'.Kept x ((s.actor tid).accessing true pc size) := by
  have own : ((s.actor tid).accessing true pc size).tid = tid := bare.actor_tid tid
  refine ⟨history, own.symm ▸ live, ?_⟩
  rw [own, beside.actor]
  rfl

/-- The first write is kept. -/
theorem Bare.first_write (bare : s.Bare x) (quiet : h.Quiet) {tid : ThreadId}
    (alive : tid ∉ s.tables.retired) (fresh : s.history x = .empty) (pc size : Word) :
    (s.step h (.write tid pc x size)).1.Kept x ((s.actor tid).accessing true pc size) ∧
      racesAt x (s.step h (.write tid pc x size)).2 = [] := by
  obtain ⟨live, history, delivered⟩ := bare.write quiet alive pc size
  rw [checked, fresh, History.onAccess, if_pos rfl, History.onWrite_empty] at history delivered
  exact ⟨bare.kept (bare.access quiet true tid pc x size).1 live history, delivered⟩

/-- A write by the thread of the kept one repeats it. -/
theorem Kept.write_again {a : Access} (kept : s.Kept x a) (bare : s.Bare x) (quiet : h.Quiet)
    (alive : a.tid ∉ s.tables.retired) (pc size : Word) :
    (s.step h (.write a.tid pc x size)).1.Kept x a ∧
      racesAt x (s.step h (.write a.tid pc x size)).2 = [] := by
  obtain ⟨_, history, delivered⟩ := bare.write quiet alive pc size
  rw [checked, kept.history, History.onAccess, if_pos rfl,
    History.onWrite_repeated kept.present.symm] at history delivered
  exact ⟨kept.of_alongside (bare.access quiet true a.tid pc x size).1
    (history.trans kept.history.symm), delivered⟩

/-- A write by another thread conflicts with the kept one, and is kept in its place. -/
theorem Kept.write_other {a : Access} (kept : s.Kept x a) (bare : s.Bare x) (quiet : h.Quiet)
    {tid : ThreadId} (alive : tid ∉ s.tables.retired) (other : tid ≠ a.tid) (pc size : Word) :
    (s.step h (.write tid pc x size)).1.Kept x ((s.actor tid).accessing true pc size) ∧
      racesAt x (s.step h (.write tid pc x size)).2 =
        [s.clash x a ((s.actor tid).accessing true pc size)] := by
  obtain ⟨live, history, delivered⟩ := bare.write quiet alive pc size
  obtain ⟨beside, bare'⟩ := bare.access quiet true tid pc x size
  have unobserved := bare'.unobserved (beside.stays _ kept.live) live other.symm
  rw [beside.actor, beside.actor, kept.present] at unobserved
  rw [checked, kept.history, History.onAccess, if_pos rfl,
    History.onWrite_unobserved unobserved] at history delivered
  exact ⟨bare.kept beside live history, delivered⟩

/-! ### Any number of accesses -/

/-- An access; if it is at `x`, it is a write, and its thread has not retired. -/
inductive Writes (s : State) (x : Word) : Event → Prop where
  | here (tid : ThreadId) (pc size : Word) (alive : tid ∉ s.tables.retired) :
    Writes s x (.write tid pc x size)
  | elsewhere (write : Bool) (tid : ThreadId) (pc addr size : Word) (other : addr ≠ x) :
    Writes s x (.access write tid pc addr size)

theorem Alongside.writes (h : s.Alongside s') {e : Event} (writes : s.Writes x e) :
    s'.Writes x e := by
  cases writes with
  | here tid pc size alive => exact .here tid pc size (h.retired ▸ alive)
  | elsewhere write tid pc addr size other => exact .elsewhere write tid pc addr size other

theorem writeAt?_elsewhere (s : State) (write : Bool) (tid : ThreadId) (pc size : Word)
    {addr : Word} (other : addr ≠ x) : s.writeAt? x (.access write tid pc addr size) = none := by
  cases write with
  | false => rfl
  | true => exact if_neg other

theorem racesAt_run_cons (s : State) (h : Host) (x : Word) (e : Event) (es : List Event) :
    racesAt x (s.run h (e :: es)).2 =
      racesAt x (s.step h e).2 ++ racesAt x ((s.step h e).1.run h es).2 := by
  simp only [racesAt, run, races_append, List.filter_append]

/-- The conflicts between one run of writes and the next. -/
def clashes (s : State) (x : Word) (as : List Access) : List Race :=
  (Access.leads as).zipWith (s.clash x) (Access.leads as).tail

theorem Alongside.clashes (h : s.Alongside s') (x : Word) : s'.clashes x = s.clashes x := by
  funext as
  rw [State.clashes, h.clash, State.clashes]

theorem clashes_same {a b : Access} (same : b.tid = a.tid) (as : List Access) :
    s.clashes x (a :: b :: as) = s.clashes x (a :: as) := by
  rw [clashes, Access.leads_cons_same same, clashes]

theorem clashes_other {a b : Access} (other : b.tid ≠ a.tid) (as : List Access) :
    s.clashes x (a :: b :: as) = s.clash x a b :: s.clashes x (b :: as) := by
  obtain ⟨rest, leads⟩ := Access.leads_cons b as
  rw [clashes, Access.leads_cons_other other, clashes, leads]
  rfl

/-- What is on record at `x`: nothing, or the lead of the present run. -/
inductive Holds (s : State) (x : Word) : List Access → Prop where
  | nothing (fresh : s.history x = .empty) : Holds s x []
  | lead (a : Access) (kept : s.Kept x a) : Holds s x [a]

/-- What is delivered with one event, and what is then on record instead. -/
theorem Holds.step {lead : List Access} (holds : s.Holds x lead) (bare : s.Bare x)
    (quiet : h.Quiet) {e : Event} (writes : s.Writes x e) :
    ∃ lead', (s.step h e).1.Holds x lead' ∧ ∀ as,
      racesAt x (s.step h e).2 ++ s.clashes x (lead' ++ as) =
        s.clashes x (lead ++ ((s.writeAt? x e).toList ++ as)) := by
  cases writes with
  | here tid pc size alive =>
    have own : ((s.actor tid).accessing true pc size).tid = tid := bare.actor_tid tid
    have written : s.writeAt? x (.write tid pc x size) =
      some ((s.actor tid).accessing true pc size) := if_pos rfl
    rw [written]
    cases holds with
    | nothing fresh =>
      obtain ⟨kept, none⟩ := bare.first_write quiet alive fresh pc size
      exact ⟨_, .lead _ kept, fun as => by rw [none]; rfl⟩
    | lead a kept =>
      by_cases same : tid = a.tid
      · subst same
        obtain ⟨kept', none⟩ := kept.write_again bare quiet alive pc size
        exact ⟨_, .lead a kept', fun as => by rw [none]; exact (clashes_same own as).symm⟩
      · obtain ⟨kept', one⟩ := kept.write_other bare quiet alive same pc size
        refine ⟨_, .lead _ kept', fun as => ?_⟩
        rw [one]
        exact (clashes_other (own.symm ▸ same) as).symm
  | elsewhere write tid pc addr size other =>
    obtain ⟨beside, _⟩ := bare.access quiet write tid pc addr size
    obtain ⟨same, none⟩ := elsewhere (s := s) quiet write tid pc size other
    rw [writeAt?_elsewhere s write tid pc size other, none]
    refine ⟨lead, ?_, fun as => rfl⟩
    cases holds with
    | nothing fresh => exact .nothing (same.trans fresh)
    | lead a kept => exact .lead a (kept.of_alongside beside same)

theorem Bare.step (bare : s.Bare x) (quiet : h.Quiet) {e : Event} (writes : s.Writes x e) :
    s.Alongside (s.step h e).1 ∧ (s.step h e).1.Bare x := by
  cases writes with
  | here tid pc size => exact bare.access quiet true tid pc x size
  | elsewhere write tid pc addr size => exact bare.access quiet write tid pc addr size

/-- What is delivered with any number of events. -/
theorem Holds.run {lead : List Access} (holds : s.Holds x lead) (bare : s.Bare x)
    (quiet : h.Quiet) {es : List Event} (writes : ∀ e ∈ es, s.Writes x e) :
    racesAt x (s.run h es).2 = s.clashes x (lead ++ es.filterMap (s.writeAt? x)) := by
  induction es generalizing s lead with
  | nil =>
    cases holds <;> rfl
  | cons e es ih =>
    have now := writes e List.mem_cons_self
    obtain ⟨beside, bare'⟩ := bare.step quiet now
    obtain ⟨lead', holds', delivered⟩ := holds.step bare quiet now
    have rest := ih holds' bare' fun e' mem =>
      beside.writes (writes e' (List.mem_cons_of_mem e mem))
    rw [beside.clashes, beside.writeAt?] at rest
    rw [racesAt_run_cons, rest, delivered]
    cases written : s.writeAt? x e <;> simp [written]

end State

/-- A thread comes in at the beginning of its logical time. -/
theorem early_root (tid : ThreadId) : (Thread.root tid).clock.get tid ≠ Tick.last := by
  have clock : (Thread.root tid).clock.get tid = Tick.next 0 := by
    simp [Thread.root, VectorClock.get_increment]
  rw [clock]
  decide

namespace Reached

variable {s : State} {out : List Output} {h : Host} {x : Word} {es : List Event}

/-- **Writers that never synchronise clash once per change of writer.** In any state that an engine
gets to where there is room for all, no thread's logical time has ended and the callback is
registered, take an address without a history and without a freed block around it. Of any writes
there, by threads that have not retired and with accesses at other addresses in between, each that
follows one by another thread is reported as a conflict with the first of the run of writes that it
ends, and no other is. -/
theorem writers_clash (reached : Reached s out) (quiet : h.Quiet)
    (unlimited : ∀ k, s.config.limit k = 0) (heard : s.heard = true)
    (early : ∀ (tid : ThreadId) (t : Thread), s.tables.threads[tid]? = some t →
      t.clock.get tid ≠ Tick.last)
    (fresh : s.history x = .empty) (unburied : s.tables.heap.Unburied x)
    (writes : ∀ e ∈ es, s.Writes x e) :
    State.racesAt x (s.run h es).2 = s.clashes x (es.filterMap (s.writeAt? x)) := by
  obtain ⟨tidy, sound, _⟩ := reached.timed
  have early (tid : ThreadId) : (s.actor tid).clock.get tid ≠ Tick.last := by
    cases there : s.tables.threads[tid]? with
    | some t =>
      rw [State.actor, there]
      exact early tid t there
    | none =>
      rw [State.actor, there]
      exact early_root tid
  have bare : s.Bare x := ⟨tidy, sound, unlimited, heard, unburied, early⟩
  exact (State.Holds.nothing fresh).run bare quiet writes

end Reached

/-- A thread and its child, and a freed block. -/
def Command.parting : List Command :=
  [.event (.fork 1 2), .event (.alloc 1 1 512 8), .event (.free 1 512)]

/-- Threads 1, 2 and 3 write by turns. -/
def Event.turns : List Event :=
  [.write 1 10 256 8, .read 2 11 512 8, .write 1 12 256 4, .write 2 13 256 8, .write 3 14 256 8,
    .write 2 15 256 8, .write 2 16 256 8]

theorem Reached.writers_clash_parted :
    let built := State.build .concurrent Config.default true false
    let parted := built.1.execAll (.recorder .sorted) Command.parting
    Reached parted.1 (built.2 ++ parted.2) ∧ parted.1.history 256 = .empty ∧
      parted.1.tables.heap.Unburied 256 ∧ (∀ e ∈ Event.turns, parted.1.Writes 256 e) ∧
      (State.racesAt 256 (parted.1.run (.recorder .sorted) Event.turns).2).map
        (fun race => (race.first.pc, race.second.pc)) = [(10, 13), (13, 14), (14, 15)] := by
  intro built parted
  have reached : Reached parted.1 (built.2 ++ parted.2) :=
    (Reached.built .concurrent Config.default true false).execAll (.notes .sorted) Command.parting
  have run : parted.1.history 256 = .empty ∧
      (1 ∉ parted.1.tables.retired ∧ 2 ∉ parted.1.tables.retired ∧ 3 ∉ parted.1.tables.retired) ∧
      parted.1.tables.heap.freed.values.map Block.extent = [⟨512, 8⟩] ∧
      (parted.1.tables.threads.values.all fun t => t.clock.get t.tid != Tick.last) = true ∧
      parted.1.config = Config.default ∧ parted.1.heard = true ∧
      (parted.1.clashes 256 (Event.turns.filterMap (parted.1.writeAt? 256))).map
        (fun race => (race.first.pc, race.second.pc)) = [(10, 13), (13, 14), (14, 15)] := by
    simp only [built, parted, Command.parting, State.execAll, State.exec, State.step,
      State.allocate, State.deallocate, State.sweep, Tables.unmarkPages, Heap.handOut, Heap.keep,
      Heap.free, Heap.evict, Heap.overlapping_eq, Heap.touching_eq]
    decide +kernel
  obtain ⟨fresh, ⟨one, two, three⟩, freed, early, config, heard, clashes⟩ := run
  have unlimited (k : Resource) : parted.1.config.limit k = 0 := by
    rw [config]
    cases k <;> rfl
  have early (tid : ThreadId) (t : Thread) (there : parted.1.tables.threads[tid]? = some t) :
      t.clock.get tid ≠ Tick.last := by
    have own := List.all_eq_true.mp early t (Table.mem_values.mpr ⟨tid, there⟩)
    rwa [reached.timed.tidy.keyed tid t there, bne_iff_ne] at own
  have unburied : parted.1.tables.heap.Unburied 256 := by
    intro seq b found covers
    have extent : b.extent = ⟨512, 8⟩ :=
      List.mem_singleton.mp (freed ▸ List.mem_map_of_mem (Table.mem_values.mpr ⟨seq, found⟩))
    rw [extent] at covers
    exact absurd covers.1 (by decide)
  have writes : ∀ e ∈ Event.turns, parted.1.Writes 256 e := by
    simp only [Event.turns, List.forall_mem_cons]
    exact ⟨.here 1 10 8 one, .elsewhere false 2 11 512 8 (by decide), .here 1 12 4 one,
      .here 2 13 8 two, .here 3 14 8 three, .here 2 15 8 two, .here 2 16 8 two,
      List.forall_mem_nil _⟩
  refine ⟨reached, fresh, unburied, writes, ?_⟩
  rw [Reached.writers_clash reached (Host.recorder_quiet .sorted) unlimited heard early fresh
    unburied writes]
  exact clashes

end RaceMonitor
