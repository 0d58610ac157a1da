import RaceMonitor.Proofs.Engine.Access
import RaceMonitor.Proofs.Engine.Enumeration
import RaceMonitor.Proofs.History

/-! Updates.

What an event of a live thread does to the state comes down to a few updates (`Update`): the
thread, a lock or a signal takes a new value, an access goes into the history of its location, a
report is entered into a freed block, a counter goes up. Updates of different entries may come in
any order (`State.updates_comm`), and so may two reads of one location by different threads. Where
there is room, looking something up is an update, and so is all of an access
(`State.access_eq`). -/
namespace RaceMonitor

/-- The counters that an event of a live thread may add to. -/
inductive Count where
  | reads
  | writes
  | sameEpoch
  | races
  | useAfterFree
  | anomalies
  | unmapped
  deriving DecidableEq, Repr, Inhabited

/-- One more. -/
def Counters.bump (c : Counters) : Count → Counters
  | .reads => { c with reads := c.reads + 1 }
  | .writes => { c with writes := c.writes + 1 }
  | .sameEpoch => { c with sameEpoch := c.sameEpoch + 1 }
  | .races => { c with races := c.races + 1 }
  | .useAfterFree => { c with useAfterFree := c.useAfterFree + 1 }
  | .anomalies => { c with anomalies := c.anomalies + 1 }
  | .unmapped => { c with unmapped := c.unmapped + 1 }

theorem Counters.bump_comm (c : Counters) (i j : Count) :
    (c.bump i).bump j = (c.bump j).bump i := by
  cases i <;> cases j <;> rfl

/-- A freed block has been reported to a thread, at an address. -/
def Heap.reported (h : Heap) (seq : Nat) (tid : ThreadId) (addr : Word) : Heap :=
  h.modifyFreed seq fun b => b.report tid addr

/-- A change to one entry of one population, or to a counter. -/
inductive Update where
  | thread (t : Thread)
  | lock (id : Word) (l : Lock)
  | signal (id : Word) (vc : VectorClock)
  /-- The history of a location takes an access in. -/
  | access (write : Bool) (tid : ThreadId) (vc : VectorClock) (addr : Word) (site : Site)
  | report (seq : Nat) (tid : ThreadId) (addr : Word)
  | count (c : Count)

/-- Updates of different entries, or two reads by different threads. -/
def Update.Apart : Update → Update → Prop
  | .thread t, .thread u => t.tid ≠ u.tid
  | .lock id _, .lock id' _ => id ≠ id'
  | .signal id _, .signal id' _ => id ≠ id'
  | .access write tid _ addr _, .access write' tid' _ addr' _ =>
    addr = addr' → write = false ∧ write' = false ∧ tid ≠ tid'
  | _, _ => True

namespace State

def update (s : State) : Update → State
  | .thread t => s.withTables (s.tables.putThread t)
  | .lock id l => s.withTables (s.tables.putLock id l)
  | .signal id vc => s.withTables (s.tables.putSignal id vc)
  | .access write tid vc addr site =>
    s.withTables (s.tables.putHistory addr ((s.history addr).onAccess write tid vc site).2)
  | .report seq tid addr =>
    s.withTables (s.tables.putHeap (s.tables.heap.reported seq tid addr))
  | .count c => s.count fun counters => counters.bump c

def updates (s : State) (us : List Update) : State := us.foldl update s

variable {s : State}

theorem updates_cons (s : State) (u : Update) (us : List Update) :
    s.updates (u :: us) = (s.update u).updates us := rfl

theorem updates_append (s : State) (us vs : List Update) :
    s.updates (us ++ vs) = (s.updates us).updates vs := List.foldl_append

/-! ### In any order -/

theorem history_access (s : State) (write : Bool) (tid : ThreadId) (vc : VectorClock)
    (addr x : Word) (site : Site) : (s.update (.access write tid vc addr site)).history x =
      if x = addr then ((s.history addr).onAccess write tid vc site).2 else s.history x := by
  show ((s.tables.shadow.insert addr _)[x]?).getD History.empty = _
  rw [Table.get_insert]
  split <;> rfl

/-- Accesses at two locations may come in either order, and so may two reads at one. -/
theorem access_comm {write write' : Bool} {tid tid' : ThreadId} {addr addr' : Word}
    (apart : addr = addr' → write = false ∧ write' = false ∧ tid ≠ tid') (s : State)
    (vc vc' : VectorClock) (site site' : Site) :
    (s.update (.access write tid vc addr site)).update (.access write' tid' vc' addr' site') =
      (s.update (.access write' tid' vc' addr' site')).update
        (.access write tid vc addr site) := by
  have shadow {t t' : Table Word History} (same : t = t') :
      s.withTables (s.tables.putShadow t) = s.withTables (s.tables.putShadow t') :=
    congrArg (fun t => s.withTables (s.tables.putShadow t)) same
  rw [update.eq_def (s.update _), update.eq_def (s.update _)]
  dsimp only
  rw [history_access, history_access]
  by_cases same : addr = addr'
  · subst same
    obtain ⟨rfl, rfl, ne⟩ := apart rfl
    rw [if_pos rfl, if_pos rfl]
    -- The later history is all that is left, and it has both reads in either order.
    refine shadow (Table.insert_insert.trans (Eq.trans ?_ Table.insert_insert.symm))
    exact congrArg (s.tables.shadow.insert addr) ((s.history addr).onRead_comm ne)
  · rw [if_neg (Ne.symm same), if_neg same]
    exact shadow (Table.insert_comm same)

theorem update_comm {u v : Update} (apart : u.Apart v) (s : State) :
    (s.update u).update v = (s.update v).update u := by
  cases u with
  | thread t =>
    cases v with
    | thread u =>
      exact congrArg (fun threads => s.withTables { s.tables with threads })
        (Table.insert_comm apart)
    | _ => rfl
  | lock id l =>
    cases v with
    | lock id' l' =>
      exact congrArg (fun locks => s.withTables { s.tables with locks }) (Table.insert_comm apart)
    | _ => rfl
  | signal id vc =>
    cases v with
    | signal id' vc' =>
      exact congrArg (fun signals => s.withTables { s.tables with signals })
        (Table.insert_comm apart)
    | _ => rfl
  | access write tid vc addr site =>
    cases v with
    | access => exact access_comm apart s ..
    | _ => rfl
  | report seq tid addr =>
    cases v with
    | report seq' tid' addr' =>
      have reports (b : Block) : (b.report tid addr).report tid' addr' =
          (b.report tid' addr').report tid addr :=
        congrArg (fun reported => { b with reported }) (PairSet.insert_comm _ _)
      exact congrArg
        (fun freed => s.withTables (s.tables.putHeap { s.tables.heap with freed }))
        (Table.modify_comm reports)
    | _ => rfl
  | count c =>
    cases v with
    | count c' =>
      exact congrArg (fun counters => { s with counters }) (s.counters.bump_comm c c')
    | _ => rfl

theorem update_updates_comm {u : Update} {vs : List Update} (apart : ∀ v ∈ vs, u.Apart v)
    (s : State) : (s.update u).updates vs = (s.updates vs).update u := by
  induction vs generalizing s with
  | nil => rfl
  | cons v vs ih =>
    rw [updates_cons, updates_cons, update_comm (apart v List.mem_cons_self)]
    exact ih (fun w mem => apart w (List.mem_cons_of_mem v mem)) _

/-- Updates of different entries may come in either order. -/
theorem updates_comm {us vs : List Update} (apart : ∀ u ∈ us, ∀ v ∈ vs, u.Apart v) (s : State) :
    (s.updates us).updates vs = (s.updates vs).updates us := by
  induction us generalizing s with
  | nil => rfl
  | cons u us ih =>
    rw [updates_cons, updates_cons, ih fun w mem => apart w (List.mem_cons_of_mem u mem)]
    rw [update_updates_comm (apart u List.mem_cons_self)]

/-! ### Looking up where there is room -/

variable {t : Thread} {h : Host}

theorem thread_known {tid : ThreadId} (there : s.tables.threads[tid]? = some t) :
    s.thread tid = (some t, s, []) := by
  unfold thread
  rw [there]

theorem lock_open (unlimited : s.config.limit .locks = 0) (id : Word) :
    s.lock id = (some (s.tables.locks[id]?.getD .fresh),
      s.update (.lock id (s.tables.locks[id]?.getD .fresh)), []) := by
  unfold lock
  cases found : s.tables.locks[id]? with
  | some l =>
    have same := congrArg (fun locks => s.withTables { s.tables with locks })
      (Table.insert_of_found found)
    exact congrArg (fun s => (some l, s, [])) same.symm
  | none =>
    dsimp only
    rw [reserveLock, reserve_of_room (Room.of_unlimited unlimited _)]
    rfl

theorem signal_open (unlimited : s.config.limit .locks = 0) (id : Word) :
    s.signal id = (some (s.tables.signals[id]?.getD .empty),
      s.update (.signal id (s.tables.signals[id]?.getD .empty)), []) := by
  unfold signal
  cases found : s.tables.signals[id]? with
  | some vc =>
    have same := congrArg (fun signals => s.withTables { s.tables with signals })
      (Table.insert_of_found found)
    exact congrArg (fun s => (some vc, s, [])) same.symm
  | none =>
    dsimp only
    rw [reserveLock, reserve_of_room (Room.of_unlimited unlimited _)]
    rfl

theorem location_open (unlimited : s.config.limit .locations = 0) (addr : Word) :
    s.location addr = (some (s.history addr),
      s.withTables (s.tables.putHistory addr (s.history addr)), []) := by
  unfold location State.history
  cases found : s.tables.shadow[addr]? with
  | some history =>
    have same := congrArg (fun shadow => s.withTables (s.tables.putShadow shadow))
      (Table.insert_of_found found)
    exact congrArg (fun s => (some history, s, [])) same.symm
  | none =>
    dsimp only
    rw [reserve_of_room (Room.of_unlimited unlimited _)]
    rfl

/-- Of two values put in one place, the second one stays. -/
theorem update_lock_lock (s : State) (id : Word) (l l' : Lock) :
    (s.update (.lock id l)).update (.lock id l') = s.update (.lock id l') :=
  congrArg (fun locks => s.withTables { s.tables with locks }) Table.insert_insert

theorem update_signal_signal (s : State) (id : Word) (vc vc' : VectorClock) :
    (s.update (.signal id vc)).update (.signal id vc') = s.update (.signal id vc') :=
  congrArg (fun signals => s.withTables { s.tables with signals }) Table.insert_insert

end State

/-! ### Reports -/

/-- What is counted of an outcome. -/
def Outcome.counts : Outcome → List Count
  | .sameEpoch => [.sameEpoch]
  | .ordered => []
  | .race .. => [.races]

namespace State

variable {s : State} {t : Thread} {h : Host}

theorem settle_eq (quiet : h.Quiet) (s : State) (addr : Word) (current : Access)
    (outcome : Outcome) : s.settle h addr current outcome =
      (s.updates (outcome.counts.map .count),
        (s.conflictReport addr current outcome).flatMap (Race.told · s.heard)) := by
  cases outcome with
  | sameEpoch => rfl
  | ordered => rfl
  | race kind prior =>
    rw [conflictReport, List.flatMap_singleton]
    exact deliver_eq quiet s _

theorem raiseUse_eq (quiet : h.Quiet) (s : State) (addr : Word) (hit : UseAfterFree)
    (current : Access) : s.raiseUse h addr hit current =
      (s.updates [.count .useAfterFree, .count .races],
        (s.useReport addr current hit).told s.heard) :=
  deliver_eq quiet (s.update (.count .useAfterFree)) (s.useReport addr current hit)

end State

/-! ### Accesses -/

namespace Heap

/-- The freed block to report an access against, and the report. -/
def use? (h : Heap) (tid : ThreadId) (addr : Word) (vc : VectorClock) (history : Option History) :
    Option (Nat × UseAfterFree) :=
  (h.unreported tid addr vc).bind fun seq =>
    h.freed[seq]?.map fun b => (seq, b.useBy tid addr history)

theorem reportUse_eq (h : Heap) (tid : ThreadId) (addr : Word) (vc : VectorClock)
    (history : Option History) :
    h.reportUse tid addr vc history = (h.use? tid addr vc history).map fun use =>
      (use.2, h.reported use.1 tid addr) := by
  unfold reportUse use?
  cases h.unreported tid addr vc with
  | none => rfl
  | some seq =>
    simp only [Option.bind_some]
    cases found : h.freed[seq]? with
    | none => rfl
    | some b =>
      refine congrArg (fun freed => some (b.useBy tid addr history, { h with freed })) ?_
      exact (Table.modify_of_found (f := fun b => b.report tid addr) found).symm

end Heap

namespace State

variable {s : State} {t : Thread} {h : Host}

/-- The freed block to report an access against, and the report. Only on a page with a freed block
are the blocks looked at. -/
def use? (s : State) (t : Thread) (addr : Word) : Option (Nat × UseAfterFree) :=
  if s.config.trackAllocations && s.tables.freedPages.contains (Extent.pageOf addr) then
    s.tables.heap.use? t.tid addr t.clock s.tables.shadow[addr]?
  else none

theorem reportUse_eq (s : State) (t : Thread) (addr : Word) :
    s.reportUse t addr = ((s.use? t addr).map Prod.snd,
      s.updates ((s.use? t addr).toList.map fun use => .report use.1 t.tid addr)) := by
  unfold reportUse use?
  split
  · rw [Heap.reportUse_eq]
    cases s.tables.heap.use? t.tid addr t.clock s.tables.shadow[addr]? <;> rfl
  · rfl

/-- Every access is counted, and again if it is outside every region. -/
def countUpdates (s : State) (isWrite : Bool) (addr : Word) : List Update :=
  .count (if isWrite then .writes else .reads) ::
    if s.tables.isUnmapped addr then [.count .unmapped] else []

theorem countAccess_eq (s : State) (isWrite : Bool) (addr : Word) :
    s.countAccess isWrite addr = s.updates (s.countUpdates isWrite addr) := by
  unfold countAccess countUpdates
  cases isWrite <;> cases s.tables.isUnmapped addr <;> rfl

/-- What is counted of a checked access. -/
def accessCounts (s : State) (t : Thread) (isWrite : Bool) (pc addr size : Word) : List Count :=
  match s.use? t addr with
  | some _ => [.useAfterFree, .races]
  | none => (s.checked t isWrite pc addr size).1.counts

/-- The updates of an access by the live thread `t`, once it is counted. -/
def accessUpdates (s : State) (t : Thread) (isWrite : Bool) (pc addr size : Word) : List Update :=
  ((s.use? t addr).toList.map fun use => .report use.1 t.tid addr) ++
  .access isWrite t.tid t.clock addr ⟨pc, size, t.stack⟩ ::
  (s.accessCounts t isWrite pc addr size).map .count

/-- What an access by the live thread `t` lets out. -/
def accessOutput (s : State) (t : Thread) (isWrite : Bool) (pc addr size : Word) : List Output :=
  match s.use? t addr with
  | some use => (s.useReport addr (t.accessing isWrite pc size) use.2).told s.heard
  | none => (s.conflictReport addr (t.accessing isWrite pc size)
      (s.checked t isWrite pc addr size).1).flatMap (Race.told · s.heard) ++
    [.note (.accessed t.tid pc addr isWrite)]

/-- An access where there is room for its location. -/
theorem accessBy_open (unlimited : s.config.limit .locations = 0) (h : Host) (t : Thread)
    (isWrite : Bool) (pc addr size : Word) :
    s.accessBy h t isWrite pc addr size =
      let current := t.accessing isWrite pc size
      let (hit, s₁) := s.reportUse t addr
      let s₁ := s₁.update (.access isWrite t.tid t.clock addr current.site)
      match hit with
      | some hit => s₁.raiseUse h addr hit current
      | none =>
        let (s₁, out) := s₁.settle h addr current (s.checked t isWrite pc addr size).1
        (s₁, out ++ [.note (.accessed t.tid pc addr isWrite)]) := by
  have frame := (s.reportUse_frame t addr).1
  rcases used : s.reportUse t addr with ⟨hit, s₁⟩
  rw [used] at frame
  dsimp only at frame ⊢
  have history : s₁.history addr = s.history addr := by
    rw [frame]
    rfl
  have recorded : s₁.withTables
      ((s₁.tables.putHistory addr (s₁.history addr)).putHistory addr
        (s₁.checked t isWrite pc addr size).2) =
      s₁.update (.access isWrite t.tid t.clock addr ⟨pc, size, t.stack⟩) :=
    congrArg s₁.withTables (congrArg s₁.tables.putShadow Table.insert_insert)
  have looked := location_open (s := s₁) (by rw [frame]; exact unlimited) addr
  cases hit with
  | some hit =>
    refine (Made.used used looked rfl rfl).eq.trans ?_
    exact congrArg (fun s₁ : State => s₁.raiseUse h addr hit (t.accessing isWrite pc size))
      recorded
  | none =>
    refine (Made.settled used looked rfl rfl).eq.trans ?_
    rw [checked, ← history]
    exact congrArg (fun s₂ : State =>
      let (s₂, out) := s₂.settle h addr (t.accessing isWrite pc size)
        (s₁.checked t isWrite pc addr size).1
      (s₂, out ++ [Output.note (.accessed t.tid pc addr isWrite)])) recorded

theorem accessBy_eq (quiet : h.Quiet) (unlimited : s.config.limit .locations = 0) (t : Thread)
    (isWrite : Bool) (pc addr size : Word) :
    s.accessBy h t isWrite pc addr size =
      (s.updates (s.accessUpdates t isWrite pc addr size),
        s.accessOutput t isWrite pc addr size) := by
  rw [accessBy_open unlimited, reportUse_eq, accessUpdates, accessCounts, accessOutput]
  cases s.use? t addr with
  | none =>
    dsimp only [Option.map_none]
    rw [settle_eq quiet]
    rfl
  | some use =>
    dsimp only [Option.map_some]
    rw [raiseUse_eq quiet]
    rfl

theorem access_eq (quiet : h.Quiet) (there : s.tables.threads[t.tid]? = some t)
    (unlimited : s.config.limit .locations = 0) (isWrite : Bool) (pc addr size : Word) :
    s.access h isWrite t.tid pc addr size =
      (s.updates (s.countUpdates isWrite addr ++ s.accessUpdates t isWrite pc addr size),
        s.accessOutput t isWrite pc addr size) := by
  rw [access_entered (thread_known (s := s.countAccess isWrite addr) there), List.nil_append,
    accessBy_eq (s := s.countAccess isWrite addr) quiet unlimited, updates_append,
    ← countAccess_eq]
  rfl

end State

end RaceMonitor
