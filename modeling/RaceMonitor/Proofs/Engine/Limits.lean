import RaceMonitor.Proofs.Engine.Filtered
import RaceMonitor.Proofs.Engine.Reentrance
import RaceMonitor.Proofs.Engine.Warnings
import RaceMonitor.Proofs.Heap.Limit

/-! Limits bound the populations.

Whatever is added to a population is looked up first, and a look-up adds only where there is room;
a free makes room for its block before it is done. So each event keeps the limits, and the log
agrees with what the engine remembers of them (`Checked`). Commands may come from the program or
from within the race callback (`Host.Acts`). In every state that is reached so, the limits in force
hold, and the log has warned of none of them twice since a session was opened
(`Reached.within_limits`). -/
namespace RaceMonitor

theorem State.Room.allows {s : State} {k : Resource} {size : Nat} (room : s.Room k size) :
    Config.Allows (s.config.limit k) (size + 1) := by
  intro limited
  have limited : (s.config.limit k).toNat ≠ 0 := fun none => limited (UInt64.toNat_inj.mp none)
  simp only [Room, Config.full, Bool.and_eq_false_iff, bne_eq_false_iff_eq,
    decide_eq_false_iff_not] at room
  omega

namespace Tables

/-- Every population is within its limit in `c`, and every thread is kept under its own id. -/
structure Within (t : Tables) (c : Config) : Prop where
  keyed : ∀ (tid : ThreadId) (thread : Thread), t.threads[tid]? = some thread → thread.tid = tid
  threads : Config.Allows c.maxThreads t.threads.size
  locks : Config.Allows c.maxLocks (t.locks.size + t.signals.size)
  locations : Config.Allows c.maxLocations t.shadow.size
  limit : t.heap.maxFreed = c.maxFreed
  freed : t.heap.Fits

namespace Within

variable {t : Tables} {c : Config}

/-- No population at all. -/
theorem empty {heap : Heap} (limit : heap.maxFreed = c.maxFreed) (none : heap.freed = ∅) :
    Within ⟨∅, ∅, ∅, ∅, ∅, ∅, heap, ∅⟩ c where
  keyed := by simp
  threads := Config.Allows.zero _
  locks := Config.Allows.zero _
  locations := Config.Allows.zero _
  limit := limit
  freed := by
    unfold Heap.Fits
    rw [none]
    exact Config.Allows.zero _

theorem putThread (within : t.Within c) {thread : Thread}
    (room : Config.Allows c.maxThreads (t.threads.insert thread.tid thread).size) :
    (t.putThread thread).Within c where
  keyed tid thread' found := by
    have found : (t.threads.insert thread.tid thread)[tid]? = some thread' := found
    rw [Table.get_insert] at found
    split at found
    · cases found
      exact ‹tid = thread.tid›.symm
    · exact within.keyed tid thread' found
  threads := room
  locks := within.locks
  locations := within.locations
  limit := within.limit
  freed := within.freed

theorem updateThread (within : t.Within c) {tid : ThreadId} {old : Thread}
    (there : t.threads[tid]? = some old) (thread : Thread) (same : thread.tid = old.tid) :
    (t.putThread thread).Within c := by
  have mem : thread.tid ∈ t.threads :=
    Table.mem_iff_exists.mpr ⟨old, by rw [same, within.keyed tid old there, there]⟩
  refine within.putThread ?_
  rw [Table.size_insert_of_mem mem]
  exact within.threads

theorem addThread (within : t.Within c) (room : Config.Allows c.maxThreads (t.threads.size + 1))
    (thread : Thread) : (t.putThread thread).Within c :=
  within.putThread (room.mono Std.ExtTreeMap.size_insert_le)

/-- A fork brings the parent's epoch to an end and adds the child. -/
theorem fork (within : t.Within c) {parent : ThreadId} {p : Thread}
    (there : t.threads[parent]? = some p) (room : Config.Allows c.maxThreads (t.threads.size + 1))
    (child : Thread) : ((t.putThread p.tick).putThread child).Within c := by
  have same : p.tick.tid = parent := within.keyed parent p there
  have known : p.tick.tid ∈ t.threads := Table.mem_iff_exists.mpr ⟨p, by rw [same, there]⟩
  have size : (t.putThread p.tick).threads.size = t.threads.size :=
    Table.size_insert_of_mem known _
  exact (within.updateThread there p.tick rfl).addThread (by rwa [size]) child

theorem retire (within : t.Within c) (tid : ThreadId) : (t.retire tid).Within c where
  keyed tid' thread found := by
    have found : (t.threads.erase tid)[tid']? = some thread := found
    rw [Table.get_erase] at found
    split at found
    · cases found
    · exact within.keyed tid' thread found
  threads := within.threads.mono Std.ExtTreeMap.size_erase_le
  locks := within.locks
  locations := within.locations
  limit := within.limit
  freed := within.freed

theorem putLock (within : t.Within c) {id : Word} {l : Lock}
    (room : Config.Allows c.maxLocks ((t.locks.insert id l).size + t.signals.size)) :
    (t.putLock id l).Within c :=
  ⟨within.keyed, within.threads, room, within.locations, within.limit, within.freed⟩

theorem updateLock (within : t.Within c) {id : Word} (there : id ∈ t.locks) (l : Lock) :
    (t.putLock id l).Within c :=
  within.putLock (by rw [Table.size_insert_of_mem there]; exact within.locks)

theorem putSignal (within : t.Within c) {id : Word} {vc : VectorClock}
    (room : Config.Allows c.maxLocks (t.locks.size + (t.signals.insert id vc).size)) :
    (t.putSignal id vc).Within c :=
  ⟨within.keyed, within.threads, room, within.locations, within.limit, within.freed⟩

theorem updateSignal (within : t.Within c) {id : Word} (there : id ∈ t.signals)
    (vc : VectorClock) : (t.putSignal id vc).Within c :=
  within.putSignal (by rw [Table.size_insert_of_mem there]; exact within.locks)

theorem putShadow (within : t.Within c) {shadow : Table Word History}
    (room : Config.Allows c.maxLocations shadow.size) : (t.putShadow shadow).Within c :=
  ⟨within.keyed, within.threads, within.locks, room, within.limit, within.freed⟩

theorem updateHistory (within : t.Within c) {addr : Word} (there : addr ∈ t.shadow)
    (history : History) : (t.putHistory addr history).Within c :=
  within.putShadow (by rw [Table.size_insert_of_mem there]; exact within.locations)

theorem putHeap (within : t.Within c) {heap : Heap} (limit : heap.maxFreed = t.heap.maxFreed)
    (freed : heap.Fits) : (t.putHeap heap).Within c :=
  ⟨within.keyed, within.threads, within.locks, within.locations, limit.trans within.limit, freed⟩

theorem markPages (within : t.Within c) (e : Extent) : (t.markPages e).Within c :=
  ⟨within.keyed, within.threads, within.locks, within.locations, within.limit, within.freed⟩

theorem unmarkPages (within : t.Within c) (gone : List Extent) : (t.unmarkPages gone).Within c :=
  ⟨within.keyed, within.threads, within.locks, within.locations, within.limit, within.freed⟩

theorem putRegion (within : t.Within c) (start limit : Word) :
    (t.putRegion start limit).Within c :=
  ⟨within.keyed, within.threads, within.locks, within.locations, within.limit, within.freed⟩

end Within

end Tables

/-- Whatever has happened, the limits in force hold if they held before, and an account of the
limits kept by the log is that of the engine. -/
structure Checked (s : State) (res : State × List Output) : Prop where
  bounded : s.tables.Within s.config → res.1.tables.Within res.1.config
  logged : s.exhausted.follow res.2 = some res.1.exhausted

namespace Checked

variable {s s' s'' : State} {out out' : List Output}

theorem silent (s : State) (tacit : Tacit out) : Checked s (s, out) := ⟨id, tacit _⟩

theorem refl (s : State) : Checked s (s, []) := silent s .nil

theorem trans (first : Checked s (s', out)) (second : Checked s' (s'', out')) :
    Checked s (s'', out ++ out') where
  bounded := second.bounded ∘ first.bounded
  logged := by
    rw [Exhausted.follow_append, first.logged, Option.bind_some, second.logged]

theorem noting (checked : Checked s (s', out)) (tacit : Tacit out') :
    Checked s (s', out ++ out') :=
  checked.trans (silent s' tacit)

theorem putting (checked : Checked s (s', out)) {t : Tables}
    (kept : s'.tables.Within s'.config → t.Within s'.config) :
    Checked s (s'.withTables t, out) :=
  ⟨kept ∘ checked.bounded, checked.logged⟩

theorem counting (checked : Checked s (s', out)) (f : Counters → Counters) :
    Checked s (s'.count f, out) :=
  ⟨checked.bounded, checked.logged⟩

theorem raiseAnomaly (s : State) (a : Anomaly) : Checked s (s.raiseAnomaly a) := by
  refine ⟨id, ?_⟩
  unfold State.raiseAnomaly
  split <;> rfl

end Checked

namespace State

/-! ### Looking up -/

section LookUp

variable {s s' : State} {out : List Output}

theorem reserve_checked {k : Resource} {size : Nat} {free : Bool}
    (reserved : s.reserve k size = (free, s', out)) : Checked s (s', out) := by
  unfold reserve at reserved
  split at reserved
  · cases marked : s.exhausted.get k with
    | true =>
      rw [marked] at reserved
      cases reserved
      exact .refl s
    | false =>
      rw [marked] at reserved
      cases reserved
      exact ⟨id, by simp [Exhausted.hear, marked]⟩
  · cases reserved
    exact .refl s

theorem reserved_room {k : Resource} {size : Nat} (free : s.reserve k size = (true, s', out)) :
    s = s' ∧ out = [] ∧ s.Room k size := by
  by_cases room : s.Room k size
  · rw [reserve_of_room room] at free
    cases free
    exact ⟨rfl, rfl, room⟩
  · obtain ⟨e, notes, full, _⟩ := reserve_of_full room
    cases free.symm.trans full

theorem thread_checked {tid : ThreadId} {t : Option Thread} (met : s.thread tid = (t, s', out)) :
    Checked s (s', out) := by
  unfold thread at met
  split at met
  · cases met
    exact .refl s
  · split at met
    · cases met
      exact .silent s fun _ => rfl
    · split at met
      · rename_i full
        cases met
        exact reserve_checked full
      · rename_i free
        obtain ⟨rfl, rfl, room⟩ := reserved_room free
        cases met
        have made := (Checked.refl s).putting fun within =>
          within.addThread room.allows (Thread.root tid)
        exact made.noting fun _ => rfl

/-- A look-up that finds nothing makes it, if there is room. -/
theorem made_checked {α : Type} (k : Resource) (size : Nat) {fresh : α} {got : Option α}
    (make : Tables → Tables)
    (kept : s.Room k size → s.tables.Within s.config → (make s.tables).Within s.config)
    (made : (match s.reserve k size with
      | (false, s, out) => (none, s, out)
      | (true, s, out) => (some fresh, s.withTables (make s.tables), out)) = (got, s', out)) :
    Checked s (s', out) := by
  split at made
  · rename_i full
    cases made
    exact reserve_checked full
  · rename_i free
    obtain ⟨rfl, rfl, room⟩ := reserved_room free
    cases made
    exact (Checked.refl s).putting (kept room)

theorem lock_checked {id : Word} {l : Option Lock} (found : s.lock id = (l, s', out)) :
    Checked s (s', out) := by
  unfold lock at found
  split at found
  · cases found
    exact .refl s
  · refine made_checked .locks _ (fun t => t.putLock id .fresh) (fun room within => ?_) found
    refine within.putLock (room.allows.mono ?_)
    have := Std.ExtTreeMap.size_insert_le (t := s.tables.locks) (k := id) (v := Lock.fresh)
    omega

theorem signal_checked {id : Word} {vc : Option VectorClock}
    (found : s.signal id = (vc, s', out)) : Checked s (s', out) := by
  unfold signal at found
  split at found
  · cases found
    exact .refl s
  · refine made_checked .locks _ (fun t => t.putSignal id .empty) (fun room within => ?_) found
    refine within.putSignal (room.allows.mono ?_)
    have := Std.ExtTreeMap.size_insert_le (t := s.tables.signals) (k := id)
      (v := VectorClock.empty)
    omega

theorem location_checked {addr : Word} {history : Option History}
    (looked : s.location addr = (history, s', out)) : Checked s (s', out) := by
  unfold location at looked
  split at looked
  · cases looked
    exact .refl s
  · exact made_checked .locations _ (fun t => t.putHistory addr .empty)
      (fun room within => within.putShadow (room.allows.mono Std.ExtTreeMap.size_insert_le)) looked

end LookUp

/-- Only a lock that is there can be held. -/
theorem release_there {s : State} {id : Word} {tid : ThreadId} {outcome : Release} {l : Lock}
    (released : (s.tables.locks[id]?.getD .fresh).release tid = (outcome, l))
    (held : outcome ≠ .notHeld) : id ∈ s.tables.locks := by
  cases found : s.tables.locks[id]? with
  | some l => exact Table.mem_iff_exists.mpr ⟨l, found⟩
  | none =>
    rw [found] at released
    cases released
    exact absurd rfl held

/-! ### Blocks -/

variable {s s' : State} {h : Host} {out : List Output}

theorem sweep_checked (sweeps : s.sweep h = (s', out)) : Checked s (s', out) := by
  have tacit : Tacit (s.sweep h).2 := by
    unfold sweep
    dsimp only
    split <;> exact fun _ => rfl
  have blocks := Heap.Thinned.dropObserved s.tables.heap (s.tables.floor h.order)
  have swept : Checked s (s.sweep h) := (Checked.silent s tacit).putting fun within =>
    (within.putHeap blocks.maxFreed (within.freed.thinned blocks)).unmarkPages _
  rwa [sweeps] at swept

theorem allocate_checked {tid : ThreadId} {pc addr size : Word} {res : State × List Output}
    (allocates : Allocates s h tid pc addr size res) : Checked s res := by
  cases allocates with
  | ignored => exact .refl s
  | @made reused gone kept replaced handed heap shadow _ _ hand forgot placed =>
    have out := Heap.Thinned.handOut s.tables.heap ⟨addr, size⟩
    rw [hand] at out
    have stashed : handed.Thinned
        (if reused then kept.foldl (fun heap p => heap.keep p.1 p.2) handed else handed) := by
      split
      · exact .keepAll handed kept
      · exact .refl handed
    have blocks : s.tables.heap.Thinned heap := by
      have allocated := (out.trans stashed).trans (.allocate _ (b := .new tid pc ⟨addr, size⟩) rfl)
      rwa [placed] at allocated
    have fewer : shadow.size ≤ s.tables.shadow.size := Table.size_le_of_subset fun x mem => by
      obtain ⟨history, found⟩ := Table.mem_iff_exists.mp mem
      have dropped := Tables.forgetRange_get h.order s.tables.shadow ⟨addr, size⟩ x
      rw [forgot, found, eq_comm, Option.ite_none_left_eq_some] at dropped
      exact Table.mem_iff_exists.mpr ⟨history, dropped.2⟩
    have tacit : Tacit ((replaced.map fun old => Output.note (.blockReplaced old.base)).toList ++
        [.note (.allocated tid addr size)]) := by
      cases replaced <;> exact fun _ => rfl
    refine (Checked.silent s tacit).putting fun within => ?_
    have put := within.putHeap blocks.maxFreed (within.freed.thinned blocks)
    exact (put.putShadow (within.locations.mono fewer)).unmarkPages gone

theorem deallocate_checked {tid : ThreadId} {addr : Word} {res : State × List Output}
    (frees : Frees s h tid addr res) : Checked s res := by
  have buried {s₁ : State} {noted : List Output} {epoch : Epoch} {freed : Freed} {heap : Heap}
      (met : Checked s (s₁, noted)) (done : s₁.tables.heap.free addr epoch = .ok (freed, heap)) :
      Checked s (s₁.withTables (((s₁.tables.putHeap heap).markPages freed.block).unmarkPages
        freed.evicted), noted ++ [.note (.deallocated tid addr epoch)]) := by
    obtain ⟨limit, fits⟩ := Heap.Fits.free done
    exact (met.putting fun within =>
      ((within.putHeap limit fits).markPages freed.block).unmarkPages freed.evicted).noting
        fun _ => rfl
  cases frees with
  | ignored => exact .refl s
  | refused _ met => exact (thread_checked met).counting _
  | misused _ met _ => exact (thread_checked met).trans (.raiseAnomaly _ _)
  | freed _ met done _ => exact buried (thread_checked met) done
  | swept _ met done _ sweeps =>
    exact (buried (thread_checked met) done).trans (sweep_checked sweeps)

theorem reportUse_checked {t : Thread} {addr : Word} {hit : Option UseAfterFree}
    (used : s.reportUse t addr = (hit, s')) : Checked s (s', []) := by
  unfold reportUse at used
  split at used
  · split at used
    · rename_i hit heap found
      cases used
      exact (Checked.refl s).putting fun within =>
        within.putHeap (within.freed.reportUse found).1 (within.freed.reportUse found).2
    · cases used
      exact .refl s
  · cases used
    exact .refl s

end State

/-- The race callback keeps the limits, and what it lets out warns of none twice. -/
def Host.Keeps (h : Host) : Prop := ∀ race s, Checked s (h.onRace race s)

namespace State

variable {h : Host} (keeps : h.Keeps) (s : State)
include keeps

theorem deliver_checked (race : Race) : Checked s (s.deliver h race) := by
  have counted := (Checked.refl s).counting fun c => { c with races := c.races + 1 }
  unfold deliver
  dsimp only
  split
  · have told : Tacit [.note (.raceDetected race), .race race] := fun _ => rfl
    exact (counted.noting told).trans (keeps race _)
  · have told : Tacit [.note (.raceDetected race), .note (.raceUnheard race)] := fun _ => rfl
    exact counted.noting told

theorem raiseUse_checked (addr : Word) (hit : UseAfterFree) (current : Access) :
    Checked s (s.raiseUse h addr hit current) := by
  have counted := (Checked.refl s).counting fun c => { c with useAfterFree := c.useAfterFree + 1 }
  exact counted.trans (deliver_checked keeps _ _)

theorem settleUse_checked (addr : Word) (current : Access) (hit : Option UseAfterFree) :
    Checked s (s.settleUse h addr current hit) := by
  cases hit with
  | none => exact .refl s
  | some hit => exact raiseUse_checked keeps s addr hit current

theorem settle_checked (addr : Word) (current : Access) (outcome : Outcome) :
    Checked s (s.settle h addr current outcome) := by
  cases outcome with
  | sameEpoch => exact (Checked.refl s).counting _
  | ordered => exact .refl s
  | race kind prior => exact deliver_checked keeps s _

theorem accessBy_checked {t : Thread} {write : Bool} {pc addr size : Word}
    {res : State × List Output} (made : Made s h t write pc addr size res) : Checked s res := by
  cases made with
  | untracked used looked told =>
    have met := ((reportUse_checked used).trans (location_checked looked)).counting fun c =>
      { c with untracked := c.untracked + 1 }
    exact met.trans (told ▸ settleUse_checked keeps _ addr _ _)
  | @used _ _ history' _ _ _ _ _ _ used looked checked told =>
    have met := ((reportUse_checked used).trans (location_checked looked)).putting fun within =>
      within.updateHistory (location_there looked) history'
    exact met.trans (told ▸ raiseUse_checked keeps _ addr _ _)
  | @settled _ history' _ _ _ _ _ _ used looked checked told =>
    have met := ((reportUse_checked used).trans (location_checked looked)).putting fun within =>
      within.updateHistory (location_there looked) history'
    exact (met.trans (told ▸ settle_checked keeps _ addr _ _)).noting fun _ => rfl

/-- **Every event keeps the limits.** -/
theorem step_checked (e : Event) : Checked s (s.step h e) := by
  have performed := s.performed h e
  generalize s.step h e = res at performed ⊢
  cases performed with
  | accused => exact .raiseAnomaly s _
  | refused _ met => exact (thread_checked met).counting _
  | misused _ met => exact (thread_checked met).trans (.raiseAnomaly _ _)
  | full _ met full => exact ((thread_checked met).trans (reserve_checked full)).counting _
  | @forked _ child p _ _ _ met room =>
    have forked := (thread_checked met).putting fun within =>
      within.fork (thread_entered met).there room.allows (.forked child p)
    exact (forked.noting (.tickNote _)).noting fun _ => rfl
  | @joined _ child c t _ _ _ _ _ met =>
    have joined := (thread_checked met).putting fun within =>
      (within.updateThread (thread_entered met).there (t.observe c.clock).tick rfl).retire child
    exact (joined.noting (.tickNote _)).noting fun _ => rfl
  | @detached by_ tid t there =>
    have told : Checked s (s, [.note (.detached by_ tid)]) := .silent s fun _ => rfl
    exact told.putting fun within => within.updateThread there t.detach rfl
  | @finished by_ tid =>
    have told : Checked s (s, [.note (.finished by_ tid)]) := .silent s fun _ => rfl
    exact told.putting fun within => within.retire tid
  | entered met =>
    exact (thread_checked met).putting fun within =>
      within.updateThread (thread_entered met).there _ rfl
  | @exited _ _ t t' _ _ met left =>
    obtain ⟨_, _, left⟩ := Option.map_eq_some_iff.mp left
    have same : t'.tid = t.tid := by
      cases left
      rfl
    exact (thread_checked met).putting fun within =>
      within.updateThread (thread_entered met).there t' same
  | unlocked met found => exact ((thread_checked met).trans (lock_checked found)).counting _
  | @acquired _ _ _ _ t _ l' s₁ s₂ _ _ met found =>
    have entered : s₂.tables.threads[_]? = some t :=
      lock_threads found ▸ (thread_entered met).there
    have acquired := ((thread_checked met).trans (lock_checked found)).putting fun within =>
      (within.updateLock (lock_there found) l').updateThread entered (t.observe l'.clock).tick rfl
    exact (acquired.noting (.tickNote _)).noting fun _ => rfl
  | @reacquired _ _ _ _ _ _ l' _ _ _ _ met found =>
    have acquired := ((thread_checked met).trans (lock_checked found)).putting fun within =>
      within.updateLock (lock_there found) l'
    exact acquired.noting fun _ => rfl
  | @released _ _ _ t l _ _ met outermost =>
    have released := (thread_checked met).putting fun within =>
      (within.updateLock (release_there outermost nofun) (l.absorb t.clock)).updateThread
        (thread_entered met).there t.tick rfl
    exact (released.noting (.tickNote _)).noting fun _ => rfl
  | @unnested _ _ _ _ l _ _ met nested =>
    have left := (thread_checked met).putting fun within =>
      within.updateLock (release_there nested nofun) l
    exact left.noting fun _ => rfl
  | unsignalled _ met found => exact ((thread_checked met).trans (signal_checked found)).counting _
  | @signalled _ _ t vc s₁ s₂ _ _ met found =>
    have entered : s₂.tables.threads[_]? = some t :=
      signal_threads found ▸ (thread_entered met).there
    have sent := ((thread_checked met).trans (signal_checked found)).putting fun within =>
      (within.updateSignal (signal_there found) (vc.join t.clock)).updateThread entered t.tick rfl
    exact (sent.noting (.tickNote _)).noting fun _ => rfl
  | @awaited _ _ t vc s₁ s₂ _ _ met found =>
    have entered : s₂.tables.threads[_]? = some t :=
      signal_threads found ▸ (thread_entered met).there
    have awaited := ((thread_checked met).trans (signal_checked found)).putting fun within =>
      within.updateThread entered (t.observe vc) rfl
    exact awaited.noting fun _ => rfl
  | allocated allocates => exact allocate_checked allocates
  | freed frees => exact deallocate_checked frees
  | @mapped start size =>
    have told : Checked s (s, [.note (.regionMapped start size)]) := .silent s fun _ => rfl
    exact told.putting fun within => within.putRegion start _
  | @unseen _ write _ _ addr _ _ _ _ met =>
    have counted : Checked s (s.countAccess write addr, []) := (Checked.refl s).counting _
    exact (counted.trans (thread_checked met)).counting _
  | @accessed _ write _ _ addr _ _ _ _ _ _ _ met made =>
    have counted : Checked s (s.countAccess write addr, []) := (Checked.refl s).counting _
    exact (counted.trans (thread_checked met)).trans
      (accessBy_checked keeps _ (made ▸ accessBy_made ..))

end State

end RaceMonitor
