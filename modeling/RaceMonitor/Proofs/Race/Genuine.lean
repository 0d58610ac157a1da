import RaceMonitor.Proofs.History
import RaceMonitor.Proofs.Session.Access

/-! Conflicts that are reported are real.

Every access kept in a history was processed since the history was last dropped, and the kept
epoch is that of its thread then (`kept_recorded`). A conflict names a kept access that the new
one has not observed, and what happens before has been observed in every session, also once
logical time has ended (`conflict_genuine`). -/
namespace RaceMonitor.Session

variable {r : Session}

/-- Event `m` is the access `a` at `x`, made at the epoch of `a`. -/
def Recorded (r : Session) (m : Nat) (x : Word) (a : Access) : Prop :=
  ∃ t, r.Processed m a.write a.tid a.site.pc x a.site.size t ∧ t.epoch = a.epoch

/-- Event `m` is the access that one side of a report names. -/
def Named (r : Session) (m : Nat) (side : Side) : Prop :=
  ∃ t, r.Processed m side.write side.tid side.pc side.addr side.size t

/-- An access is recorded as it was made. -/
theorem Processed.recorded {n : Nat} {write : Bool} {tid : ThreadId} {pc addr size : Word}
    {t : Thread} (h : r.Processed n write tid pc addr size t) :
    r.Recorded n addr (t.accessing write pc size) := by
  refine ⟨t, ?_, rfl⟩
  have htid : (t.accessing write pc size).tid = tid := h.tid_eq
  rw [htid]
  exact h

theorem history_eq_of_shadow {n m : Nat} {x : Word}
    (h : (r.state n).tables.shadow[x]? = (r.state m).tables.shadow[x]?) :
    (r.state n).history x = (r.state m).history x := by
  rw [State.history, h, State.history]

/-- What is kept of `x` was recorded since the history of `x` was last dropped. -/
theorem kept_recorded (r : Session) (n : Nat) (x : Word) (a : Access)
    (kept : a ∈ ((r.state n).history x).accesses) :
    ∃ m < n, r.Recorded m x a ∧ ∀ k, m < k → k < n → ¬ r.Wipes k x := by
  induction n with
  | zero =>
    have hempty : (r.state 0).history x = .empty := by
      rw [state_zero, State.history, r.fresh]
      simp [Tables.empty]
    rw [hempty] at kept
    cases kept
  | succ n ih =>
    have older (kept : a ∈ ((r.state n).history x).accesses) (unwiped : ¬ r.Wipes n x) :
        ∃ m < n + 1, r.Recorded m x a ∧ ∀ k, m < k → k < n + 1 → ¬ r.Wipes k x := by
      obtain ⟨m, lt, recorded, since⟩ := ih kept
      refine ⟨m, Nat.lt_succ_of_lt lt, recorded, fun k hk hkn => ?_⟩
      rcases Nat.lt_succ_iff_lt_or_eq.mp hkn with hkn | rfl
      · exact since k hk hkn
      · exact unwiped
    rcases r.shadow_succ n x with ⟨write, tid, pc, size, t, processed, there⟩ | ⟨_, dropped⟩ |
      ⟨unwiped, same⟩
    · rw [State.history, there] at kept
      rcases History.mem_onAccess kept with rfl | kept
      · exact ⟨n, Nat.lt_succ_self n, processed.recorded, fun k hk hkn => by omega⟩
      · exact older kept (processed.not_wipes x)
    · rw [State.history, dropped] at kept
      cases kept
    · rw [history_eq_of_shadow same] at kept
      exact older kept unwiped

theorem Recorded.touches {m : Nat} {x : Word} {a : Access} (h : r.Recorded m x a) :
    ∃ t, r.Touches m a.tid t ∧ t.epoch = a.epoch := by
  obtain ⟨t, processed, epoch⟩ := h
  exact ⟨t, processed.touches, epoch⟩

/-- Events of one thread happen in their order. -/
theorem happensBefore_of_actor {i j : Nat} {tid : ThreadId} (lt : i < j)
    (first : r.actor? i = some tid) (second : r.actor? j = some tid) : r.HappensBefore i j :=
  .single (.direct (.program tid lt first second))

/-- A recorded access that has not been observed does not happen before the one that comes now,
and is another thread's. -/
theorem Recorded.unordered {m n : Nat} {x : Word} {a : Access} (recorded : r.Recorded m x a)
    (lt : m < n) {write : Bool} {tid : ThreadId} {pc size : Word} {t : Thread}
    (processed : r.Processed n write tid pc x size t)
    (unobserved : a.epoch.observedBy t.clock = false) : ¬ r.HappensBefore m n ∧ a.tid ≠ tid := by
  obtain ⟨u, touches, epoch⟩ := recorded.touches
  have unordered : ¬ r.HappensBefore m n := fun before => by
    have observed := observed_of_happensBefore lt touches processed.touches before
    rw [epoch, unobserved] at observed
    cases observed
  refine ⟨unordered, fun same => unordered ?_⟩
  exact happensBefore_of_actor lt touches.actor (same ▸ processed.touches.actor)

/-- A side of a report shows the access that it is about. -/
theorem named_side {s : State} {m : Nat} {x : Word} {a : Access} (h : r.Recorded m x a)
    (block : Option Extent) : r.Named m (s.side a x block) ∧ (s.side a x block).tid = a.tid := by
  obtain ⟨t, processed, _⟩ := h
  cases block <;> exact ⟨⟨t, processed⟩, rfl⟩

/-- A conflict among the reports of an access is what the history check found. -/
theorem conflict_of_report {s : State} {t : Thread} {write : Bool} {pc addr size : Word}
    {race : Race} (h : race ∈ s.report t write pc addr size)
    (conflict : race.kind ≠ .useAfterFree) :
    ∃ prior, (s.checked t write pc addr size).1 = .race race.kind prior ∧
      race.first = s.side prior addr (s.blockAt addr) ∧
      race.second = s.side (t.accessing write pc size) addr (s.blockAt addr) := by
  unfold State.report at h
  split at h
  · obtain rfl := List.mem_singleton.mp h
    exact absurd rfl conflict
  · split at h
    · unfold State.conflictReport at h
      split at h
      · rename_i kind prior outcome
        obtain rfl := List.mem_singleton.mp h
        exact ⟨prior, outcome, rfl, rfl⟩
      · cases h
    · cases h

/-- A delivered conflict is between the access that the event makes and one recorded before. -/
theorem recorded_of_conflict {n : Nat} {race : Race} (delivered : race ∈ r.races n)
    (conflict : race.kind ≠ .useAfterFree) : ∃ write pc addr size t prior,
      r.Processed n write race.second.tid pc addr size t ∧
      ((r.state n).checked t write pc addr size).1 = .race race.kind prior ∧
      race.first.tid = prior.tid ∧ ∃ m < n, r.Recorded m addr prior := by
  obtain ⟨write, tid, pc, addr, size, t, processed, reported⟩ := mem_races delivered
  obtain ⟨prior, found, first, second⟩ := conflict_of_report reported conflict
  obtain ⟨_, kept, _⟩ := History.race_onAccess found
  obtain ⟨m, lt, recorded, _⟩ := r.kept_recorded n addr prior kept
  have tidSecond : race.second.tid = tid := by
    rw [second, State.side_tid]
    exact processed.tid_eq
  have tidFirst : race.first.tid = prior.tid := by
    rw [first, State.side_tid]
  exact ⟨write, pc, addr, size, t, prior, tidSecond ▸ processed, found, tidFirst, m, lt, recorded⟩

/-- **Reported conflicts are real**: the first side names an access that was processed earlier,
at the same address and by another thread, after the last tracked allocation around the address,
and that access does not happen before the one that the second side names. -/
theorem conflict_genuine {n : Nat} {race : Race} (delivered : race ∈ r.races n)
    (conflict : race.kind ≠ .useAfterFree) :
    r.Named n race.second ∧ ∃ m < n, r.Named m race.first ∧
      race.first.addr = race.second.addr ∧ race.first.tid ≠ race.second.tid ∧
      (race.second.addr ≠ Word.top → ∀ k < n, r.Resets k race.second.addr → k < m) ∧
      ¬ r.HappensBefore m n := by
  obtain ⟨write, tid, pc, addr, size, t, processed, reported⟩ := mem_races delivered
  obtain ⟨prior, found, first, second⟩ := conflict_of_report reported conflict
  obtain ⟨_, kept, unobserved⟩ := History.race_onAccess found
  obtain ⟨m, lt, recorded, since⟩ := r.kept_recorded n addr prior kept
  obtain ⟨namedSecond, tidSecond⟩ :=
    named_side (s := r.state n) processed.recorded ((r.state n).blockAt addr)
  obtain ⟨namedFirst, tidFirst⟩ :=
    named_side (s := r.state n) recorded ((r.state n).blockAt addr)
  rw [← second] at namedSecond tidSecond
  rw [← first] at namedFirst tidFirst
  have addrSecond : race.second.addr = addr := second ▸ State.side_addr _ _ _ _
  have addrFirst : race.first.addr = addr := first ▸ State.side_addr _ _ _ _
  obtain ⟨unordered, foreign⟩ := recorded.unordered lt processed unobserved
  refine ⟨namedSecond, m, lt, namedFirst, addrFirst.trans addrSecond.symm, fun same => ?_,
    fun hx k hk resets => ?_, unordered⟩
  · refine foreign ?_
    rw [← tidFirst, same, tidSecond]
    exact processed.tid_eq
  · rw [addrSecond] at hx resets
    have wipes := (wipes_iff_resets hx).mpr resets
    refine Classical.byContradiction fun hge => ?_
    rcases Nat.lt_or_eq_of_le (Nat.not_lt.mp hge) with hlt | rfl
    · exact since k hlt hk wipes
    · obtain ⟨_, processed', _⟩ := recorded
      exact processed'.not_wipes addr wipes

/-- Two threads write under a lock, and the first reads without it later. -/
def contended : Session :=
  .default [.fork 0 1, .acquire 0 7 false true, .write 0 1 100 8, .release 0 7 true,
    .acquire 1 7 false true, .write 1 2 100 8, .release 1 7 true, .read 0 3 100 4]

theorem conflict_genuine_contended : ∃ race ∈ contended.races 7, race.kind ≠ .useAfterFree ∧
    contended.Named 7 race.second ∧ ∃ m < 7, contended.Named m race.first ∧
      race.first.addr = race.second.addr ∧ race.first.tid ≠ race.second.tid ∧
      (race.second.addr ≠ Word.top → ∀ k < 7, contended.Resets k race.second.addr → k < m) ∧
      ¬ contended.HappensBefore m 7 := by
  have found : ∃ race ∈ contended.races 7, race.kind ≠ .useAfterFree := by decide +kernel
  obtain ⟨race, delivered, conflict⟩ := found
  exact ⟨race, delivered, conflict, conflict_genuine delivered conflict⟩

end RaceMonitor.Session
