import RaceMonitor.Proofs.Race.Genuine
import RaceMonitor.Proofs.Session.Threads

/-! What a thread did before a fork does not race with the child.

A child starts with all that its parent has observed, if the fork is accepted. A fork that is
dropped for want of room leaves nothing behind: as long as no thread retires the child cannot come
in, and it does nothing that could race. Once a thread has retired, a child that was refused comes
in as a root when it is next named, and knows nothing of its parent
(`Session.orphaned_races`). -/
namespace RaceMonitor.Session

variable {r : Session}

/-- The conflict that event `n` delivers is with the access that event `m` made. -/
def Pairs (r : Session) (m n : Nat) (race : Race) : Prop :=
  ∃ write tid pc addr size t prior, r.Processed n write tid pc addr size t ∧
    ((r.state n).checked t write pc addr size).1 = .race race.kind prior ∧
    r.Recorded m addr prior

/-- Every conflict pairs an access with an earlier one. -/
theorem exists_pairs {n : Nat} {race : Race} (delivered : race ∈ r.races n)
    (conflict : race.kind ≠ .useAfterFree) : ∃ m < n, r.Pairs m n race := by
  obtain ⟨write, pc, addr, size, t, prior, processed, found, _, m, lt, recorded⟩ :=
    recorded_of_conflict delivered conflict
  exact ⟨m, lt, write, _, pc, addr, size, t, prior, processed, found, recorded⟩

/-- A conflict pairs accesses that do not happen in their order. -/
theorem Pairs.unordered {m n : Nat} {race : Race} (pairs : r.Pairs m n race) (lt : m < n) :
    ¬ r.HappensBefore m n := by
  obtain ⟨write, tid, pc, addr, size, t, prior, processed, found, recorded⟩ := pairs
  obtain ⟨_, _, unobserved⟩ := History.race_onAccess found
  exact (recorded.unordered lt processed unobserved).1

/-- **What a thread did before a fork does not race with the child**, under any limits, if the
fork is accepted, or if no thread retires between the fork and the child's access. -/
theorem no_race_with_forked {i k n : Nat} {write : Bool} {p c : ThreadId} {pc x size : Word}
    {a : Thread} (made : r.Processed i write p pc x size a) (before : i < k)
    (forks : r.events[k]? = some (.fork p c)) (live : p ∉ (r.state k).tables.retired)
    (new : Anomaly.threadReused p c ∉ anomalies (r.output k)) (after : k < n)
    (settled : r.Accepted k (.fork p c) ∨ r.Settled k n) {race : Race}
    (delivered : race ∈ r.races n) (conflict : race.kind ≠ .useAfterFree)
    (child : race.second.tid = c) : ¬ r.Pairs i n race := by
  obtain ⟨_, _, _, _, t, _, processed, _⟩ := recorded_of_conflict delivered conflict
  rw [child] at processed
  have ordered (accepted : r.Accepted k (.fork p c)) : r.HappensBefore i n := by
    have parent : r.actor? k = some p := by rw [actor?, forks]; rfl
    have first : r.Direct i k := .program p before made.touches.actor parent
    have second : r.Direct k n := .fork p c after accepted processed.touches.actor
    exact .tail (.single (.direct first)) (.direct second)
  intro pairs
  refine pairs.unordered (Nat.lt_trans before after) (ordered ?_)
  rcases settled with accepted | settled
  · exact accepted
  · have known : p ∈ (r.state k).tables.threads :=
      live_of_le before (Table.mem_iff_exists.mpr ⟨a, made.tracked⟩) live
    rw [output_eq forks] at new
    rcases State.accepts_or_packed known new with accepts | ⟨packed, missing⟩
    · exact ⟨forks, accepts⟩
    · -- The child would have come in since the fork, and there is no room.
      have full := settled.packed (Nat.le_of_lt after) packed
      have came : c ∈ (r.state (n + 1)).tables.threads :=
        Table.mem_iff_exists.mpr ⟨t, processed.tracked⟩
      have there := mem_of_mem_succ full came
      exact absurd (settled.mem_of_mem (Nat.le_of_lt after) packed there) missing

/-- A thread writes, forks and writes again, and the child writes the same location. -/
def inherited : Session :=
  .default [.write 0 1 100 8, .fork 0 1, .write 0 2 100 8, .write 1 3 100 8]

theorem no_race_with_forked_inherited : ∃ a race, inherited.Processed 0 true 0 1 100 8 a ∧
    inherited.events[1]? = some (.fork 0 1) ∧ 0 ∉ (inherited.state 1).tables.retired ∧
    Anomaly.threadReused 0 1 ∉ anomalies (inherited.output 1) ∧
    inherited.Accepted 1 (.fork 0 1) ∧ race ∈ inherited.races 3 ∧ race.kind ≠ .useAfterFree ∧
    race.second.tid = 1 ∧ ¬ inherited.Pairs 0 3 race := by
  have writer : ((inherited.state 1).tables.threads[(0 : ThreadId)]?).isSome := by decide +kernel
  obtain ⟨a, ha⟩ := Option.isSome_iff_exists.mp writer
  have made : inherited.Processed 0 true 0 1 100 8 a := ⟨rfl, ha⟩
  have live : 0 ∉ (inherited.state 1).tables.retired := by decide +kernel
  have new : Anomaly.threadReused 0 1 ∉ anomalies (inherited.output 1) := by decide +kernel
  have accepted : inherited.Accepted 1 (.fork 0 1) :=
    ⟨rfl, by decide +kernel, by decide +kernel⟩
  have found : ∃ race ∈ inherited.races 3, race.kind ≠ .useAfterFree ∧ race.second.tid = 1 := by
    decide +kernel
  obtain ⟨race, delivered, conflict, child⟩ := found
  exact ⟨a, race, made, rfl, live, new, accepted, delivered, conflict, child,
    no_race_with_forked made (by decide) rfl live new (by decide) (.inl accepted) delivered
      conflict child⟩

/-- There is room for two threads. A thread with a child writes and forks another child, which is
refused; the first child finishes, and the second one writes. -/
def orphaned : Session :=
  .under { Config.default with maxThreads := 2 }
    [.fork 1 2, .write 1 1 256 8, .fork 1 3, .finish 1 2, .write 3 2 256 8]

/-- A child that was refused races with what its parent did before the fork. -/
theorem orphaned_races : ∃ a race, orphaned.Processed 1 true 1 1 256 8 a ∧
    orphaned.events[2]? = some (.fork 1 3) ∧ 1 ∉ (orphaned.state 2).tables.retired ∧
    Anomaly.threadReused 1 3 ∉ anomalies (orphaned.output 2) ∧ race ∈ orphaned.races 4 ∧
    race.kind = .writeWrite ∧ race.second.tid = 3 ∧ orphaned.Pairs 1 4 race := by
  have writer : ((orphaned.state 2).tables.threads[(1 : ThreadId)]?).isSome := by decide +kernel
  obtain ⟨a, ha⟩ := Option.isSome_iff_exists.mp writer
  have live : 1 ∉ (orphaned.state 2).tables.retired := by decide +kernel
  have new : Anomaly.threadReused 1 3 ∉ anomalies (orphaned.output 2) := by decide +kernel
  have found : ∃ race ∈ orphaned.races 4, race.kind = .writeWrite ∧ race.second.tid = 3 := by
    decide +kernel
  obtain ⟨race, delivered, kind, child⟩ := found
  obtain ⟨m, lt, pairs⟩ := exists_pairs delivered (by rw [kind]; decide)
  -- Of the events before, only one is an access.
  have only : m = 1 := by
    obtain ⟨_, _, _, _, _, _, prior, _, _, _, earlier, _⟩ := pairs
    have event := earlier.event
    match m with
    | 0 | 2 | 3 =>
      cases write : prior.write <;>
        simp [write, orphaned, Session.under, Event.access] at event
    | 1 => rfl
  exact ⟨a, race, ⟨rfl, ha⟩, rfl, live, new, delivered, kind, child, only ▸ pairs⟩

end RaceMonitor.Session
