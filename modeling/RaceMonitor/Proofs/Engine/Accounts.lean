import RaceMonitor.Proofs.Engine.Counted
import RaceMonitor.Proofs.Engine.Opening

/-! The counters of a session.

Commands that neither open nor close a session add to the counters what their events do, one after
the other (`State.execAll_booked`). From the opening of a session on the counters then are the
numbers of what the host has asked for and of what it has been handed
(`State.session_accounted`). -/
namespace RaceMonitor

namespace Command

/-- A command that neither opens nor closes a session. -/
def within : Command → Bool
  | event _ | listen _ => true
  | init _ | finalize => false

def isRead : Command → Bool
  | event e => e.isRead
  | _ => false

def isWrite : Command → Bool
  | event e => e.isWrite
  | _ => false

end Command

/-- From `s`, where races are heard, `commands` count `counts`: their reads and writes, and the
races and anomalies let out; every anomaly goes to the callback while there is one. -/
structure Booked (s : State) (commands : List Command) (counts : List Count)
    (res : State × List Output) : Prop where
  heard : res.1.heard = true
  listening : s.listening = true → .listen false ∉ commands → res.1.listening = true
  counters : ∀ k, res.1.counters.get k = s.counters.get k + UInt64.ofNat (counts.count k)
  reads : counts.count .reads = commands.countP Command.isRead
  writes : counts.count .writes = commands.countP Command.isWrite
  once : counts.count .sameEpoch + counts.count .races ≤
    counts.count .reads + counts.count .writes
  races : (races res.2).length = counts.count .races
  uses : (RaceMonitor.races res.2).countP (fun race => race.kind = .useAfterFree) =
    counts.count .useAfterFree
  anomalies : (anomalies res.2).length = counts.count .anomalies
  announced : s.listening = true → .listen false ∉ commands →
    announced res.2 = RaceMonitor.anomalies res.2

namespace Booked

variable {s s' s'' : State} {commands commands' : List Command} {counts counts' : List Count}
  {out out' : List Output}

theorem nil (heard : s.heard = true) : Booked s [] [] (s, []) where
  heard := heard
  listening on _ := on
  counters k := by simp
  reads := rfl
  writes := rfl
  once := Nat.le_refl 0
  races := rfl
  uses := rfl
  anomalies := rfl
  announced _ _ := rfl

theorem append (first : Booked s commands counts (s', out))
    (second : Booked s' commands' counts' (s'', out')) :
    Booked s (commands ++ commands') (counts ++ counts') (s'', out ++ out') where
  heard := second.heard
  listening on never := by
    rw [List.mem_append, not_or] at never
    exact second.listening (first.listening on never.1) never.2
  counters k := by
    rw [second.counters, first.counters, List.count_append, UInt64.ofNat_add, UInt64.add_assoc]
  reads := by rw [List.count_append, first.reads, second.reads, List.countP_append]
  writes := by rw [List.count_append, first.writes, second.writes, List.countP_append]
  once := by
    have one := first.once
    have two := second.once
    simp only [List.count_append]
    omega
  races := by rw [races_append, List.length_append, first.races, second.races, List.count_append]
  uses := by rw [races_append, List.countP_append, first.uses, second.uses, List.count_append]
  anomalies := by
    rw [anomalies_append, List.length_append, first.anomalies, second.anomalies,
      List.count_append]
  announced on never := by
    rw [List.mem_append, not_or] at never
    rw [announced_append, first.announced on never.1,
      second.announced (first.listening on never.1) never.2, anomalies_append]

theorem event {e : Event} (heard : s.heard = true) (of : e.Counts counts)
    (counted : Counted s counts (s', out)) : Booked s [.event e] counts (s', out) where
  heard := counted.heard.trans heard
  listening on _ := counted.listening.trans on
  counters := counted.counters
  reads := by
    rw [of.reads, List.countP_singleton]
    rfl
  writes := by
    rw [of.writes, List.countP_singleton]
    rfl
  once := of.once
  races := counted.races.trans (if_pos heard)
  uses := counted.uses.trans (if_pos heard)
  anomalies := counted.anomalies
  announced on _ := counted.announced.trans (if_pos on)

theorem listen (heard : s.heard = true) (on : Bool) :
    Booked s [.listen on] [] ({ s with listening := on }, []) where
  heard := heard
  listening _ kept := by
    cases on with
    | false => exact absurd (List.mem_singleton.mpr rfl) kept
    | true => rfl
  counters k := by
    cases k <;> simp [Counters.get]
  reads := rfl
  writes := rfl
  once := Nat.le_refl 0
  races := rfl
  uses := rfl
  anomalies := rfl
  announced _ _ := rfl

end Booked

namespace State

variable {h : Host}

theorem exec_booked (quiet : h.Quiet) {s : State} (heard : s.heard = true) {c : Command}
    (within : c.within = true) : ∃ counts, Booked s [c] counts (s.exec h c).2 := by
  cases c with
  | event e =>
    obtain ⟨counts, of, counted⟩ := step_counted quiet s e
    exact ⟨counts, .event heard of counted⟩
  | listen on => exact ⟨[], .listen heard on⟩
  | init args => cases within
  | finalize => cases within

theorem execAll_booked (quiet : h.Quiet) {s : State} (heard : s.heard = true)
    {commands : List Command} (within : ∀ c ∈ commands, c.within = true) :
    ∃ counts, Booked s commands counts (s.execAll h commands) := by
  induction commands generalizing s with
  | nil => exact ⟨[], .nil heard⟩
  | cons c cs ih =>
    rw [List.forall_mem_cons] at within
    obtain ⟨counts, first⟩ := exec_booked quiet heard within.1
    obtain ⟨counts', rest⟩ := ih first.heard within.2
    exact ⟨counts ++ counts', first.append rest⟩

end State

/-- The counters, as numbers, are those of a session in which `commands` have let out `out`. -/
structure Counters.Accounts (c : Counters) (commands : List Command) (out : List Output) :
    Prop where
  reads : c.reads.toNat = commands.countP Command.isRead
  writes : c.writes.toNat = commands.countP Command.isWrite
  races : c.races.toNat = (RaceMonitor.races out).length
  uses : c.useAfterFree.toNat =
    (RaceMonitor.races out).countP fun race => race.kind = .useAfterFree
  anomalies : c.anomalies.toNat = (RaceMonitor.anomalies out).length
  once : c.sameEpoch.toNat + c.races.toNat ≤ c.reads.toNat + c.writes.toNat

/-- Counted from 0, and short of the size of a word. -/
theorem Booked.accounts {s : State} {commands : List Command} {counts : List Count}
    {res : State × List Output} (booked : Booked s commands counts res)
    (fresh : s.counters = .zero) (reads : commands.countP Command.isRead < UInt64.size)
    (writes : commands.countP Command.isWrite < UInt64.size)
    (races : (RaceMonitor.races res.2).length < UInt64.size)
    (anomalies : (RaceMonitor.anomalies res.2).length < UInt64.size) :
    res.1.counters.Accounts commands res.2 := by
  have total : ∀ k, (res.1.counters.get k).toNat = counts.count k % UInt64.size := fun k => by
    rw [booked.counters, fresh, Counters.get_zero, UInt64.zero_add]
    exact UInt64.toNat_ofNat
  have fits : ∀ {k n}, n = counts.count k → n < UInt64.size →
      (res.1.counters.get k).toNat = n := fun same small => by
    rw [total, ← same, Nat.mod_eq_of_lt small]
  have reads := fits booked.reads.symm reads
  have writes := fits booked.writes.symm writes
  have uses := fits booked.uses (List.countP_le_length.trans_lt races)
  have races := fits booked.races races
  have anomalies := fits booked.anomalies anomalies
  refine ⟨reads, writes, races, uses, anomalies, ?_⟩
  calc res.1.counters.sameEpoch.toNat + res.1.counters.races.toNat
      ≤ counts.count .sameEpoch + counts.count .races :=
        Nat.add_le_add ((total .sameEpoch).trans_le (Nat.mod_le ..))
          (races.trans booked.races).le
    _ ≤ counts.count .reads + counts.count .writes := booked.once
    _ = res.1.counters.reads.toNat + res.1.counters.writes.toNat := by
        rw [booked.reads, booked.writes]
        exact (congrArg₂ _ reads writes).symm

namespace State

variable {h : Host}

/-- **The counters account for the session**: an event is reported once at most, as a race or as
an anomaly, and as a race only if it is an access. From the opening of a session up to the next
opening or closing, the counters are the numbers of reads and of writes among the events, of the
races let out, of those against freed blocks, and of the anomalies, each short of the size of a
word; repetitions and races together are no more than the accesses. The anomaly callback is handed
every anomaly if it is there all the time. -/
theorem session_accounted (quiet : h.Quiet) (s : State) :
    (∀ e : Event, (delivered (s.step h e).2).length ≤ 1 ∧
      ∀ race ∈ races (s.step h e).2, e.isRead = true ∨ e.isWrite = true) ∧
    ∀ (args : List String) (commands : List Command), (s.init args).1 = true →
      (∀ c ∈ commands, c.within = true) →
      let run := (s.init args).2.1.execAll h commands
      (∀ n ∈ [commands.countP Command.isRead, commands.countP Command.isWrite,
        (races run.2).length, (anomalies run.2).length], n < UInt64.size) →
      run.1.counters.Accounts commands run.2 ∧
        (s.listening = true → .listen false ∉ commands → announced run.2 = anomalies run.2) := by
  refine ⟨fun e => ?_, fun args commands opened within => ?_⟩
  · obtain ⟨counts, of, counted⟩ := step_counted quiet s e
    exact ⟨counted.length_delivered_le of, fun race found => counted.accesses_of_race of found⟩
  · cases accepted : s.config.apply args with
    | error fault => exact absurd opened (by simp [(init_of_error accepted).1])
    | ok config =>
      rw [(init_of_ok accepted).2]
      intro run small
      simp only [List.forall_mem_cons] at small
      obtain ⟨reads, writes, races, anomalies, _⟩ := small
      obtain ⟨counts, booked⟩ := execAll_booked quiet (s := s.opened config) rfl within
      exact ⟨booked.accounts rfl reads writes races anomalies, booked.announced⟩

/-- One thread writes twice, another once without having seen that, and then releases a lock that
it does not hold. -/
theorem session_accounted_unordered :
    let s := { State.new .replay Config.default with listening := true }
    let commands : List Command := [.event (.write 1 5 256 8), .event (.write 1 6 256 8),
      .event (.write 2 7 256 8), .event (.release 2 10 true)]
    let run := (s.init []).2.1.execAll .recording commands
    Host.recording.Quiet ∧ (s.init []).1 = true ∧ (∀ c ∈ commands, c.within = true) ∧
      s.listening = true ∧ .listen false ∉ commands ∧ run.1.counters.Accounts commands run.2 ∧
      announced run.2 = anomalies run.2 ∧ run.1.counters = ⟨0, 3, 1, 1, 0, 1, 0, 0⟩ := by
  intro s commands run
  have quiet : Host.recording.Quiet := fun _ _ => rfl
  have opened : (s.init []).1 = true := by decide +kernel
  have within : ∀ c ∈ commands, c.within = true := by decide
  have never : .listen false ∉ commands := by decide
  have small : ∀ n ∈ [commands.countP Command.isRead, commands.countP Command.isWrite,
      (races run.2).length, (anomalies run.2).length], n < UInt64.size := by decide +kernel
  obtain ⟨accounts, all⟩ := (session_accounted quiet s).2 [] commands opened within small
  exact ⟨quiet, opened, within, rfl, never, accounts, all rfl never, by decide +kernel⟩

end State

end RaceMonitor
