import RaceMonitor.Proofs.Engine.Access

/-! What an anomaly leaves behind.

An event that is no access lets out plain notes, or it is an anomaly (`Performed.reports`). An
anomaly is counted, and the event does nothing else, with one exception: a release, a free and the
end of a function look their thread up before the anomaly is found, so that a thread not seen
before has come into being by then (`State.anomaly_only_counted`). Forks, joins, detaches and
finishes look for anomalies first. -/
namespace RaceMonitor

/-- The thread that an event looks up before an anomaly can be found. -/
def Event.looksUp? : Event → Option ThreadId
  | .release tid .. | .free tid _ | .exit tid => some tid
  | _ => none

/-- With a thread in it, made as a root if it was not there. -/
def Tables.enrolled (t : Tables) : Option ThreadId → Tables
  | some tid => if tid ∈ t.threads then t else t.putThread (Thread.root tid)
  | none => t

theorem Tables.enrolled_eq_iff {t : Tables} {tid : Option ThreadId} :
    t.enrolled tid = t ↔ ∀ u, tid = some u → u ∈ t.threads := by
  cases tid with
  | none => simp [enrolled]
  | some u =>
    have made : t.putThread (Thread.root u) = t → u ∈ t.threads := fun same =>
      same ▸ Table.mem_insert_iff.mpr (.inl rfl)
    by_cases there : u ∈ t.threads
    · simp [enrolled, there]
    · simp only [enrolled, Option.some.injEq, forall_eq', there, iff_false]
      exact fun same => there (made same)

theorem Entered.enrolled {s s₁ : State} {tid : ThreadId} {t : Thread} (h : Entered s tid t s₁) :
    s₁ = s.withTables (s.tables.enrolled (some tid)) := by
  cases h with
  | known t there =>
    rw [Tables.enrolled, if_pos (Table.mem_iff_exists.mpr ⟨t, there⟩)]
    rfl
  | made missing => rw [Tables.enrolled, if_neg missing]

namespace State

/-- One anomaly more, and nothing else. -/
def countAnomaly (s : State) : State :=
  s.count fun c => { c with anomalies := c.anomalies + 1 }

@[simp] theorem anomalies_raiseAnomaly (s : State) (a : Anomaly) :
    anomalies (s.raiseAnomaly a).2 = [a] := by
  unfold raiseAnomaly
  split <;> rfl

end State

/-! ### Events that are no accesses -/

/-- What an event that is no access comes to: plain notes and at most one more event counted as
dropped, or an anomaly, found when its thread has been looked up. -/
inductive Reports (s : State) (e : Event) : State × List Output → Prop where
  | plain {s' : State} {out : List Output} (heard : s'.heard = s.heard)
    (listening : s'.listening = s.listening)
    (counters : ∃ n, s'.counters = { s.counters with untracked := n }) (plain : Plain out) :
    Reports s e (s', out)
  | anomaly {s' : State} {noted : List Output} (a : Anomaly)
    (looked : s' = s.withTables (s.tables.enrolled e.looksUp?)) (plain : Plain noted) :
    Reports s e ((s'.raiseAnomaly a).1, noted ++ (s'.raiseAnomaly a).2)

variable {s : State} {h : Host} {e : Event} {res : State × List Output}

theorem Reports.accused (unlooked : e.looksUp? = none) (a : Anomaly) :
    Reports s e (s.raiseAnomaly a) :=
  .anomaly a (by rw [unlooked]; rfl) .nil

theorem Allocates.reports {tid : ThreadId} {pc addr size : Word}
    (allocates : Allocates s h tid pc addr size res) : Reports s (.alloc tid pc addr size) res := by
  have plain := allocates.plain
  cases allocates with
  | ignored => exact .plain rfl rfl ⟨_, rfl⟩ plain
  | made => exact .plain rfl rfl ⟨_, rfl⟩ plain

theorem Frees.reports {tid : ThreadId} {addr : Word} (frees : Frees s h tid addr res) :
    Reports s (.free tid addr) res := by
  cases frees with
  | ignored => exact .plain rfl rfl ⟨_, rfl⟩ .nil
  | refused _ met =>
    obtain ⟨_, x, rfl⟩ := State.thread_refused met
    exact .plain rfl rfl ⟨_, rfl⟩ (State.thread_plain met)
  | misused _ met =>
    exact .anomaly _ (State.thread_entered met).enrolled (State.thread_plain met)
  | freed _ met =>
    obtain ⟨x, threads, rfl⟩ := State.thread_shape met
    exact .plain rfl rfl ⟨_, rfl⟩ ((State.thread_plain met).append (.note _ nofun))
  | @swept t _ _ _ _ _ _ _ met _ _ sweeps =>
    have told : Plain [.note (.deallocated tid addr t.epoch)] := .note _ nofun
    have noted := ((State.thread_plain met).append told).append (State.sweep_plain sweeps)
    obtain ⟨x, threads, rfl⟩ := State.thread_shape met
    cases sweeps
    exact .plain rfl rfl ⟨_, rfl⟩ noted

theorem Performed.reports (performed : Performed s h e res)
    (other : ∀ write tid pc addr size, e ≠ .access write tid pc addr size) : Reports s e res := by
  cases performed with
  | accused accuses => exact .accused (by cases accuses <;> rfl) _
  | refused _ met =>
    obtain ⟨_, x, rfl⟩ := State.thread_refused met
    exact .plain rfl rfl ⟨_, rfl⟩ (State.thread_plain met)
  | @misused _ tid _ _ _ _ summons met misuses =>
    have looks : e.looksUp? = some tid := by cases misuses <;> cases summons <;> rfl
    exact .anomaly _ (looks ▸ (State.thread_entered met).enrolled) (State.thread_plain met)
  | full _ met full =>
    have noted := (State.thread_plain met).append (State.reserve_plain full)
    obtain ⟨x, threads, rfl⟩ := State.thread_shape met
    obtain ⟨y, rfl⟩ := State.reserve_shape full
    exact .plain rfl rfl ⟨_, rfl⟩ noted
  | forked _ met | joined _ _ _ met =>
    obtain ⟨x, threads, rfl⟩ := State.thread_shape met
    exact .plain rfl rfl ⟨_, rfl⟩
      (((State.thread_plain met).append (.tickNote _)).append (.note _ nofun))
  | detached | finished => exact .plain rfl rfl ⟨_, rfl⟩ ⟨rfl, rfl⟩
  | entered met | exited met =>
    obtain ⟨x, threads, rfl⟩ := State.thread_shape met
    exact .plain rfl rfl ⟨_, rfl⟩ (State.thread_plain met)
  | unlocked met found =>
    obtain ⟨x, threads, rfl⟩ := State.thread_shape met
    obtain ⟨y, locks, rfl⟩ := State.lock_shape found
    exact .plain rfl rfl ⟨_, rfl⟩ ((State.thread_plain met).append (State.lock_plain found))
  | acquired met found =>
    have noted := (State.thread_plain met).append (State.lock_plain found)
    obtain ⟨x, threads, rfl⟩ := State.thread_shape met
    obtain ⟨y, locks, rfl⟩ := State.lock_shape found
    exact .plain rfl rfl ⟨_, rfl⟩ ((noted.append (.tickNote _)).append (.note _ nofun))
  | reacquired met found =>
    have noted := (State.thread_plain met).append (State.lock_plain found)
    obtain ⟨x, threads, rfl⟩ := State.thread_shape met
    obtain ⟨y, locks, rfl⟩ := State.lock_shape found
    exact .plain rfl rfl ⟨_, rfl⟩ (noted.append (.note _ nofun))
  | released met =>
    obtain ⟨x, threads, rfl⟩ := State.thread_shape met
    exact .plain rfl rfl ⟨_, rfl⟩
      (((State.thread_plain met).append (.tickNote _)).append (.note _ nofun))
  | unnested met =>
    obtain ⟨x, threads, rfl⟩ := State.thread_shape met
    exact .plain rfl rfl ⟨_, rfl⟩ ((State.thread_plain met).append (.note _ nofun))
  | unsignalled _ met found =>
    obtain ⟨x, threads, rfl⟩ := State.thread_shape met
    obtain ⟨y, signals, rfl⟩ := State.signal_shape found
    exact .plain rfl rfl ⟨_, rfl⟩ ((State.thread_plain met).append (State.signal_plain found))
  | signalled met found =>
    have noted := (State.thread_plain met).append (State.signal_plain found)
    obtain ⟨x, threads, rfl⟩ := State.thread_shape met
    obtain ⟨y, signals, rfl⟩ := State.signal_shape found
    exact .plain rfl rfl ⟨_, rfl⟩ ((noted.append (.tickNote _)).append (.note _ nofun))
  | awaited met found =>
    have noted := (State.thread_plain met).append (State.signal_plain found)
    obtain ⟨x, threads, rfl⟩ := State.thread_shape met
    obtain ⟨y, signals, rfl⟩ := State.signal_shape found
    exact .plain rfl rfl ⟨_, rfl⟩ (noted.append (.note _ nofun))
  | allocated allocates => exact allocates.reports
  | freed frees => exact frees.reports
  | mapped => exact .plain rfl rfl ⟨_, rfl⟩ ⟨rfl, rfl⟩
  | unseen access | accessed access => exact absurd access (other _ _ _ _ _)

/-- No race is delivered then. -/
theorem Reports.races (reports : Reports s e res) : RaceMonitor.races res.2 = [] := by
  cases reports with
  | plain _ _ _ plain => exact plain.races
  | @anomaly s' _ a _ plain =>
    have raised : RaceMonitor.races (s'.raiseAnomaly a).2 = [] := by
      unfold State.raiseAnomaly
      split <;> rfl
    rw [races_append, plain.races, raised]
    rfl

namespace State

/-! ### Accesses -/

variable {s' : State} {addr : Word} {current : Access} {out : List Output}

theorem anomalies_deliver (quiet : h.Quiet) {race : Race} (told : s.deliver h race = (s', out)) :
    anomalies out = [] := by
  simp only [deliver, quiet race] at told
  split at told <;> cases told <;> rfl

theorem anomalies_settle (quiet : h.Quiet) {outcome : Outcome}
    (told : s.settle h addr current outcome = (s', out)) : anomalies out = [] := by
  cases outcome with
  | sameEpoch | ordered =>
    cases told
    rfl
  | race kind prior => exact anomalies_deliver quiet told

theorem anomalies_settleUse (quiet : h.Quiet) {hit : Option UseAfterFree}
    (told : s.settleUse h addr current hit = (s', out)) : anomalies out = [] := by
  cases hit with
  | none =>
    cases told
    rfl
  | some hit => exact anomalies_deliver quiet told

theorem anomalies_accessBy (quiet : h.Quiet) (s : State) (t : Thread) (write : Bool)
    (pc addr size : Word) : anomalies (s.accessBy h t write pc addr size).2 = [] := by
  have made := s.accessBy_made h t write pc addr size
  generalize s.accessBy h t write pc addr size = res at made ⊢
  cases made with
  | untracked used looked told =>
    rw [anomalies_append, (location_plain looked).anomalies, anomalies_settleUse quiet told]
    rfl
  | used used looked checked told =>
    rw [anomalies_append, (location_plain looked).anomalies, anomalies_deliver quiet told]
    rfl
  | settled used looked checked told =>
    rw [anomalies_append, anomalies_append, (location_plain looked).anomalies,
      anomalies_settle quiet told]
    rfl

theorem anomalies_access (quiet : h.Quiet) (s : State) (write : Bool) (tid : ThreadId)
    (pc addr size : Word) : anomalies (s.access h write tid pc addr size).2 = [] := by
  rcases met : (s.countAccess write addr).thread tid with ⟨_ | t, s₁, noted⟩
  · rw [access_refused met]
    exact (thread_plain met).anomalies
  · rw [access_entered met, anomalies_append, (thread_plain met).anomalies,
      anomalies_accessBy quiet]
    rfl

/-- An event that reports an anomaly is no access. -/
theorem reports_of_anomaly (quiet : h.Quiet) {a : Anomaly}
    (reported : a ∈ anomalies (s.step h e).2) : Reports s e (s.step h e) := by
  refine (s.performed h e).reports fun write tid pc addr size access => ?_
  rw [access, step_access, anomalies_access quiet] at reported
  cases reported

/-- **Anomalies leave the populations alone, but for the thread looked up**: after an event that
is reported as an anomaly, the counter of anomalies has gone up, and the only difference that
there can be in the populations is a thread that the event was the first to name. There is none
just when the event does not look its thread up, or finds it. -/
theorem anomaly_only_counted (quiet : h.Quiet) (s : State) {e : Event} {a : Anomaly}
    (reported : a ∈ anomalies (s.step h e).2) :
    (s.step h e).1 = (s.withTables (s.tables.enrolled e.looksUp?)).countAnomaly ∧
      ((s.step h e).1.tables = s.tables ↔
        ∀ tid, e.looksUp? = some tid → tid ∈ s.tables.threads) := by
  have reports := reports_of_anomaly quiet reported
  generalize s.step h e = res at reported reports ⊢
  cases reports with
  | plain _ _ _ plain =>
    rw [plain.anomalies] at reported
    cases reported
  | anomaly _ looked =>
    subst looked
    exact ⟨rfl, Tables.enrolled_eq_iff⟩

end State

namespace Session

/-- A thread that has done nothing before releases a lock that it does not hold. -/
def unheld : Session := .default [.release 5 10 true]

end Session

theorem State.anomaly_only_counted_unheld :
    Host.recording.Quiet ∧ Anomaly.releaseWithoutAcquire 5 10 ∈
        anomalies (Session.unheld.start.step .recording (.release 5 10 true)).2 ∧
      (Session.unheld.start.step .recording (.release 5 10 true)).1 =
        (Session.unheld.start.withTables
          (Session.unheld.start.tables.enrolled (some 5))).countAnomaly ∧
      (Session.unheld.start.step .recording (.release 5 10 true)).1.tables ≠
        Session.unheld.start.tables := by
  have quiet : Host.recording.Quiet := fun _ _ => rfl
  have reported : Anomaly.releaseWithoutAcquire 5 10 ∈
      anomalies (Session.unheld.start.step .recording (.release 5 10 true)).2 := by
    decide +kernel
  obtain ⟨counted, same⟩ := State.anomaly_only_counted quiet Session.unheld.start reported
  refine ⟨quiet, reported, counted, fun unchanged => ?_⟩
  have there := same.mp unchanged 5 rfl
  exact absurd there (by decide +kernel)

/-- The anomaly is reported, and a thread is there that was not there before. -/
theorem Session.unheld_registers : anomalies (unheld.output 0) = [.releaseWithoutAcquire 5 10] ∧
    (unheld.state 0).tables.threads.isEmpty = true ∧ 5 ∈ (unheld.state 1).tables.threads := by
  decide +kernel

end RaceMonitor
