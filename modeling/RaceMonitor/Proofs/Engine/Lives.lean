import RaceMonitor.Proofs.Engine.Access
import RaceMonitor.Proofs.Order.Clocks

/-! The life of threads as an automaton.

A thread is unborn, active, detached or retired, and its status is spread over two populations
and a flag (`Tables.lives`). What an event makes of it is one of a few things
(`State.step_fate`), each a move that the automaton has. Forks, joins, detaches and finishes
are governed by a rule, which says what becomes of whom or which anomaly it is (`Lives.rule`).
The engine does as the rule says, as long as threads may come in without limit
(`State.step_abides`). -/
namespace RaceMonitor

/-- Where a thread is in its life. -/
inductive Status where
  /-- Not seen yet. -/
  | unborn
  /-- Live, and may be joined. -/
  | active
  /-- Live, and never joined. -/
  | detached
  | retired
  deriving DecidableEq, Repr, Inhabited

namespace Status

def live : Status → Bool
  | active | detached => true
  | unborn | retired => false

/-- A thread that is named comes into being, if it has not been seen yet. -/
def entered : Status → Status
  | unborn => active
  | s => s

/-- The moves of the automaton. -/
inductive Moves : Status → Status → Prop where
  | stays (s : Status) : Moves s s
  | born : Moves unborn active
  | detaches : Moves active detached
  | retires {s : Status} (live : s.live = true) : Moves s retired

theorem Moves.retired {s : Status} (moves : Moves retired s) : s = retired := by
  cases moves with
  | stays => rfl
  | retires => rfl

theorem moves_entered (s : Status) : s.Moves s.entered := by
  cases s with
  | unborn => exact .born
  | active | detached | retired => exact .stays _

theorem entered_of_live {s : Status} (live : s.live = true) : s.entered = s := by
  cases s <;> first | rfl | cases live

end Status

def Lifecycle.status : Lifecycle → Status
  | active => .active
  | detached => .detached

theorem Lifecycle.status_live (l : Lifecycle) : l.status.live = true := by cases l <;> rfl

/-- The status of every thread. -/
abbrev Lives := ThreadId → Status

namespace Lives

variable (σ : Lives)

def set (u : ThreadId) (s : Status) : Lives := fun v => if v = u then s else σ v

def enter (u : ThreadId) : Lives := σ.set u (σ u).entered

/-- What becomes of the threads when one of them is forked, joined, detached or has finished, or
the anomaly that this is. -/
def rule : Event → Option (Except Anomaly Lives)
  | .fork p c =>
    if c ≠ p ∧ σ c = .unborn then some (.ok ((σ.enter p).set c .active))
    else some (.error (.threadReused p c))
  | .join p c =>
    if c = p ∨ (σ c).live = false then some (.error (.unknownThread c))
    else if σ c = .detached then some (.error (.joinDetached p c))
    else some (.ok ((σ.enter p).set c .retired))
  | .detach _ u =>
    if (σ u).live then some (.ok (σ.set u .detached)) else some (.error (.unknownThread u))
  | .finish _ u =>
    if (σ u).live then some (.ok (σ.set u .retired)) else some (.error (.unknownThread u))
  | _ => none

variable {σ}

@[simp] theorem set_same (u : ThreadId) (s : Status) : σ.set u s u = s := if_pos rfl

theorem set_other {u v : ThreadId} (ne : v ≠ u) (s : Status) : σ.set u s v = σ v := if_neg ne

theorem set_eq {u : ThreadId} {s : Status} (same : σ u = s) : σ.set u s = σ := by
  funext v
  by_cases h : v = u
  · rw [h, set_same, same]
  · exact set_other h s

theorem enter_of_live {u : ThreadId} (live : (σ u).live = true) : σ.enter u = σ :=
  set_eq (Status.entered_of_live live).symm

theorem moves_set {u : ThreadId} {s : Status} (moves : (σ u).Moves s) (v : ThreadId) :
    (σ v).Moves (σ.set u s v) := by
  by_cases h : v = u
  · rw [h, set_same]
    exact moves
  · rw [set_other h]
    exact .stays _

theorem moves_enter (u v : ThreadId) : (σ v).Moves (σ.enter u v) := moves_set (σ u).moves_entered v

/-- A thread enters, and then another one moves. -/
theorem moves_enter_set {p c : ThreadId} {s : Status} (moves : (σ c).Moves s) (v : ThreadId) :
    (σ v).Moves ((σ.enter p).set c s v) := by
  by_cases h : v = c
  · rw [h, set_same]
    exact moves
  · rw [set_other h]
    exact moves_enter p v

end Lives

/-- How it is with a thread: its flag, and where it comes from. -/
def Thread.life (t : Thread) : Lifecycle × Option ThreadId := (t.lifecycle, t.parent)

namespace Tables

/-- The status of every thread, as the populations have it. -/
def lives (t : Tables) : Lives := fun u =>
  match t.threads[u]?.map Thread.lifecycle with
  | some l => l.status
  | none => if t.retired.contains u then .retired else .unborn

variable {t t' : Tables} {th old : Thread} {u : ThreadId}

theorem lives_of_there (there : t.threads[u]? = some th) : t.lives u = th.lifecycle.status := by
  simp only [lives, there, Option.map_some]

theorem lives_of_missing (missing : u ∉ t.threads) :
    t.lives u = if u ∈ t.retired then .retired else .unborn := by
  simp only [lives, Table.not_mem_iff.mp missing, Option.map_none, Std.ExtTreeSet.mem_iff_contains]

theorem live_iff : (t.lives u).live = true ↔ u ∈ t.threads := by
  constructor
  · intro live
    by_contra missing
    rw [lives_of_missing missing] at live
    split at live <;> cases live
  · intro there
    obtain ⟨th, there⟩ := Table.mem_iff_exists.mp there
    rw [lives_of_there there]
    exact th.lifecycle.status_live

theorem unborn_iff : t.lives u = .unborn ↔ u ∉ t.threads ∧ u ∉ t.retired := by
  constructor
  · intro unborn
    have missing : u ∉ t.threads := fun there => by
      have live := live_iff.mpr there
      rw [unborn] at live
      cases live
    rw [lives_of_missing missing] at unborn
    exact ⟨missing, fun retired => by simp [retired] at unborn⟩
  · rintro ⟨missing, alive⟩
    rw [lives_of_missing missing, if_neg alive]

theorem lives_putThread (t : Tables) (th : Thread) :
    (t.putThread th).lives = t.lives.set th.tid th.lifecycle.status := by
  funext u
  simp only [lives, putThread, Table.get_insert, Lives.set]
  by_cases h : u = th.tid
  · simp only [h, if_true, Option.map_some]
  · simp only [h, if_false]
    rfl

theorem lives_retire (t : Tables) (c : ThreadId) : (t.retire c).lives = t.lives.set c .retired := by
  funext u
  simp only [lives, retire, Table.get_erase, Lives.set]
  by_cases h : u = c
  · simp [h]
  · have others : (t.retired.insert c).contains u = t.retired.contains u := by
      rw [Bool.eq_iff_iff, ← Std.ExtTreeSet.mem_iff_contains, ← Std.ExtTreeSet.mem_iff_contains,
        KeySet.mem_insert_iff]
      exact or_iff_right h
    simp only [h, if_false, others]

/-- Every thread has the status that it had, and comes from where it came from. -/
structure SameLives (t t' : Tables) : Prop where
  threads : ∀ u : ThreadId, t'.threads[u]?.map Thread.life = t.threads[u]?.map Thread.life
  retired : t'.retired = t.retired

namespace SameLives

theorem refl (t : Tables) : t.SameLives t := ⟨fun _ => rfl, rfl⟩

theorem of_eq (threads : t'.threads = t.threads) (retired : t'.retired = t.retired) :
    t.SameLives t' := ⟨fun u => by rw [threads], retired⟩

/-- A thread is replaced by one with the same life. -/
theorem of_insert (x : Thread) (there : t.threads[x.tid]? = some old) (same : x.life = old.life)
    (threads : t'.threads = t.threads.insert x.tid x) (retired : t'.retired = t.retired) :
    t.SameLives t' where
  threads u := by
    rw [threads, Table.get_insert]
    split
    · rename_i h
      simp only [h, there, Option.map_some, same]
    · rfl
  retired := retired

theorem putThread (x : Thread) (there : t.threads[x.tid]? = some old) (same : x.life = old.life) :
    t.SameLives (t.putThread x) := .of_insert x there same rfl rfl

theorem putBoth (h : t.SameLives t') (th : Thread) :
    (t.putThread th).SameLives (t'.putThread th) where
  threads u := by
    simp only [Tables.putThread, Table.get_insert]
    split
    · rfl
    · exact h.threads u
  retired := h.retired

theorem retireBoth (h : t.SameLives t') (c : ThreadId) : (t.retire c).SameLives (t'.retire c) where
  threads u := by
    simp only [Tables.retire, Table.get_erase]
    split
    · rfl
    · exact h.threads u
  retired := congrArg (·.insert c) h.retired

theorem lives (h : t.SameLives t') : t'.lives = t.lives := by
  have flags (t : Tables) (u : ThreadId) :
      t.threads[u]?.map Thread.lifecycle = (t.threads[u]?.map Thread.life).map Prod.fst := by
    rw [Option.map_map]
    rfl
  funext u
  simp only [Tables.lives, flags, h.threads u, h.retired]

/-- A thread that is there comes from where it came from. -/
theorem parent (h : t.SameLives t') (there : t'.threads[u]? = some th) :
    ∃ old, t.threads[u]? = some old ∧ th.parent = old.parent := by
  have same := h.threads u
  rw [there] at same
  obtain ⟨old, there, life⟩ := Option.map_eq_some_iff.mp same.symm
  exact ⟨old, there, congrArg Prod.snd life.symm⟩

end SameLives

end Tables

variable {s s₁ : State} {tid u : ThreadId} {th : Thread}

theorem Entered.lives (enter : Entered s tid th s₁) :
    s₁.tables.lives = s.tables.lives.enter tid := by
  cases enter with
  | known _ there =>
    refine (Lives.enter_of_live ?_).symm
    exact Tables.live_iff.mpr (Table.mem_iff_exists.mpr ⟨th, there⟩)
  | made missing alive =>
    rw [Lives.enter, Tables.unborn_iff.mpr ⟨missing, alive⟩]
    exact Tables.lives_putThread _ _

/-- Counting does not let anybody in. -/
theorem Entered.uncounted {f : Counters → Counters} (enter : Entered (s.count f) tid th s₁) :
    ∃ s₂, Entered s tid th s₂ ∧ s₂.tables = s₁.tables := by
  cases enter with
  | known _ there => exact ⟨s, .known th there, rfl⟩
  | made missing alive => exact ⟨_, .made missing alive, rfl⟩

/-- The thread is kept by its own id. -/
theorem Entered.own (enter : Entered s tid th s₁) (tidy : s.tables.Tidy) :
    s₁.tables.threads[th.tid]? = some th :=
  (enter.tid_eq tidy).symm ▸ enter.there

/-- Who comes into being by being named is a root. -/
theorem Entered.root (enter : Entered s tid th s₁) (missing : u ∉ s.tables.threads)
    {x : Thread} (there : s₁.tables.threads[u]? = some x) : u = tid ∧ x.parent = none := by
  cases enter with
  | known => exact absurd (Table.mem_iff_exists.mpr ⟨x, there⟩) missing
  | made =>
    simp only [State.withTables, Tables.putThread, Table.get_insert] at there
    split at there
    · rename_i named
      exact ⟨named, Option.some.inj there ▸ rfl⟩
    · exact absurd (Table.mem_iff_exists.mpr ⟨x, there⟩) missing

/-- The thread that forks `u`, in an event that does. -/
def Event.forker? (u : ThreadId) : Event → Option ThreadId
  | .fork parent child => if child = u then some parent else none
  | _ => none

namespace State

/-- What an event makes of the life of threads. -/
inductive Fate (s : State) : Event → Tables → Prop where
  | idle {e : Event} {t : Tables} (same : s.tables.SameLives t) : Fate s e t
  | entered {e : Event} {t : Tables} {tid : ThreadId} {th : Thread} {s₁ : State}
    (enter : Entered s tid th s₁) (unforked : e.forker? tid = none)
    (same : s₁.tables.SameLives t) : Fate s e t
  | forked {p c : ThreadId} {t : Tables} {th : Thread} {s₁ : State} (enter : Entered s p th s₁)
    (other : c ≠ p) (missing : c ∉ s.tables.threads) (alive : c ∉ s.tables.retired)
    (same : (s₁.tables.putThread (Thread.forked c th)).SameLives t) : Fate s (.fork p c) t
  | joined {p c : ThreadId} {t : Tables} {th : Thread} {s₁ : State} (enter : Entered s p th s₁)
    (child : c ∈ s.tables.threads) (same : (s₁.tables.retire c).SameLives t) :
    Fate s (.join p c) t
  | detached {by_ u : ThreadId} {th : Thread} (there : s.tables.threads[u]? = some th) :
    Fate s (.detach by_ u) (s.tables.putThread th.detach)
  | finished {by_ u : ThreadId} (live : u ∈ s.tables.threads) :
    Fate s (.finish by_ u) (s.tables.retire u)

/-- It is a move of the automaton for every thread. -/
theorem Fate.moves {e : Event} {t : Tables} (tidy : s.tables.Tidy) (fate : Fate s e t)
    (v : ThreadId) : (s.tables.lives v).Moves (t.lives v) := by
  cases fate with
  | idle same =>
    rw [same.lives]
    exact .stays _
  | entered enter _ same =>
    rw [same.lives, enter.lives]
    exact Lives.moves_enter _ v
  | @forked _ c _ _ _ enter other missing alive same =>
    have comes : (s.tables.lives c).Moves .active := by
      rw [Tables.unborn_iff.mpr ⟨missing, alive⟩]
      exact .born
    rw [same.lives, Tables.lives_putThread, enter.lives]
    exact Lives.moves_enter_set comes v
  | joined enter child same =>
    rw [same.lives, Tables.lives_retire, enter.lives]
    exact Lives.moves_enter_set (.retires (Tables.live_iff.mpr child)) v
  | @detached _ u th there =>
    rw [Tables.lives_putThread]
    refine Lives.moves_set ?_ v
    obtain rfl := tidy.keyed u th there
    show (s.tables.lives th.tid).Moves .detached
    rw [Tables.lives_of_there there]
    cases th.lifecycle with
    | active => exact .detaches
    | detached => exact .stays _
  | finished live =>
    rw [Tables.lives_retire]
    exact Lives.moves_set (.retires (Tables.live_iff.mpr live)) v

/-- Who was not there and is there now is a root, unless the event has forked it. -/
theorem Fate.parent {e : Event} {t : Tables} (tidy : s.tables.Tidy) (fate : Fate s e t)
    {v : ThreadId} {x : Thread} (missing : v ∉ s.tables.threads) (there : t.threads[v]? = some x) :
    x.parent = e.forker? v := by
  have absent {y : Thread} : s.tables.threads[v]? ≠ some y := by
    rw [Table.not_mem_iff.mp missing]
    nofun
  cases fate with
  | idle same =>
    obtain ⟨y, there, _⟩ := same.parent there
    exact absurd there absent
  | entered enter unforked same =>
    obtain ⟨y, there, parent⟩ := same.parent there
    obtain ⟨rfl, root⟩ := enter.root missing there
    rw [parent, root, unforked]
  | @forked p c _ th s₁ enter other _ _ same =>
    obtain ⟨y, there, parent⟩ := same.parent there
    rw [Tables.putThread, Table.get_insert] at there
    split at there
    · rename_i named
      obtain rfl : v = c := named
      rw [parent, ← Option.some.inj there, Event.forker?, if_pos rfl]
      exact congrArg some (enter.tid_eq tidy)
    · rename_i named
      obtain ⟨rfl, root⟩ := enter.root missing there
      rw [parent, root, Event.forker?, if_neg other]
  | joined enter _ same =>
    obtain ⟨y, there, parent⟩ := same.parent there
    simp only [Tables.retire, Table.get_erase] at there
    split at there
    · cases there
    · rw [parent, (enter.root missing there).2]
      rfl
  | @detached _ u th known =>
    rw [Tables.putThread, Table.get_insert] at there
    split at there
    · rename_i named
      obtain rfl : v = u := named.trans (tidy.keyed u th known)
      exact absurd known absent
    · exact absurd there absent
  | finished =>
    simp only [Tables.retire, Table.get_erase] at there
    split at there
    · cases there
    · exact absurd there absent

/-- A thread that is looked up is let in or not, and then nothing becomes of any thread. -/
theorem Fate.looked {e : Event} {t : Option Thread} {tables : Tables} {out : List Output}
    {f : Counters → Counters} (met : (s.count f).thread tid = (t, s₁, out))
    (unforked : e.forker? tid = none) (same : s₁.tables.SameLives tables) : Fate s e tables := by
  cases t with
  | none =>
    obtain ⟨_, x, rfl⟩ := thread_refused met
    exact .idle same
  | some t =>
    obtain ⟨s₂, enter, tables⟩ := (thread_entered met).uncounted
    exact .entered enter unforked (tables ▸ same)

/-- A thread that goes on is as it was. -/
theorem Fate.goes {e : Event} {th x : Thread} {tables : Tables} {out : List Output}
    (tidy : s.tables.Tidy) (met : s.thread tid = (some th, s₁, out))
    (unforked : e.forker? tid = none)
    (threads : tables.threads = s₁.tables.threads.insert x.tid x)
    (retired : tables.retired = s₁.tables.retired) (own : x.tid = th.tid)
    (life : x.life = th.life) : Fate s e tables :=
  have there : s₁.tables.threads[x.tid]? = some th := own ▸ (thread_entered met).own tidy
  .looked (f := id) met unforked (.of_insert x there life threads retired)

/-- A thread does not fork itself. -/
theorem Summons.unforked {e : Event} (summons : s.Summons e tid) : e.forker? tid = none := by
  cases summons with
  | fork other => exact if_neg other
  | join | enter | exit | release => rfl

theorem unforked_access (write : Bool) (tid : ThreadId) (pc addr size : Word) :
    (Event.access write tid pc addr size).forker? tid = none := by
  cases write <;> rfl

/-- What any event makes of the life of threads. -/
theorem step_fate {h : Host} (quiet : h.Quiet) (tidy : s.tables.Tidy) (e : Event) :
    s.Fate e (s.step h e).1.tables := by
  have performed := s.performed h e
  generalize s.step h e = res at performed ⊢
  cases performed with
  | accused => exact .idle (.refl _)
  | refused summons met | misused summons met =>
    exact .looked (f := id) met summons.unforked (.refl _)
  | full summons met full =>
    obtain ⟨x, rfl⟩ := reserve_shape full
    exact .looked (f := id) met summons.unforked (.refl _)
  | @forked _ child t _ _ summons met =>
    have enter := thread_entered met
    have ticked := Tables.SameLives.putThread t.tick (enter.own tidy) rfl
    cases summons with
    | fork other missing alive =>
      exact .forked enter other missing alive (ticked.putBoth (Thread.forked child t))
  | @joined _ child c t _ _ _ there _ met =>
    have enter := thread_entered met
    have observed := Tables.SameLives.putThread (t.observe c.clock).tick (enter.own tidy) rfl
    exact .joined enter (Table.mem_iff_exists.mpr ⟨c, there⟩) (observed.retireBoth child)
  | detached there => exact .detached there
  | finished there => exact .finished there
  | entered met => exact .goes tidy met rfl rfl rfl rfl rfl
  | exited met left =>
    obtain ⟨frame, _, left⟩ := Option.map_eq_some_iff.mp left
    cases left
    exact .goes tidy met rfl rfl rfl rfl rfl
  | unlocked met found | reacquired met found =>
    obtain ⟨x, locks, rfl⟩ := lock_shape found
    exact .looked (f := id) met rfl (.of_eq rfl rfl)
  | acquired met found =>
    obtain ⟨x, locks, rfl⟩ := lock_shape found
    exact .goes tidy met rfl rfl rfl rfl rfl
  | released met => exact .goes tidy met rfl rfl rfl rfl rfl
  | unnested met => exact .looked (f := id) met rfl (.of_eq rfl rfl)
  | unsignalled names met found =>
    obtain ⟨x, signals, rfl⟩ := signal_shape found
    rcases names with rfl | rfl <;> exact .looked (f := id) met rfl (.of_eq rfl rfl)
  | signalled met found | awaited met found =>
    obtain ⟨x, signals, rfl⟩ := signal_shape found
    exact .goes tidy met rfl rfl rfl rfl rfl
  | allocated allocates => cases allocates <;> exact .idle (.of_eq rfl rfl)
  | freed frees =>
    cases frees with
    | ignored => exact .idle (.refl _)
    | refused _ met | misused _ met | freed _ met =>
      exact .looked (f := id) met rfl (.of_eq rfl rfl)
    | swept _ met _ _ sweeps =>
      cases sweeps
      exact .looked (f := id) met rfl (.of_eq rfl rfl)
  | mapped => exact .idle (.of_eq rfl rfl)
  | unseen access met =>
    subst access
    exact .looked met (unforked_access ..) (.refl _)
  | accessed access met made =>
    subst access
    obtain ⟨x, c, shadow, heap, rfl⟩ := accessBy_shape quiet made
    exact .looked met (unforked_access ..) (.of_eq rfl rfl)

/-! ### The rule -/

/-- A thread may come in: it has not retired, and threads are without limit. -/
def Open (s : State) (tid : ThreadId) : Prop :=
  s.config.maxThreads = 0 ∧ tid ∉ s.tables.retired

/-- A thread that may come in is not refused. -/
theorem Open.met (free : s.Open tid) : ∃ t s₁ out, s.thread tid = (some t, s₁, out) := by
  have found := s.thread_found tid
  generalize s.thread tid = res at found
  cases found with
  | known t => exact ⟨t, _, _, rfl⟩
  | refused _ shut => exact absurd ⟨free.2, Room.of_unlimited (k := .threads) free.1 _⟩ shut
  | made => exact ⟨_, _, _, rfl⟩

/-- What is asked for is done, or the anomaly is reported and nothing becomes of any thread. -/
def Abides (s : State) (res : State × List Output) : Except Anomaly Lives → Prop
  | .ok σ => anomalies res.2 = [] ∧ res.1.tables.lives = σ
  | .error a => anomalies res.2 = [a] ∧
      delivered res.2 = (if s.listening then [.anomaly a] else []) ∧ res.1.tables = s.tables

theorem abides_raiseAnomaly (s : State) (a : Anomaly) : s.Abides (s.raiseAnomaly a) (.error a) := by
  refine ⟨?_, ?_, rfl⟩ <;> cases listening : s.listening <;>
    simp [raiseAnomaly, listening, Output.noted?]

/-- An event is turned away for what the rule says it is. -/
theorem Accuses.rule {e : Event} {a : Anomaly} (accuses : s.Accuses e a) :
    s.tables.lives.rule e = some (.error a) := by
  cases accuses with
  | reused taken =>
    refine if_neg fun free => ?_
    obtain ⟨missing, alive⟩ := Tables.unborn_iff.mp free.2
    exact taken.elim free.1 fun seen => seen.elim missing alive
  | unjoinable unknown =>
    refine if_pos (unknown.imp_right fun missing => ?_)
    rw [← Bool.not_eq_true, Tables.live_iff]
    exact missing
  | @detached _ _ c other there detached =>
    refine (if_neg ?_).trans (if_pos ?_)
    · rw [Tables.lives_of_there there, c.lifecycle.status_live]
      simpa using other
    · rw [Tables.lives_of_there there, detached]
      rfl
  | undetachable unknown | unfinishable unknown =>
    exact if_neg fun live => unknown (Tables.live_iff.mp live)

/-- A child that can be forked or joined is. -/
theorem Summons.rule {p c : ThreadId} :
    (s.Summons (.fork p c) p →
      s.tables.lives.rule (.fork p c) = some (.ok ((s.tables.lives.enter p).set c .active))) ∧
    (s.Summons (.join p c) p →
      s.tables.lives.rule (.join p c) = some (.ok ((s.tables.lives.enter p).set c .retired))) := by
  refine ⟨fun summons => ?_, fun summons => ?_⟩
  · cases summons with
    | fork other missing alive => exact if_pos ⟨other, Tables.unborn_iff.mpr ⟨missing, alive⟩⟩
  · cases summons with
    | @join _ _ th other there joinable =>
      refine (if_neg ?_).trans (if_neg ?_)
      · rw [Tables.lives_of_there there, th.lifecycle.status_live]
        simpa using other
      · rw [Tables.lives_of_there there]
        cases life : th.lifecycle with
        | active => nofun
        | detached => exact absurd life joinable

/-- **The engine does as the rule says**: a fork, join, detach or finish is done or is an anomaly
just as the rule has it, if its thread may come in. -/
theorem step_abides {h : Host} (tidy : s.tables.Tidy) {e : Event} {v : Except Anomaly Lives}
    (free : ∀ tid, e.actor? = some tid → s.Open tid) (ruled : s.tables.lives.rule e = some v) :
    s.Abides (s.step h e) v := by
  have performed := s.performed h e
  generalize s.step h e = res at performed ⊢
  cases performed with
  | accused accuses =>
    obtain rfl := Option.some.inj (accuses.rule.symm.trans ruled)
    exact s.abides_raiseAnomaly _
  | refused summons met =>
    obtain ⟨_, _, _, given⟩ := (free _ summons.actor).met
    rw [met] at given
    cases given
  | misused _ _ misuses => cases misuses <;> cases ruled
  | @full _ _ _ s₁ _ _ _ _ met full =>
    have unlimited : s₁.config.limit .threads = 0 := by
      rw [(thread_entered met).sameMemory.config]
      exact (free _ rfl).1
    rw [reserve_of_room (Room.of_unlimited unlimited _)] at full
    cases full
  | @forked _ child t _ noted summons met =>
    obtain rfl := Option.some.inj ((Summons.rule.1 summons).symm.trans ruled)
    have enter := thread_entered met
    have ticked := Tables.SameLives.putThread t.tick (enter.own tidy) rfl
    refine ⟨?_, (ticked.putBoth (Thread.forked child t)).lives.trans ?_⟩
    · simp [(thread_plain met).anomalies, (Plain.tickNote t).anomalies, Output.noted?]
    · rw [Tables.lives_putThread, enter.lives]
      rfl
  | @joined _ child c t _ _ other there joinable met =>
    obtain rfl := Option.some.inj
      ((Summons.rule.2 (.join other there joinable)).symm.trans ruled)
    have enter := thread_entered met
    have observed := Tables.SameLives.putThread (t.observe c.clock).tick (enter.own tidy) rfl
    refine ⟨?_, (observed.retireBoth child).lives.trans ?_⟩
    · simp [(thread_plain met).anomalies, (Plain.tickNote (t.observe c.clock)).anomalies,
        Output.noted?]
    · rw [Tables.lives_retire, enter.lives]
  | detached there =>
    obtain rfl := Option.some.inj ((if_pos (Tables.live_iff.mpr
      (Table.mem_iff_exists.mpr ⟨_, there⟩))).symm.trans ruled)
    obtain rfl := tidy.keyed _ _ there
    exact ⟨rfl, Tables.lives_putThread _ _⟩
  | finished there =>
    obtain rfl := Option.some.inj ((if_pos (Tables.live_iff.mpr there)).symm.trans ruled)
    exact ⟨rfl, Tables.lives_retire _ _⟩
  | unsignalled names => rcases names with rfl | rfl <;> cases ruled
  | @unseen _ write _ _ _ _ _ _ access | @accessed _ write _ _ _ _ _ _ _ _ _ access =>
    subst access
    cases write <;> cases ruled
  | _ => cases ruled

end State

end RaceMonitor
