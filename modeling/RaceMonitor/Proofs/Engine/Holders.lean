import RaceMonitor.Proofs.Engine.Step
import RaceMonitor.Proofs.Order.Turns

/-! Who holds a lock.

How often a thread holds a lock is changed by that thread alone, and only by an acquire or a
release of the lock that is accepted (`State.nesting_step`). A release is accepted only if the
thread does hold the lock. -/
namespace RaceMonitor.State

variable {s : State} {h : Host}

/-! ### Looking up -/

theorem nesting_congr {s' : State} (same : s'.tables.locks = s.tables.locks) (lock : Word)
    (tid : ThreadId) : s'.nesting lock tid = s.nesting lock tid := by
  rw [nesting, nesting, same]

theorem nesting_putLock (t : Tables) (id : Word) (l : Lock) (lock : Word) (tid : ThreadId) :
    (s.withTables (t.putLock id l)).nesting lock tid =
      if lock = id then l.depth tid else (s.withTables t).nesting lock tid := by
  simp only [nesting, withTables, Tables.putLock, Table.get_insert]
  split <;> rfl

/-- A lock that is made is held by nobody. -/
theorem lock_nesting {id : Word} {l : Option Lock} {s' : State} {out : List Output}
    (found : s.lock id = (l, s', out)) (lock : Word) (tid : ThreadId) :
    s'.nesting lock tid = s.nesting lock tid := by
  have looked := s.lock_found id
  rw [found] at looked
  cases looked with
  | known => rfl
  | refused => rfl
  | made missing =>
    rw [nesting_putLock]
    split
    · rename_i same
      rw [same, nesting, missing]
      rfl
    · rfl

theorem thread_nesting {t : Option Thread} {by_ : ThreadId} {s' : State} {out : List Output}
    (met : s.thread by_ = (t, s', out)) (lock : Word) (tid : ThreadId) :
    s'.nesting lock tid = s.nesting lock tid := by
  obtain ⟨x, threads, rfl⟩ := thread_shape met
  rfl

/-! ### Acquires and releases -/

/-- What an event makes of how often `tid` holds a lock: `n` times, as often as before unless it
is an acquire or a release of that lock by `tid`, and accepted. -/
inductive Nests (s : State) (h : Host) (lock : Word) (tid : ThreadId) (n : UInt32) :
    Event → Prop where
  | kept {e : Event} (same : n = s.nesting lock tid)
      (refused : e.actor? = some tid → e.subject? = some (.lock lock) → ¬ s.Accepts h e) :
      Nests s h lock tid n e
  | acquired {recursive isWrite : Bool} (ok : s.Accepts h (.acquire tid lock recursive isWrite))
      (deeper : n = Tick.next (s.nesting lock tid)) :
      Nests s h lock tid n (.acquire tid lock recursive isWrite)
  | released {isWrite : Bool} (ok : s.Accepts h (.release tid lock isWrite))
      (held : s.nesting lock tid ≠ 0) (less : n = s.nesting lock tid - 1) :
      Nests s h lock tid n (.release tid lock isWrite)

section Steps

variable {by_ : ThreadId} {id : Word} {t : Thread} {s₁ s₂ : State} {noted noted' : List Output}
  {l l' : Lock} (lock : Word) (tid : ThreadId)

/-- Where the lock `id` is put back, held by others as before, and `n` times by `by_`. -/
theorem nesting_of_put {n : UInt32} {s' : State}
    (depths : ∀ u, l'.depth u = if u = by_ then n else s.nesting id u)
    (locks : s'.tables.locks = (s₂.tables.putLock id l').locks)
    (before : s₂.nesting lock tid = s.nesting lock tid) :
    s'.nesting lock tid = if lock = id ∧ tid = by_ then n else s.nesting lock tid := by
  have put : s'.nesting lock tid = if lock = id then l'.depth tid else s₂.nesting lock tid :=
    (nesting_congr (s := s₂.withTables (s₂.tables.putLock id l')) locks lock tid).trans
      (nesting_putLock ..)
  rw [put, depths, before]
  by_cases named : lock = id
  · simp [named]
  · simp [named]

/-- What somebody else makes of the lock, or the thread of another one. -/
theorem Nests.of_other {e : Event} {n : UInt32} (own : ¬ (lock = id ∧ tid = by_))
    (actor : e.actor? = some by_) (subject : e.subject? = some (.lock id))
    (same : n = s.nesting lock tid) : Nests s h lock tid n e := by
  refine .kept same fun actor' subject' => ?_
  rw [actor] at actor'
  rw [subject] at subject'
  cases actor'
  cases subject'
  exact absurd ⟨rfl, rfl⟩ own

/-- An acquire that is done leaves the lock held once more. -/
theorem Nests.of_acquire {recursive isWrite outermost : Bool}
    (met : s.thread by_ = (some t, s₁, noted)) (found : s₁.lock id = (some l, s₂, noted'))
    (acquired : l.acquire by_ = (outermost, l')) {s' : State}
    (step : (s.step h (.acquire by_ id recursive isWrite)).1 = s')
    (counters : s'.counters = s₂.counters)
    (locks : s'.tables.locks = (s₂.tables.putLock id l').locks) :
    Nests s h lock tid (s'.nesting lock tid) (.acquire by_ id recursive isWrite) := by
  have depths (u : ThreadId) :
      l'.depth u = if u = by_ then Tick.next (s.nesting id by_) else s.nesting id u := by
    have deepened := Lock.depth_acquire l by_ u
    rwa [acquired, nesting_of_found met found, nesting_of_found met found] at deepened
  have nested := nesting_of_put lock tid depths locks
    ((lock_nesting found lock tid).trans (thread_nesting met lock tid))
  by_cases own : lock = id ∧ tid = by_
  · rw [if_pos own] at nested
    obtain ⟨rfl, rfl⟩ := own
    have counted := (lock_counters found).trans (thread_counters met)
    exact .acquired (accepts_of_same step (counters.trans counted)) nested
  · exact .of_other lock tid own rfl rfl (nested.trans (if_neg own))

/-- A release by a holder leaves it held once less. -/
theorem Nests.of_release {isWrite : Bool} {outcome : Release} (tidy : s.tables.Tidy)
    (met : s.thread by_ = (some t, s₁, noted))
    (released : (s₁.tables.locks[id]?.getD .fresh).release by_ = (outcome, l))
    (done : outcome ≠ .notHeld) {s' : State} (step : (s.step h (.release by_ id isWrite)).1 = s')
    (counters : s'.counters = s₁.counters)
    (locks : s'.tables.locks = (s₁.tables.putLock id l').locks) (same : l'.holders = l.holders) :
    Nests s h lock tid (s'.nesting lock tid) (.release by_ id isWrite) := by
  have before (u : ThreadId) : (s₁.tables.locks[id]?.getD .fresh).depth u = s.nesting id u :=
    thread_nesting met id u
  obtain ⟨held, depths⟩ : s.nesting id by_ ≠ 0 ∧
      ∀ u, l.depth u = if u = by_ then s.nesting id by_ - 1 else s.nesting id u := by
    have outcomes := Lock.released ((thread_tidy met tidy).lock id) by_
    rw [released] at outcomes
    cases outcomes with
    | notHeld => exact absurd rfl done
    | nested _ deep _ _ depths =>
      simp only [before] at deep depths
      exact ⟨fun none => absurd (none ▸ deep) (by decide), depths⟩
    | released _ once _ _ depths =>
      simp only [before] at once depths
      exact ⟨fun none => absurd (none.symm.trans once) (by decide), by simpa [once] using depths⟩
  have depths (u : ThreadId) :
      l'.depth u = if u = by_ then s.nesting id by_ - 1 else s.nesting id u := by
    rw [← depths, Lock.depth, same]
    rfl
  have nested := nesting_of_put lock tid depths locks (thread_nesting met lock tid)
  by_cases own : lock = id ∧ tid = by_
  · rw [if_pos own] at nested
    obtain ⟨rfl, rfl⟩ := own
    exact .released (accepts_of_same step (counters.trans (thread_counters met))) held nested
  · exact .of_other lock tid own rfl rfl (nested.trans (if_neg own))

end Steps

/-- **How often a thread holds a lock** is changed by that thread alone, and by every acquire and
release of it that is accepted. -/
theorem nesting_step (quiet : h.Quiet) (tidy : s.tables.Tidy) (e : Event) (lock : Word)
    (tid : ThreadId) : Nests s h lock tid ((s.step h e).1.nesting lock tid) e := by
  have aside (other : ∀ id, e.subject? ≠ some (.lock id)) :
      Nests s h lock tid ((s.step h e).1.nesting lock tid) e :=
    .kept (nesting_congr ((step_frame quiet s e).locks other) lock tid)
      fun _ named => absurd named (other lock)
  obtain ⟨res, step⟩ : ∃ res, s.step h e = res := ⟨_, rfl⟩
  have performed := step ▸ s.performed h e
  rw [step] at aside ⊢
  replace step := congrArg Prod.fst step
  cases performed with
  | accused => exact .kept rfl fun _ _ => not_accepts_of_anomaly step rfl
  | refused _ met =>
    have counted := congrArg (·.untracked + 1) (thread_counters met)
    exact .kept (thread_nesting met lock tid) fun _ _ => not_accepts_of_untracked step counted
  | misused _ met =>
    have counted := congrArg (·.anomalies + 1) (thread_counters met)
    exact .kept (thread_nesting met lock tid) fun _ _ => not_accepts_of_anomaly step counted
  | unlocked met found =>
    have counted := congrArg (·.untracked + 1) ((lock_counters found).trans (thread_counters met))
    exact .kept ((lock_nesting found lock tid).trans (thread_nesting met lock tid))
      fun _ _ => not_accepts_of_untracked step counted
  | acquired met found acquired | reacquired met found acquired =>
    exact .of_acquire lock tid met found acquired step rfl rfl
  | released met released | unnested met released =>
    exact .of_release lock tid tidy met released nofun step rfl rfl rfl
  | unsignalled names => exact aside (by rcases names with rfl | rfl <;> simp [Event.subject?])
  | unseen access | accessed access => exact aside (by simp [access, Event.subject?_access])
  | full | forked | joined | detached | finished | entered | exited | signalled | awaited
  | allocated | freed | mapped => exact aside (by simp [Event.subject?])

end RaceMonitor.State
