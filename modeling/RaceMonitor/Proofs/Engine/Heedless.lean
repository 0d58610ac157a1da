import RaceMonitor.Proofs.Engine.Performed

/-! Events that pay no heed to the heap.

Only accesses, allocations and frees look at the heap blocks, and no event looks at the policy or
at the configured limit on freed blocks. All other events do the same whatever these are
(`Guise`), and leave them as they are; the counters they count up from where they stand
(`State.step_guised`). -/
namespace RaceMonitor

/-- What an event that pays no heed to the heap does not see. -/
structure Guise where
  policy : Policy
  maxFreed : Word
  heap : Heap
  freedPages : KeySet Word
  counters : Counters

/-- It does count, though. -/
def Guise.count (g : Guise) (f : Counters → Counters) : Guise := { g with counters := f g.counters }

namespace State

def guise (s : State) : Guise :=
  ⟨s.policy, s.config.maxFreed, s.tables.heap, s.tables.freedPages, s.counters⟩

/-- The state in another guise. -/
def guised (s : State) (g : Guise) : State :=
  { s with
    policy := g.policy
    config := { s.config with maxFreed := g.maxFreed }
    tables := { s.tables with heap := g.heap, freedPages := g.freedPages }
    counters := g.counters }

/-! ### Looking up -/

section Lookup

variable {s s' : State} {tid : ThreadId} {id addr : Word} {out : List Output}

theorem reserve_guised {k : Resource} {size : Nat} {free : Bool}
    (reserved : s.reserve k size = (free, s', out)) (g : Guise) :
    (s.guised g).reserve k size = (free, s'.guised g, out) := by
  have limit : (s.guised g).config.limit k = s.config.limit k := by cases k <;> rfl
  have marked : (s.guised g).exhausted = s.exhausted := rfl
  unfold reserve at reserved ⊢
  rw [limit, marked]
  cases full : Config.full (s.config.limit k).toNat size with
  | false =>
    rw [full] at reserved
    cases reserved
    rfl
  | true =>
    rw [full] at reserved
    cases before : s.exhausted.get k <;> (rw [before] at reserved; cases reserved; rfl)

theorem thread_guised {t : Option Thread} (met : s.thread tid = (t, s', out)) (g : Guise) :
    (s.guised g).thread tid = (t, s'.guised g, out) := by
  have tables : (s.guised g).tables.threads = s.tables.threads ∧
    (s.guised g).tables.retired = s.tables.retired := ⟨rfl, rfl⟩
  unfold thread at met ⊢
  rw [tables.1, tables.2]
  cases known : s.tables.threads[tid]? with
  | some th =>
    rw [known] at met
    cases met
    rfl
  | none =>
    rw [known] at met
    cases ended : s.tables.retired.contains tid with
    | true =>
      rw [ended] at met
      cases met
      rfl
    | false =>
      rw [ended] at met
      rcases reserved : s.reserve .threads s.tables.threads.size with ⟨_ | _, s₁, out₁⟩ <;>
        rw [reserved] at met <;> cases met <;>
      (simp only [reserve_guised reserved g]; rfl)

/-- A look-up that finds nothing makes it, if there is room. -/
theorem made_guised {α : Type} {k : Resource} {size : Nat} {fresh : α} {got : Option α}
    (make : Tables → Tables) (g : Guise)
    (same : ((s.withTables (make s.tables)).guised g) =
      (s.guised g).withTables (make (s.guised g).tables))
    (made : (match s.reserve k size with
      | (false, s, out) => (none, s, out)
      | (true, s, out) => (some fresh, s.withTables (make s.tables), out)) = (got, s', out)) :
    (match (s.guised g).reserve k size with
      | (false, s, out) => (none, s, out)
      | (true, s, out) => (some fresh, s.withTables (make s.tables), out)) =
        (got, s'.guised g, out) := by
  by_cases room : s.Room k size
  · have reserved := reserve_of_room room
    rw [reserve_guised reserved g]
    rw [reserved] at made
    cases made
    exact congrArg (fun s => (some fresh, s, [])) same.symm
  · obtain ⟨x, noted, reserved, _⟩ := reserve_of_full room
    rw [reserve_guised reserved g]
    rw [reserved] at made
    cases made
    rfl

theorem lock_guised {l : Option Lock} (found : s.lock id = (l, s', out)) (g : Guise) :
    (s.guised g).lock id = (l, s'.guised g, out) := by
  have locks : (s.guised g).tables.locks = s.tables.locks := rfl
  unfold lock at found ⊢
  rw [locks]
  cases known : s.tables.locks[id]? with
  | some _ =>
    rw [known] at found
    cases found
    rfl
  | none =>
    rw [known] at found
    exact made_guised (fun t => t.putLock id .fresh) g rfl found

theorem signal_guised {vc : Option VectorClock} (found : s.signal id = (vc, s', out))
    (g : Guise) : (s.guised g).signal id = (vc, s'.guised g, out) := by
  have signals : (s.guised g).tables.signals = s.tables.signals := rfl
  unfold signal at found ⊢
  rw [signals]
  cases known : s.tables.signals[id]? with
  | some _ =>
    rw [known] at found
    cases found
    rfl
  | none =>
    rw [known] at found
    exact made_guised (fun t => t.putSignal id .empty) g rfl found

theorem location_guised {history : Option History}
    (looked : s.location addr = (history, s', out)) (g : Guise) :
    (s.guised g).location addr = (history, s'.guised g, out) := by
  have shadow : (s.guised g).tables.shadow = s.tables.shadow := rfl
  unfold location at looked ⊢
  rw [shadow]
  cases known : s.tables.shadow[addr]? with
  | some _ =>
    rw [known] at looked
    cases looked
    rfl
  | none =>
    rw [known] at looked
    exact made_guised (fun t => t.putHistory addr .empty) g rfl looked

end Lookup

/-! ### Events -/

section Events

variable {s s₁ : State} {h : Host} {e : Event} {a : Anomaly} {tid : ThreadId} {t : Thread}

theorem Accuses.guised (accuses : s.Accuses e a) (g : Guise) : (s.guised g).Accuses e a := by
  cases accuses with
  | reused taken => exact .reused taken
  | unjoinable unknown => exact .unjoinable unknown
  | detached other there detached => exact .detached other there detached
  | undetachable unknown => exact .undetachable unknown
  | unfinishable unknown => exact .unfinishable unknown

theorem Summons.guised (summons : s.Summons e tid) (g : Guise) : (s.guised g).Summons e tid := by
  cases summons with
  | fork other missing alive => exact .fork other missing alive
  | join other there joinable => exact .join other there joinable
  | enter => exact .enter
  | exit => exact .exit
  | release => exact .release

theorem Misuses.guised (misuses : s.Misuses t e a) (g : Guise) : (s.guised g).Misuses t e a := by
  cases misuses with
  | release unheld => exact .release unheld
  | exit empty => exact .exit empty

/-- **An event that pays no heed to the heap** does the same in every guise, and counts. -/
theorem step_guised (s : State) (h : Host) (heedless : e.heeds = false) :
    ∃ f : Counters → Counters, ∀ g : Guise,
      (s.guised g).step h e = ((s.step h e).1.guised (g.count f), (s.step h e).2) := by
  let drop (c : Counters) : Counters := { c with untracked := c.untracked + 1 }
  let blame (c : Counters) : Counters := { c with anomalies := c.anomalies + 1 }
  have performed := s.performed h e
  generalize s.step h e = res at performed ⊢
  cases performed with
  | accused accuses => exact ⟨blame, fun g => (accuses.guised g).step_eq⟩
  | refused summons met =>
    exact ⟨drop, fun g => (summons.guised g).refused_eq (thread_guised met g)⟩
  | misused summons met misuses =>
    exact ⟨blame, fun g =>
      (summons.guised g).misused_eq (thread_guised met g) (misuses.guised g)⟩
  | full summons met full =>
    exact ⟨drop, fun g => Performed.step_eq
      (.full (summons.guised g) (thread_guised met g) (reserve_guised full g))⟩
  | forked summons met room =>
    exact ⟨id, fun g => Performed.step_eq (.forked (summons.guised g) (thread_guised met g) room)⟩
  | joined other there joinable met =>
    refine ⟨id, fun g => ?_⟩
    have there : (s.guised g).tables.threads[_]? = some _ := there
    exact Performed.step_eq (.joined other there joinable (thread_guised met g))
  | detached there => exact ⟨id, fun g => Performed.step_eq (.detached there)⟩
  | finished there => exact ⟨id, fun g => Performed.step_eq (.finished there)⟩
  | entered met => exact ⟨id, fun g => Performed.step_eq (.entered (thread_guised met g))⟩
  | exited met left => exact ⟨id, fun g => Performed.step_eq (.exited (thread_guised met g) left)⟩
  | unlocked met found missing =>
    exact ⟨drop, fun g =>
      Performed.step_eq (.unlocked (thread_guised met g) (lock_guised found g) missing)⟩
  | acquired met found outermost =>
    exact ⟨id, fun g =>
      Performed.step_eq (.acquired (thread_guised met g) (lock_guised found g) outermost)⟩
  | reacquired met found nested =>
    exact ⟨id, fun g =>
      Performed.step_eq (.reacquired (thread_guised met g) (lock_guised found g) nested)⟩
  | released met outermost =>
    exact ⟨id, fun g => Performed.step_eq (.released (thread_guised met g) outermost)⟩
  | unnested met nested =>
    exact ⟨id, fun g => Performed.step_eq (.unnested (thread_guised met g) nested)⟩
  | unsignalled names met found missing =>
    exact ⟨drop, fun g => Performed.step_eq (.unsignalled names (thread_guised met g)
      (signal_guised found g) missing)⟩
  | signalled met found =>
    exact ⟨id, fun g =>
      Performed.step_eq (.signalled (thread_guised met g) (signal_guised found g))⟩
  | awaited met found =>
    exact ⟨id, fun g => Performed.step_eq (.awaited (thread_guised met g) (signal_guised found g))⟩
  | mapped => exact ⟨id, fun g => rfl⟩
  | allocated | freed => cases heedless
  | unseen access | accessed access =>
    rw [access, Event.heeds_access] at heedless
    cases heedless

end Events

/-! ### In another house

The policy and the limit on freed blocks are mostly the same. -/

/-- The state with other heap blocks, other marked pages and other counters. -/
def rehoused (s : State) (heap : Heap) (pages : KeySet Word) (counters : Counters) : State :=
  { s with tables := { s.tables with heap, freedPages := pages }, counters }

/-- Whatever the heap and the marks are, `act` does the same and leaves them alone; `f` is what it
does to the counters. -/
def Heedless (s : State) (act : State → State × List Output) : Prop :=
  ∃ f : Counters → Counters, ∀ heap pages c,
    act (s.rehoused heap pages c) = ((act s).1.rehoused heap pages (f c), (act s).2)

section Rehoused

variable (s : State) (heap : Heap) (pages : KeySet Word) (c : Counters)

theorem rehoused_self : s.rehoused s.tables.heap s.tables.freedPages s.counters = s := rfl

@[simp] theorem rehoused_threads :
    (s.rehoused heap pages c).tables.threads = s.tables.threads := rfl

@[simp] theorem rehoused_shadow :
    (s.rehoused heap pages c).tables.shadow = s.tables.shadow := rfl

@[simp] theorem rehoused_heap : (s.rehoused heap pages c).tables.heap = heap := rfl

@[simp] theorem rehoused_freedPages : (s.rehoused heap pages c).tables.freedPages = pages := rfl

@[simp] theorem rehoused_config : (s.rehoused heap pages c).config = s.config := rfl

/-- The guise in which a state is rehoused. -/
def house : Guise := { s.guise with heap, freedPages := pages, counters := c }

variable {s} in
theorem guised_house {s' : State} (policy : s'.policy = s.policy)
    (config : s'.config.maxFreed = s.config.maxFreed) :
    s'.guised (s.house heap pages c) = s'.rehoused heap pages c := by
  simp only [guised, house, guise, ← policy, ← config]
  rfl

variable {s} {s' : State} {out : List Output}

theorem thread_rehoused {tid : ThreadId} {t : Option Thread} (met : s.thread tid = (t, s', out)) :
    (s.rehoused heap pages c).thread tid = (t, s'.rehoused heap pages c, out) := by
  obtain ⟨x, threads, rfl⟩ := thread_shape met
  exact thread_guised met (s.house heap pages c)

theorem location_rehoused {addr : Word} {history : Option History}
    (looked : s.location addr = (history, s', out)) :
    (s.rehoused heap pages c).location addr = (history, s'.rehoused heap pages c, out) := by
  obtain ⟨x, shadow, rfl⟩ := location_shape looked
  exact location_guised looked (s.house heap pages c)

variable (s) in
theorem raiseAnomaly_heedless (a : Anomaly) : s.Heedless fun s => s.raiseAnomaly a :=
  ⟨fun c => { c with anomalies := c.anomalies + 1 }, fun _ _ _ => rfl⟩

end Rehoused

/-- An event that does not look at the heap blocks does the same whatever they are. -/
theorem step_heedless (s : State) (h : Host) {e : Event} (heedless : e.heeds = false) :
    s.Heedless fun s => s.step h e := by
  obtain ⟨f, acts⟩ := s.step_guised h heedless
  -- in its own guise the state shows that the policy and the limit stay
  have own : (s.step h e).1 = (s.step h e).1.guised (s.guise.count f) :=
    congrArg Prod.fst (acts s.guise)
  have policy : (s.step h e).1.policy = s.policy := by rw [own]; rfl
  have maxFreed : (s.step h e).1.config.maxFreed = s.config.maxFreed := by rw [own]; rfl
  refine ⟨f, fun heap pages c => (acts (s.house heap pages c)).trans (Prod.ext ?_ rfl)⟩
  exact guised_house heap pages (f c) policy maxFreed

end State

end RaceMonitor
