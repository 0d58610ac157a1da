import RaceMonitor.Proofs.Engine.Limits

/-! The states that an engine gets to.

An engine is built, and is then given commands: events, and openings and closings of sessions. All
the while its race callback may turn to it with commands of its own (`Host.Acts`). In every state
that is reached so the limits in force hold, and the log warns of no limit twice between two
openings (`Reached.within_limits`). Opening a session may lower a limit: no population is left by
then that could be too large.

What a callback does it might as well do after the event. So what all events keep while races are
only taken note of holds of the populations in every state that is reached (`Reached.tables`), and
every such state is what a row of events has come to since its session was opened
(`Reached.course`). -/
namespace RaceMonitor

namespace State

variable (s : State)

theorem opened_within (config : Config) : (s.opened config).tables.Within config :=
  .empty rfl rfl

theorem init_checked (args : List String) : Checked s (s.init args).2 := by
  have ignored : ∀ l : List String,
      Tacit (l.map fun a => Output.note (.argumentIgnored a)) := fun l => by
    induction l with
    | nil => exact .nil
    | cons a l ih =>
      have told : Tacit [.note (.argumentIgnored a)] := fun _ => rfl
      exact told.append ih
  unfold init
  dsimp only
  split
  · exact (Checked.silent s (ignored _)).noting fun _ => rfl
  · refine ⟨fun _ => s.opened_within _, ?_⟩
    rw [Exhausted.follow_append, ignored _ s.exhausted]
    rfl

theorem finalize_checked (h : Host) : Checked s (s.finalize h) := by
  refine ⟨fun within => .empty within.limit rfl, ?_⟩
  have left : ∀ n : Nat, Tacit (if n = 0 then [] else [Output.note (.threadsLeft n)]) := fun n => by
    split <;> exact fun _ => rfl
  have closed : Tacit (if s.active then [Output.note (.finalized s.counters)] else []) := by
    split <;> exact fun _ => rfl
  exact (left _).append closed s.exhausted

variable {h : Host} (keeps : h.Keeps)
include keeps

theorem exec_checked (c : Command) : Checked s (s.exec h c).2 := by
  cases c with
  | event e => exact step_checked keeps s e
  | init args => exact s.init_checked args
  | finalize => exact s.finalize_checked h
  | listen on => exact ⟨id, rfl⟩

theorem execAll_checked (cs : List Command) : Checked s (s.execAll h cs) := by
  induction cs generalizing s with
  | nil => exact .refl s
  | cons c cs ih => exact (exec_checked s keeps c).trans (ih _)

end State

/-- The race callback takes note of races, or each time turns to the engine with commands of its
choice; the races found meanwhile go to a callback of the same kind. -/
inductive Host.Acts : Host → Prop where
  | notes (order : Enumeration) : Acts (.recorder order)
  | turns {h inner : Host} (acts : inner.Acts)
    (turn : ∀ race s, ∃ commands, h.onRace race s = s.execAll inner commands) : Acts h

theorem Host.Acts.keeps {h : Host} (acts : h.Acts) : h.Keeps := by
  induction acts with
  | notes order => exact fun _ s => .refl s
  | turns _ turn ih =>
    intro race s
    obtain ⟨commands, turned⟩ := turn race s
    rw [turned]
    exact s.execAll_checked ih commands

/-- A callback that turns to the engine with the same commands each time. -/
theorem Host.Acts.reentrant (order : Enumeration) (commands : List Command) :
    (Host.reentrant order commands).Acts :=
  .turns (.notes order) fun _ _ => ⟨commands, rfl⟩

/-- The same, where all commands that callbacks give are of one kind. -/
inductive Host.ActsBy (may : Command → Prop) : Host → Prop where
  | notes (order : Enumeration) : ActsBy may (.recorder order)
  | turns {h inner : Host} (acts : inner.ActsBy may)
    (turn : ∀ race s, ∃ commands : List Command, (∀ c ∈ commands, may c) ∧
      h.onRace race s = s.execAll inner commands) : ActsBy may h

theorem Host.Acts.actsBy {h : Host} (acts : h.Acts) : h.ActsBy fun _ => True := by
  induction acts with
  | notes order => exact .notes order
  | turns _ turn ih =>
    refine .turns ih fun race s => ?_
    obtain ⟨commands, turned⟩ := turn race s
    exact ⟨commands, fun _ _ => trivial, turned⟩

/-- An engine gets to the state, and has let out `out` since it was built. -/
inductive Reached : State → List Output → Prop where
  | built (policy : Policy) (config : Config) (heard listening : Bool) :
    Reached (State.build policy config heard listening).1
      (State.build policy config heard listening).2
  | exec {s : State} {out : List Output} {h : Host} (reached : Reached s out) (acts : h.Acts)
    (c : Command) : Reached (s.exec h c).2.1 (out ++ (s.exec h c).2.2)

/-- It holds from any state to those that follow, as long as races are only taken note of and no
session is opened or closed but by a command of the kind. -/
structure State.Lasts (may : Command → Prop) (R : State → State → Prop) : Prop where
  refl : ∀ s, R s s
  trans : ∀ {s s' s''}, R s s' → R s' s'' → R s s''
  step : ∀ s (order : Enumeration) (e : Event), R s (s.step (.recorder order) e).1
  listen : ∀ (s : State) (on : Bool), R s { s with listening := on }
  init : ∀ s (args : List String), may (.init args) → R s (s.init args).2.1
  finalize : ∀ s (h : Host), may .finalize → R s (s.finalize h).1

namespace State.Lasts

variable {may : Command → Prop} {R : State → State → Prop} (lasts : State.Lasts may R) {h : Host}
include lasts

theorem exec (called : ∀ race s, R s (h.onRace race s).1) (s : State) {c : Command}
    (allowed : may c) : R s (s.exec h c).2.1 := by
  cases c with
  | init args => exact lasts.init s args allowed
  | finalize => exact lasts.finalize s h allowed
  | listen on => exact lasts.listen s on
  | event e =>
    have plain := lasts.step s h.order e
    have defers := s.step_defers h e
    show R s (s.step h e).1
    generalize s.step (.recorder h.order) e = res, s.step h e = res' at plain defers
    cases defers with
    | silent => exact plain
    | called race s' => exact lasts.trans plain (called race s')

theorem execAll (called : ∀ race s, R s (h.onRace race s).1) (s : State) {cs : List Command}
    (allowed : ∀ c ∈ cs, may c) : R s (s.execAll h cs).1 := by
  induction cs generalizing s with
  | nil => exact lasts.refl s
  | cons c cs ih =>
    rw [List.forall_mem_cons] at allowed
    exact lasts.trans (lasts.exec called s allowed.1) (ih _ allowed.2)

/-- It holds also when callbacks give such commands. -/
theorem called (acts : h.ActsBy may) (race : Race) (s : State) : R s (h.onRace race s).1 := by
  induction acts generalizing race s with
  | notes order => exact lasts.refl s
  | turns _ turn ih =>
    obtain ⟨commands, allowed, turned⟩ := turn race s
    rw [turned]
    exact lasts.execAll ih s allowed

end State.Lasts

/-- It holds of no population, and every event keeps it as long as races are only taken note of. -/
structure Tables.Lasting (P : Tables → Prop) : Prop where
  empty : ∀ maxFreed nextSeq, P (.empty maxFreed nextSeq)
  step : ∀ (s : State) (order : Enumeration) (e : Event), P s.tables →
    P (s.step (.recorder order) e).1.tables

namespace Tables.Lasting

variable {P : Tables → Prop} (lasting : Tables.Lasting P)
include lasting

theorem init (s : State) (args : List String) (holds : P s.tables) :
    P (s.init args).2.1.tables := by
  unfold State.init
  dsimp only
  split
  · exact holds
  · exact lasting.empty _ _

/-- It is kept by commands of any kind. -/
theorem lasts : State.Lasts (fun _ => True) fun s s' => P s.tables → P s'.tables where
  refl _ := id
  trans first second := second ∘ first
  step := lasting.step
  listen _ _ := id
  init s args _ := lasting.init s args
  finalize _ _ _ _ := lasting.empty _ _

end Tables.Lasting

/-- The course of a session up to `s`, with the populations that it has had, the latest first: those
at its opening and after each event. -/
inductive Course : State → List Tables → Prop where
  | opened {s : State} (maxFreed : Word) (nextSeq : Nat)
    (fresh : s.tables = .empty maxFreed nextSeq) : Course s [s.tables]
  | event {s : State} {past : List Tables} (course : Course s past) (order : Enumeration)
    (e : Event) :
    Course (s.step (.recorder order) e).1 ((s.step (.recorder order) e).1.tables :: past)
  | listen {s : State} {past : List Tables} (course : Course s past) (on : Bool) :
    Course { s with listening := on } past

namespace Course

theorem keeps {P : Tables → Prop} (lasting : Tables.Lasting P) {s : State} {past : List Tables}
    (course : Course s past) : P s.tables := by
  induction course with
  | opened maxFreed nextSeq fresh => exact fresh ▸ lasting.empty maxFreed nextSeq
  | event _ order e ih => exact lasting.step _ order e ih
  | listen _ _ ih => exact ih

theorem init {s : State} {past : List Tables} (course : Course s past) (args : List String) :
    ∃ past', Course (s.init args).2.1 past' := by
  unfold State.init
  dsimp only
  split
  · exact ⟨past, course⟩
  · exact ⟨_, .opened _ _ rfl⟩

/-- An opening or closing starts another. -/
theorem lasts : State.Lasts (fun _ => True) fun s s' =>
    (∃ past, Course s past) → ∃ past, Course s' past where
  refl _ := id
  trans first second := second ∘ first
  step _ order e := fun ⟨_, course⟩ => ⟨_, course.event order e⟩
  listen _ on := fun ⟨past, course⟩ => ⟨past, course.listen on⟩
  init _ args _ := fun ⟨_, course⟩ => course.init args
  finalize _ _ _ _ := ⟨_, .opened _ _ rfl⟩

end Course

namespace Reached

variable {s : State} {out : List Output}

/-- What all events keep holds in every state that an engine gets to. -/
theorem tables {P : Tables → Prop} (lasting : Tables.Lasting P) (reached : Reached s out) :
    P s.tables := by
  induction reached with
  | built policy config heard listening =>
    have new := lasting.empty config.maxFreed 0
    cases heard with
    | false => exact new
    | true => exact lasting.init { State.new policy config with listening } [] new
  | exec _ acts c ih =>
    exact lasting.lasts.exec (lasting.lasts.called acts.actsBy) _ trivial ih

/-- Every state that an engine gets to has come about by events one after the other, since its
session was opened. -/
theorem course (reached : Reached s out) : ∃ past, Course s past := by
  induction reached with
  | built policy config heard listening =>
    have new : ∀ s : State, s.tables = .empty config.maxFreed → ∃ past, Course s past :=
      fun s fresh => ⟨_, .opened _ _ fresh⟩
    cases heard with
    | false => exact new _ rfl
    | true =>
      obtain ⟨_, opened⟩ := new { State.new policy config with listening } rfl
      exact opened.init []
  | exec _ acts c ih =>
    exact Course.lasts.exec (Course.lasts.called acts.actsBy) _ trivial ih

theorem execAll (reached : Reached s out) {h : Host} (acts : h.Acts) (cs : List Command) :
    Reached (s.execAll h cs).1 (out ++ (s.execAll h cs).2) := by
  induction cs generalizing s out with
  | nil => simpa [State.execAll] using reached
  | cons c cs ih => simpa [State.execAll] using ih (reached.exec acts c)

/-- The limits hold, and the log gives an account of those that have been reached. -/
theorem kept (reached : Reached s out) :
    s.tables.Within s.config ∧ Exhausted.none.follow out = some s.exhausted := by
  induction reached with
  | built policy config heard listening =>
    have new : (State.new policy config).tables.Within config := .empty rfl rfl
    cases heard with
    | false => exact ⟨new, rfl⟩
    | true =>
      have opened := ({ State.new policy config with listening } : State).init_checked []
      exact ⟨opened.bounded new, opened.logged⟩
  | @exec s out h reached acts c ih =>
    obtain ⟨within, followed⟩ := ih
    have checked := s.exec_checked acts.keeps c
    refine ⟨checked.bounded within, ?_⟩
    rw [Exhausted.follow_append, followed, Option.bind_some, checked.logged]

/-- **Limits bound the populations**, and are warned of once. In every state that an engine gets
to, each limit in force other than 0 holds: on threads, on locks and signals together, on
locations and on freed blocks. And on any stretch of the log, if no session is opened there, each
limit is warned of at most once. -/
theorem within_limits (reached : Reached s out) :
    (s.config.maxThreads ≠ 0 → s.tables.threads.size ≤ s.config.maxThreads.toNat) ∧
    (s.config.maxLocks ≠ 0 →
      s.tables.locks.size + s.tables.signals.size ≤ s.config.maxLocks.toNat) ∧
    (s.config.maxLocations ≠ 0 → s.tables.shadow.size ≤ s.config.maxLocations.toNat) ∧
    (s.config.maxFreed ≠ 0 → s.tables.heap.freed.size ≤ s.config.maxFreed.toNat) ∧
    ∀ before between after : List Output, out = before ++ between ++ after →
      between.any Output.opens = false → ∀ r, between.countP (Output.warns r) ≤ 1 := by
  obtain ⟨within, followed⟩ := reached.kept
  have freed : Config.Allows s.config.maxFreed s.tables.heap.freed.size :=
    within.limit ▸ within.freed
  refine ⟨within.threads, within.locks, within.locations, freed, ?_⟩
  rintro before between after rfl unopened r
  rw [Exhausted.follow_append, Exhausted.follow_append] at followed
  obtain ⟨e', followed, _⟩ := Option.bind_eq_some_iff.mp followed
  obtain ⟨e, _, followed⟩ := Option.bind_eq_some_iff.mp followed
  have once := Exhausted.warns_le followed unopened r
  omega

end Reached

/-- Two threads, two locations, a lock and a signal. -/
def Command.crowd : List Command :=
  [.event (.write 1 5 256 8), .event (.write 2 6 256 8), .event (.write 1 7 264 8),
   .event (.acquire 1 10 false true), .event (.happensBefore 1 20), .event (.write 2 8 264 8)]

/-- Every limit is 1, and is warned of once. -/
theorem Reached.within_limits_crowd :
    let built := State.build .concurrent ⟨16, true, 1, 1, 1, 1⟩ true false
    let crowded := built.1.execAll (.recorder .sorted) Command.crowd
    Reached crowded.1 (built.2 ++ crowded.2) ∧ crowded.1.config.maxThreads = 1 ∧
      crowded.1.tables.threads.size ≤ 1 ∧ crowded.2.any Output.opens = false ∧
      crowded.2.countP (Output.warns .threads) = 1 ∧
      crowded.2.countP (Output.warns .locks) ≤ 1 := by
  intro built crowded
  have reached : Reached crowded.1 (built.2 ++ crowded.2) :=
    (Reached.built .concurrent ⟨16, true, 1, 1, 1, 1⟩ true false).execAll (.notes .sorted)
      Command.crowd
  have one : crowded.1.config.maxThreads = 1 := by decide +kernel
  have unopened : crowded.2.any Output.opens = false := by decide +kernel
  obtain ⟨threads, _, _, _, once⟩ := Reached.within_limits reached
  rw [one] at threads
  have warned := once built.2 crowded.2 [] (by simp) unopened .locks
  exact ⟨reached, one, threads (by decide), unopened, by decide +kernel, warned⟩

end RaceMonitor
