import Mathlib.Tactic.IntervalCases
import RaceMonitor.Proofs.Clock.Lattice
import RaceMonitor.Proofs.Engine.Holders
import RaceMonitor.Proofs.Session.Threads

/-! Critical sections.

An outermost release ends a section that began with an outermost acquire by the same thread
(`Session.exists_section`). A lock can have several holders, so what a thread knows is added to
what the lock knows. Unless somebody else releases the lock in the meantime, it might as well
replace it: with the acquire the thread comes to know all that the lock knows (`Board.Turn.covers`),
it forgets nothing, and the lock learns nothing (`Board.Covers.turn`). -/
namespace RaceMonitor

namespace Board

variable {a : Option ThreadId} {l : Link → Prop} {b b₁ b' : Board} {t : ThreadId} {c : Channel}

/-- A live thread knows whatever is known at the channel. -/
structure Covers (b : Board) (t : ThreadId) (c : Channel) : Prop where
  live : b.live t
  above : ∀ u, b.known (.channel c) u ≤ b.known (.thread t) u

theorem Admits.known_channel (step : Admits a b b') (u : ThreadId) :
    b'.known (.channel c) u = b.known (.channel c) u := by
  cases step with
  | known => rfl
  | entered => simp [enter]

/-- What is known at a channel changes only when something is published there. -/
theorem Turn.known_channel (step : Turn a l b b') (silent : ∀ t, ¬ l (.publish t c))
    (u : ThreadId) : b'.known (.channel c) u = b.known (.channel c) u := by
  cases step with
  | idle | finish | fork | join | acquire | await => simp [enter, flow, tick, retire]
  | publish t c' _ _ only =>
    have other : c ≠ c' := fun same => silent t ((only _).mpr (same ▸ rfl))
    simp [flow, tick, other]

/-- Whoever takes in what is at a channel covers it. -/
theorem Turn.covers (s : b.Sound none) (step : Turn a l b b') (takes : l (.take t c)) :
    b'.Covers t c := by
  cases step with
  | idle none | finish _ _ none => exact absurd takes (none _)
  | fork _ _ _ _ _ only | join _ _ _ _ _ _ only | publish _ _ _ _ only => cases (only _).mp takes
  | acquire t c _ live only =>
    cases (only _).mp takes
    refine ⟨live, fun u => ?_⟩
    have bounded := s.bounded (.channel c) u
    simp only [tick, flow, reduceCtorEq, false_and, if_false, true_and, if_true]
    split <;> omega
  | await t c _ live only =>
    cases (only _).mp takes
    exact ⟨live, fun u => by simp [flow]⟩

/-- A thread covers a channel until something is published there. -/
theorem Covers.turn (h : b.Covers t c) (s : b.Sound none) (admits : Admits a b b₁)
    (step : Turn a l b₁ b') (silent : ∀ t, ¬ l (.publish t c)) (live : b'.live t) :
    b'.Covers t c where
  live := live
  above u := by
    have versed : b.Versed (· = t) u (b.known (.channel c) u) := by
      rintro _ rfl
      exact ⟨fun unborn => unborn.1 h.live, fun _ => h.above u⟩
    rw [step.known_channel silent, admits.known_channel]
    exact ((versed.admits admits).turn (s.admits admits) step t (.inl rfl)).2 live

theorem Turn.live_of_publish (step : Turn a l b b') (link : l (.publish t c)) : b.live t := by
  cases step with
  | idle none | finish _ _ none => exact absurd link (none _)
  | fork _ _ _ _ _ only | join _ _ _ _ _ _ only => cases (only _).mp link
  | acquire _ _ _ _ only | await _ _ _ _ only => cases (only _).mp link
  | publish _ _ _ live only =>
    cases (only _).mp link
    exact live

/-- What a thread publishes at a channel that it covers is all that is known there. -/
theorem Covers.publish (h : b.Covers t c) (admits : Admits a b b₁) (step : Turn a l b₁ b')
    (link : l (.publish t c)) (u : ThreadId) :
    b'.known (.channel c) u = b.known (.thread t) u := by
  cases step with
  | idle none | finish _ _ none => exact absurd link (none _)
  | fork _ _ _ _ _ only | join _ _ _ _ _ _ only => cases (only _).mp link
  | acquire _ _ _ _ only | await _ _ _ _ only => cases (only _).mp link
  | publish t c actor live only =>
    cases (only _).mp link
    have above := h.above u
    cases admits with
    | known => simp [flow, tick, above]
    | entered v same unborn =>
      cases actor.symm.trans same
      exact absurd h.live unborn.1

end Board

namespace Session

variable {r : Session} {tid : ThreadId} {lock : Word}

/-- Events `i` and `j` are an outermost acquire and the outermost release that goes with it. -/
structure Section (r : Session) (i j : Nat) (tid : ThreadId) (lock : Word) : Prop where
  lt : i < j
  acquires : r.Acquires i tid lock
  releases : r.Releases j tid lock
  held : ∀ n, i < n → n ≤ j → (r.state n).nesting lock tid ≠ 0

theorem nesting_zero (r : Session) (lock : Word) (tid : ThreadId) :
    (r.state 0).nesting lock tid = 0 := by
  rw [state_zero, State.nesting, r.fresh]
  rfl

/-- A thread comes to hold a lock by an outermost acquire. -/
theorem acquires_of_nesting {n : Nat} (free : (r.state n).nesting lock tid = 0)
    (held : (r.state (n + 1)).nesting lock tid ≠ 0) : r.Acquires n tid lock := by
  cases event : r.events[n]? with
  | none => exact absurd (state_succ_of_none event ▸ free) held
  | some e =>
    have nests := State.nesting_step r.quiet (r.tidy n) e lock tid
    rw [← state_succ event] at nests
    generalize (r.state (n + 1)).nesting lock tid = depth at nests held
    cases nests with
    | kept same => exact absurd (same.trans free) held
    | acquired ok => exact ⟨⟨_, _, event, ok⟩, free⟩
    | released ok holds => exact absurd free holds

/-- Whoever releases a lock has held it. -/
theorem Releases.held {j : Nat} (releases : r.Releases j tid lock) :
    (r.state j).nesting lock tid ≠ 0 := by
  obtain ⟨⟨isWrite, event, ok⟩, _⟩ := releases
  have nests := State.nesting_step r.quiet (r.tidy j) (.release tid lock isWrite) lock tid
  generalize ((r.state j).step r.host _).1.nesting lock tid = depth at nests
  cases nests with
  | kept same refused => exact absurd ok (refused rfl rfl)
  | released ok holds => exact holds

theorem exists_acquires {n : Nat} (held : (r.state n).nesting lock tid ≠ 0) :
    ∃ i < n, r.Acquires i tid lock ∧ ∀ m, i < m → m ≤ n → (r.state m).nesting lock tid ≠ 0 := by
  induction n with
  | zero => exact absurd (r.nesting_zero lock tid) held
  | succ n ih =>
    by_cases free : (r.state n).nesting lock tid = 0
    · refine ⟨n, Nat.lt_succ_self n, acquires_of_nesting free held, fun m after upTo => ?_⟩
      obtain rfl : m = n + 1 := Nat.le_antisymm upTo after
      exact held
    · obtain ⟨i, lt, acquires, since⟩ := ih free
      refine ⟨i, Nat.lt_succ_of_lt lt, acquires, fun m after upTo => ?_⟩
      rcases Nat.le_succ_iff.mp upTo with upTo | rfl
      · exact since m after upTo
      · exact held

/-- Every outermost release ends a section. -/
theorem exists_section {j : Nat} (releases : r.Releases j tid lock) :
    ∃ i, r.Section i j tid lock := by
  obtain ⟨i, lt, acquires, held⟩ := exists_acquires releases.held
  exact ⟨i, lt, acquires, releases, held⟩

/-- Nobody but `tid` gives up the lock between events `i` and `j`. -/
def Undisturbed (r : Session) (i j : Nat) (tid : ThreadId) (lock : Word) : Prop :=
  ∀ k u, i < k → k < j → u ≠ tid → ¬ r.Releases k u lock

namespace Section

variable {i j : Nat}

theorem covers_acquired (h : r.Section i j tid lock) :
    (r.board (i + 1)).Covers tid (.lock lock) := by
  obtain ⟨b, admits, turn⟩ := r.turned i
  exact turn.covers ((r.sound i).admits admits) (links_acquire.mpr h.acquires)

/-- The thread is there all the time. -/
theorem live (h : r.Section i j tid lock) {n : Nat} (after : i + 1 ≤ n) (upTo : n ≤ j) :
    (r.board n).live tid := by
  refine live_of_le after h.covers_acquired.live fun gone => ?_
  obtain ⟨b, admits, turn⟩ := r.turned j
  have live : b.live tid := turn.live_of_publish (links_release.mpr h.releases)
  refine ((r.sound j).admits admits).apart tid live ?_
  rw [admits.retired]
  exact retired_of_le upTo gone

/-- Nothing is published by way of the lock before the end of an undisturbed section. -/
theorem silent (h : r.Section i j tid lock) (undisturbed : r.Undisturbed i j tid lock) {n : Nat}
    (after : i < n) (before : n < j) (u : ThreadId) : ¬ r.Links n (.publish u (.lock lock)) := by
  rw [links_release]
  intro releases
  by_cases own : u = tid
  · subst own
    exact h.held (n + 1) (Nat.lt_succ_of_lt after) before releases.2
  · exact undisturbed n u after before own releases

theorem covers (h : r.Section i j tid lock) (undisturbed : r.Undisturbed i j tid lock) {n : Nat}
    (after : i + 1 ≤ n) (upTo : n ≤ j) : (r.board n).Covers tid (.lock lock) := by
  induction after with
  | refl => exact h.covers_acquired
  | @step n after ih =>
    obtain ⟨b, admits, turn⟩ := r.turned n
    exact (ih (Nat.le_of_succ_le upTo)).turn (r.sound n) admits turn
      (h.silent undisturbed after upTo) (h.live (Nat.le_succ_of_le after) upTo)

end Section

/-- **A lock that one thread alone has released since it acquired it is left with a copy of that
thread's clock**, whatever came in between: every outermost release ends a section, and if that
was undisturbed, what the lock knows is then what the thread knew at its release. -/
theorem release_copies (r : Session) {j : Nat} {tid : ThreadId} {lock : Word}
    (releases : r.Releases j tid lock) :
    ∃ i, r.Section i j tid lock ∧ (r.Undisturbed i j tid lock →
      ∃ t l, (r.state j).tables.threads[tid]? = some t ∧
        (r.state (j + 1)).tables.locks[lock]? = some l ∧ l.clock = t.clock) := by
  obtain ⟨i, span⟩ := exists_section releases
  refine ⟨i, span, fun undisturbed => ?_⟩
  have covers := span.covers undisturbed span.lt (Nat.le_refl j)
  obtain ⟨t, there⟩ := Table.mem_iff_exists.mp covers.live
  obtain ⟨b, admits, turn⟩ := r.turned j
  have clock : (r.state (j + 1)).tables.clockAt (.channel (.lock lock)) = t.clock := by
    refine VectorClock.ext_get fun u => UInt32.toNat_inj.mp ?_
    rw [← known_of_tracked there]
    exact covers.publish admits turn (links_release.mpr releases) u
  have started := (r.sound j).started tid covers.live
  rw [known_of_tracked there, ← clock] at started
  cases known : (r.state (j + 1)).tables.locks[lock]? with
  | some l => exact ⟨t, l, there, rfl, by simpa [Tables.clockAt, known] using clock⟩
  | none => simp [Tables.clockAt, known] at started

/-- Threads 1 and 2 hold lock 7 together. Before thread 1 gives it up, it takes it again, and takes
another one; it forks a thread, which cannot release the lock; and it signals. -/
def tangled : Session :=
  .default [.acquire 2 7 false true, .acquire 1 7 false true, .acquire 1 7 true true,
    .acquire 1 8 false true, .fork 1 3, .release 3 7 true, .happensBefore 1 9, .release 1 8 true,
    .release 1 7 true, .happensAfter 2 9, .join 1 3, .release 1 7 true, .release 2 7 true]

theorem release_copies_tangled : tangled.Releases 11 1 7 ∧
    ∃ i, tangled.Section i 11 1 7 ∧ tangled.Undisturbed i 11 1 7 ∧
      ∃ t l, (tangled.state 11).tables.threads[(1 : ThreadId)]? = some t ∧
        (tangled.state 12).tables.locks[(7 : Word)]? = some l ∧ l.clock = t.clock := by
  have releases : tangled.Releases 11 1 7 :=
    ⟨⟨true, rfl, by decide +kernel, by decide +kernel⟩, by decide +kernel⟩
  have undisturbed (i : Nat) : tangled.Undisturbed i 11 1 7 := by
    intro k u _ before other releases
    obtain ⟨⟨isWrite, event, ok⟩, _⟩ := releases
    have failed : k = 5 ∧ u = 3 ∧ isWrite = true := by
      interval_cases k <;> simp_all [tangled, Session.default]
    obtain ⟨rfl, rfl, rfl⟩ := failed
    exact absurd ok.1 (by decide +kernel)
  obtain ⟨i, span, copies⟩ := release_copies tangled releases
  exact ⟨releases, i, span, undisturbed i, copies (undisturbed i)⟩

/-- Thread 2 is the other holder: the lock knows more than it does when it releases it. -/
example : ((tangled.state 13).tables.locks[(7 : Word)]?.map Lock.clock) ≠
    ((tangled.state 12).tables.threads[(2 : ThreadId)]?.map Thread.clock) := by
  decide +kernel

end Session

end RaceMonitor
