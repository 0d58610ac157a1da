import RaceMonitor.Proofs.Engine.Lives
import RaceMonitor.Proofs.Session.Access

/-! The life of threads over a session.

Every event moves every thread by at most one step of the automaton, and retired threads are out
of it for good. What a fork, join, detach or finish does is what the rule says, and nothing else
(`Session.threads_lead_lives`). -/
namespace RaceMonitor.Session

variable {r : Session}

/-- The status of every thread when event `n` comes. -/
def lives (r : Session) (n : Nat) : Lives := (r.state n).tables.lives

theorem fate {n : Nat} {e : Event} (event : r.events[n]? = some e) :
    (r.state n).Fate e (r.state (n + 1)).tables :=
  state_succ event ▸ State.step_fate r.quiet (r.tidy n) e

theorem lives_moves (r : Session) (n : Nat) (u : ThreadId) :
    (r.lives n u).Moves (r.lives (n + 1) u) := by
  cases event : r.events[n]? with
  | none =>
    rw [lives, lives, state_succ_of_none event]
    exact .stays _
  | some e => exact (fate event).moves (r.tidy n) u

theorem lives_retired_of_le {n m : Nat} (le : n ≤ m) {u : ThreadId}
    (retired : r.lives n u = .retired) : r.lives m u = .retired := by
  induction le with
  | refl => exact retired
  | @step m _ ih =>
    have moves := r.lives_moves m u
    rw [ih] at moves
    exact moves.retired

/-- **The life of threads.** At every event of a session, no thread is live and retired at once;
every thread makes a move of the automaton; and one that has retired stays so. A thread that
comes into being is a root, unless the event forks it. Where threads are without limit and the
event's thread has not retired, a fork, join, detach or finish does just what the rule says, or is
reported as the anomaly that the rule names, and then nothing becomes of any thread. -/
theorem threads_lead_lives (r : Session) (n : Nat) :
    (∀ u, ¬ (u ∈ (r.state n).tables.threads ∧ u ∈ (r.state n).tables.retired)) ∧
    (∀ u, (r.lives n u).Moves (r.lives (n + 1) u)) ∧
    (∀ u, r.lives n u = .retired → ∀ m, n ≤ m → r.lives m u = .retired) ∧
    (∀ (u : ThreadId) (t : Thread), u ∉ (r.state n).tables.threads →
      (r.state (n + 1)).tables.threads[u]? = some t →
        t.parent = r.events[n]?.bind (Event.forker? u)) ∧
    ∀ e verdict, r.events[n]? = some e → r.start.config.maxThreads = 0 →
      (∀ tid, e.actor? = some tid → tid ∉ (r.state n).tables.retired) →
      (r.lives n).rule e = some verdict →
        (r.state n).Abides (r.state (n + 1), r.output n) verdict := by
  refine ⟨fun u both => (r.sound n).apart u both.1 both.2, r.lives_moves n,
    fun u retired m le => lives_retired_of_le le retired, fun u t missing there => ?_,
    fun e verdict event unlimited alive ruled => ?_⟩
  · cases event : r.events[n]? with
    | none =>
      rw [state_succ_of_none event] at there
      exact absurd (Table.mem_iff_exists.mpr ⟨t, there⟩) missing
    | some e => exact (fate event).parent (r.tidy n) missing there
  · rw [state_succ event, output_eq event]
    refine State.step_abides (r.tidy n) (fun tid actor => ?_) ruled
    exact ⟨(r.config n).symm ▸ unlimited, alive tid actor⟩

/-- A thread that was never seen joins a forked one; then a detached thread is joined, and the
first child's id is forked again. -/
def siblings : Session :=
  .default [.fork 3 4, .join 7 4, .detach 1 3, .join 7 3, .fork 7 4]

theorem threads_lead_lives_siblings : siblings.start.config.maxThreads = 0 ∧
    siblings.lives 2 = ((siblings.lives 1).enter 7).set 4 .retired ∧
    anomalies (siblings.output 3) = [.joinDetached 7 3] ∧
    anomalies (siblings.output 4) = [.threadReused 7 4] ∧
    (siblings.state 5).tables.threads.keys = (siblings.state 2).tables.threads.keys := by
  have unlimited : siblings.start.config.maxThreads = 0 := rfl
  have alive : ∀ n < 5, 7 ∉ (siblings.state n).tables.retired := by decide +kernel
  have joins : (siblings.lives 1).rule (.join 7 4) =
      some (.ok (((siblings.lives 1).enter 7).set 4 .retired)) := by
    rw [Lives.rule, if_neg (by decide +kernel), if_neg (by decide +kernel)]
  have detached : (siblings.lives 3).rule (.join 7 3) = some (.error (.joinDetached 7 3)) := by
    rw [Lives.rule, if_neg (by decide +kernel), if_pos (by decide +kernel)]
  have reused : (siblings.lives 4).rule (.fork 7 4) = some (.error (.threadReused 7 4)) := by
    rw [Lives.rule, if_neg (by decide +kernel)]
  obtain ⟨_, _, _, _, first⟩ := siblings.threads_lead_lives 1
  obtain ⟨_, _, _, _, second⟩ := siblings.threads_lead_lives 3
  obtain ⟨_, _, _, _, third⟩ := siblings.threads_lead_lives 4
  have joined := first _ _ rfl unlimited
    (fun tid actor => Option.some.inj actor ▸ alive 1 (by decide)) joins
  have refused := second _ _ rfl unlimited
    (fun tid actor => Option.some.inj actor ▸ alive 3 (by decide)) detached
  have refused' := third _ _ rfl unlimited
    (fun tid actor => Option.some.inj actor ▸ alive 4 (by decide)) reused
  exact ⟨unlimited, joined.2, refused.1, refused'.1, by decide +kernel⟩

end RaceMonitor.Session
