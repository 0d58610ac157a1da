import RaceMonitor.Proofs.Engine.Recast

/-! Watching an engine.

After each command there is a result to see, what the callbacks were handed, the counters and the
sizes of the populations. How the populations are kept shows in none of it: neither the order in
which they are enumerated, which may be another one at every command, nor the policy
(`State.watch_build`). -/
namespace RaceMonitor

/-- What there is to see after a command. -/
structure Sight where
  result : Option Bool
  /-- The races and anomalies that the callbacks were handed, in order. -/
  delivered : List Output
  counters : Counters
  sizes : List Nat

namespace State

/-- What there is to see after each command. The command at position `n` runs under `host n`. -/
def watch (s : State) (host : Nat → Host) : List Command → List Sight
  | [] => []
  | c :: cs =>
    let (result, s, out) := s.exec (host 0) c
    ⟨result, delivered out, s.counters, s.sizes⟩ :: s.watch (fun n => host (n + 1)) cs

/-- The same state but for the policy, and for how the freed blocks are stored. -/
def Resembles (p : Policy) (s s' : State) : Prop :=
  ∃ u, s.Renumbered 0 u ∧ s' = u.recast p id

variable {p : Policy} {s s' : State}

theorem Renumbered.sizes {k : Nat} (same : s.Renumbered k s') : s'.sizes = s.sizes := by
  obtain ⟨heap, blocks, rfl⟩ := same
  show [_, _, _, heap.live.size, heap.freed.size] = _
  rw [blocks.live, blocks.freed.size]
  rfl

theorem Renumbered.counters {k : Nat} (same : s.Renumbered k s') : s'.counters = s.counters := by
  obtain ⟨heap, _, rfl⟩ := same
  rfl

/-- Hosts whose callbacks act alike, and do not see the policy, are seen to do the same. -/
theorem exec_resembles {h h' : Host} (alike : h.Alike h') (blind : h'.Blind p id)
    (same : s.Resembles p s') (c : Command) :
    (s'.exec h' c).1 = (s.exec h c).1 ∧ (s.exec h c).2.1.Resembles p (s'.exec h' c).2.1 ∧
      delivered (s'.exec h' c).2.2 = delivered (s.exec h c).2.2 := by
  obtain ⟨u, same, rfl⟩ := same
  obtain ⟨result, state, out⟩ := exec_follows alike same c
  obtain ⟨result', state', out'⟩ := exec_recasts blind u c
  exact ⟨result'.trans result, ⟨_, state, state'⟩, out'.trans (congrArg delivered out)⟩

theorem watch_resembles {host host' : Nat → Host} (alike : ∀ n, (host n).Alike (host' n))
    (blind : ∀ n, (host' n).Blind p id) (same : s.Resembles p s') (cs : List Command) :
    s'.watch host' cs = s.watch host cs := by
  induction cs generalizing s s' host host' with
  | nil => rfl
  | cons c cs ih =>
    obtain ⟨result, after, out⟩ := exec_resembles (alike 0) (blind 0) same c
    have rest := ih (fun n => alike (n + 1)) (fun n => blind (n + 1)) after
    obtain ⟨u, renumbered, recast⟩ := after
    have counters : (s'.exec (host' 0) c).2.1.counters = (s.exec (host 0) c).2.1.counters :=
      (congrArg State.counters recast).trans renumbered.counters
    have sizes : (s'.exec (host' 0) c).2.1.sizes = (s.exec (host 0) c).2.1.sizes :=
      (congrArg State.sizes recast).trans renumbered.sizes
    simp only [watch, result, out, counters, sizes, rest]

/-- A new engine under another policy. -/
theorem build_resembles (p p' : Policy) (config : Config) (heard listening : Bool) :
    (build p config heard listening).1.Resembles p' (build p' config heard listening).1 := by
  have blocks := Heap.Renumbered.empty config.maxFreed 0 0
  cases heard with
  | false => exact ⟨_, ⟨_, blocks, rfl⟩, rfl⟩
  | true => exact ⟨_, ⟨_, blocks, rfl⟩, rfl⟩

/-- However the populations are kept, the same is seen. Two engines under any two policies are
built alike and given the same commands. At every command, each enumerates its populations in an
order of its own; their race callbacks may turn back to the engine with further commands. After
each command both have the same result and have delivered the same races and anomalies in the
same order, with the same counters and the same sizes. -/
theorem watch_build (p p' : Policy) (config : Config) (heard listening : Bool)
    (order order' : Nat → Enumeration) (turns : Nat → List Command) (cs : List Command) :
    (build p' config heard listening).1.watch (fun n => .reentrant (order' n) (turns n)) cs =
      (build p config heard listening).1.watch (fun n => .reentrant (order n) (turns n)) cs :=
  watch_resembles (fun n => Host.reentrant_alike (order n) (order' n) (turns n))
    (fun n => Host.reentrant_blind (order' n) (turns n) p')
    (build_resembles p p' config heard listening) cs

end State

end RaceMonitor
