import RaceMonitor.Proofs.Session.Threads

/-! Descent by forks.

A thread comes into being once, by a fork or when it is first named. What all threads that are
live at some moment have observed is therefore known for good to each of them and to all that
they fork later (`Descends.known`). A thread that is first named later, and whoever it forks,
starts without. -/
namespace RaceMonitor.Session

variable {r : Session}

/-- The thread is live when event `k` comes, or it is forked later by one that descends from such
a thread. -/
inductive Descends (r : Session) (k : Nat) : ThreadId → Prop where
  | live (tid : ThreadId) (live : tid ∈ (r.state k).tables.threads) : Descends r k tid
  | forked (n : Nat) (parent child : ThreadId) (later : k ≤ n)
    (fork : r.Accepted n (.fork parent child)) (parent : Descends r k parent) :
    Descends r k child

/-- What an accepted fork comes to: the child was never seen, and the parent was live or never
seen. -/
structure Forks (r : Session) (n : Nat) (p c : ThreadId) : Prop where
  unborn : (r.board n).Unborn c
  other : c ≠ p
  child : (r.board (n + 1)).live c
  known : (r.board n).live p ∨ (r.board n).Unborn p
  parent : (r.board (n + 1)).live p

theorem Accepted.forks {n : Nat} {p c : ThreadId} (h : r.Accepted n (.fork p c)) :
    r.Forks n p c := by
  obtain ⟨b, admits, turn⟩ := r.turned n
  have link := links_fork.mpr h
  generalize after : r.board (n + 1) = b' at turn
  cases turn with
  | idle none => exact absurd link (none _)
  | finish _ _ none => exact absurd link (none _)
  | join _ _ _ _ _ _ only => cases (only _).mp link
  | publish _ _ _ _ only => cases (only _).mp link
  | acquire _ _ _ _ only => cases (only _).mp link
  | await _ _ _ _ only => cases (only _).mp link
  | fork p' c' actor live unborn only =>
    cases (only _).mp link
    have other : c ≠ p := fun same => unborn.1 (same ▸ live)
    have child : (r.board (n + 1)).live c := after ▸ .inl rfl
    have parent : (r.board (n + 1)).live p := after ▸ .inr live
    cases admits with
    | known => exact ⟨unborn, other, child, .inl live, parent⟩
    | entered t actor' missing =>
      cases actor.symm.trans actor'
      have unseen : (r.board n).Unborn c := ⟨fun there => unborn.1 (.inr there), unborn.2⟩
      exact ⟨unseen, other, child, .inr missing, parent⟩

/-- A thread that has been seen stays live or retires. -/
theorem not_unborn_of_le {n m : Nat} (le : n ≤ m) {tid : ThreadId} (live : (r.board n).live tid) :
    ¬ (r.board m).Unborn tid := (elapsed live le).born

/-- A thread is live throughout. -/
theorem live_between {i j k : Nat} (before : i ≤ j) (after : j ≤ k) {tid : ThreadId}
    (first : (r.board i).live tid) (last : (r.board k).live tid) : (r.board j).live tid := by
  by_contra dead
  by_cases retired : (r.board j).retired tid
  · exact (r.sound k).apart tid last (retired_of_le after retired)
  · exact not_unborn_of_le before first ⟨dead, retired⟩

/-- A thread that has not been seen yet descends from others by a fork to come. -/
theorem Descends.to_come {k n : Nat} {tid : ThreadId} (h : r.Descends k tid) (le : k ≤ n)
    (unborn : (r.board n).Unborn tid) :
    ∃ m p, n ≤ m ∧ r.Accepted m (.fork p tid) ∧ r.Descends k p := by
  cases h with
  | live _ live => exact absurd unborn (not_unborn_of_le le live)
  | forked m p _ later fork parent =>
    refine ⟨m, p, Nat.not_lt.mp fun lt => ?_, fork, parent⟩
    exact not_unborn_of_le lt fork.forks.child unborn

/-- If it comes in with event `n`, then by such a fork. -/
theorem Descends.fork {k n : Nat} {tid : ThreadId} (h : r.Descends k tid) (le : k ≤ n)
    (unborn : (r.board n).Unborn tid) (live : (r.board (n + 1)).live tid) :
    ∃ p, r.Accepted n (.fork p tid) ∧ r.Descends k p := by
  obtain ⟨m, p, before, fork, parent⟩ := h.to_come le unborn
  rcases Nat.eq_or_lt_of_le before with rfl | lt
  · exact ⟨p, fork, parent⟩
  · exact absurd fork.forks.unborn (not_unborn_of_le lt live)

/-- **What all live threads have observed is known to their descendants.** -/
theorem Descends.known {i k n : Nat} {u tid : ThreadId} (h : r.Descends k tid) (plain : r.Plain i u)
    (past : i + 1 ≤ k) (all : ∀ v, (r.board k).live v →
      r.present i u ≤ (r.board k).known (.thread v) u)
    (le : k ≤ n) (live : (r.board n).live tid) :
    r.present i u ≤ (r.board n).known (.thread tid) u := by
  induction le generalizing tid with
  | refl => exact all tid live
  | @step n le ih =>
    have spread := plain.known_succ (Nat.le_trans past le) (vacant_of_live live)
    by_cases before : (r.board n).live tid
    · exact spread.mpr (.inl (ih h before))
    · have unretired : ¬ (r.board n).retired tid := fun retired =>
        (r.sound (n + 1)).apart tid live (retired_of_le (Nat.le_succ n) retired)
      obtain ⟨p, fork, parent⟩ := h.fork le ⟨before, unretired⟩ live
      have forks := fork.forks
      have actor : r.actor? n = some p := by rw [actor?, fork.1]; rfl
      refine spread.mpr (.inr ⟨.child p tid (links_fork.mpr fork), .thread p, .self p actor, ?_⟩)
      rcases forks.known with known | unknown
      · exact ih parent known
      · -- The parent would have to be the child of the same fork.
        obtain ⟨q, fork', _⟩ := parent.fork le unknown forks.parent
        cases fork.1.symm.trans fork'.1
        exact absurd rfl forks.other

end RaceMonitor.Session
