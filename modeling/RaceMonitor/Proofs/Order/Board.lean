import RaceMonitor.Proofs.Clock.Component
import RaceMonitor.Proofs.Session.HappensBefore

/-! The clocks of a session, seen as a board.

A board says how much of each thread's logical time is known at each place, and which threads
are live or retired. Whatever an event does to the clocks is put together from five moves: a
thread enters, what is known at one place flows to another, a thread's own time advances, a
thread retires. `Sound` is what all moves keep, in particular that a thread's present is known
to itself alone; `Turn` lists what an event may do; and `known_turn` says how knowledge of one
epoch spreads in a turn: to where the event leaves its mark, from where it takes in. What a group
of threads has observed stays with them and their children (`Versed.turn`). -/
namespace RaceMonitor

/-- The last value of logical time. -/
def Tick.limit : Nat := Tick.last.toNat

@[ext]
structure Board where
  /-- How much of a thread's time is known at a place. -/
  known : Place → ThreadId → Nat
  live : ThreadId → Prop
  retired : ThreadId → Prop

/-- The thread at a place. -/
def Place.thread? : Place → Option ThreadId
  | .thread t => some t
  | .channel _ => none

namespace Board

/-- Never seen. -/
def Unborn (b : Board) (t : ThreadId) : Prop := ¬ b.live t ∧ ¬ b.retired t

/-- Threads that are live, and all channels. -/
def Present (b : Board) : Place → Prop
  | .thread t => b.live t
  | .channel _ => True

/-! ### Moves -/

def enter (b : Board) (t : ThreadId) : Board where
  known p u := if p = .thread t ∧ u = t then 1 else b.known p u
  live u := u = t ∨ b.live u
  retired := b.retired

def flow (b : Board) (src dst : Place) : Board where
  known p u := if p = dst then max (b.known p u) (b.known src u) else b.known p u
  live := b.live
  retired := b.retired

def tick (b : Board) (t : ThreadId) : Board where
  known p u := if p = .thread t ∧ u = t then min (b.known p u + 1) Tick.limit else b.known p u
  live := b.live
  retired := b.retired

def retire (b : Board) (t : ThreadId) : Board where
  known p u := if p = .thread t then 0 else b.known p u
  live u := u ≠ t ∧ b.live u
  retired u := u = t ∨ b.retired u

/-! ### What the moves keep -/

/-- Whether a thread's present may be known elsewhere: only while it is being passed on. -/
structure Sound (b : Board) (passing : Option ThreadId) : Prop where
  bounded : ∀ p u, b.known p u ≤ Tick.limit
  started : ∀ t, b.live t → 1 ≤ b.known (.thread t) t
  absent : ∀ t u, ¬ b.live t → b.known (.thread t) u = 0
  unborn : ∀ p t, b.Unborn t → b.known p t = 0
  apart : ∀ t, b.live t → ¬ b.retired t
  ahead : ∀ p t, b.live t → b.known p t ≤ b.known (.thread t) t
  alone : ∀ p t, b.live t → some t ≠ passing → p ≠ .thread t →
    b.known p t < b.known (.thread t) t ∨ b.known (.thread t) t = Tick.limit

variable {b : Board} {passing : Option ThreadId}

theorem Sound.enter (h : b.Sound none) {t : ThreadId} (ht : b.Unborn t) :
    (b.enter t).Sound none where
  bounded p u := by
    have := h.bounded p u
    simp only [Board.enter]
    split
    · decide
    · exact this
  started u hu := by
    simp only [Board.enter]
    split
    · exact Nat.le_refl 1
    · rename_i hne
      rcases hu with rfl | hu
      · exact absurd ⟨rfl, rfl⟩ hne
      · exact h.started u hu
  absent u v hu := by
    have hne : u ≠ t := fun he => hu (.inl he)
    simp only [Board.enter, Place.thread.injEq, hne, false_and, if_false]
    exact h.absent u v fun hl => hu (.inr hl)
  unborn p u hu := by
    have hne : u ≠ t := fun he => hu.1 (.inl he)
    simp only [Board.enter, hne, and_false, if_false]
    exact h.unborn p u ⟨fun hl => hu.1 (.inr hl), hu.2⟩
  apart u hu := by
    rcases hu with rfl | hu
    · exact ht.2
    · exact h.apart u hu
  ahead p u hu := by
    have hzero := h.unborn p t ht
    have := h.ahead p u
    simp only [Board.enter, Place.thread.injEq]
    rcases hu with rfl | hu
    · split <;> simp_all
    · have hne : u ≠ t := fun he => ht.1 (he ▸ hu)
      simp only [hne, and_false, if_false]
      exact this hu
  alone p u hu hp hpu := by
    simp only [Board.enter, Place.thread.injEq]
    rcases hu with rfl | hu
    · have hzero := h.unborn p u ht
      simp [hpu, hzero]
    · have hne : u ≠ t := fun he => ht.1 (he ▸ hu)
      simp only [hne, and_false, if_false]
      exact h.alone p u hu hp hpu

/-- What is known at a place, a thread's present with it, is passed on to another. -/
theorem Sound.flow (h : b.Sound none) (src dst : Place) (hd : b.Present dst) :
    (b.flow src dst).Sound src.thread? where
  bounded p u := by
    have h1 := h.bounded p u
    have h2 := h.bounded src u
    simp only [Board.flow]
    split <;> omega
  started t ht := by
    have := h.started t ht
    simp only [Board.flow]
    split <;> omega
  absent t u ht := by
    simp only [Board.flow]
    split
    · rename_i he
      exact absurd (he ▸ hd : b.Present (.thread t)) ht
    · exact h.absent t u ht
  unborn p t ht := by
    have h1 := h.unborn p t ht
    have h2 := h.unborn src t ht
    simp only [Board.flow]
    split <;> omega
  apart := h.apart
  ahead p t ht := by
    have h1 := h.ahead p t ht
    have h2 := h.ahead src t ht
    simp only [Board.flow]
    split <;> split <;> omega
  alone p t ht hp hpt := by
    have hsrc : src ≠ .thread t := fun he => hp (by rw [he]; rfl)
    have h1 := h.alone p t ht (by simp) hpt
    have h2 := h.alone src t ht (by simp) hsrc
    have h3 := h.bounded (.thread t) t
    have h4 := h.bounded src t
    simp only [Board.flow]
    split <;> split <;> omega

/-- Once its time has advanced, what a thread passed on is its past. -/
theorem Sound.tick (h : b.Sound passing) {t : ThreadId} (ht : b.live t) {passing' : Option ThreadId}
    (hp : passing = passing' ∨ passing = some t) : (b.tick t).Sound passing' where
  bounded p u := by
    have := h.bounded p u
    simp only [Board.tick]
    split <;> omega
  started u hu := by
    have := h.started u hu
    have h1 := h.bounded (.thread u) u
    simp only [Board.tick]
    split <;> omega
  absent u v hu := by
    have hne : u ≠ t := fun he => hu (he ▸ ht)
    simp only [Board.tick, Place.thread.injEq, hne, false_and, if_false]
    exact h.absent u v hu
  unborn p u hu := by
    have hne : u ≠ t := fun he => hu.1 (he ▸ ht)
    simp only [Board.tick, hne, and_false, if_false]
    exact h.unborn p u hu
  apart := h.apart
  ahead p u hu := by
    have h1 := h.ahead p u hu
    have h2 := h.bounded p u
    simp only [Board.tick, Place.thread.injEq]
    by_cases hut : u = t
    · subst hut
      simp only [and_true, if_true]
      split
      · rename_i same
        simp only [same, Nat.le_refl]
      · omega
    · simp only [hut, and_false, if_false, h1]
  alone p u hu hne hpu := by
    have h1 := h.ahead p u hu
    have h2 := h.bounded p u
    have h3 := h.bounded (.thread u) u
    simp only [Board.tick, Place.thread.injEq]
    by_cases hut : u = t
    · subst hut
      simp only [hpu, false_and, if_false, and_self, if_true]
      omega
    · simp only [hut, and_false, if_false]
      refine h.alone p u hu ?_ hpu
      rcases hp with rfl | rfl
      · exact hne
      · exact fun he => hut (Option.some.inj he)

/-- A thread that retires has no present any more. -/
theorem Sound.retire (h : b.Sound passing) {t : ThreadId} (ht : b.live t)
    (hp : passing = none ∨ passing = some t) : (b.retire t).Sound none where
  bounded p u := by
    have := h.bounded p u
    simp only [Board.retire]
    split <;> omega
  started u hu := by
    simp only [Board.retire, Place.thread.injEq, hu.1, if_false]
    exact h.started u hu.2
  absent u v hu := by
    simp only [Board.retire, Place.thread.injEq]
    split
    · rfl
    · rename_i hne
      exact h.absent u v fun hl => hu ⟨hne, hl⟩
  unborn p u hu := by
    have hne : u ≠ t := fun he => hu.2 (.inl he)
    have := h.unborn p u ⟨fun hl => hu.1 ⟨hne, hl⟩, fun hr => hu.2 (.inr hr)⟩
    simp only [Board.retire]
    split <;> omega
  apart u hu hr := by
    rcases hr with rfl | hr
    · exact hu.1 rfl
    · exact h.apart u hu.2 hr
  ahead p u hu := by
    have := h.ahead p u hu.2
    simp only [Board.retire, Place.thread.injEq, hu.1, if_false]
    split <;> omega
  alone p u hu _ hpu := by
    have hne : some u ≠ passing := by
      rcases hp with rfl | rfl
      · simp
      · exact fun he => hu.1 (Option.some.inj he)
    have h1 := h.alone p u hu.2 hne hpu
    have h2 := h.started u hu.2
    simp only [Board.retire, Place.thread.injEq, hu.1, if_false]
    split <;> omega

/-! ### Turns -/

/-- An event may be its thread's first: the thread enters. -/
inductive Admits (a : Option ThreadId) (b : Board) : Board → Prop where
  | known : Admits a b b
  | entered (t : ThreadId) (actor : a = some t) (unborn : b.Unborn t) : Admits a b (b.enter t)

/-- What an event with actor `a` and links `l` may then do. -/
inductive Turn (a : Option ThreadId) (l : Link → Prop) (b : Board) : Board → Prop where
  | idle (none : ∀ k, ¬ l k) : Turn a l b b
  | finish (t : ThreadId) (live : b.live t) (none : ∀ k, ¬ l k) : Turn a l b (b.retire t)
  | fork (p c : ThreadId) (actor : a = some p) (live : b.live p) (unborn : b.Unborn c)
      (only : ∀ k, l k ↔ k = .fork p c) :
      Turn a l b (((b.enter c).flow (.thread p) (.thread c)).tick p)
  | join (p c : ThreadId) (actor : a = some p) (live : b.live p) (child : b.live c) (ne : c ≠ p)
      (only : ∀ k, l k ↔ k = .join p c) :
      Turn a l b (((b.flow (.thread c) (.thread p)).tick p).retire c)
  | publish (t : ThreadId) (c : Channel) (actor : a = some t) (live : b.live t)
      (only : ∀ k, l k ↔ k = .publish t c) :
      Turn a l b ((b.flow (.thread t) (.channel c)).tick t)
  | acquire (t : ThreadId) (c : Channel) (actor : a = some t) (live : b.live t)
      (only : ∀ k, l k ↔ k = .take t c) :
      Turn a l b ((b.flow (.channel c) (.thread t)).tick t)
  | await (t : ThreadId) (c : Channel) (actor : a = some t) (live : b.live t)
      (only : ∀ k, l k ↔ k = .take t c) :
      Turn a l b (b.flow (.channel c) (.thread t))

variable {a : Option ThreadId} {l : Link → Prop} {b' : Board}

theorem Sound.admits (h : b.Sound none) (step : Admits a b b') : b'.Sound none := by
  cases step with
  | known => exact h
  | entered t _ unborn => exact h.enter unborn

theorem Sound.turn (h : b.Sound none) (step : Turn a l b b') : b'.Sound none := by
  cases step with
  | idle => exact h
  | finish t live => exact h.retire live (.inl rfl)
  | fork p c _ live unborn =>
    have hflow := (h.enter unborn).flow (.thread p) (.thread c) (.inl rfl)
    exact hflow.tick (.inr live) (.inr rfl)
  | join p c _ live child ne =>
    have hflow := h.flow (.thread c) (.thread p) live
    exact (hflow.tick live (.inl rfl)).retire child (.inr rfl)
  | publish t c _ live =>
    exact (h.flow (.thread t) (.channel c) trivial).tick live (.inr rfl)
  | acquire t c _ live =>
    exact (h.flow (.channel c) (.thread t) live).tick live (.inl rfl)
  | await t c _ live => exact h.flow (.channel c) (.thread t) live

/-! ### How one epoch spreads -/

/-- Clock `c` of thread `u` has been reached. -/
structure Elapsed (b : Board) (u : ThreadId) (c : Nat) : Prop where
  pos : 1 ≤ c
  born : ¬ b.Unborn u
  reached : b.live u → c ≤ b.known (.thread u) u

variable {u : ThreadId} {c : Nat}

theorem Elapsed.enter (h : b.Elapsed u c) {t : ThreadId} (ht : b.Unborn t) :
    (b.enter t).Elapsed u c where
  pos := h.pos
  born hu := h.born ⟨fun hl => hu.1 (.inr hl), hu.2⟩
  reached hu := by
    have hne : u ≠ t := fun he => h.born (he ▸ ht)
    simp only [Board.enter, hne, and_false, if_false]
    exact h.reached (hu.resolve_left hne)

theorem Elapsed.flow (h : b.Elapsed u c) (src dst : Place) : (b.flow src dst).Elapsed u c where
  pos := h.pos
  born := h.born
  reached hu := by
    have := h.reached hu
    simp only [Board.flow]
    split <;> omega

theorem Elapsed.tick (h : b.Elapsed u c) (s : b.Sound passing) (t : ThreadId) :
    (b.tick t).Elapsed u c where
  pos := h.pos
  born := h.born
  reached hu := by
    have h1 := h.reached hu
    have h2 := s.bounded (.thread u) u
    simp only [Board.tick]
    split <;> omega

theorem Elapsed.retire (h : b.Elapsed u c) (t : ThreadId) : (b.retire t).Elapsed u c where
  pos := h.pos
  born hu := h.born ⟨fun hl => hu.1 ⟨fun he => hu.2 (.inl he), hl⟩, fun hr => hu.2 (.inr hr)⟩
  reached hu := by
    simp only [Board.retire, Place.thread.injEq, hu.1, if_false]
    exact h.reached hu.2

theorem known_enter (h : b.Elapsed u c) {t : ThreadId} (ht : b.Unborn t) (p : Place) :
    c ≤ (b.enter t).known p u ↔ c ≤ b.known p u := by
  have hne : u ≠ t := fun he => h.born (he ▸ ht)
  simp only [Board.enter, hne, and_false, if_false]

theorem known_flow (src dst p : Place) :
    c ≤ (b.flow src dst).known p u ↔ c ≤ b.known p u ∨ (p = dst ∧ c ≤ b.known src u) := by
  simp only [Board.flow]
  split
  · rename_i same
    subst same
    simp only [true_and]
    omega
  · rename_i other
    simp only [other, false_and, or_false]

theorem known_tick (h : b.Elapsed u c) (s : b.Sound passing) {t : ThreadId} (ht : b.live t)
    (p : Place) : c ≤ (b.tick t).known p u ↔ c ≤ b.known p u := by
  simp only [Board.tick]
  split
  · rename_i he
    obtain ⟨rfl, rfl⟩ := he
    have h1 := h.reached ht
    have h2 := s.bounded (.thread u) u
    omega
  · rfl

theorem known_retire {t : ThreadId} {p : Place} (hp : p ≠ .thread t) :
    c ≤ (b.retire t).known p u ↔ c ≤ b.known p u := by
  simp only [Board.retire, hp, if_false]

theorem known_admits (h : b.Elapsed u c) (step : Admits a b b') (p : Place) :
    c ≤ b'.known p u ↔ c ≤ b.known p u := by
  cases step with
  | known => rfl
  | entered t _ unborn => exact known_enter h unborn p

theorem Elapsed.admits (h : b.Elapsed u c) (step : Admits a b b') : b'.Elapsed u c := by
  cases step with
  | known => exact h
  | entered t _ unborn => exact h.enter unborn

theorem Elapsed.turn (h : b.Elapsed u c) (s : b.Sound none) (step : Turn a l b b') :
    b'.Elapsed u c := by
  cases step with
  | idle => exact h
  | finish t live => exact h.retire t
  | fork p q _ live unborn =>
    have hs := (s.enter unborn).flow (.thread p) (.thread q) (.inl rfl)
    exact ((h.enter unborn).flow _ _).tick hs p
  | join p q _ live child ne =>
    have hs := s.flow (.thread q) (.thread p) live
    exact ((h.flow _ _).tick hs p).retire q
  | publish t ch _ live =>
    exact (h.flow _ _).tick (s.flow (.thread t) (.channel ch) trivial) t
  | acquire t ch _ live =>
    exact (h.flow _ _).tick (s.flow (.channel ch) (.thread t) live) t
  | await t ch _ live => exact h.flow _ _

theorem gives_iff {p : Place} : Gives a l p ↔ (∃ t, a = some t ∧ p = .thread t) ∨
    (∃ t d, l (.fork t d) ∧ p = .thread d) ∨ ∃ t c, l (.publish t c) ∧ p = .channel c := by
  constructor
  · intro given
    rcases given with ⟨t, h⟩ | ⟨t, d, h⟩ | ⟨t, c, h⟩
    · exact .inl ⟨t, h, rfl⟩
    · exact .inr (.inl ⟨t, d, h, rfl⟩)
    · exact .inr (.inr ⟨t, c, h, rfl⟩)
  · intro given
    rcases given with ⟨t, h, rfl⟩ | ⟨t, d, h, rfl⟩ | ⟨t, c, h, rfl⟩
    · exact .self t h
    · exact .child t d h
    · exact .publish t c h

theorem takes_iff {p : Place} : Takes a l p ↔ (∃ t, a = some t ∧ p = .thread t) ∨
    (∃ t d, l (.join t d) ∧ p = .thread d) ∨ ∃ t c, l (.take t c) ∧ p = .channel c := by
  constructor
  · intro given
    rcases given with ⟨t, h⟩ | ⟨t, d, h⟩ | ⟨t, c, h⟩
    · exact .inl ⟨t, h, rfl⟩
    · exact .inr (.inl ⟨t, d, h, rfl⟩)
    · exact .inr (.inr ⟨t, c, h, rfl⟩)
  · intro given
    rcases given with ⟨t, h, rfl⟩ | ⟨t, d, h, rfl⟩ | ⟨t, c, h, rfl⟩
    · exact .self t h
    · exact .child t d h
    · exact .take t c h

/-- **How one epoch spreads in a turn**: to the places where the event leaves its mark, from
those where it takes in. -/
theorem known_turn (s : b.Sound none) (h : b.Elapsed u c) (step : Turn a l b b') {p : Place}
    (hp : ∀ t, p = .thread t → ¬ b'.retired t) :
    c ≤ b'.known p u ↔ c ≤ b.known p u ∨ (Gives a l p ∧ ∃ q, Takes a l q ∧ c ≤ b.known q u) := by
  simp only [gives_iff, takes_iff]
  cases step with
  | idle none =>
    simp only [none, false_and, exists_false, or_false]
    grind
  | finish t live none =>
    rw [known_retire fun he => hp t he (.inl rfl)]
    simp only [none, false_and, exists_false, or_false]
    grind
  | fork x y actor live unborn only =>
    have he := h.enter unborn
    have hs := (s.enter unborn).flow (.thread x) (.thread y) (.inl rfl)
    rw [known_tick (he.flow _ _) hs (.inr live), known_flow, known_enter h unborn,
      known_enter h unborn]
    simp only [only, actor]
    grind
  | join x y actor live child ne only =>
    have hs := s.flow (.thread y) (.thread x) live
    rw [known_retire fun he => hp y he (.inl rfl), known_tick (h.flow _ _) hs live, known_flow]
    simp only [only, actor]
    grind
  | publish t ch actor live only =>
    rw [known_tick (h.flow _ _) (s.flow (.thread t) (.channel ch) trivial) live, known_flow]
    simp only [only, actor]
    grind
  | acquire t ch actor live only =>
    rw [known_tick (h.flow _ _) (s.flow (.channel ch) (.thread t) live) live, known_flow]
    simp only [only, actor]
    grind
  | await t ch actor live only =>
    rw [known_flow]
    simp only [only, actor]
    grind

/-! ### What a group has observed -/

/-- All of `A` have been seen, and those who are live know of `u` up to `c`. -/
def Versed (b : Board) (A : ThreadId → Prop) (u : ThreadId) (c : Nat) : Prop :=
  ∀ t, A t → ¬ b.Unborn t ∧ (b.live t → c ≤ b.known (.thread t) u)

namespace Versed

variable {A A' : ThreadId → Prop}

theorem of_imp (h : b.Versed A u c) (imp : ∀ t, A' t → A t) : b.Versed A' u c :=
  fun t mem => h t (imp t mem)

theorem enter (h : b.Versed A u c) {t : ThreadId} (unborn : b.Unborn t) :
    (b.enter t).Versed A u c := by
  intro v mem
  obtain ⟨born, known⟩ := h v mem
  have other : v ≠ t := fun same => born (same ▸ unborn)
  refine ⟨fun gone => born ⟨fun live => gone.1 (.inr live), gone.2⟩, fun live => ?_⟩
  simp only [Board.enter, Place.thread.injEq, other, false_and, if_false]
  exact known (live.resolve_left other)

theorem flow (h : b.Versed A u c) (src dst : Place) : (b.flow src dst).Versed A u c := by
  intro v mem
  obtain ⟨born, known⟩ := h v mem
  refine ⟨born, fun live => ?_⟩
  have := known live
  simp only [Board.flow]
  split <;> omega

theorem tick (h : b.Versed A u c) (s : b.Sound passing) (t : ThreadId) :
    (b.tick t).Versed A u c := by
  intro v mem
  obtain ⟨born, known⟩ := h v mem
  refine ⟨born, fun live => ?_⟩
  have := known live
  have := s.bounded (.thread v) u
  simp only [Board.tick]
  split <;> omega

theorem retire (h : b.Versed A u c) (t : ThreadId) : (b.retire t).Versed A u c := by
  intro v mem
  obtain ⟨born, known⟩ := h v mem
  refine ⟨fun gone => born ⟨fun live => gone.1 ⟨fun same => gone.2 (.inl same), live⟩,
    fun retired => gone.2 (.inr retired)⟩, fun live => ?_⟩
  simp only [Board.retire, Place.thread.injEq, live.1, if_false]
  exact known live.2

theorem admits (h : b.Versed A u c) (step : Admits a b b') : b'.Versed A u c := by
  cases step with
  | known => exact h
  | entered t _ unborn => exact h.enter unborn

/-- A child starts with what its parent knows. -/
theorem fork (h : b.Versed A u c) (s : b.Sound none) {p q : ThreadId} (live : b.live p)
    (unborn : b.Unborn q) :
    (((b.enter q).flow (.thread p) (.thread q)).tick p).Versed (fun t => A t ∨ A p ∧ t = q)
      u c := by
  have sound := (s.enter unborn).flow (.thread p) (.thread q) (.inl rfl)
  refine Versed.tick (fun v mem => ?_) sound p
  rcases mem with old | ⟨parent, rfl⟩
  · exact (h.enter unborn).flow _ _ v old
  · refine ⟨fun gone => gone.1 (.inl rfl), fun _ => ?_⟩
    have told := ((h.enter unborn) p parent).2 (.inr live)
    simp only [Board.flow, if_true]
    omega

/-- **What a whole group has observed is known to their children, too.** -/
theorem turn (h : b.Versed A u c) (s : b.Sound none) (step : Turn a l b b') :
    b'.Versed (fun t => A t ∨ ∃ p, A p ∧ l (.fork p t)) u c := by
  have childless (none : ∀ p t, ¬ l (.fork p t)) :
      ∀ t, (A t ∨ ∃ p, A p ∧ l (.fork p t)) → A t := fun t mem =>
    mem.resolve_right fun ⟨p, _, link⟩ => none p t link
  cases step with
  | idle none => exact h.of_imp (childless fun p t => none _)
  | finish t live none => exact (h.retire t).of_imp (childless fun p t => none _)
  | fork p q _ live unborn only =>
    refine (h.fork s live unborn).of_imp fun t mem => mem.imp_right fun child => ?_
    obtain ⟨_, parent, link⟩ := child
    cases (only _).mp link
    exact ⟨parent, rfl⟩
  | join p q _ live child ne only =>
    have sound := s.flow (.thread q) (.thread p) live
    exact (((h.flow _ _).tick sound p).retire q).of_imp
      (childless fun p t link => nomatch (only _).mp link)
  | publish t ch _ live only =>
    have sound := s.flow (.thread t) (.channel ch) trivial
    exact ((h.flow _ _).tick sound t).of_imp (childless fun p t link => nomatch (only _).mp link)
  | acquire t ch _ live only =>
    have sound := s.flow (.channel ch) (.thread t) live
    exact ((h.flow _ _).tick sound t).of_imp (childless fun p t link => nomatch (only _).mp link)
  | await t ch _ live only =>
    exact (h.flow _ _).of_imp (childless fun p t link => nomatch (only _).mp link)

end Versed

/-! ### How fast time goes -/

/-- No thread's time is beyond `m` anywhere. -/
def Within (b : Board) (m : Nat) : Prop := ∀ p u, b.known p u ≤ m

variable {m : Nat}

theorem Within.enter (h : b.Within m) (pos : 1 ≤ m) (t : ThreadId) : (b.enter t).Within m := by
  intro p u
  have := h p u
  simp only [Board.enter]
  split <;> omega

theorem Within.flow (h : b.Within m) (src dst : Place) : (b.flow src dst).Within m := by
  intro p u
  have h1 := h p u
  have h2 := h src u
  simp only [Board.flow]
  split <;> omega

theorem Within.tick (h : b.Within m) (t : ThreadId) : (b.tick t).Within (m + 1) := by
  intro p u
  have := h p u
  simp only [Board.tick]
  split <;> omega

theorem Within.retire (h : b.Within m) (t : ThreadId) : (b.retire t).Within m := by
  intro p u
  have := h p u
  simp only [Board.retire]
  split <;> omega

theorem Within.admits (h : b.Within m) (pos : 1 ≤ m) (step : Admits a b b') : b'.Within m := by
  cases step with
  | known => exact h
  | entered t => exact h.enter pos t

/-- A turn advances one thread's time by one, if any. -/
theorem Within.turn (h : b.Within m) (pos : 1 ≤ m) (step : Turn a l b b') : b'.Within (m + 1) := by
  have later : ∀ {b : Board}, b.Within m → b.Within (m + 1) := fun h p u =>
    Nat.le_succ_of_le (h p u)
  cases step with
  | idle => exact later h
  | finish t => exact later (h.retire t)
  | fork p c => exact ((h.enter pos c).flow _ _).tick p
  | join p c => exact ((h.flow _ _).tick p).retire c
  | publish t c => exact (h.flow _ _).tick t
  | acquire t c => exact (h.flow _ _).tick t
  | await t c => exact later (h.flow _ _)

end Board

end RaceMonitor
