import RaceMonitor.Proofs.Order.Board

/-! Clocks grow.

No move of the board takes back what is known at a place, but where a thread retires. So from one
event to the next knowledge only grows, wherever nobody has retired (`Board.Grows.turn`). -/
namespace RaceMonitor.Board

/-- Nothing is forgotten but what retired threads know, and no thread is gone but by retiring. -/
structure Grows (b b' : Board) : Prop where
  retired : ∀ t, b.retired t → b'.retired t
  left : ∀ t, b.live t → b'.live t ∨ b'.retired t
  known : ∀ p u, (∀ t, p = .thread t → ¬ b'.retired t) → b.known p u ≤ b'.known p u

variable {a : Option ThreadId} {l : Link → Prop} {b b' b'' : Board} {passing : Option ThreadId}

namespace Grows

theorem refl (b : Board) : b.Grows b := ⟨fun _ => id, fun _ => .inl, fun _ _ _ => Nat.le_refl _⟩

theorem trans (first : b.Grows b') (second : b'.Grows b'') : b.Grows b'' where
  retired t gone := second.retired t (first.retired t gone)
  left t live := (first.left t live).elim (second.left t) fun gone => .inr (second.retired t gone)
  known p u vacant := by
    have before : ∀ t, p = .thread t → ¬ b'.retired t := fun t here gone =>
      vacant t here (second.retired t gone)
    exact Nat.le_trans (first.known p u before) (second.known p u vacant)

/-- Of a thread that enters nothing has been known. -/
theorem enter (sound : b.Sound none) {t : ThreadId} (unborn : b.Unborn t) :
    b.Grows (b.enter t) where
  retired _ := id
  left _ live := .inl (.inr live)
  known p u _ := by
    show b.known p u ≤ if p = .thread t ∧ u = t then 1 else b.known p u
    split
    · rename_i own
      rw [own.2, sound.unborn p t unborn]
      exact Nat.zero_le 1
    · exact Nat.le_refl _

theorem flow (b : Board) (src dst : Place) : b.Grows (b.flow src dst) where
  retired _ := id
  left _ := .inl
  known p u _ := by
    show b.known p u ≤ if p = dst then max (b.known p u) (b.known src u) else b.known p u
    split
    · exact Nat.le_max_left _ _
    · exact Nat.le_refl _

theorem tick (sound : b.Sound passing) (t : ThreadId) : b.Grows (b.tick t) where
  retired _ := id
  left _ := .inl
  known p u _ := by
    have bounded := sound.bounded p u
    show b.known p u ≤
      if p = .thread t ∧ u = t then min (b.known p u + 1) Tick.limit else b.known p u
    split
    · exact Nat.le_min.mpr ⟨Nat.le_succ _, bounded⟩
    · exact Nat.le_refl _

theorem retire (b : Board) (t : ThreadId) : b.Grows (b.retire t) where
  retired _ := .inr
  left u live := by
    by_cases own : u = t
    · exact .inr (.inl own)
    · exact .inl ⟨own, live⟩
  known p u vacant := by
    have other : p ≠ .thread t := fun here => vacant t here (.inl rfl)
    exact Nat.le_of_eq (if_neg other).symm

theorem admits (sound : b.Sound none) (step : Admits a b b') : b.Grows b' := by
  cases step with
  | known => exact .refl b
  | entered t _ unborn => exact .enter sound unborn

/-- **What is known stays known.** -/
theorem turn (sound : b.Sound none) (step : Turn a l b b') : b.Grows b' := by
  cases step with
  | idle => exact .refl b
  | finish t => exact .retire b t
  | fork p c _ live unborn =>
    have entered := Grows.enter sound unborn
    have passed := (sound.enter unborn).flow (.thread p) (.thread c) (.inl rfl)
    exact (entered.trans (.flow _ _ _)).trans (.tick passed p)
  | join p c _ live =>
    have passed := sound.flow (.thread c) (.thread p) live
    exact ((Grows.flow b _ _).trans (.tick passed p)).trans (.retire _ c)
  | publish t c =>
    exact (Grows.flow b _ _).trans (.tick (sound.flow (.thread t) (.channel c) trivial) t)
  | acquire t c _ live =>
    exact (Grows.flow b _ _).trans (.tick (sound.flow (.channel c) (.thread t) live) t)
  | await t c => exact .flow b _ _

end Grows

end RaceMonitor.Board
