import RaceMonitor.Clock.Vector

/-! The components of a vector clock.

Every operation on clocks is known by what it does to each component: one thread's is set or
advanced, a join takes the greater one, a meet the smaller, and a fork or a registration starts
from nothing observed. -/
namespace RaceMonitor

theorem Tick.toNat_last : Tick.last.toNat = 4294967295 := rfl

theorem Tick.toNat_le_last (c : Tick) : c.toNat ≤ Tick.last.toNat := by
  have := c.toNat_lt
  simp only [Tick.toNat_last]
  omega

theorem Tick.toNat_next (c : Tick) : c.next.toNat = min (c.toNat + 1) Tick.last.toNat := by
  unfold Tick.next
  split
  · rename_i h
    rw [h, Tick.toNat_last]
    rfl
  · rename_i h
    have hne : c.toNat ≠ Tick.last.toNat := fun he => h (UInt32.toNat_inj.mp he)
    have hle := c.toNat_le_last
    rw [UInt32.toNat_add, Tick.toNat_last] at *
    simp only [UInt32.reduceToNat]
    omega

theorem Tick.toNat_max (a b : Tick) : (max a b).toNat = max a.toNat b.toNat := by
  show (if a ≤ b then b else a).toNat = _
  split
  · rename_i h
    rw [Nat.max_eq_right (UInt32.le_iff_toNat_le.mp h)]
  · rename_i h
    rw [Nat.max_eq_left (UInt32.le_iff_toNat_le.mp (UInt32.le_of_lt (UInt32.not_le.mp h)))]

theorem Tick.toNat_min (a b : Tick) : (min a b).toNat = min a.toNat b.toNat := by
  show (if a ≤ b then a else b).toNat = _
  split
  · rename_i h
    rw [Nat.min_eq_left (UInt32.le_iff_toNat_le.mp h)]
  · rename_i h
    rw [Nat.min_eq_right (UInt32.le_iff_toNat_le.mp (UInt32.le_of_lt (UInt32.not_le.mp h)))]

namespace VectorClock

/-- The component of `tid` in a list of epochs. -/
def component (es : List Epoch) (tid : ThreadId) : Tick :=
  match es.find? fun e => e.tid == tid with
  | some e => e.clock
  | none => 0

theorem component_cons (x : Epoch) (xs : List Epoch) (tid : ThreadId) :
    component (x :: xs) tid = if x.tid = tid then x.clock else component xs tid := by
  by_cases h : x.tid = tid
  · simp [component, h]
  · simp [component, h]

/-- A thread before all that are listed is not listed. -/
theorem component_eq_zero {es : List Epoch} {tid : ThreadId} (h : ∀ e ∈ es, tid < e.tid) :
    component es tid = 0 := by
  induction es with
  | nil => rfl
  | cons x xs ih =>
    have hx : x.tid ≠ tid := (UInt32.ne_of_lt (h x List.mem_cons_self)).symm
    rw [component_cons, if_neg hx]
    exact ih fun e he => h e (List.mem_cons_of_mem x he)

theorem component_place (e : Epoch) {xs : List Epoch} (h : Canonical xs) (tid : ThreadId) :
    component (place e xs) tid = if tid = e.tid then e.clock else component xs tid := by
  induction xs with
  | nil =>
    unfold place
    split
    · rename_i h0
      rw [h0]
      split <;> rfl
    · rw [component_cons]
      simp only [eq_comm]
  | cons x xs ih =>
    obtain ⟨hlt, hx, hxs⟩ := canonical_cons.mp h
    unfold place
    split
    · rename_i hlt
      have hne : x.tid ≠ e.tid := UInt32.ne_of_lt hlt
      rw [component_cons, component_cons, ih hxs]
      grind
    · split
      · rename_i hge heq
        have hzero : component xs e.tid = 0 := component_eq_zero (heq ▸ hlt)
        split
        · rw [component_cons]
          grind
        · simp only [component_cons]
          grind
      · rename_i hge hne
        split
        · rename_i h0
          have hlt' : ∀ y ∈ x :: xs, e.tid < y.tid := by
            have hex : e.tid < x.tid := UInt32.lt_of_le_of_ne (UInt32.not_lt.mp hge) (Ne.symm hne)
            intro y hy
            rcases List.mem_cons.mp hy with rfl | hy
            · exact hex
            · exact UInt32.lt_trans hex (hlt y hy)
          split
          · rename_i ht
            rw [ht, component_eq_zero hlt', h0]
          · rfl
        · rw [component_cons]
          grind

theorem component_joinEntries {xs ys : List Epoch} (hx : Canonical xs) (hy : Canonical ys)
    (tid : ThreadId) :
    component (joinEntries xs ys) tid = max (component xs tid) (component ys tid) := by
  induction xs generalizing ys with
  | nil => exact UInt32.toNat_inj.mp (by simp [Tick.toNat_max, component, joinEntries])
  | cons x xs ih =>
    obtain ⟨hxlt, hxn, hxs⟩ := canonical_cons.mp hx
    induction ys with
    | nil =>
      show component (x :: joinEntries xs []) tid = _
      rw [component_cons, ih hxs hy, component_cons]
      apply UInt32.toNat_inj.mp
      split <;> simp [Tick.toNat_max, component]
    | cons y ys ihy =>
      obtain ⟨hylt, hyn, hys⟩ := canonical_cons.mp hy
      simp only [joinEntries, joinHead]
      split
      · rename_i hlt
        have hzero : component (y :: ys) x.tid = 0 := component_eq_zero fun e he => by
          rcases List.mem_cons.mp he with rfl | he
          · exact hlt
          · exact UInt32.lt_trans hlt (hylt e he)
        rw [component_cons, ih hxs hy, component_cons x xs]
        split
        · rename_i htid
          apply UInt32.toNat_inj.mp
          simp [← htid, hzero, Tick.toNat_max]
        · rfl
      · split
        · rename_i hlt
          have hzero : component (x :: xs) y.tid = 0 := component_eq_zero fun e he => by
            rcases List.mem_cons.mp he with rfl | he
            · exact hlt
            · exact UInt32.lt_trans hlt (hxlt e he)
          show component (y :: joinEntries (x :: xs) ys) tid = _
          rw [component_cons, ihy hys, component_cons y ys]
          split
          · rename_i htid
            apply UInt32.toNat_inj.mp
            simp [← htid, hzero, Tick.toNat_max]
          · rfl
        · rename_i hge hle
          have htid : y.tid = x.tid :=
            UInt32.le_antisymm (UInt32.not_lt.mp hge) (UInt32.not_lt.mp hle)
          rw [component_cons, ih hxs hys, component_cons x xs, component_cons y ys, htid]
          apply UInt32.toNat_inj.mp
          by_cases hc : y.clock ≤ x.clock
          · have := UInt32.le_iff_toNat_le.mp hc
            by_cases ht : x.tid = tid
            · simp only [hc, ht, if_true, Tick.toNat_max]
              omega
            · simp [hc, ht, Tick.toNat_max]
          · have := UInt32.le_iff_toNat_le.mp (UInt32.le_of_lt (UInt32.not_le.mp hc))
            by_cases ht : x.tid = tid
            · simp only [hc, ht, htid, if_true, if_false, Tick.toNat_max]
              omega
            · simp [hc, ht, htid, Tick.toNat_max]

/-- Of the threads from `t` on, nothing is lost with those before. -/
theorem component_dropWhile (ys : List Epoch) {t tid : ThreadId} (le : t ≤ tid) :
    component (ys.dropWhile fun y => y.tid < t) tid = component ys tid := by
  induction ys with
  | nil => rfl
  | cons y ys ih =>
    rw [List.dropWhile_cons]
    split
    · rename_i before
      have lt : y.tid < tid := UInt32.lt_of_lt_of_le (of_decide_eq_true before) le
      rw [ih, component_cons, if_neg (UInt32.ne_of_lt lt)]
    · rfl

theorem min_zero (c : Tick) : min c 0 = 0 := UInt32.toNat_inj.mp (by simp [Tick.toNat_min])

theorem zero_min (c : Tick) : min 0 c = 0 := UInt32.toNat_inj.mp (by simp [Tick.toNat_min])

theorem component_meetEntries {xs ys : List Epoch} (hx : Canonical xs) (hy : Canonical ys)
    (tid : ThreadId) :
    component (meetEntries xs ys) tid = min (component xs tid) (component ys tid) := by
  induction xs generalizing ys with
  | nil => exact (zero_min _).symm
  | cons x xs ih =>
    obtain ⟨hxlt, _, hxs⟩ := canonical_cons.mp hx
    have sub := List.dropWhile_sublist (l := ys) fun y => decide (y.tid < x.tid)
    have hzs : Canonical (ys.dropWhile fun y => y.tid < x.tid) :=
      ⟨hy.sorted.sublist sub, fun e he => hy.nonzero e (sub.subset he)⟩
    have same (le : x.tid ≤ tid) := component_dropWhile ys le
    have head := List.head?_dropWhile_not (fun y : Epoch => decide (y.tid < x.tid)) ys
    rw [meetEntries]
    generalize (ys.dropWhile fun y => y.tid < x.tid) = zs at same head hzs
    have rest := ih hxs hzs
    rw [component_cons]
    by_cases own : x.tid = tid
    · -- The first thread: it is in both lists only if the second starts with it, too.
      rw [if_pos own]
      have none : component xs tid = 0 := component_eq_zero (own ▸ hxlt)
      rw [none, zero_min] at rest
      rw [← same (own ▸ UInt32.le_refl x.tid)]
      cases zs with
      | nil => exact rest.trans (min_zero _).symm
      | cons y zs =>
        rw [component_cons, ← own]
        dsimp only
        split
        · rename_i first
          rw [component_cons, if_pos (by split <;> simp [first])]
          apply UInt32.toNat_inj.mp
          rw [Tick.toNat_min]
          split
          · rename_i less
            have := UInt32.lt_iff_toNat_lt.mp less
            omega
          · rename_i less
            have := UInt32.le_iff_toNat_le.mp (UInt32.not_lt.mp less)
            omega
        · rename_i other
          have behind : x.tid < y.tid :=
            UInt32.lt_of_le_of_ne (UInt32.not_lt.mp (by simpa using head)) (Ne.symm other)
          have later := (canonical_cons.mp hzs).1
          have missing : component zs x.tid = 0 :=
            component_eq_zero fun e he => UInt32.lt_trans behind (later e he)
          rw [own, rest, ← own, missing, min_zero]
    · -- Any other thread: the entry of the first plays no part.
      rw [if_neg own]
      have skipped :
          component (meetEntries xs zs) tid = min (component xs tid) (component ys tid) := by
        rw [rest]
        by_cases le : x.tid ≤ tid
        · rw [same le]
        · have before : ∀ e ∈ xs, tid < e.tid := fun e he =>
            UInt32.lt_trans (UInt32.not_le.mp le) (hxlt e he)
          rw [component_eq_zero before, zero_min, zero_min]
      rw [← skipped]
      cases zs with
      | nil => rfl
      | cons y zs =>
        dsimp only
        split
        · rename_i first
          rw [component_cons, if_neg (by split <;> simp [first, own])]
        · rfl

@[simp] theorem get_empty (tid : ThreadId) : empty.get tid = 0 := rfl

theorem get_set (vc : VectorClock) (t : ThreadId) (c : Tick) (tid : ThreadId) :
    (vc.set t c).get tid = if tid = t then c else vc.get tid :=
  component_place ⟨t, c⟩ vc.canonical tid

theorem get_increment (vc : VectorClock) (t tid : ThreadId) :
    (vc.increment t).get tid = if tid = t then (vc.get t).next else vc.get tid :=
  get_set vc t (vc.get t).next tid

theorem get_join (a b : VectorClock) (tid : ThreadId) :
    (a.join b).get tid = max (a.get tid) (b.get tid) :=
  component_joinEntries a.canonical b.canonical tid

theorem get_meet (a b : VectorClock) (tid : ThreadId) :
    (a.meet b).get tid = min (a.get tid) (b.get tid) :=
  component_meetEntries a.canonical b.canonical tid

end VectorClock

/-- An epoch is observed by a clock whose component has got that far. -/
theorem Epoch.observedBy_iff {e : Epoch} {vc : VectorClock} :
    e.observedBy vc = true ↔ e.clock.toNat ≤ (vc.get e.tid).toNat := by
  simp only [Epoch.observedBy, decide_eq_true_eq, UInt32.le_iff_toNat_le]

end RaceMonitor
