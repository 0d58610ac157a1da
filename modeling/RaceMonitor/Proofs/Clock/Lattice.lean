import Mathlib.Order.Bounds.Basic
import RaceMonitor.Proofs.Clock.View

/-! The order of clocks.

The comparison walks two lists of entries side by side and stops at the first entry that is not
matched. What it decides is the order of the components, a thread that is absent standing at zero
(`VectorClock.le_iff`). So the order is that of functions, and clocks are a lattice with it: the
join is the least clock above two, the meet the greatest below (`VectorClock.lattice_laws`). -/
namespace RaceMonitor

namespace VectorClock

/-- The walk decides the order of the components. -/
theorem leEntries_iff {xs ys : List Epoch} (hx : Canonical xs) (hy : Canonical ys) :
    leEntries xs ys = true ↔ ∀ tid, component xs tid ≤ component ys tid := by
  induction xs generalizing ys with
  | nil => simp [leEntries, component]
  | cons x xs ih =>
    obtain ⟨later, nonzero, rest⟩ := canonical_cons.mp hx
    have absent : component xs x.tid = 0 := component_eq_zero later
    have sub := List.dropWhile_sublist (l := ys) fun y => decide (y.tid < x.tid)
    have hzs : Canonical (ys.dropWhile fun y => y.tid < x.tid) :=
      ⟨hy.sorted.sublist sub, fun e he => hy.nonzero e (sub.subset he)⟩
    have head := List.head?_dropWhile_not (fun y : Epoch => decide (y.tid < x.tid)) ys
    -- Nothing is asked of the threads before `x`, so those entries may be dropped.
    have dropped : (∀ tid, component (x :: xs) tid ≤ component ys tid) ↔
        ∀ tid, component (x :: xs) tid ≤
          component (ys.dropWhile fun y => y.tid < x.tid) tid := by
      refine forall_congr' fun tid => ?_
      by_cases le : x.tid ≤ tid
      · rw [component_dropWhile ys le]
      · have before : tid < x.tid := UInt32.not_le.mp le
        have none : component (x :: xs) tid = 0 := component_eq_zero fun e he => by
          rcases List.mem_cons.mp he with rfl | he
          · exact before
          · exact UInt32.lt_trans before (later e he)
        rw [none]
        exact iff_of_true UInt32.zero_le UInt32.zero_le
    rw [leEntries, dropped]
    generalize (ys.dropWhile fun y => y.tid < x.tid) = zs at head hzs
    cases zs with
    | nil =>
      refine iff_of_false Bool.false_ne_true fun below => nonzero ?_
      have own := below x.tid
      rw [component_cons, if_pos rfl] at own
      exact UInt32.le_zero_iff.mp own
    | cons y zs =>
      have first : x.tid ≤ y.tid := UInt32.not_lt.mp (by simpa using head)
      simp only [Bool.and_eq_true, decide_eq_true_eq, ih rest hzs]
      constructor
      · intro matched
        obtain ⟨⟨same, less⟩, below⟩ := matched
        intro tid
        rw [component_cons]
        split
        · rename_i own
          rw [component_cons, if_pos (same.trans own)]
          exact less
        · exact below tid
      · intro below
        have own := below x.tid
        rw [component_cons, if_pos rfl] at own
        have same : y.tid = x.tid := by
          apply Decidable.byContradiction
          intro other
          have behind : x.tid < y.tid := UInt32.lt_of_le_of_ne first (Ne.symm other)
          have missing : component (y :: zs) x.tid = 0 := component_eq_zero fun e he => by
            rcases List.mem_cons.mp he with rfl | he
            · exact behind
            · exact UInt32.lt_trans behind ((canonical_cons.mp hzs).1 e he)
          rw [missing] at own
          exact nonzero (UInt32.le_zero_iff.mp own)
        rw [component_cons, if_pos same] at own
        refine ⟨⟨same, own⟩, fun tid => ?_⟩
        have at_ := below tid
        rw [component_cons] at at_
        split at at_
        · rename_i eq
          rw [← eq, absent]
          exact UInt32.zero_le
        · exact at_

/-- A clock is below another when each of its components is. -/
theorem le_iff {a b : VectorClock} : a.le b = true ↔ ∀ tid, a.get tid ≤ b.get tid :=
  leEntries_iff a.canonical b.canonical

theorem ext_get {a b : VectorClock} (same : ∀ tid, a.get tid = b.get tid) : a = b := by
  have entries := entries_eq_iff.mpr same
  cases a
  cases b
  cases entries
  rfl

theorem le_self (a : VectorClock) : a.le a = true := le_iff.mpr fun _ => UInt32.le_refl _

theorem join_le_iff {a b c : VectorClock} :
    (a.join b).le c = true ↔ a.le c = true ∧ b.le c = true := by
  simp only [le_iff, get_join, UInt32.le_iff_toNat_le, Tick.toNat_max, Nat.max_le, forall_and]

theorem le_meet_iff {a b c : VectorClock} :
    a.le (b.meet c) = true ↔ a.le b = true ∧ a.le c = true := by
  simp only [le_iff, get_meet, UInt32.le_iff_toNat_le, Tick.toNat_min, Nat.le_min, forall_and]

instance : Lattice VectorClock where
  le a b := a.le b = true
  le_refl := le_self
  le_trans a b c ab bc := le_iff.mpr fun tid =>
    UInt32.le_trans (le_iff.mp ab tid) (le_iff.mp bc tid)
  le_antisymm a b ab ba := ext_get fun tid =>
    UInt32.le_antisymm (le_iff.mp ab tid) (le_iff.mp ba tid)
  sup := join
  inf := meet
  le_sup_left a b := (join_le_iff.mp (le_self (a.join b))).1
  le_sup_right a b := (join_le_iff.mp (le_self (a.join b))).2
  sup_le a b c ac bc := join_le_iff.mpr ⟨ac, bc⟩
  inf_le_left a b := (le_meet_iff.mp (le_self (a.meet b))).1
  inf_le_right a b := (le_meet_iff.mp (le_self (a.meet b))).2
  le_inf a b c ab ac := le_meet_iff.mpr ⟨ab, ac⟩

/-- A clock with a single component is below another when that component is. -/
theorem single_le_iff {a : VectorClock} {tid : ThreadId} {k : Tick} :
    (empty.set tid k).le a = true ↔ k ≤ a.get tid := by
  rw [le_iff]
  constructor
  · intro below
    have own := below tid
    rwa [get_set, if_pos rfl] at own
  · intro own t
    rw [get_set, get_empty]
    split
    · rename_i same
      exact same ▸ own
    · exact UInt32.zero_le

/-- **Clocks are a lattice**, and the walk over two clocks decides its order: the order of the
components. The join is the least clock above two and the meet the greatest below, so they are
commutative, associative and idempotent and absorb each other. Two clocks are concurrent when
neither is below the other, and an epoch is observed by the clocks that are above the clock with
this one component, which for clock 0 is the empty one. -/
theorem lattice_laws (a b c : VectorClock) :
    (a.le b = true ↔ ∀ tid, a.get tid ≤ b.get tid) ∧
    IsPartialOrder VectorClock (fun a b => a.le b = true) ∧
    IsLUB {a, b} (a.join b) ∧ IsGLB {a, b} (a.meet b) ∧
    (a.join b = b.join a ∧ (a.join b).join c = a.join (b.join c) ∧ a.join a = a ∧
      a.join (a.meet b) = a) ∧
    (a.meet b = b.meet a ∧ (a.meet b).meet c = a.meet (b.meet c) ∧ a.meet a = a ∧
      a.meet (a.join b) = a) ∧
    (a.concurrent b = true ↔ ¬ a.le b = true ∧ ¬ b.le a = true) ∧
    ∀ tid k, Epoch.observedBy ⟨tid, k⟩ a = true ↔ (empty.set tid k).le a = true := by
  have order : IsPartialOrder VectorClock (fun a b => a.le b = true) :=
    inferInstanceAs (IsPartialOrder VectorClock (· ≤ ·))
  refine ⟨le_iff, order, isLUB_pair, isGLB_pair,
    ⟨sup_comm a b, sup_assoc a b c, sup_idem a, sup_inf_self⟩,
    ⟨inf_comm a b, inf_assoc a b c, inf_idem a, inf_sup_self⟩, ?_, fun tid k => ?_⟩
  · simp only [concurrent, Bool.and_eq_true, Bool.not_eq_true', Bool.not_eq_true]
  · rw [single_le_iff, Epoch.observedBy, decide_eq_true_eq]

/-- Neither of these is below the other; both are below their join. -/
example : (ofList [⟨0, 1⟩, ⟨1, 3⟩]).concurrent (ofList [⟨0, 2⟩, ⟨2, 2⟩]) = true ∧
    (ofList [⟨0, 1⟩, ⟨1, 3⟩]).join (ofList [⟨0, 2⟩, ⟨2, 2⟩]) =
      ofList [⟨0, 2⟩, ⟨1, 3⟩, ⟨2, 2⟩] := by decide

end VectorClock

end RaceMonitor
