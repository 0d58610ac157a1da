import RaceMonitor.Clock.Epoch

/-! Vector clocks.

A vector clock says how much of every thread's logical time has been observed. Thread ids are
sparse, so it is kept as the epochs of the threads observed at all, sorted by thread and
without zeros; a thread that is absent stands at 0. Joining, meeting and comparing walk two
such lists side by side. -/
namespace RaceMonitor

namespace VectorClock

/-- Sorted by thread, no thread twice, no clock 0. -/
structure Canonical (es : List Epoch) : Prop where
  sorted : es.Pairwise fun a b => a.tid < b.tid
  nonzero : ∀ e ∈ es, e.clock ≠ 0

theorem Canonical.nil : Canonical [] := ⟨.nil, by simp⟩

theorem canonical_cons {x : Epoch} {xs : List Epoch} :
    Canonical (x :: xs) ↔ (∀ e ∈ xs, x.tid < e.tid) ∧ x.clock ≠ 0 ∧ Canonical xs := by
  constructor
  · intro h
    obtain ⟨hs, hn⟩ := h
    have hs := List.pairwise_cons.mp hs
    exact ⟨hs.1, hn x List.mem_cons_self, hs.2, fun e he => hn e (List.mem_cons_of_mem x he)⟩
  · intro h
    obtain ⟨hlt, hx, hs, hn⟩ := h
    exact ⟨List.pairwise_cons.mpr ⟨hlt, hs⟩, List.forall_mem_cons.mpr ⟨hx, hn⟩⟩

/-- Puts an epoch in its place among sorted ones; clock 0 takes the thread out. -/
def place (e : Epoch) : List Epoch → List Epoch
  | [] => if e.clock = 0 then [] else [e]
  | x :: xs =>
    if x.tid < e.tid then x :: place e xs
    else if x.tid = e.tid then (if e.clock = 0 then xs else e :: xs)
    else (if e.clock = 0 then x :: xs else e :: x :: xs)

theorem mem_place {e y : Epoch} {xs : List Epoch} (h : y ∈ place e xs) : y = e ∨ y ∈ xs := by
  induction xs with
  | nil => grind [place]
  | cons x xs ih => grind [place]

theorem Canonical.place (e : Epoch) {xs : List Epoch} (h : Canonical xs) :
    Canonical (place e xs) := by
  induction xs with
  | nil =>
    unfold VectorClock.place
    split
    · exact .nil
    · exact canonical_cons.mpr ⟨by simp, by assumption, .nil⟩
  | cons x xs ih =>
    obtain ⟨hlt, hx, hxs⟩ := canonical_cons.mp h
    unfold VectorClock.place
    split
    · refine canonical_cons.mpr ⟨fun y hy => ?_, hx, ih hxs⟩
      rcases mem_place hy with rfl | hy
      · assumption
      · exact hlt y hy
    · split
      · rename_i htid
        split
        · exact hxs
        · exact canonical_cons.mpr ⟨htid ▸ hlt, by assumption, hxs⟩
      · rename_i hge hne
        split
        · exact h
        · have hex : e.tid < x.tid := UInt32.lt_of_le_of_ne (UInt32.not_lt.mp hge) (Ne.symm hne)
          refine canonical_cons.mpr ⟨fun y hy => ?_, by assumption, h⟩
          rcases List.mem_cons.mp hy with rfl | hy
          · exact hex
          · exact UInt32.lt_trans hex (hlt y hy)

/-- Merges `x` in front of what `rest` makes of the remaining list. -/
def joinHead (x : Epoch) (rest : List Epoch → List Epoch) : List Epoch → List Epoch
  | [] => x :: rest []
  | y :: ys =>
    if x.tid < y.tid then x :: rest (y :: ys)
    else if y.tid < x.tid then y :: joinHead x rest ys
    else (if y.clock ≤ x.clock then x else y) :: rest ys

/-- Merges two sorted lists; of two epochs of one thread the later stays. -/
def joinEntries : List Epoch → List Epoch → List Epoch
  | [] => id
  | x :: xs => joinHead x (joinEntries xs)

theorem mem_joinEntries {e : Epoch} {xs ys : List Epoch} (h : e ∈ joinEntries xs ys) :
    e ∈ xs ∨ e ∈ ys := by
  induction xs generalizing ys with
  | nil => exact .inr h
  | cons x xs ih =>
    induction ys with
    | nil =>
      rcases List.mem_cons.mp h with rfl | h
      · exact .inl List.mem_cons_self
      · exact .inl (List.mem_cons_of_mem x ((ih h).elim id (by simp)))
    | cons y ys ihy =>
      simp only [joinEntries, joinHead] at h ihy
      split at h
      · have := @ih (y :: ys)
        grind
      · split at h
        · grind
        · have := @ih ys
          grind

theorem Canonical.joinEntries {xs ys : List Epoch} (hx : Canonical xs) (hy : Canonical ys) :
    Canonical (joinEntries xs ys) := by
  induction xs generalizing ys with
  | nil => exact hy
  | cons x xs ih =>
    obtain ⟨hxlt, hxn, hxs⟩ := canonical_cons.mp hx
    induction ys with
    | nil =>
      refine canonical_cons.mpr ⟨fun e he => ?_, hxn, ih hxs hy⟩
      exact (mem_joinEntries he).elim (hxlt e) (by simp)
    | cons y ys ihy =>
      obtain ⟨hylt, hyn, hys⟩ := canonical_cons.mp hy
      simp only [VectorClock.joinEntries, joinHead]
      split
      · rename_i hlt
        refine canonical_cons.mpr ⟨fun e he => ?_, hxn, ih hxs hy⟩
        rcases mem_joinEntries he with he | he
        · exact hxlt e he
        · rcases List.mem_cons.mp he with rfl | he
          · exact hlt
          · exact UInt32.lt_trans hlt (hylt e he)
      · split
        · rename_i hlt
          refine canonical_cons.mpr ⟨fun e he => ?_, hyn, ihy hys⟩
          have he : e ∈ VectorClock.joinEntries (x :: xs) ys := he
          rcases mem_joinEntries he with he | he
          · rcases List.mem_cons.mp he with rfl | he
            · exact hlt
            · exact UInt32.lt_trans hlt (hxlt e he)
          · exact hylt e he
        · rename_i hge hle
          have htid : y.tid = x.tid :=
            UInt32.le_antisymm (UInt32.not_lt.mp hge) (UInt32.not_lt.mp hle)
          have hrest := ih hxs hys
          have hbelow : ∀ e ∈ VectorClock.joinEntries xs ys, x.tid < e.tid := fun e he =>
            (mem_joinEntries he).elim (hxlt e) fun he => htid ▸ hylt e he
          split
          · exact canonical_cons.mpr ⟨hbelow, hxn, hrest⟩
          · exact canonical_cons.mpr ⟨htid ▸ hbelow, hyn, hrest⟩

/-- Keeps the threads of the first list that are in the second, with the earlier epoch. -/
def meetEntries : List Epoch → List Epoch → List Epoch
  | [], _ => []
  | x :: xs, ys =>
    let ys := ys.dropWhile fun y => y.tid < x.tid
    match ys with
    | y :: _ =>
      if y.tid = x.tid then (if y.clock < x.clock then y else x) :: meetEntries xs ys
      else meetEntries xs ys
    | [] => meetEntries xs ys

theorem mem_meetEntries {e : Epoch} {xs ys : List Epoch} (h : e ∈ meetEntries xs ys) :
    (∃ x ∈ xs, x.tid = e.tid) ∧ (e ∈ xs ∨ e ∈ ys) := by
  induction xs generalizing ys with
  | nil => simp [meetEntries] at h
  | cons x xs ih =>
    have hdrop : ∀ y ∈ ys.dropWhile fun y => y.tid < x.tid, y ∈ ys :=
      fun y hy => (List.dropWhile_sublist _).subset hy
    rw [meetEntries] at h
    split at h
    · rename_i y ys' heq
      rw [heq] at hdrop
      split at h
      · rename_i htid
        rcases List.mem_cons.mp h with rfl | h
        · split
          · exact ⟨⟨x, List.mem_cons_self, htid.symm⟩, .inr (hdrop y List.mem_cons_self)⟩
          · exact ⟨⟨x, List.mem_cons_self, rfl⟩, .inl List.mem_cons_self⟩
        · rw [heq] at h
          grind
      · rw [heq] at h
        grind
    · rename_i heq
      rw [heq] at h
      grind

theorem Canonical.meetEntries {xs ys : List Epoch} (hx : Canonical xs) (hy : Canonical ys) :
    Canonical (meetEntries xs ys) := by
  induction xs generalizing ys with
  | nil => exact .nil
  | cons x xs ih =>
    obtain ⟨hlt, hxn, hxs⟩ := canonical_cons.mp hx
    have hsub := List.dropWhile_sublist (l := ys) fun y => decide (y.tid < x.tid)
    have hdrop : Canonical (ys.dropWhile fun y => y.tid < x.tid) :=
      ⟨hy.sorted.sublist hsub, fun e he => hy.nonzero e (hsub.subset he)⟩
    have hrest := ih hxs hdrop
    have hbelow : ∀ e ∈ VectorClock.meetEntries xs (ys.dropWhile fun y => y.tid < x.tid),
        x.tid < e.tid := fun e he => by
      obtain ⟨⟨x', hx', htid⟩, _⟩ := mem_meetEntries he
      exact htid ▸ hlt x' hx'
    rw [VectorClock.meetEntries]
    split
    · rename_i y ys' heq
      split
      · rename_i htid
        split
        · refine canonical_cons.mpr ⟨htid ▸ hbelow, ?_, hrest⟩
          exact hdrop.nonzero y (heq ▸ List.mem_cons_self)
        · exact canonical_cons.mpr ⟨hbelow, hxn, hrest⟩
      · exact hrest
    · exact hrest

end VectorClock

structure VectorClock where
  entries : List Epoch
  canonical : VectorClock.Canonical entries
  deriving DecidableEq, Repr

namespace VectorClock

/-- Nothing observed. -/
def empty : VectorClock := ⟨[], .nil⟩

instance : Inhabited VectorClock := ⟨empty⟩

/-- How much of the logical time of `tid` has been observed. -/
def get (vc : VectorClock) (tid : ThreadId) : Tick :=
  match vc.entries.find? fun e => e.tid == tid with
  | some e => e.clock
  | none => 0

/-- The epoch of `tid` as this clock sees it. -/
def epoch (vc : VectorClock) (tid : ThreadId) : Epoch := ⟨tid, vc.get tid⟩

def set (vc : VectorClock) (tid : ThreadId) (clock : Tick) : VectorClock :=
  ⟨place ⟨tid, clock⟩ vc.entries, vc.canonical.place _⟩

/-- Advances the component of `tid` by one, stopping at the last tick. -/
def increment (vc : VectorClock) (tid : ThreadId) : VectorClock :=
  vc.set tid (vc.get tid).next

/-- Component-wise maximum. -/
def join (a b : VectorClock) : VectorClock :=
  ⟨joinEntries a.entries b.entries, a.canonical.joinEntries b.canonical⟩

/-- Component-wise minimum. -/
def meet (a b : VectorClock) : VectorClock :=
  ⟨meetEntries a.entries b.entries, a.canonical.meetEntries b.canonical⟩

/-- Each epoch of the first list is matched in the second by one at least as late. -/
def leEntries : List Epoch → List Epoch → Bool
  | [], _ => true
  | x :: xs, ys =>
    let ys := ys.dropWhile fun y => y.tid < x.tid
    match ys with
    | y :: _ => y.tid = x.tid && x.clock ≤ y.clock && leEntries xs ys
    | [] => false

/-- Whether everything that `a` has observed, `b` has too. -/
def le (a b : VectorClock) : Bool := leEntries a.entries b.entries

/-- Neither clock is below the other. -/
def concurrent (a b : VectorClock) : Bool := !a.le b && !b.le a

/-- The largest clock given for each thread. -/
def ofList (epochs : List Epoch) : VectorClock :=
  epochs.foldl (fun vc e => if vc.get e.tid < e.clock then vc.set e.tid e.clock else vc) empty

def size (vc : VectorClock) : Nat := vc.entries.length

def isEmpty (vc : VectorClock) : Bool := vc.entries.isEmpty

def text (vc : VectorClock) : String :=
  "VC[" ++ String.intercalate ", " (vc.entries.map Epoch.text) ++ "]"

end VectorClock

/-- Whether the clock `vc` has observed this point of its thread's time. -/
def Epoch.observedBy (e : Epoch) (vc : VectorClock) : Bool := e.clock ≤ vc.get e.tid

end RaceMonitor
