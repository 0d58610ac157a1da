import RaceMonitor.Proofs.Clock.Component
import RaceMonitor.Proofs.Engine.Memory

/-! The order of enumerations.

In which order the threads and the locations are gone through decides nothing. What the live
threads have all observed is a matter of each of them (`Tables.observedBy_floor`); the accesses
that a range is handed out with are the same in another order (`Walk.forget_perm`), and
each is kept at an address of its own (`Heap.keepAll_perm`). -/
namespace RaceMonitor

namespace VectorClock

/-- An epoch is observed by the meet of some clocks if each of them has observed it. -/
theorem observedBy_meetAll (e : Epoch) (vc : VectorClock) (vcs : List VectorClock) :
    e.observedBy (vcs.foldl meet vc) = true ↔ ∀ v ∈ vc :: vcs, e.observedBy v = true := by
  induction vcs generalizing vc with
  | nil => simp
  | cons v vcs ih =>
    have meet : e.observedBy (vc.meet v) = true ↔
        e.observedBy vc = true ∧ e.observedBy v = true := by
      simp only [Epoch.observedBy_iff, get_meet, Tick.toNat_min]
      omega
    simp only [List.foldl_cons, ih, List.mem_cons, forall_eq_or_imp, meet, and_assoc]

end VectorClock

namespace Tables

variable (o o' : Enumeration)

/-- Where there is a live thread, the floor has observed what each of them has. -/
theorem observedBy_floor {t : Tables} {tid : ThreadId} (live : tid ∈ t.threads) (e : Epoch) :
    e.observedBy (t.floor o) = true ↔ ∀ (tid : ThreadId) (th : Thread),
      t.threads[tid]? = some th → e.observedBy th.clock = true := by
  have mem (th : Thread) : th ∈ o.threads t.threads ↔
      ∃ tid : ThreadId, t.threads[tid]? = some th :=
    (o.threads_perm _).mem_iff.trans Table.mem_values
  obtain ⟨th, found⟩ := Table.mem_iff_exists.mp live
  have there := (mem th).mpr ⟨tid, found⟩
  have all : e.observedBy (t.floor o) = true ↔
      ∀ vc ∈ (o.threads t.threads).map Thread.clock, e.observedBy vc = true := by
    unfold floor
    cases clocks : (o.threads t.threads).map Thread.clock with
    | nil => simp [List.map_eq_nil_iff.mp clocks] at there
    | cons vc vcs => exact VectorClock.observedBy_meetAll e vc vcs
  rw [all, List.forall_mem_map]
  exact ⟨fun each tid th found => each th ((mem th).mpr ⟨tid, found⟩),
    fun each th in_ => (mem th).mp in_ |>.elim fun tid found => each tid th found⟩

/-- Where there is none, it has observed nothing. -/
theorem floor_of_none {t : Tables} (none : ∀ tid, tid ∉ t.threads) : t.floor o = .empty := by
  have empty : o.threads t.threads = [] := by
    refine List.eq_nil_iff_forall_not_mem.mpr fun th there => ?_
    obtain ⟨tid, found⟩ := Table.mem_values.mp ((o.threads_perm _).mem_iff.mp there)
    exact none tid (Table.mem_iff_exists.mpr ⟨th, found⟩)
  rw [floor, empty]
  rfl

theorem observedBy_floor_congr (t : Tables) (e : Epoch) :
    e.observedBy (t.floor o') = e.observedBy (t.floor o) := by
  by_cases live : ∃ tid, tid ∈ t.threads
  · obtain ⟨tid, live⟩ := live
    rw [Bool.eq_iff_iff, observedBy_floor o' live, observedBy_floor o live]
  · rw [floor_of_none o' fun tid live' => live ⟨tid, live'⟩,
      floor_of_none o fun tid live' => live ⟨tid, live'⟩]

/-! ### The accesses of a range -/

/-- From each location on record the last access is kept. -/
theorem mem_dropHistories (shadow : Table Word History) (addrs : List Word) (x : Word)
    (a : Access) : (x, a) ∈ (dropHistories shadow addrs).1 ↔
      x ∈ addrs ∧ ∃ h, shadow[x]? = some h ∧ h.last = some a := by
  induction addrs generalizing shadow with
  | nil => simp [dropHistories]
  | cons addr rest ih =>
    unfold dropHistories
    split
    · rename_i missing
      rw [ih, List.mem_cons]
      by_cases hx : x = addr
      · simp [hx, missing]
      · simp [hx]
    · rename_i history found
      simp only [List.mem_append, Option.mem_toList, Option.map_eq_some_iff, Prod.mk.injEq, ih,
        Table.get_erase, List.mem_cons]
      by_cases hx : x = addr
      · subst hx
        simp [found]
      · simp [hx, Ne.symm hx]

theorem dropHistories_nodup (shadow : Table Word History) (addrs : List Word) :
    ((dropHistories shadow addrs).1.map Prod.fst).Nodup := by
  induction addrs generalizing shadow with
  | nil => exact List.nodup_nil
  | cons addr rest ih =>
    unfold dropHistories
    split
    · exact ih shadow
    · rename_i history found
      cases history.last with
      | none => exact ih _
      | some last =>
        refine List.nodup_cons.mpr ⟨fun again => ?_, ih _⟩
        obtain ⟨⟨x, a⟩, mem, rfl⟩ := List.mem_map.mp again
        obtain ⟨_, h, kept, _⟩ := (mem_dropHistories _ _ _ _).mp mem
        simp at kept

end Tables

namespace Walk

variable {shadow : Table Word History}

/-- The last accesses of the locations in a range. -/
theorem mem_forget (w : Walk shadow) (e : Extent) (x : Word) (a : Access) :
    (x, a) ∈ (w.forget e).1 ↔
      e.spans x = true ∧ ∃ h, shadow[x]? = some h ∧ h.last = some a := by
  rw [forget, Tables.mem_dropHistories]
  refine and_congr_left fun kept => ?_
  obtain ⟨h, found, _⟩ := kept
  exact w.mem_addresses e (Table.mem_iff_exists.mpr ⟨h, found⟩)

theorem forget_nodup (w : Walk shadow) (e : Extent) : ((w.forget e).1.map Prod.fst).Nodup :=
  Tables.dropHistories_nodup ..

/-- The same accesses are returned whichever way, and the same histories left. -/
theorem forget_perm (w w' : Walk shadow) (e : Extent) :
    (w'.forget e).1.Perm (w.forget e).1 ∧ (w'.forget e).2 = (w.forget e).2 := by
  constructor
  · have nodup (w : Walk shadow) := (w.forget_nodup e).of_map
    refine (List.perm_ext_iff_of_nodup (nodup w') (nodup w)).mpr fun ⟨x, a⟩ => ?_
    rw [mem_forget, mem_forget]
  · refine Std.ExtTreeMap.ext_getElem? fun x => ?_
    rw [forget_get, forget_get]

end Walk

namespace Tables

variable (o o' : Enumeration)

theorem mem_forgetRange (shadow : Table Word History) (e : Extent) (x : Word) (a : Access) :
    (x, a) ∈ (forgetRange o shadow e).1 ↔
      e.spans x = true ∧ ∃ h, shadow[x]? = some h ∧ h.last = some a := by
  rw [← Walk.forget_shorter, Walk.mem_forget]

theorem forgetRange_nodup (shadow : Table Word History) (e : Extent) :
    ((forgetRange o shadow e).1.map Prod.fst).Nodup :=
  dropHistories_nodup ..

theorem forgetRange_perm (shadow : Table Word History) (e : Extent) :
    (forgetRange o' shadow e).1.Perm (forgetRange o shadow e).1 ∧
      (forgetRange o' shadow e).2 = (forgetRange o shadow e).2 := by
  rw [← Walk.forget_shorter o', ← Walk.forget_shorter o]
  exact Walk.forget_perm ..

end Tables

namespace Heap

section Unseen

variable {α : Type} {f : Block → Block}

/-- A look-up by number does not see a change of what it does not ask for. -/
theorem map_modifyFreed {g : Block → α} (unseen : ∀ b, g (f b) = g b) (h : Heap) (seq i : Nat) :
    (h.modifyFreed seq f).freed[i]?.map g = h.freed[i]?.map g := by
  rw [modifyFreed, Table.get_modify]
  split
  · rename_i same
    rw [same, Option.map_map]
    exact congrArg (Option.map · h.freed[seq]?) (funext unseen)
  · rfl

theorem any_modifyFreed {p : Block → Bool} (unseen : ∀ b, p (f b) = p b) (h : Heap)
    (seq i : Nat) : (h.modifyFreed seq f).freed[i]?.any p = h.freed[i]?.any p := by
  have any (o : Option Block) : o.any p = (o.map p).any id := by rw [Option.any_map]; rfl
  rw [any, map_modifyFreed unseen, ← any]

/-- A look-up by address sees the ranges alone. -/
theorem overlapping_modifyFreed (h : Heap) (seq : Nat) (extent : ∀ b, (f b).extent = b.extent)
    (e : Extent) : (h.modifyFreed seq f).overlapping e = h.overlapping e := by
  have covers (i : Nat) := any_modifyFreed (p := fun b => b.extent.overlaps e)
    (fun b => congrArg (Extent.overlaps · e) (extent b)) h seq i
  simp only [overlapping, touching, covers]
  rfl

end Unseen

theorem keep_comm (h : Heap) {x y : Word} (ne : x ≠ y) (a b : Access) :
    (h.keep x a).keep y b = (h.keep y b).keep x a := by
  have covering (addr : Word) (access : Access) (e : Extent) :
      (h.keep addr access).overlapping e = h.overlapping e := by
    unfold keep
    split
    · exact overlapping_modifyFreed h _ (f := fun b => { b with kept := b.kept.insert addr access })
        (fun _ => rfl) e
    · rfl
  rw [keep, covering, keep.eq_def (h.keep y b), covering]
  unfold keep
  cases (h.overlapping (Extent.ofByte x)).getLast? with
  | none => cases (h.overlapping (Extent.ofByte y)).getLast? <;> rfl
  | some i =>
    cases (h.overlapping (Extent.ofByte y)).getLast? with
    | none => rfl
    | some j =>
      refine congrArg (fun freed => { h with freed }) (Table.modify_comm fun v => ?_)
      exact congrArg (fun kept => { v with kept }) (Table.insert_comm ne)

/-- Accesses at different addresses are kept in any order. -/
theorem keepAll_perm (h : Heap) {kept kept' : List (Word × Access)} (perm : kept'.Perm kept)
    (nodup : (kept.map Prod.fst).Nodup) :
    kept'.foldl (fun h p => h.keep p.1 p.2) h = kept.foldl (fun h p => h.keep p.1 p.2) h := by
  refine (perm.symm.foldl_eq' (fun p hp q hq h => ?_) h).symm
  by_cases same : p.1 = q.1
  · rw [List.inj_on_of_nodup_map nodup hp hq same]
  · exact h.keep_comm same p.2 q.2

/-- Which blocks go in a sweep is decided by the frees that the floor has observed. -/
theorem dropObserved_congr (h : Heap) {floor floor' : VectorClock}
    (same : ∀ e : Epoch, e.observedBy floor' = e.observedBy floor) :
    h.dropObserved floor' = h.dropObserved floor := by
  simp only [dropObserved, observed, same]

end Heap

end RaceMonitor
