import RaceMonitor.Proofs.Heap.Freed

/-! Live blocks.

Only an allocation and a free touch the live blocks. The block around an address is looked for
in one place, the nearest first address below (`Heap.blockAt_nearest`). -/
namespace RaceMonitor.Heap

/-! ### What leaves the live blocks alone -/

theorem drop_live (h : Heap) (seq : Nat) : (h.drop seq).2.live = h.live := by
  unfold drop
  split <;> rfl

theorem dropAll_live (h : Heap) (seqs : List Nat) : (h.dropAll seqs).2.live = h.live := by
  unfold dropAll
  generalize ([] : List Extent) = gone
  induction seqs generalizing gone h with
  | nil => rfl
  | cons seq seqs ih => exact (ih (h.drop seq).2 _).trans (h.drop_live seq)

theorem handOutOne_live (h : Heap) (seq : Nat) : (h.handOutOne seq).2.2.live = h.live := by
  unfold handOutOne
  split
  · exact h.drop_live seq
  · rfl

theorem handOut_live (h : Heap) (e : Extent) : (h.handOut e).2.2.live = h.live := by
  unfold handOut
  generalize h.overlapping e = seqs, false = any, ([] : List Extent) = gone
  induction seqs generalizing any gone h with
  | nil => rfl
  | cons seq seqs ih => exact (ih (h.handOutOne seq).2.2 _ _).trans (h.handOutOne_live seq)

theorem keep_live (h : Heap) (addr : Word) (access : Access) :
    (h.keep addr access).live = h.live := by
  unfold keep
  split <;> rfl

theorem keepAll_live (h : Heap) (kept : List (Word × Access)) :
    (kept.foldl (fun h p => h.keep p.1 p.2) h).live = h.live := by
  induction kept generalizing h with
  | nil => rfl
  | cons p kept ih => exact (ih (h.keep p.1 p.2)).trans (h.keep_live p.1 p.2)

theorem dropOldest_live (h : Heap) (n : Nat) : (h.dropOldest n).2.live = h.live := by
  induction n generalizing h with
  | zero => rfl
  | succ n ih =>
    unfold dropOldest
    split
    · rfl
    · exact (ih _).trans (h.drop_live _)

theorem evict_live (h : Heap) : h.evict.2.live = h.live := by
  unfold evict
  split
  · rfl
  · exact h.dropOldest_live _

theorem dropObserved_live (h : Heap) (floor : VectorClock) :
    (h.dropObserved floor).2.live = h.live :=
  dropAll_live ..

/-! ### Frees -/

/-- What is left when the live block `b` has been freed, and what is said of it. -/
theorem free_of_live {h : Heap} {base : Word} {b : Block} (live : h.live[base]? = some b)
    (epoch : Epoch) : h.free base epoch = .ok (⟨b.extent, (h.bury b epoch).evict.1,
      decide (sweepEvery ≤ (h.bury b epoch).evict.2.sinceSweep)⟩, (h.bury b epoch).evict.2) := by
  simp only [free, live]

/-- A free that succeeds finds its block live. -/
theorem live_of_free {h h' : Heap} {base : Word} {epoch : Epoch} {freed : Freed}
    (done : h.free base epoch = .ok (freed, h')) :
    ∃ b, h.live[base]? = some b ∧ freed.block = b.extent ∧
      freed.evicted = (h.bury b epoch).evict.1 ∧ h' = (h.bury b epoch).evict.2 := by
  cases live : h.live[base]? with
  | some b =>
    cases (free_of_live live epoch).symm.trans done
    exact ⟨b, rfl, rfl, rfl, rfl⟩
  | none =>
    simp only [free, live] at done
    split at done <;> cases done

/-- One that fails does not. -/
theorem missing_of_free {h : Heap} {base : Word} {epoch : Epoch} {fault : FreeFault}
    (failed : h.free base epoch = .error fault) : h.live[base]? = none := by
  cases live : h.live[base]? with
  | some b => cases (free_of_live live epoch).symm.trans failed
  | none => rfl

/-! ### Looking up -/

/-- In a list by increasing key, the last entry up to `x` is not before any other up to `x`. -/
theorem getLast?_takeWhile {l : List (Word × Block)} (sorted : l.Pairwise fun p q => p.1 < q.1)
    {x : Word} {p : Word × Block} (mem : p ∈ l) (le : p.1 ≤ x) :
    ∃ q ∈ l, (l.takeWhile fun q => decide (q.1 ≤ x)).getLast? = some q ∧ p.1 ≤ q.1 ∧ q.1 ≤ x := by
  induction l with
  | nil => cases mem
  | cons a l ih =>
    obtain ⟨before, sorted⟩ := List.pairwise_cons.mp sorted
    have head : a.1 ≤ x := by
      rcases List.mem_cons.mp mem with rfl | mem
      · exact le
      · exact UInt64.le_trans (UInt64.le_of_lt (before p mem)) le
    rw [List.takeWhile_cons, if_pos (decide_eq_true head)]
    by_cases later : p ∈ l
    · obtain ⟨q, mem, last, ge, le⟩ := ih sorted later
      exact ⟨q, List.mem_cons_of_mem a mem, by rw [List.getLast?_cons, last]; rfl, ge, le⟩
    · obtain rfl : p = a := (List.mem_cons.mp mem).resolve_right later
      cases last : (l.takeWhile fun q => decide (q.1 ≤ x)).getLast? with
      | none => exact ⟨p, List.mem_cons_self, by rw [List.getLast?_cons, last]; rfl,
          UInt64.le_refl _, le⟩
      | some q =>
        have taken := List.mem_of_getLast? last
        have there : q ∈ l := (List.takeWhile_sublist _).subset taken
        have upTo := of_decide_eq_true (List.all_eq_true.mp List.all_takeWhile q taken)
        exact ⟨q, List.mem_cons_of_mem p there, by rw [List.getLast?_cons, last]; rfl,
          UInt64.le_of_lt (before q there), upTo⟩

/-- The look-up of an address decides by the live block that starts nearest below it. -/
theorem blockAt_nearest {h : Heap} {base x : Word} {b : Block} (live : h.live[base]? = some b)
    (le : base ≤ x) :
    ∃ base' b', h.live[base']? = some b' ∧ base ≤ base' ∧ base' ≤ x ∧
      h.blockAt x = if b'.extent.contains x then some b'.extent else none := by
  have sorted : h.live.toList.Pairwise fun p q => p.1 < q.1 :=
    (Std.ExtTreeMap.ordered_keys_toList (t := h.live)).imp Std.compare_eq_lt.mp
  obtain ⟨⟨base', b'⟩, mem, last, ge, le'⟩ := getLast?_takeWhile sorted
    (Std.ExtTreeMap.mem_toList_iff_getElem?_eq_some.mpr live) le
  refine ⟨base', b', Std.ExtTreeMap.mem_toList_iff_getElem?_eq_some.mp mem, ge, le', ?_⟩
  rw [blockAt, last, Option.map_some, Option.filter_some]
  split <;> rfl

end RaceMonitor.Heap
