import RaceMonitor.Lock
import RaceMonitor.Proofs.Clock.Component

/-! Nested acquisitions of a lock.

The holders of a lock are a list, but no thread is in it twice and none with depth 0 (`Valid`),
so they say how often each thread holds the lock: an acquire adds one and a release takes one
away (`depth_acquire`, `released`), and an operation is the outermost when the thread's
depth is 0 before the acquire or after the release. -/
namespace RaceMonitor.Lock

structure Valid (l : Lock) : Prop where
  once : (l.holders.map Prod.fst).Nodup
  held : ∀ h ∈ l.holders, h.2 ≠ 0

theorem fresh_valid : fresh.Valid := ⟨List.nodup_nil, by simp [fresh]⟩

variable {l : Lock}

theorem Valid.absorb (hl : l.Valid) (vc : VectorClock) : (l.absorb vc).Valid := ⟨hl.once, hl.held⟩

theorem depth_eq_of_mem (hl : l.Valid) {h : ThreadId × UInt32} (hm : h ∈ l.holders) :
    l.depth h.1 = h.2 := by
  obtain ⟨clock, holders⟩ := l
  have once := hl.once
  clear hl
  induction holders with
  | nil => simp at hm
  | cons x xs ih =>
    simp only [List.map_cons, List.nodup_cons] at once
    rcases List.mem_cons.mp hm with rfl | hm
    · simp [depth]
    · have hne : x.1 ≠ h.1 := fun he => once.1 (he ▸ List.mem_map_of_mem hm)
      have := ih hm once.2
      simpa [depth, hne] using this

theorem depth_eq_zero_iff (hl : l.Valid) {t : ThreadId} :
    l.depth t = 0 ↔ ∀ h ∈ l.holders, h.1 ≠ t := by
  constructor
  · intro h0 h hm given
    obtain rfl := given
    exact hl.held h hm (depth_eq_of_mem hl hm ▸ h0)
  · intro h
    have hnone : l.holders.find? (fun h => h.1 == t) = none := by
      simpa [List.find?_eq_none] using h
    simp [depth, hnone]

/-! ### Acquiring -/

theorem mem_deepen {t : ThreadId} {hs : List (ThreadId × UInt32)} {h : ThreadId × UInt32}
    (hm : h ∈ deepen t hs) : h.1 = t ∧ h.2 ≠ 0 ∨ h ∈ hs := by
  induction hs with
  | nil =>
    obtain rfl := List.mem_singleton.mp hm
    exact .inl ⟨rfl, (by decide : (1 : UInt32) ≠ 0)⟩
  | cons x xs ih =>
    unfold deepen at hm
    split at hm
    · rcases List.mem_cons.mp hm with rfl | hm
      · refine .inl ⟨rfl, fun h0 => ?_⟩
        have hnext := Tick.toNat_next x.2
        rw [show Tick.next x.2 = 0 from h0, Tick.toNat_last, UInt32.toNat_zero] at hnext
        omega
      · exact .inr (List.mem_cons_of_mem x hm)
    · rcases List.mem_cons.mp hm with rfl | hm
      · exact .inr List.mem_cons_self
      · exact (ih hm).imp id (List.mem_cons_of_mem x)

theorem acquire_valid (hl : l.Valid) (t : ThreadId) : (l.acquire t).2.Valid := by
  obtain ⟨clock, holders⟩ := l
  obtain ⟨once, held⟩ := hl
  refine ⟨?_, fun h hm => ?_⟩
  · show ((deepen t holders).map Prod.fst).Nodup
    clear held
    induction holders with
    | nil => simp [deepen]
    | cons x xs ih =>
      simp only [List.map_cons, List.nodup_cons] at once
      unfold deepen
      split
      · rename_i he
        exact List.nodup_cons.mpr ⟨he ▸ once.1, once.2⟩
      · rename_i hne
        refine List.nodup_cons.mpr ⟨fun hx => ?_, ih once.2⟩
        obtain ⟨h, hm, hxh⟩ := List.mem_map.mp hx
        rcases mem_deepen hm with ⟨ht, _⟩ | hm
        · exact hne (hxh.symm.trans ht)
        · exact once.1 (hxh ▸ List.mem_map_of_mem hm)
  · rcases mem_deepen hm with ⟨_, h0⟩ | hm
    · exact h0
    · exact held h hm

theorem depth_acquire (l : Lock) (t u : ThreadId) :
    (l.acquire t).2.depth u = if u = t then Tick.next (l.depth t) else l.depth u := by
  obtain ⟨clock, holders⟩ := l
  show depth ⟨clock, deepen t holders⟩ u = _
  induction holders with
  | nil =>
    by_cases hu : u = t
    · subst hu
      simp [depth, deepen]
      rfl
    · have : t ≠ u := fun he => hu he.symm
      simp [depth, deepen, hu, this]
  | cons x xs ih =>
    unfold deepen
    by_cases hx : x.1 = t
    · by_cases hxu : x.1 = u
      · have hut : u = t := hxu.symm.trans hx
        simp [depth, hx, hut]
      · have hut : u ≠ t := fun he => hxu (hx.trans he.symm)
        have htu : t ≠ u := fun he => hut he.symm
        simp [depth, hx, hut, htu]
    · by_cases hxu : x.1 = u
      · have hut : u ≠ t := fun he => hx (hxu.trans he)
        simp [depth, hxu, hut]
      · simp_all [depth]

/-- An acquire is the outermost when the thread did not hold the lock. -/
theorem acquire_outermost (hl : l.Valid) (t : ThreadId) :
    (l.acquire t).1 = true ↔ l.depth t = 0 := by
  rw [depth_eq_zero_iff hl]
  simp [acquire, List.find?_eq_none]

/-! ### Releasing -/

theorem swapRemove_perm {α : Type} {xs : List α} {i : Nat} (hi : i < xs.length) :
    (xs[i] :: swapRemove xs i).Perm xs := by
  rcases List.eq_nil_or_concat xs with rfl | ⟨ys, z, rfl⟩
  · simp at hi
  · have hlast : (ys ++ [z]).getLast? = some z := by simp
    simp only [List.concat_eq_append] at hi ⊢
    simp only [swapRemove, hlast]
    cases Nat.lt_or_ge i ys.length with
    | inl hlt =>
      rw [List.set_append_left i z hlt, List.dropLast_concat, List.getElem_append_left hlt]
      rw [List.set_eq_take_append_cons_drop, if_pos hlt]
      have hsplit : ys = ys.take i ++ ys[i] :: ys.drop (i + 1) := by simp
      have hswap : (ys[i] :: (ys.take i ++ z :: ys.drop (i + 1))).Perm
          (z :: (ys.take i ++ ys[i] :: ys.drop (i + 1))) :=
        (List.perm_middle.cons _).trans
          ((List.Perm.swap _ _ _).trans (List.perm_middle.symm.cons _))
      refine hswap.trans ?_
      rw [← hsplit]
      exact (List.perm_append_singleton z ys).symm
    | inr hge =>
      have hi' : i = ys.length := by
        simp at hi
        omega
      subst hi'
      simp [List.perm_append_singleton, List.Perm.symm]

/-- Without one of its holders a lock is valid, and only that holder's depth is gone. -/
theorem valid_of_perm (hl : l.Valid) {h : ThreadId × UInt32} (l' : Lock)
    (hp : (h :: l'.holders).Perm l.holders) :
    l'.Valid ∧ ∀ u, l'.depth u = if u = h.1 then 0 else l.depth u := by
  have honce : ((h :: l'.holders).map Prod.fst).Nodup := (hp.map Prod.fst).nodup_iff.mpr hl.once
  obtain ⟨hnot, honce⟩ := List.nodup_cons.mp honce
  have hsub : ∀ k ∈ l'.holders, k ∈ l.holders := fun k hk =>
    hp.subset (List.mem_cons_of_mem h hk)
  have hl' : l'.Valid := ⟨honce, fun k hk => hl.held k (hsub k hk)⟩
  refine ⟨hl', fun u => ?_⟩
  split
  · rename_i hu
    rw [hu, depth_eq_zero_iff hl']
    exact fun k hk he => hnot (he ▸ List.mem_map_of_mem hk)
  · rename_i hu
    by_cases hex : ∃ k ∈ l'.holders, k.1 = u
    · obtain ⟨k, hk, rfl⟩ := hex
      rw [depth_eq_of_mem hl' hk, depth_eq_of_mem hl (hsub k hk)]
    · have hnone : ∀ k ∈ l'.holders, k.1 ≠ u := fun k hk he => hex ⟨k, hk, he⟩
      rw [(depth_eq_zero_iff hl').mpr hnone, eq_comm, depth_eq_zero_iff hl]
      intro k hk he
      rcases List.mem_cons.mp (hp.symm.subset hk) with rfl | hk
      · exact hu he.symm
      · exact hnone k hk he

/-- With one of its holders' depths changed a lock is valid, and only that depth is changed. -/
theorem valid_of_set (hl : l.Valid) {i : Nat} (hi : i < l.holders.length) {d : UInt32}
    (hd : d ≠ 0) (l' : Lock) (hset : l'.holders = l.holders.set i (l.holders[i].1, d)) :
    l'.Valid ∧ ∀ u, l'.depth u = if u = l.holders[i].1 then d else l.depth u := by
  have hkeys : l'.holders.map Prod.fst = l.holders.map Prod.fst := by
    rw [hset, List.map_set]
    exact List.ext_getElem (by simp) fun j hj hj' => by
      rw [List.getElem_set]
      split
      · subst_vars
        simp
      · rfl
  have hl' : l'.Valid := by
    refine ⟨hkeys ▸ hl.once, fun k hk => ?_⟩
    rw [hset] at hk
    rcases List.mem_or_eq_of_mem_set hk with hk | rfl
    · exact hl.held k hk
    · exact hd
  refine ⟨hl', fun u => ?_⟩
  split
  · rename_i hu
    have hm : (l.holders[i].1, d) ∈ l'.holders := hset ▸ List.mem_set hi _
    rw [hu]
    exact depth_eq_of_mem hl' hm
  · rename_i hu
    by_cases hex : ∃ k ∈ l'.holders, k.1 = u
    · obtain ⟨k, hk, rfl⟩ := hex
      have hk' : k ∈ l.holders := by
        rw [hset] at hk
        rcases List.mem_or_eq_of_mem_set hk with hk | rfl
        · exact hk
        · exact absurd rfl hu
      rw [depth_eq_of_mem hl' hk, depth_eq_of_mem hl hk']
    · have hnone : ∀ k ∈ l'.holders, k.1 ≠ u := fun k hk he => hex ⟨k, hk, he⟩
      rw [(depth_eq_zero_iff hl').mpr hnone, eq_comm, depth_eq_zero_iff hl]
      intro k hk he
      have hmem : u ∈ l'.holders.map Prod.fst := by
        rw [hkeys]
        exact he ▸ List.mem_map_of_mem hk
      obtain ⟨k', hk', he'⟩ := List.mem_map.mp hmem
      exact hnone k' hk' he'

/-- The outcome of a release by `t` and what it makes of the lock `l`. -/
inductive Released (l : Lock) (t : ThreadId) : Release × Lock → Prop where
  | notHeld (depth : l.depth t = 0) : Released l t (.notHeld, l)
  | nested (l' : Lock) (depth : 1 < (l.depth t).toNat) (valid : l'.Valid)
      (clock : l'.clock = l.clock)
      (depths : ∀ u, l'.depth u = if u = t then l.depth t - 1 else l.depth u) :
      Released l t (.nested, l')
  | released (l' : Lock) (depth : l.depth t = 1) (valid : l'.Valid) (clock : l'.clock = l.clock)
      (depths : ∀ u, l'.depth u = if u = t then 0 else l.depth u) : Released l t (.released, l')

theorem released (hl : l.Valid) (t : ThreadId) : Released l t (l.release t) := by
  unfold release
  split
  · rename_i hi
    refine .notHeld ((depth_eq_zero_iff hl).mpr ?_)
    simpa [List.findIdx?_eq_none_iff] using hi
  · rename_i i hi
    obtain ⟨hlt, hp, _⟩ := List.findIdx?_eq_some_iff_getElem.mp hi
    have htid : l.holders[i].1 = t := by simpa using hp
    have hmem : l.holders[i] ∈ l.holders := List.getElem_mem hlt
    have hdepth : l.depth t = l.holders[i].2 := htid ▸ depth_eq_of_mem hl hmem
    have hpos : (l.depth t).toNat ≠ 0 := fun h0 =>
      hl.held _ hmem (UInt32.toNat_inj.mp (hdepth ▸ h0))
    split
    · rename_i hle
      have hone : l.depth t = 1 := UInt32.toNat_inj.mp (by
        have := UInt32.le_iff_toNat_le.mp hle
        simp at this ⊢
        omega)
      have := valid_of_perm hl { l with holders := swapRemove l.holders i } (swapRemove_perm hlt)
      exact .released _ hone this.1 rfl (htid ▸ this.2)
    · rename_i hgt
      have hgt' : 1 < (l.depth t).toNat := by
        have : ¬ (l.depth t).toNat ≤ (1 : UInt32).toNat := fun h =>
          hgt (UInt32.le_iff_toNat_le.mpr h)
        simp at this
        omega
      have hne : l.depth t - 1 ≠ 0 := fun h0 => by
        have := congrArg UInt32.toNat h0
        rw [UInt32.toNat_sub_of_le _ _ (UInt32.le_iff_toNat_le.mpr (by simp; omega))] at this
        simp at this
        omega
      have := valid_of_set hl hlt hne { l with holders := l.holders.set i (t, l.depth t - 1) }
        (by rw [htid])
      exact .nested _ hgt' this.1 rfl (htid ▸ this.2)

end RaceMonitor.Lock
