import RaceMonitor.Engine.Memory
import RaceMonitor.Proofs.Engine.Access
import RaceMonitor.Proofs.Heap.Live
import RaceMonitor.Proofs.Session.Basic

/-! What allocations and frees do.

Neither touches threads or clocks, and only allocations touch histories: exactly those of the
locations in the range are dropped, whichever way the range is gone through
(`Walk.forget_get`). -/
namespace RaceMonitor

theorem Extent.spans_iff {e : Extent} {a : Word} (ha : a ≠ Word.top) :
    e.spans a = true ↔ e.covers a := by
  have hlt : a.toNat ≠ UInt64.size - 1 := fun he => ha (UInt64.toNat_inj.mp he)
  have hmax := a.toNat_lt_size
  simp only [spans, limit, covers, Bool.and_eq_true, decide_eq_true_eq, UInt64.le_iff_toNat_le,
    UInt64.lt_iff_toNat_lt, Word.toNat_addSat]
  omega

/-- An empty range spans no address. -/
theorem Extent.spans_empty (base a : Word) : spans ⟨base, 0⟩ a = false := by
  simp only [spans, limit, Bool.and_eq_false_imp, decide_eq_true_eq, decide_eq_false_iff_not,
    UInt64.le_iff_toNat_le, UInt64.lt_iff_toNat_lt, Word.toNat_addSat, UInt64.toNat_zero]
  omega

theorem Extent.mem_addresses {e : Extent} {a : Word} : a ∈ e.addresses ↔ e.spans a = true := by
  simp only [addresses, spans, List.mem_map, List.mem_range, Bool.and_eq_true, decide_eq_true_eq,
    UInt64.le_iff_toNat_le, UInt64.lt_iff_toNat_lt]
  have hlimit := e.limit.toNat_lt_size
  constructor
  · intro h
    obtain ⟨i, hi, rfl⟩ := h
    rw [UInt64.toNat_add, UInt64.toNat_ofNat', Nat.add_mod_mod, Nat.mod_eq_of_lt]
    · omega
    · simp only [UInt64.size] at hlimit
      omega
  · intro h
    obtain ⟨hlo, hhi⟩ := h
    refine ⟨a.toNat - e.base.toNat, by omega, UInt64.toNat_inj.mp ?_⟩
    have ha := a.toNat_lt_size
    simp only [UInt64.size] at ha
    rw [UInt64.toNat_add, UInt64.toNat_ofNat', Nat.add_mod_mod, Nat.mod_eq_of_lt]
    · omega
    · omega

namespace Tables

theorem dropHistories_get (shadow : Table Word History) (addrs : List Word) (x : Word) :
    (dropHistories shadow addrs).2[x]? = if x ∈ addrs then none else shadow[x]? := by
  induction addrs generalizing shadow with
  | nil => simp [dropHistories]
  | cons addr rest ih =>
    unfold dropHistories
    split
    · rename_i missing
      rw [ih]
      by_cases hx : x = addr
      · subst hx
        simp [missing]
      · simp [hx]
    · simp only [ih, Table.get_erase, List.mem_cons]
      by_cases hx : x = addr <;> simp [hx]

end Tables

/-- A way to go through a range: address by address, or location by location in some order. -/
inductive Walk (shadow : Table Word History) where
  | byAddress
  | byLocation (keys : List Word) (perm : keys.Perm shadow.keys)

namespace Walk

variable {shadow : Table Word History}

/-- The addresses that are looked at. -/
def addresses (e : Extent) : Walk shadow → List Word
  | byAddress => e.addresses
  | byLocation keys _ => keys.filter e.spans

/-- Drops the histories that are come across. -/
def forget (w : Walk shadow) (e : Extent) : List (Word × Access) × Table Word History :=
  Tables.dropHistories shadow (w.addresses e)

/-- The one with fewer steps. -/
def shorter (order : Enumeration) (shadow : Table Word History) (e : Extent) : Walk shadow :=
  if e.size.toNat ≤ shadow.size then byAddress
  else byLocation (order.locations shadow) (order.locations_perm shadow)

theorem forget_shorter (order : Enumeration) (shadow : Table Word History) (e : Extent) :
    (shorter order shadow e).forget e = Tables.forgetRange order shadow e := by
  unfold forget shorter Tables.forgetRange
  split <;> rfl

/-- Every location in the range is come across, and no other. -/
theorem mem_addresses (w : Walk shadow) (e : Extent) {x : Word} (there : x ∈ shadow) :
    x ∈ w.addresses e ↔ e.spans x = true := by
  cases w with
  | byAddress => exact Extent.mem_addresses
  | byLocation keys perm =>
    simp [addresses, perm.mem_iff, Std.ExtTreeMap.mem_keys, there]

theorem forget_get (w : Walk shadow) (e : Extent) (x : Word) :
    (w.forget e).2[x]? = if e.spans x then none else shadow[x]? := by
  rw [forget, Tables.dropHistories_get]
  by_cases there : x ∈ shadow
  · simp only [w.mem_addresses e there]
  · simp [there]

end Walk

theorem Tables.forgetRange_get (order : Enumeration) (shadow : Table Word History) (e : Extent)
    (x : Word) :
    (forgetRange order shadow e).2[x]? = if e.spans x then none else shadow[x]? := by
  rw [← Walk.forget_shorter, Walk.forget_get]

/-- What an allocation makes of `s`. -/
inductive Allocated (s : State) (tid : ThreadId) (pc addr size : Word) : State → Prop where
  | ignored (why : s.config.trackAllocations = false ∨ size = 0) : Allocated s tid pc addr size s
  | made (tracking : s.config.trackAllocations = true) (nonempty : size ≠ 0)
    (kept : List (Word × Access)) (gone : List Extent) (heap : Heap) (shadow : Table Word History)
    (blocks : heap = ((kept.foldl (fun h p => h.keep p.1 p.2)
      (s.tables.heap.handOut ⟨addr, size⟩).2.2).allocate (Block.new tid pc ⟨addr, size⟩)).2)
    (dropped : ∀ x, shadow[x]? =
      if Extent.spans ⟨addr, size⟩ x then none else s.tables.shadow[x]?) :
    Allocated s tid pc addr size
      (s.withTables (((s.tables.putHeap heap).putShadow shadow).unmarkPages gone))

theorem State.allocate_allocated (s : State) (h : Host) (tid : ThreadId) (pc addr size : Word) :
    Allocated s tid pc addr size (s.allocate h tid pc addr size).1 ∧
      races (s.allocate h tid pc addr size).2 = [] := by
  have allocates := s.allocate_allocates h tid pc addr size
  generalize s.allocate h tid pc addr size = res at allocates ⊢
  refine ⟨?_, allocates.plain.races⟩
  cases allocates with
  | ignored why => exact .ignored why
  | @made reused gone kept _ handed heap shadow tracking nonempty hand forgot placed =>
    obtain rfl : heap = _ := (congrArg Prod.snd placed).symm
    obtain rfl : handed = _ := (congrArg (·.2.2) hand).symm
    have dropped := Tables.forgetRange_get h.order s.tables.shadow ⟨addr, size⟩
    rw [forgot] at dropped
    cases reused with
    | true => exact .made tracking nonempty kept gone _ shadow rfl dropped
    | false => exact .made tracking nonempty [] gone _ shadow rfl dropped

/-- What an allocation makes of the live blocks. -/
theorem Allocated.live_eq {s s' : State} {tid : ThreadId} {pc addr size : Word}
    (h : Allocated s tid pc addr size s') : s'.tables.heap.live =
      if s.config.trackAllocations = true ∧ size ≠ 0 then
        s.tables.heap.live.insert addr (Block.new tid pc ⟨addr, size⟩)
      else s.tables.heap.live := by
  cases h with
  | ignored why =>
    refine (if_neg fun takes => ?_).symm
    rcases why with off | empty
    · simp [off] at takes
    · exact takes.2 empty
  | made tracking nonempty kept _ _ _ blocks _ =>
    rw [if_pos ⟨tracking, nonempty⟩]
    subst blocks
    show ((kept.foldl (fun h p => h.keep p.1 p.2)
      (s.tables.heap.handOut ⟨addr, size⟩).2.2).live.insert addr _) = _
    rw [Heap.keepAll_live, Heap.handOut_live]

/-- An allocation drops the histories in its range, and no others. -/
theorem Allocated.shadow_get {s s' : State} {tid : ThreadId} {pc addr size : Word}
    (h : Allocated s tid pc addr size s') (x : Word) : s'.tables.shadow[x]? =
      if s.config.trackAllocations = true ∧ Extent.spans ⟨addr, size⟩ x = true then none
      else s.tables.shadow[x]? := by
  cases h with
  | ignored why =>
    refine (if_neg fun takes => ?_).symm
    rcases why with off | rfl
    · simp [off] at takes
    · simp [Extent.spans_empty] at takes
  | made tracking _ _ _ _ shadow _ dropped =>
    simp only [tracking, true_and]
    exact dropped x

/-- What a free makes of `s`. -/
inductive Deallocated (s : State) (h : Host) (tid : ThreadId) (addr : Word) : State → Prop where
  | ignored (why : s.config.trackAllocations = false) : Deallocated s h tid addr s
  | refused (missing : tid ∉ s.tables.threads) (s' : State) (config : s'.config = s.config)
    (heard : s'.heard = s.heard) (tables : s'.tables = s.tables) : Deallocated s h tid addr s'
  | fault (t : Thread) (s₁ : State) (enter : Entered s tid t s₁)
    (missing : s.tables.heap.live[addr]? = none) (s' : State) (config : s'.config = s₁.config)
    (heard : s'.heard = s₁.heard) (tables : s'.tables = s₁.tables) : Deallocated s h tid addr s'
  | freed (tracking : s.config.trackAllocations = true) (t : Thread) (s₁ : State)
    (enter : Entered s tid t s₁) (b : Block) (live : s.tables.heap.live[addr]? = some b)
    (gone : List Extent) (heap : Heap) (blocks : heap = (s.tables.heap.bury b t.epoch).evict.2)
    (s' : State)
    (swept : s' = s₁.withTables (((s₁.tables.putHeap heap).markPages b.extent).unmarkPages gone) ∨
      s' = ((s₁.withTables
        (((s₁.tables.putHeap heap).markPages b.extent).unmarkPages gone)).sweep h).1) :
    Deallocated s h tid addr s'

/-- A free leaves the histories alone. -/
theorem Deallocated.shadow {s s' : State} {h : Host} {tid : ThreadId} {addr : Word}
    (deallocated : Deallocated s h tid addr s') : s'.tables.shadow = s.tables.shadow := by
  cases deallocated with
  | ignored => rfl
  | refused _ _ _ _ tables => rw [tables]
  | fault _ _ enter _ _ _ _ tables => rw [tables, enter.sameMemory.shadow]
  | freed _ _ _ enter _ _ _ _ _ _ swept =>
    rcases swept with rfl | rfl <;> exact enter.sameMemory.shadow

theorem State.deallocate_deallocated (s : State) (h : Host) (tid : ThreadId) (addr : Word) :
    Deallocated s h tid addr (s.deallocate h tid addr).1 ∧
      races (s.deallocate h tid addr).2 = [] := by
  have frees := s.deallocate_frees h tid addr
  generalize s.deallocate h tid addr = res at frees ⊢
  cases frees with
  | ignored why => exact ⟨.ignored why, rfl⟩
  | refused _ met =>
    obtain ⟨missing, x, rfl⟩ := thread_refused met
    exact ⟨.refused missing _ rfl rfl rfl, (thread_plain met).races⟩
  | @misused t s₁ noted fault _ met failed =>
    have enter := thread_entered met
    have silent : races (s₁.raiseAnomaly (fault.anomaly tid addr)).2 = [] := by
      unfold raiseAnomaly
      split <;> rfl
    have missing : s.tables.heap.live[addr]? = none := by
      rw [enter.sameMemory.heap] at failed
      exact Heap.missing_of_free failed
    refine ⟨.fault t s₁ enter missing _ rfl rfl rfl, ?_⟩
    rw [races_append, silent, (thread_plain met).races]
    rfl
  | @freed t s₁ _ _ _ tracking met done _ =>
    have enter := thread_entered met
    rw [enter.sameMemory.heap] at done
    obtain ⟨b, live, block, _, heap⟩ := Heap.live_of_free done
    refine ⟨.freed tracking t s₁ enter b live _ _ heap _ (.inl (by rw [block])), ?_⟩
    rw [races_append, (thread_plain met).races]
    rfl
  | @swept t s₁ _ _ _ _ _ tracking met done _ sweeps =>
    have enter := thread_entered met
    rw [enter.sameMemory.heap] at done
    obtain ⟨b, live, block, _, heap⟩ := Heap.live_of_free done
    have left := (congrArg Prod.fst sweeps).symm
    rw [block] at left
    refine ⟨.freed tracking t s₁ enter b live _ _ heap _ (.inr left), ?_⟩
    rw [races_append, races_append, (thread_plain met).races, (sweep_plain sweeps).races]
    rfl

end RaceMonitor
