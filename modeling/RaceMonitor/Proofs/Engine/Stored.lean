import RaceMonitor.Proofs.Engine.Enumeration
import RaceMonitor.Proofs.Engine.Filtered
import RaceMonitor.Proofs.History
import RaceMonitor.Proofs.Order.Clocks

/-! Where epochs are stored.

A history keeps the epochs of its accesses. A freed block keeps that of its free, and those of the
accesses that were on record when its range was handed out again. So an event stores no epoch but
the present of a live thread (`State.step_stored`): what it moves from a history to a block has been
stored before. -/
namespace RaceMonitor

/-- The epoch of the free of a block, or of an access that it keeps. -/
inductive Block.Stores (b : Block) (x : Epoch) : Prop where
  | freedAt (freed : b.freedAt = some x)
  | kept (addr : Word) (a : Access) (kept : b.kept[addr]? = some a) (epoch : a.epoch = x)

inductive Heap.Stores (h : Heap) (x : Epoch) : Prop where
  | live (base : Word) (b : Block) (found : h.live[base]? = some b) (stores : b.Stores x)
  | freed (seq : Nat) (b : Block) (found : h.freed[seq]? = some b) (stores : b.Stores x)

/-- The epoch of an access on record, or one that a block stores. -/
inductive Tables.Stores (t : Tables) (x : Epoch) : Prop where
  | recorded (addr : Word) (history : History) (a : Access)
    (found : t.shadow[addr]? = some history) (kept : a ∈ history.accesses) (epoch : a.epoch = x)
  | block (stores : t.heap.Stores x)

variable {x : Epoch}

/-! ### Blocks -/

namespace Block

variable {b b' : Block}

theorem not_new_stores (owner : ThreadId) (pc : Word) (e : Extent) :
    ¬ (new owner pc e).Stores x := by
  intro stores
  cases stores with
  | freedAt freed => cases freed
  | kept addr a kept => simp [new] at kept

theorem Stores.of_eq (stores : b'.Stores x) (freedAt : b'.freedAt = b.freedAt)
    (kept : b'.kept = b.kept) : b.Stores x := by
  cases stores with
  | freedAt freed => exact .freedAt (freedAt ▸ freed)
  | kept addr a found epoch => exact .kept addr a (kept ▸ found) epoch

theorem Stores.of_reissue {e : Extent} (left : b.reissue e = some b') (stores : b'.Stores x) :
    b.Stores x := by
  unfold reissue at left
  split at left
  · obtain ⟨_, rfl⟩ := handedOut_eq_some.mp left
    exact stores.of_eq rfl rfl
  · exact Option.some.inj left ▸ stores

theorem Stores.of_keptFrom {l : List (Word × Access)} (from_ : b.KeptFrom l b')
    (stores : b'.Stores x) : b.Stores x ∨ ∃ p ∈ l, p.2.epoch = x := by
  obtain ⟨⟨kept, rfl⟩, moved⟩ := from_
  cases stores with
  | freedAt freed => exact .inl (.freedAt freed)
  | kept addr a found epoch =>
    rcases moved addr a found with old | ⟨_, mem⟩
    · exact .inl (.kept addr a old epoch)
    · exact .inr ⟨(addr, a), mem, epoch⟩

end Block

namespace Heap.Stores

variable {h : Heap}

theorem of_handOut (valid : h.Valid) (pruned : h.Pruned) {e : Extent}
    (stores : (h.handOut e).2.2.Stores x) : h.Stores x := by
  cases stores with
  | live base b found stores => exact .live base b (h.handOut_live e ▸ found) stores
  | freed seq b found stores =>
    rw [handOut_freed valid pruned] at found
    obtain ⟨b₀, known, left⟩ := Option.bind_eq_some_iff.mp found
    exact .freed seq b₀ known (stores.of_reissue left)

theorem of_keepAll (valid : h.Valid) {l : List (Word × Access)}
    (stores : (l.foldl (fun h p => h.keep p.1 p.2) h).Stores x) :
    h.Stores x ∨ ∃ p ∈ l, p.2.epoch = x := by
  cases stores with
  | live base b found stores => exact .inl (.live base b (h.keepAll_live l ▸ found) stores)
  | freed seq b found stores =>
    rcases keepAll_freed valid l seq with ⟨_, none⟩ | ⟨b₀, _, known, there, from_⟩
    · cases none.symm.trans found
    · cases there.symm.trans found
      exact (stores.of_keptFrom from_).imp_left (.freed seq b₀ known)

theorem of_allocate {b : Block} (none : ¬ b.Stores x) (stores : (h.allocate b).2.Stores x) :
    h.Stores x := by
  cases stores with
  | live base c found stores =>
    have found : (h.live.insert b.extent.base b)[base]? = some c := found
    rw [Table.get_insert] at found
    split at found
    · exact absurd (Option.some.inj found ▸ stores) none
    · exact .live base c found stores
  | freed seq c found stores => exact .freed seq c found stores

/-- A block that is buried has been live. -/
theorem of_bury {base : Word} {b : Block} (live : h.live[base]? = some b) {epoch : Epoch}
    (stores : (h.bury b epoch).Stores x) : epoch = x ∨ h.Stores x := by
  cases stores with
  | live base' c found stores =>
    have found : (h.live.erase b.extent.base)[base']? = some c := found
    rw [Table.get_erase] at found
    split at found
    · cases found
    · exact .inr (.live base' c found stores)
  | freed seq c found stores =>
    rw [bury_freed] at found
    split at found
    · cases found
      cases stores with
      | freedAt freed => exact .inl (Option.some.inj freed)
      | kept addr a kept epoch => exact .inr (.live base b live (.kept addr a kept epoch))
    · exact .inr (.freed seq c found stores)

theorem of_evict (stores : h.evict.2.Stores x) : h.Stores x := by
  cases stores with
  | live base b found stores => exact .live base b (h.evict_live ▸ found) stores
  | freed seq b found stores => exact .freed seq b (h.evict_freed found) stores

theorem of_dropObserved {floor : VectorClock} (stores : (h.dropObserved floor).2.Stores x) :
    h.Stores x := by
  cases stores with
  | live base b found stores => exact .live base b (h.dropObserved_live floor ▸ found) stores
  | freed seq b found stores =>
    rw [dropObserved_freed] at found
    exact .freed seq b (Option.filter_eq_some_iff.mp found).1 stores

theorem of_report {seq : Nat} {b : Block} (known : h.freed[seq]? = some b) {tid : ThreadId}
    {addr : Word}
    (stores : Heap.Stores { h with freed := h.freed.insert seq (b.report tid addr) } x) :
    h.Stores x := by
  cases stores with
  | live base c found stores => exact .live base c found stores
  | freed seq' c found stores =>
    have found : (h.freed.insert seq (b.report tid addr))[seq']? = some c := found
    rw [Table.get_insert] at found
    split at found
    · cases found
      exact .freed seq b known (stores.of_eq rfl rfl)
    · exact .freed seq' c found stores

end Heap.Stores

/-! ### Events -/

/-- With what an allocation leaves the blocks. -/
theorem State.allocate_heap {s : State} (h : Host) (tid : ThreadId) (pc : Word) {e : Extent}
    (tracking : s.config.trackAllocations = true) (nonempty : e.size ≠ 0) :
    ∃ l : List (Word × Access),
      (∀ x a, (x, a) ∈ l → e.spans x = true ∧
        ∃ history, s.tables.shadow[x]? = some history ∧ history.last = some a) ∧
      (s.allocate h tid pc e.base e.size).1.tables.heap =
        ((l.foldl (fun h p => h.keep p.1 p.2) (s.tables.heap.handOut e).2.2).allocate
          (Block.new tid pc e)).2 := by
  have allocates := s.allocate_allocates h tid pc e.base e.size
  generalize s.allocate h tid pc e.base e.size = res at allocates ⊢
  cases allocates with
  | ignored why =>
    rcases why with off | empty
    · cases off.symm.trans tracking
    · exact absurd empty nonempty
  | @made reused _ kept _ handed heap _ _ _ hand forgot placed =>
    obtain rfl : heap = _ := (congrArg Prod.snd placed).symm
    obtain rfl : handed = _ := (congrArg (·.2.2) hand).symm
    have from_ := Tables.mem_forgetRange h.order s.tables.shadow e
    rw [forgot] at from_
    cases reused with
    | true => exact ⟨kept, fun x a => (from_ x a).mp, rfl⟩
    | false => exact ⟨[], fun _ _ mem => absurd mem List.not_mem_nil, rfl⟩

/-- It is the present of a live thread. -/
def Tables.Presents (t : Tables) (x : Epoch) : Prop :=
  ∃ (u : ThreadId) (th : Thread), t.threads[u]? = some th ∧ th.epoch = x

theorem Tables.Stores.of_same {t t' : Tables} (stores : t'.Stores x) (shadow : t'.shadow = t.shadow)
    (heap : t'.heap = t.heap) : t.Stores x := by
  cases stores with
  | recorded addr history a found kept epoch =>
    exact .recorded addr history a (shadow ▸ found) kept epoch
  | block stores => exact .block (heap ▸ stores)

variable {s s' : State} {h : Host}

theorem State.stores_of_history {addr : Word} {a : Access} (kept : a ∈ (s.history addr).accesses)
    (epoch : a.epoch = x) : s.tables.Stores x := by
  unfold history at kept
  cases found : s.tables.shadow[addr]? with
  | none =>
    rw [found] at kept
    cases kept
  | some history =>
    rw [found] at kept
    exact .recorded addr history a found kept epoch

/-- An access is recorded with the present of its thread. -/
theorem Accessed.stored {t : Thread} {write : Bool} {pc addr size : Word} {delivered : List Race}
    (accessed : Accessed s t write pc addr size s' delivered) (filtered : s.tables.Filtered)
    (stores : s'.tables.Stores x) : s.tables.Stores x ∨ t.epoch = x := by
  cases stores with
  | recorded addr' history a found kept epoch =>
    rw [accessed.shadow] at found
    split at found
    · cases found
      rcases History.mem_onAccess kept with rfl | old
      · exact .inr epoch
      · exact .inl (State.stores_of_history old epoch)
    · exact .inl (.recorded addr' history a found kept epoch)
  | block stores =>
    rw [accessed.heap] at stores
    rcases State.reportUse_cases filtered t addr with ⟨_, same, _⟩ | ⟨_, seq, b, _, heap, _, due⟩
    · exact .inl (.block (same ▸ stores))
    · rw [heap] at stores
      exact .inl (.block (stores.of_report due.kept))

/-- What the freed blocks keep from now on was on record before. -/
theorem State.allocate_stored (filtered : s.tables.Filtered) (pruned : s.tables.heap.Pruned)
    {tid : ThreadId} {pc addr size : Word}
    (stores : (s.allocate h tid pc addr size).1.tables.Stores x) : s.tables.Stores x := by
  have heaped := s.allocate_heap h tid pc (e := ⟨addr, size⟩)
  have allocated := (s.allocate_allocated h tid pc addr size).1
  dsimp only at heaped
  generalize (s.allocate h tid pc addr size).1 = s' at heaped allocated stores
  cases allocated with
  | ignored => exact stores
  | made tracking nonempty _ gone heap shadow _ dropped =>
    cases stores with
    | recorded addr' history a found kept epoch =>
      have found : shadow[addr']? = some history := found
      rw [dropped] at found
      split at found
      · cases found
      · exact .recorded addr' history a found kept epoch
    | block stores =>
      obtain ⟨l, from_, same⟩ := heaped tracking nonempty
      rw [same] at stores
      have valid := (Heap.Thinned.handOut s.tables.heap ⟨addr, size⟩).valid filtered.valid
      have left := stores.of_allocate (Block.not_new_stores tid pc ⟨addr, size⟩)
      rcases left.of_keepAll valid with old | ⟨p, mem, epoch⟩
      · exact .block (old.of_handOut filtered.valid pruned)
      · obtain ⟨_, history, found, last⟩ := from_ p.1 p.2 mem
        exact .recorded p.1 history p.2 found (History.last_mem last) epoch

/-- A block is freed in the present of the thread that frees it. -/
theorem Deallocated.stored {tid : ThreadId} {addr : Word} (step : Deallocated s h tid addr s')
    (stores : s'.tables.Stores x) : s.tables.Stores x ∨ s'.tables.Presents x := by
  cases stores with
  | recorded addr' history a found kept epoch =>
    exact .inl (.recorded addr' history a (step.shadow ▸ found) kept epoch)
  | block stores =>
    rcases step.heap_cases with same | ⟨t, b, there, live, swept⟩
    · exact .inl (.block (same ▸ stores))
    · have left : (s.tables.heap.bury b t.epoch).evict.2.Stores x := by
        rcases swept with same | same
        · exact same ▸ stores
        · exact Heap.Stores.of_dropObserved (same ▸ stores)
      rcases left.of_evict.of_bury live with present | old
      · exact .inr ⟨tid, t, there, present⟩
      · exact .inl (.block old)

/-- **Only presents are stored**: what is stored after an event was stored before, or is the present
of a thread. -/
theorem State.step_stored (quiet : h.Quiet) (filtered : s.tables.Filtered)
    (pruned : s.tables.heap.Pruned) (e : Event) (stores : (s.step h e).1.tables.Stores x) :
    s.tables.Stores x ∨ (s.step h e).1.tables.Presents x := by
  have step := s.step_remembers quiet e
  generalize hs : (s.step h e).1 = s' at step stores
  generalize races (s.step h e).2 = delivered at step
  cases step with
  | accessed handled =>
    rename_i write tid pc addr size
    cases handled with
    | refused _ _ _ _ tables => exact .inl (tables ▸ stores)
    | entered t s₁ enter _ threads _ accessed =>
      refine (accessed.stored filtered stores).imp_right fun present => ⟨tid, t, ?_, present⟩
      rw [threads.1, enter.there]
  | allocated =>
    subst hs
    exact .inl (allocate_stored filtered pruned stores)
  | freed deallocated => exact deallocated.stored stores
  | aside _ _ aside => exact .inl (stores.of_same aside.shadow aside.heap)

end RaceMonitor
