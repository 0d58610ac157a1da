import RaceMonitor.Proofs.Engine.Filtered
import RaceMonitor.Proofs.Session.Access

/-! Freed blocks in a session.

A freed block is known by the event that freed it: frees number their blocks in their order, and
no number is given twice (`Numbers`). As long as it is kept, a freed block holds the present of
the thread that freed it (`Retained.freedAt`), and the only reports entered into it are those of
accesses that it is due for (`freed_succ`). -/
namespace RaceMonitor

namespace Session

variable {r : Session}

/-- The blocks that event `n` meets. -/
def heap (r : Session) (n : Nat) : Heap := (r.state n).tables.heap

/-- A session starts without blocks. -/
theorem freed_zero (r : Session) (seq : Nat) : (r.heap 0).freed[seq]? = none := by
  rw [heap, state_zero, r.fresh]
  exact Std.ExtTreeMap.getElem?_empty

theorem live_zero (r : Session) (base : Word) : (r.heap 0).live[base]? = none := by
  rw [heap, state_zero, r.fresh]
  exact Std.ExtTreeMap.getElem?_empty

/-- Event `n` is no access, or one that is dropped. -/
def Idle (r : Session) (n : Nat) : Prop :=
  ∀ write tid pc addr size t, ¬ r.Processed n write tid pc addr size t

theorem idle_of_event {n : Nat} (h : ∀ write tid pc addr size,
    r.events[n]? ≠ some (.access write tid pc addr size)) : r.Idle n :=
  fun write tid pc addr size _ processed => h write tid pc addr size processed.event

/-- What event `n` makes of the freed blocks. -/
inductive Disposed (r : Session) (n : Nat) : Prop where
  | thinned (idle : r.Idle n) (thinned : (r.state n).tables.Thinned (r.state (n + 1)).tables)
  | freed (idle : r.Idle n) (tid : ThreadId) (addr : Word)
    (event : r.events[n]? = some (.free tid addr)) (t : Thread)
    (tracked : (r.state (n + 1)).tables.threads[tid]? = some t) (b : Block)
    (live : (r.heap n).live[addr]? = some b)
    (thinned : (((r.state n).tables.putHeap ((r.heap n).bury b t.epoch)).markPages b.extent).Thinned
      (r.state (n + 1)).tables)
  | accessed (write : Bool) (tid : ThreadId) (pc addr size : Word) (t : Thread)
    (processed : r.Processed n write tid pc addr size t)

theorem disposed (r : Session) (n : Nat) : r.Disposed n := by
  cases event : r.events[n]? with
  | none =>
    refine .thinned (idle_of_event (by simp [event])) ?_
    rw [state_succ_of_none event]
    exact .of_same rfl rfl
  | some e =>
    have idle (h : ∀ write tid pc addr size, e ≠ .access write tid pc addr size) : r.Idle n :=
      idle_of_event fun write tid pc addr size he =>
        h write tid pc addr size (Option.some.inj (event.symm.trans he))
    have step := remembers event
    generalize r.races n = delivered at step
    generalize hs : r.state (n + 1) = s' at step
    cases step with
    | accessed handled =>
      subst hs
      rcases processed_of_handled event handled with ⟨missing, tables, _⟩ | ⟨t, processed, _⟩
      · refine .thinned (fun write tid pc addr size t processed => ?_)
          (.of_same (by rw [tables]) (by rw [tables]))
        have same := Event.access_inj.mp (Option.some.inj (event.symm.trans processed.event))
        exact missing (same.2.1 ▸ Table.mem_iff_exists.mpr ⟨t, processed.tracked⟩)
      · exact .accessed _ _ _ _ _ t processed
    | allocated allocated =>
      refine .thinned (idle fun write _ _ _ _ => ?_) (hs ▸ allocated.thinned)
      cases write <;> nofun
    | freed deallocated =>
      rename_i tid addr
      have idle := idle fun write _ _ _ _ => by cases write <;> nofun
      rcases deallocated.disposed with thinned | ⟨t, b, tracked, live, thinned⟩
      · exact .thinned idle (hs ▸ thinned)
      · exact .freed idle tid addr event t (hs ▸ tracked) b live (hs ▸ thinned)
    | aside other _ aside =>
      refine .thinned (idle fun write _ _ _ _ he => ?_)
        (hs ▸ .of_same aside.heap aside.freedPages)
      subst he
      cases write <;> cases other

/-- Freed blocks, their index and their marks fit together at every moment. -/
theorem filtered (r : Session) (n : Nat) : (r.state n).tables.Filtered := by
  refine r.invariant (p := fun s => s.tables.Filtered) ?_ (fun n e _ filtered => ?_) n
  · rw [r.fresh]
    exact .empty _ _
  · exact State.step_filtered r.quiet filtered e

theorem pruned (r : Session) (n : Nat) : (r.heap n).Pruned := by
  refine (r.invariant (p := fun s => s.tables.Filtered ∧ s.tables.heap.Pruned) ?_
    (fun n e _ ⟨filtered, pruned⟩ => ?_) n).2
  · rw [r.fresh]
    exact ⟨.empty _ _, .empty _ _⟩
  · exact ⟨State.step_filtered r.quiet filtered e, State.step_pruned r.quiet filtered pruned e⟩

/-- How many freed blocks stay is as configured. -/
theorem maxFreed (r : Session) (n : Nat) : (r.heap n).maxFreed = r.start.config.maxFreed := by
  induction n with
  | zero =>
    rw [heap, state_zero, r.fresh]
    rfl
  | succ n ih =>
    rw [← ih]
    cases r.disposed n with
    | thinned _ thinned => exact thinned.heap.maxFreed
    | freed _ _ _ _ t _ b _ thinned => exact thinned.heap.maxFreed
    | accessed write tid pc addr size t processed =>
      obtain ⟨_, marked, _⟩ := processed.accessed.marked (r.filtered n)
      rw [heap, marked, heap]

/-! ### Numbers -/

/-- Event `f` is a free, and the block that it frees gets the number `seq`. -/
structure Numbers (r : Session) (f seq : Nat) : Prop where
  event : ∃ tid addr, r.events[f]? = some (.free tid addr)
  number : (r.heap f).nextSeq = seq
  taken : (r.heap (f + 1)).nextSeq = seq + 1

/-- Only where allocations are tracked is a block freed. -/
theorem Numbers.tracking {f seq : Nat} (numbers : r.Numbers f seq) :
    r.start.config.trackAllocations = true := by
  obtain ⟨⟨tid, addr, event⟩, number, taken⟩ := numbers
  by_contra untracked
  have off : (!(r.state f).config.trackAllocations) = true := by simpa [r.config] using untracked
  have ignored : r.state (f + 1) = r.state f := by
    rw [state_succ event, State.step, State.deallocate, if_pos off]
  rw [heap, ignored, ← heap, number] at taken
  omega

theorem nextSeq_le_succ (r : Session) (n : Nat) :
    (r.heap n).nextSeq ≤ (r.heap (n + 1)).nextSeq := by
  cases r.disposed n with
  | thinned _ thinned => exact Nat.le_of_eq thinned.heap.nextSeq.symm
  | freed _ _ _ _ t _ b _ thinned =>
    have taken : (r.heap (n + 1)).nextSeq = (r.heap n).nextSeq + 1 := thinned.heap.nextSeq
    omega
  | accessed write tid pc addr size t processed =>
    obtain ⟨_, marked, _⟩ := processed.accessed.marked (r.filtered n)
    refine Nat.le_of_eq (Eq.symm ?_)
    rw [heap, marked, heap]

theorem nextSeq_le {n m : Nat} (h : n ≤ m) : (r.heap n).nextSeq ≤ (r.heap m).nextSeq := by
  induction h with
  | refl => exact Nat.le_refl _
  | step _ ih => exact Nat.le_trans ih (r.nextSeq_le_succ _)

/-- Later frees get greater numbers. -/
theorem Numbers.lt_iff {f g seq seq' : Nat} (first : r.Numbers f seq) (second : r.Numbers g seq') :
    seq < seq' ↔ f < g := by
  have later {f g seq seq' : Nat} (first : r.Numbers f seq) (second : r.Numbers g seq')
      (lt : f < g) : seq < seq' := by
    have := nextSeq_le (r := r) (Nat.succ_le_of_lt lt)
    rw [first.taken, second.number] at this
    omega
  refine ⟨fun lt => ?_, later first second⟩
  rcases Nat.lt_trichotomy f g with less | rfl | more
  · exact less
  · exact absurd (first.number.symm.trans second.number) (Nat.ne_of_lt lt)
  · exact absurd (later second first more) (Nat.lt_asymm lt)

theorem Numbers.unique {f g seq : Nat} (first : r.Numbers f seq) (second : r.Numbers g seq) :
    f = g := by
  have before := first.lt_iff second
  have after := second.lt_iff first
  omega

/-! ### What becomes of a freed block -/

theorem Processed.unique {n : Nat} {write write' : Bool} {tid tid' : ThreadId}
    {pc pc' addr addr' size size' : Word} {t t' : Thread}
    (h : r.Processed n write tid pc addr size t)
    (h' : r.Processed n write' tid' pc' addr' size' t') : tid = tid' ∧ addr = addr' ∧ t = t' := by
  obtain ⟨_, rfl, _, rfl, _⟩ := Event.access_inj.mp (Option.some.inj (h.event.symm.trans h'.event))
  exact ⟨rfl, rfl, Option.some.inj (h.tracked.symm.trans h'.tracked)⟩

/-- Event `n` is a use after free by `tid` at `a`, and the block numbered `seq` is due for it. -/
def Strikes (r : Session) (n : Nat) (tid : ThreadId) (a : Word) (seq : Nat) : Prop :=
  ∃ write pc size t b, r.Processed n write tid pc a size t ∧ (r.heap n).Due tid a t.clock seq b

theorem Processed.strikes_iff {n : Nat} {write : Bool} {tid : ThreadId} {pc addr size : Word}
    {t : Thread} (h : r.Processed n write tid pc addr size t) {tid' : ThreadId} {a : Word}
    {seq : Nat} : r.Strikes n tid' a seq ↔
      (tid', a) = (tid, addr) ∧ ∃ b, (r.heap n).Due tid addr t.clock seq b := by
  constructor
  · intro strikes
    obtain ⟨_, _, _, _, b, processed, due⟩ := strikes
    obtain ⟨rfl, rfl, rfl⟩ := h.unique processed
    exact ⟨rfl, b, due⟩
  · intro struck
    obtain ⟨same, b, due⟩ := struck
    cases same
    exact ⟨write, pc, size, t, b, h, due⟩

/-- An access leaves all freed blocks, and is entered into the one that is due. -/
theorem Processed.freed_succ (tracking : r.start.config.trackAllocations = true) {n seq : Nat}
    {write : Bool} {tid : ThreadId} {pc addr size : Word} {t : Thread}
    (h : r.Processed n write tid pc addr size t) {b' : Block}
    (kept : (r.heap (n + 1)).freed[seq]? = some b') :
    ∃ b, (r.heap n).freed[seq]? = some b ∧ b'.freedAt = b.freedAt ∧
      ∀ tid a, b'.isReported tid a = true ↔ b.isReported tid a = true ∨ r.Strikes n tid a seq := by
  obtain rfl := h.tid_eq
  obtain ⟨b, found, ⟨_, rfl⟩, marks⟩ :=
    h.accessed.freed (r.filtered n) ((r.config n).symm ▸ tracking) kept
  exact ⟨b, found, rfl, fun tid a => by rw [marks, h.strikes_iff, heap]⟩

/-- A freed block was one before, or has just been freed. -/
theorem freed_succ (tracking : r.start.config.trackAllocations = true) {n seq : Nat} {b' : Block}
    (kept : (r.heap (n + 1)).freed[seq]? = some b') :
    (∃ b, (r.heap n).freed[seq]? = some b ∧ b'.freedAt = b.freedAt ∧
      ∀ tid a, b'.isReported tid a = true ↔ b.isReported tid a = true ∨ r.Strikes n tid a seq) ∨
    (r.Numbers n seq ∧ b'.reported = ∅ ∧
      ∃ tid t, r.Touches n tid t ∧ b'.freedAt = some t.epoch) := by
  have older (idle : r.Idle n) {b : Block} (found : (r.heap n).freed[seq]? = some b)
      (alike : b.Alike b') : ∃ b, (r.heap n).freed[seq]? = some b ∧ b'.freedAt = b.freedAt ∧
      ∀ tid a, b'.isReported tid a = true ↔
        b.isReported tid a = true ∨ r.Strikes n tid a seq := by
    obtain ⟨_, _, rfl⟩ := alike
    refine ⟨b, found, rfl, fun tid a => (or_iff_left ?_).symm⟩
    intro strikes
    obtain ⟨write, pc, size, t, _, processed, _⟩ := strikes
    exact idle write tid pc a size t processed
  cases r.disposed n with
  | thinned idle thinned =>
    obtain ⟨b, found, alike⟩ := thinned.heap.kept seq b' kept
    exact .inl (older idle found alike)
  | freed idle tid addr event t tracked b live thinned =>
    obtain ⟨b₀, found, alike⟩ := thinned.heap.kept seq b' kept
    have found : ((r.heap n).bury b t.epoch).freed[seq]? = some b₀ := found
    rw [Heap.bury_freed] at found
    split at found
    · rename_i same
      cases found
      obtain ⟨_, _, rfl⟩ := alike
      have taken : (r.heap (n + 1)).nextSeq = (r.heap n).nextSeq + 1 := thinned.heap.nextSeq
      exact .inr ⟨⟨⟨tid, addr, event⟩, same.symm, same ▸ taken⟩,
        (r.filtered n).valid.clean addr b live, tid, t, ⟨⟨_, event, rfl⟩, tracked⟩, rfl⟩
    · exact .inl (older idle found alike)
  | accessed write tid pc addr size t processed => exact .inl (processed.freed_succ tracking kept)

/-- Event `f` is a free, and the block `b` that it freed is still kept when event `n` comes. -/
def Retained (r : Session) (n f : Nat) (b : Block) : Prop :=
  ∃ seq, r.Numbers f seq ∧ (r.heap n).freed[seq]? = some b

/-- Each freed block was freed by an event before, at the present of that event's thread. -/
theorem retained_of_freed (tracking : r.start.config.trackAllocations = true) {n seq : Nat}
    {b : Block} (kept : (r.heap n).freed[seq]? = some b) :
    ∃ f < n, r.Numbers f seq ∧ ∃ tid t, r.Touches f tid t ∧ b.freedAt = some t.epoch := by
  induction n generalizing b with
  | zero =>
    cases (r.freed_zero _).symm.trans kept
  | succ n ih =>
    rcases freed_succ tracking kept with ⟨b₀, found, freedAt, _⟩ | ⟨numbers, _, freedAt⟩
    · obtain ⟨f, lt, numbers, rest⟩ := ih found
      exact ⟨f, Nat.lt_succ_of_lt lt, numbers, freedAt ▸ rest⟩
    · exact ⟨n, Nat.lt_succ_self n, numbers, freedAt⟩

theorem Retained.freedAt (tracking : r.start.config.trackAllocations = true) {n f : Nat} {b : Block}
    (h : r.Retained n f b) : f < n ∧ ∃ tid t, r.Touches f tid t ∧ b.freedAt = some t.epoch := by
  obtain ⟨seq, numbers, kept⟩ := h
  obtain ⟨g, lt, numbers', freedAt⟩ := retained_of_freed tracking kept
  obtain rfl := numbers.unique numbers'
  exact ⟨lt, freedAt⟩

end Session

end RaceMonitor
