import RaceMonitor.Proofs.History
import RaceMonitor.Proofs.Session.Frees

/-! Uses after free are reported exactly.

An access is a use after free of the freed blocks at its address that another thread owned and
whose free does not happen before it. Each is reported to a thread once per address, the one freed
last first. This says what a report is charged to without looking at the marks that the blocks
themselves carry (`Blames`); that the marks agree holds at every moment (`ledger`). -/
namespace RaceMonitor.Session

variable {r : Session}

/-- Event `n` delivers a use after free by `tid` at `a`. -/
def UseReported (r : Session) (n : Nat) (tid : ThreadId) (a : Word) : Prop :=
  ∃ race ∈ r.races n, race.kind = .useAfterFree ∧ race.second.tid = tid ∧ race.second.addr = a

/-- As event `n`, an access by `tid` at `a` is a use of the block `b` after it was freed by
event `f`. -/
structure Exposed (r : Session) (n : Nat) (tid : ThreadId) (a : Word) (f : Nat) (b : Block) :
    Prop where
  retained : r.Retained n f b
  covers : b.extent.overlaps (Extent.ofByte a) = true
  foreign : b.owner ≠ tid
  unordered : ¬ r.HappensBefore f n

/-- Event `n` delivers a use after free by `tid` at `a`, and that is of the block freed by
event `f`: of the exposed blocks of which none has been delivered before for `tid` at `a`, it
is the one freed last. -/
def Blames (r : Session) (n : Nat) (tid : ThreadId) (a : Word) (f : Nat) : Prop :=
  r.UseReported n tid a ∧ (∃ b, r.Exposed n tid a f b) ∧ (∀ k < n, ¬ Blames r k tid a f) ∧
    ∀ g b, r.Exposed n tid a g b → (∀ k < n, ¬ Blames r k tid a g) → g ≤ f
termination_by n

/-- An exposed block of which no use after free has been delivered before for `tid` at `a`. -/
structure Candidate (r : Session) (n : Nat) (tid : ThreadId) (a : Word) (f : Nat) (b : Block) :
    Prop extends r.Exposed n tid a f b where
  fresh : ∀ k < n, ¬ r.Blames k tid a f

theorem blames_iff {n : Nat} {tid : ThreadId} {a : Word} {f : Nat} :
    r.Blames n tid a f ↔ r.UseReported n tid a ∧ (∃ b, r.Candidate n tid a f b) ∧
      ∀ g b, r.Candidate n tid a g b → g ≤ f := by
  rw [Blames]
  constructor
  · intro blames
    obtain ⟨reported, ⟨b, exposed⟩, fresh, last⟩ := blames
    exact ⟨reported, ⟨b, exposed, fresh⟩, fun g b c => last g b c.toExposed c.fresh⟩
  · intro h
    obtain ⟨reported, ⟨b, exposed, fresh⟩, last⟩ := h
    exact ⟨reported, ⟨b, exposed⟩, fresh, fun g b exposed fresh => last g b ⟨exposed, fresh⟩⟩

theorem Blames.lt (tracking : r.start.config.trackAllocations = true) {n : Nat} {tid : ThreadId}
    {a : Word} {f : Nat} (h : r.Blames n tid a f) : f < n := by
  obtain ⟨_, ⟨b, candidate⟩, _⟩ := blames_iff.mp h
  exact (candidate.retained.freedAt tracking).1

/-! ### What an access delivers -/

/-- A report that the history check makes is no use after free. -/
theorem conflictReport_kind {s : State} {addr : Word} {current : Access} {h : History}
    {write : Bool} {tid : ThreadId} {vc : VectorClock} {site : Site} {race : Race}
    (mem : race ∈ s.conflictReport addr current (h.onAccess write tid vc site).1) :
    race.kind ≠ .useAfterFree := by
  unfold State.conflictReport at mem
  split at mem
  · rename_i kind prior outcome
    obtain rfl := List.mem_singleton.mp mem
    exact (History.race_onAccess outcome).1
  · cases mem

/-- An access delivers one use after free and nothing else, or none as no block is due. -/
theorem Processed.races_cases (tracking : r.start.config.trackAllocations = true)
    (heard : r.start.heard = true) {n : Nat} {write : Bool} {tid : ThreadId} {pc a size : Word}
    {t : Thread} (h : r.Processed n write tid pc a size t) :
    ((∀ race ∈ r.races n, race.kind ≠ .useAfterFree) ∧
      ∀ seq b, ¬ (r.heap n).Stale tid a t.clock seq b) ∨
    ∃ race seq b, r.races n = [race] ∧ race.kind = .useAfterFree ∧ race.second.tid = tid ∧
      race.second.addr = a ∧ race.first.block = b.extent ∧ (r.heap n).Due tid a t.clock seq b := by
  obtain rfl := h.tid_eq
  have races := h.accessed.races
  rw [(r.heard n).trans heard, if_pos rfl] at races
  rcases State.reportUse_cases (r.filtered n) t a with
    ⟨found, _, none⟩ | ⟨hit, seq, b, found, _, use, due⟩
  · refine .inl ⟨fun race mem => ?_, none ((r.config n).symm ▸ tracking)⟩
    rw [races, State.report, found] at mem
    dsimp only at mem
    split at mem
    · exact conflictReport_kind mem
    · cases mem
  · rw [State.report, found] at races
    exact .inr ⟨_, seq, b, races, rfl, State.side_tid _ _ _ _, State.side_addr _ _ _ _,
      congrArg UseAfterFree.block use, due⟩

/-! ### The marks that blocks carry -/

section

variable (tracking : r.start.config.trackAllocations = true) (unsaturated : r.Unsaturated)
  (heard : r.start.heard = true)

/-- The marks of the freed blocks say which uses after free have been delivered. -/
def Ledger (r : Session) (n : Nat) : Prop :=
  ∀ f b, r.Retained n f b → ∀ tid a,
    (b.isReported tid a = true ↔ ∃ k < n, r.Blames k tid a f)

include tracking unsaturated in
/-- What the engine goes by is what it should go by. -/
theorem Ledger.stale_iff {n : Nat} (ledger : r.Ledger n) {write : Bool} {tid : ThreadId}
    {pc a size : Word} {t : Thread} (h : r.Processed n write tid pc a size t) {f seq : Nat}
    {b : Block} (numbers : r.Numbers f seq) :
    (r.heap n).Stale tid a t.clock seq b ↔ r.Candidate n tid a f b := by
  have observed (retained : r.Retained n f b) :
      b.freedAt.any (fun e => !e.observedBy t.clock) = true ↔ ¬ r.HappensBefore f n := by
    obtain ⟨lt, tid', t', touches, freedAt⟩ := retained.freedAt tracking
    rw [freedAt, Option.any_some, Bool.not_eq_true', Bool.eq_false_iff]
    exact not_congr ⟨happensBefore_of_observed unsaturated lt touches h.touches,
      observed_of_happensBefore lt touches h.touches⟩
  have fresh (retained : r.Retained n f b) :
      b.isReported tid a = false ↔ ∀ k < n, ¬ r.Blames k tid a f := by
    rw [Bool.eq_false_iff, ne_eq, ledger f b retained]
    simp only [not_exists, not_and]
  constructor
  · intro stale
    obtain ⟨kept, covers, unseen, unreported⟩ := stale
    have retained : r.Retained n f b := ⟨seq, numbers, kept⟩
    simp only [Block.unseenBy, Bool.and_eq_true, bne_iff_ne] at unseen
    exact ⟨⟨retained, covers, unseen.1, (observed retained).mp unseen.2⟩,
      (fresh retained).mp unreported⟩
  · intro candidate
    obtain ⟨⟨retained, covers, foreign, unordered⟩, unblamed⟩ := candidate
    obtain ⟨seq', numbers', kept⟩ := id retained
    obtain rfl : seq = seq' := numbers.number.symm.trans numbers'.number
    refine ⟨kept, covers, ?_, (fresh retained).mpr unblamed⟩
    simp only [Block.unseenBy, Bool.and_eq_true, bne_iff_ne]
    exact ⟨foreign, (observed retained).mpr unordered⟩

include tracking unsaturated in
/-- The block that is due is the candidate freed last. -/
theorem Ledger.due_iff {n : Nat} (ledger : r.Ledger n) {write : Bool} {tid : ThreadId}
    {pc a size : Word} {t : Thread} (h : r.Processed n write tid pc a size t) {f seq : Nat}
    {b : Block} (numbers : r.Numbers f seq) : (r.heap n).Due tid a t.clock seq b ↔
      r.Candidate n tid a f b ∧ ∀ g c, r.Candidate n tid a g c → g ≤ f := by
  have stale_iff {f seq : Nat} {b : Block} (numbers : r.Numbers f seq) :=
    ledger.stale_iff tracking unsaturated h (b := b) numbers
  constructor
  · intro due
    obtain ⟨stale, newest⟩ := due
    refine ⟨(stale_iff numbers).mp stale, fun g c candidate => ?_⟩
    obtain ⟨seq', numbers', _⟩ := candidate.retained
    have le := newest seq' c ((stale_iff numbers').mpr candidate)
    exact Nat.not_lt.mp fun lt => Nat.not_lt.mpr le ((numbers.lt_iff numbers').mpr lt)
  · intro last
    obtain ⟨candidate, last⟩ := last
    refine ⟨(stale_iff numbers).mpr candidate, fun seq' c stale => ?_⟩
    obtain ⟨g, _, numbers', _⟩ := retained_of_freed tracking stale.kept
    have le := last g c ((stale_iff numbers').mp stale)
    exact Nat.not_lt.mp fun lt => Nat.not_lt.mpr le ((numbers.lt_iff numbers').mp lt)

include tracking unsaturated heard in
/-- An access is entered into the block that its report is charged to. -/
theorem Ledger.strikes_iff {n : Nat} (ledger : r.Ledger n) {tid : ThreadId} {a : Word}
    {f seq : Nat} (numbers : r.Numbers f seq) :
    r.Strikes n tid a seq ↔ r.Blames n tid a f := by
  rw [blames_iff]
  constructor
  · intro strikes
    obtain ⟨write, pc, size, t, b, processed, due⟩ := strikes
    obtain ⟨candidate, last⟩ := (ledger.due_iff tracking unsaturated processed numbers).mp due
    refine ⟨?_, ⟨b, candidate⟩, last⟩
    rcases processed.races_cases tracking heard with
      ⟨_, none⟩ | ⟨race, _, _, races, kind, thread, addr, _⟩
    · exact absurd due.toStale (none seq b)
    · exact ⟨race, by simp [races], kind, thread, addr⟩
  · intro h
    obtain ⟨⟨race, delivered, kind, rfl, rfl⟩, ⟨b, candidate⟩, last⟩ := h
    obtain ⟨write, tid, pc, a, size, t, processed, _⟩ := mem_races delivered
    rcases processed.races_cases tracking heard with
      ⟨other, _⟩ | ⟨race', _, _, races, _, thread, addr, _⟩
    · exact absurd kind (other race delivered)
    · obtain rfl : race = race' := by simpa [races] using delivered
      obtain rfl := thread
      obtain rfl := addr
      exact ⟨write, pc, size, t, b, processed,
        (ledger.due_iff tracking unsaturated processed numbers).mpr ⟨candidate, last⟩⟩

include tracking unsaturated heard in
/-- The marks are right at every moment. -/
theorem ledger (n : Nat) : r.Ledger n := by
  induction n with
  | zero =>
    intro f b h
    obtain ⟨seq, _, kept⟩ := h
    cases (r.freed_zero _).symm.trans kept
  | succ n ih =>
    intro f b' h tid a
    obtain ⟨seq, numbers, kept⟩ := h
    rcases freed_succ tracking kept with ⟨b, found, _, marks⟩ | ⟨numbers', unmarked, _⟩
    · rw [marks, ih f b ⟨seq, numbers, found⟩, ih.strikes_iff tracking unsaturated heard numbers,
        Nat.exists_lt_succ_right]
    · obtain rfl := numbers.unique numbers'
      have unmarked : b'.isReported tid a = false := by simp [Block.isReported, unmarked]
      rw [unmarked, Bool.false_eq_true, false_iff]
      intro found
      obtain ⟨k, lt, blames⟩ := found
      exact Nat.not_lt.mpr (Nat.lt_succ_iff.mp lt) (blames.lt tracking)

end

/-- **Uses after free are reported exactly**: when allocations are tracked and no thread's logical
time ends, an access that is processed for `tid` at `a` delivers a use after free just when there
is a candidate for it, and what it then delivers is that one race, against the candidate freed
last. The histories come out as they would without the check. -/
theorem useAfterFree_delivered_iff (tracking : r.start.config.trackAllocations = true)
    (unsaturated : r.Unsaturated) (heard : r.start.heard = true) {n : Nat} {write : Bool}
    {tid : ThreadId} {pc a size : Word} {t : Thread} (h : r.Processed n write tid pc a size t) :
    ((∃ race ∈ r.races n, race.kind = .useAfterFree) ↔ ∃ f b, r.Candidate n tid a f b) ∧
    (∀ race ∈ r.races n, race.kind = .useAfterFree → r.races n = [race] ∧
      race.second.tid = tid ∧ race.second.addr = a ∧
      ∃ f b, r.Candidate n tid a f b ∧ (∀ g c, r.Candidate n tid a g c → g ≤ f) ∧
        race.first.block = b.extent) ∧
    (r.state (n + 1)).tables.shadow =
      ((r.state n).unguarded.step r.host (.access write tid pc a size)).1.tables.shadow := by
  have ledger := ledger tracking unsaturated heard n
  have shadow : (r.state (n + 1)).tables.shadow =
      ((r.state n).unguarded.step r.host (.access write tid pc a size)).1.tables.shadow := by
    rw [state_succ h.event, State.step_access, State.step_access, State.access_unguarded r.quiet]
  rcases h.races_cases tracking heard with
    ⟨other, none⟩ | ⟨race, seq, b, races, kind, thread, addr, block, due⟩
  · refine ⟨⟨fun ⟨race, mem, kind⟩ => absurd kind (other race mem), ?_⟩,
      fun race mem kind => absurd kind (other race mem), shadow⟩
    intro found
    obtain ⟨f, b, candidate⟩ := found
    obtain ⟨seq, numbers, _⟩ := candidate.retained
    exact absurd ((ledger.stale_iff tracking unsaturated h numbers).mpr candidate) (none seq b)
  · obtain ⟨f, _, numbers, _⟩ := retained_of_freed tracking due.kept
    obtain ⟨candidate, last⟩ := (ledger.due_iff tracking unsaturated h numbers).mp due
    refine ⟨⟨fun _ => ⟨f, b, candidate⟩, fun _ => ⟨race, by simp [races], kind⟩⟩, ?_, shadow⟩
    intro race' mem _
    obtain rfl : race' = race := by simpa [races] using mem
    exact ⟨races, thread, addr, f, b, candidate, last, block⟩

/-- A session that begins with an allocation: the block is made where no freed block is. -/
theorem state_under_alloc {config : Config} (tracking : config.trackAllocations = true)
    {size : Word} (nonempty : size ≠ 0) (tid : ThreadId) (pc addr : Word) (es : List Event)
    (n : Nat) :
    let r := under config (.alloc tid pc addr size :: es)
    r.state (n + 1) = ((r.start.withTables (r.start.tables.putHeap
      ((Heap.empty config.maxFreed).allocate (Block.new tid pc ⟨addr, size⟩)).2)).run r.host
        (es.take n)).1 := by
  intro r
  have heap : r.start.tables.heap = Heap.empty config.maxFreed := rfl
  have untouched : (Heap.empty config.maxFreed).handOut ⟨addr, size⟩ =
      (false, [], Heap.empty config.maxFreed) :=
    Heap.handOut_of_untouched (.empty _ _) (by simp [Heap.empty])
  have nothing : (Tables.forgetRange r.host.order r.start.tables.shadow ⟨addr, size⟩).2 =
      r.start.tables.shadow := Std.ExtTreeMap.ext_getElem? fun x => by
    have missing : r.start.tables.shadow[x]? = none := Std.ExtTreeMap.getElem?_empty
    rw [Tables.forgetRange_get, missing, ite_self]
  have takes : ¬ ((!r.start.config.trackAllocations || size == 0) = true) := by
    have on : r.start.config.trackAllocations = true := tracking
    simp [on, nonempty]
  have first : (r.start.step r.host (.alloc tid pc addr size)).1 = r.start.withTables
      (r.start.tables.putHeap ((Heap.empty config.maxFreed).allocate
        (Block.new tid pc ⟨addr, size⟩)).2) := by
    show (State.allocate r.start r.host tid pc addr size).1 = _
    rw [State.allocate, if_neg takes]
    simp only [heap, untouched, nothing]
    rfl
  rw [← first]
  rfl

/-- A thread frees a block that the thread it has forked still reads. -/
def dangling : Session :=
  .default [.alloc 0 1 100 8, .fork 0 1, .free 0 100, .read 1 2 100 4]

theorem dangling_state (n : Nat) : dangling.state (n + 1) =
    ((dangling.start.withTables (dangling.start.tables.putHeap
      ((Heap.empty 65536).allocate (Block.new 0 1 ⟨100, 8⟩)).2)).run dangling.host
        (dangling.events.tail.take n)).1 :=
  state_under_alloc rfl (by decide) 0 1 100 _ n

theorem useAfterFree_delivered_iff_dangling : ∃ t race,
    dangling.start.config.trackAllocations = true ∧ dangling.Unsaturated ∧
    dangling.start.heard = true ∧ dangling.Processed 3 false 1 2 100 4 t ∧
    dangling.races 3 = [race] ∧ race.kind = .useAfterFree ∧ race.second.tid = 1 ∧
    race.second.addr = 100 ∧ (dangling.state 4).tables.shadow = ((dangling.state 3).unguarded.step
      dangling.host (.access false 1 2 100 4)).1.tables.shadow := by
  have unsaturated : dangling.Unsaturated := unsaturated_of_length (by decide)
  have owner : ((dangling.state 3).tables.threads[(0 : ThreadId)]?).isSome := by
    rw [dangling_state]
    decide +kernel
  have reader : ((dangling.state 3).tables.threads[(1 : ThreadId)]?).isSome := by
    rw [dangling_state]
    decide +kernel
  have block : (dangling.heap 3).freed[0]?.any (fun b => b.owner == 0 &&
      b.extent.overlaps (Extent.ofByte 100)) = true := by
    rw [heap, dangling_state]
    decide +kernel
  obtain ⟨u, hu⟩ := Option.isSome_iff_exists.mp owner
  obtain ⟨t, ht⟩ := Option.isSome_iff_exists.mp reader
  obtain ⟨b, kept, hb⟩ := (Option.any_eq_true _ _).mp block
  have processed : dangling.Processed 3 false 1 2 100 4 t := processed_of_tracked rfl ht
  have unordered : ¬ dangling.HappensBefore 2 3 := fun before => by
    have freed : dangling.Touches 2 0 u := ⟨⟨.free 0 100, rfl, rfl⟩, hu⟩
    have observed := observed_of_happensBefore (by decide) freed processed.touches before
    have unknown : (((dangling.state 3).tables.threads[(0 : ThreadId)]?).any fun u =>
        ((dangling.state 3).tables.threads[(1 : ThreadId)]?).any fun t =>
          u.epoch.observedBy t.clock) = false := by
      rw [dangling_state]
      decide +kernel
    simp [hu, ht, observed] at unknown
  have numbers : dangling.Numbers 2 0 := by
    refine ⟨⟨0, 100, rfl⟩, ?_, ?_⟩ <;> rw [heap, dangling_state] <;> decide +kernel
  have exposed : dangling.Exposed 3 1 100 2 b := by
    simp only [Bool.and_eq_true, beq_iff_eq] at hb
    exact ⟨⟨0, numbers, kept⟩, hb.2, by rw [hb.1]; decide, unordered⟩
  have fresh : ∀ k < 3, ¬ dangling.Blames k 1 100 2 := fun k hk blames =>
    Nat.not_lt.mpr (Nat.lt_succ_iff.mp hk) (blames.lt rfl)
  obtain ⟨delivered, only, shadow⟩ :=
    useAfterFree_delivered_iff rfl unsaturated rfl processed
  obtain ⟨race, mem, kind⟩ := delivered.mpr ⟨2, b, exposed, fresh⟩
  obtain ⟨races, thread, addr, _⟩ := only race mem kind
  exact ⟨t, race, rfl, unsaturated, rfl, processed, races, kind, thread, addr, shadow⟩

/-- A block is allocated and freed before the child is forked, and read after the child is
joined. -/
def handoverFreed : Session := handover [.alloc 1 1 256 8, .free 1 256] (.read 3 2 256 8)

theorem handoverFreed_state (n : Nat) : handoverFreed.state (n + 1) =
    ((handoverFreed.start.withTables (handoverFreed.start.tables.putHeap
      ((Heap.empty 0).allocate (Block.new 1 1 ⟨256, 8⟩)).2)).run handoverFreed.host
        (handoverFreed.events.tail.take n)).1 :=
  state_under_alloc rfl (by decide) 1 1 256 _ n

/-- A read of a freed block that only the life of a child that does nothing puts after the free is
not reported. -/
theorem handoverFreed_unreported : ∃ t b, handoverFreed.start.config.trackAllocations = true ∧
    handoverFreed.Unsaturated ∧ handoverFreed.start.heard = true ∧
    handoverFreed.Processed 4 false 3 2 256 8 t ∧ handoverFreed.Retained 4 1 b ∧
    b.extent.overlaps (Extent.ofByte 256) = true ∧ b.owner ≠ 3 ∧
    ¬ Relation.ReflTransGen handoverFreed.Direct 1 4 ∧ ∀ k, handoverFreed.races k = [] := by
  have unsaturated : handoverFreed.Unsaturated := unsaturated_of_length (by decide)
  have reader : ((handoverFreed.state 4).tables.threads[(3 : ThreadId)]?).isSome := by
    rw [handoverFreed_state]
    decide +kernel
  have block : (handoverFreed.heap 4).freed[0]?.any (fun b => b.owner == 1 &&
      b.extent.overlaps (Extent.ofByte 256)) = true := by
    rw [heap, handoverFreed_state]
    decide +kernel
  obtain ⟨t, ht⟩ := Option.isSome_iff_exists.mp reader
  obtain ⟨b, kept, hb⟩ := (Option.any_eq_true _ _).mp block
  simp only [Bool.and_eq_true, beq_iff_eq] at hb
  have numbers : handoverFreed.Numbers 1 0 := by
    refine ⟨⟨1, 256, rfl⟩, ?_, ?_⟩ <;> rw [heap, handoverFreed_state] <;> decide +kernel
  have own : ∀ x ∈ ([.alloc 1 1 256 8, .free 1 256] : List Event), x.Uses 1 := fun x mem => by
    rcases List.mem_pair.mp mem with rfl | rfl
    · exact .alloc ..
    · exact .free ..
  have parted : ¬ Relation.ReflTransGen handoverFreed.Direct 1 4 :=
    handover_parted own (.read ..) (by decide) (by decide)
  have last : handoverFreed.races 4 = [] := by
    rw [races, output_eq rfl, handoverFreed_state]
    simp only [State.step, State.access, State.accessBy, State.reportUse, Heap.reportUse,
      Heap.unreported, Heap.overlapping, Heap.touching_eq]
    decide +kernel
  have silent : ∀ k, handoverFreed.races k = [] := by
    rintro (_ | _ | _ | _ | _ | k)
    · exact ((handoverFreed.state 0).allocate_allocated handoverFreed.host 1 1 256 8).2
    iterate 3 rw [races, output_eq rfl, handoverFreed_state]; decide +kernel
    · exact last
    · rfl
  exact ⟨t, b, rfl, unsaturated, rfl, processed_of_tracked rfl ht, ⟨0, numbers, kept⟩, hb.2,
    by rw [hb.1]; decide, parted, silent⟩

end RaceMonitor.Session
