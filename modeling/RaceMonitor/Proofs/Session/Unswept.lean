import RaceMonitor.Proofs.Engine.Rehoused
import RaceMonitor.Proofs.Race.Blame
import RaceMonitor.Proofs.Session.Sweeps

/-! A session without sweeps.

Beside the same session without sweeps, and without a limit on freed blocks, the sweeps lose no use
after free by a thread that was live then, or that descends from one that was
(`useAfterFree_of_unswept`). The two go the same way but for the freed blocks (`Unswept`): those
that only the one without sweeps still has are of no use to such a thread, and of the others it has
been told the same. To a thread that is first named later a free is as unknown as anything else,
and it may still use the block. -/
namespace RaceMonitor

/-- No free counts towards the next sweep. -/
def State.unhurried (s : State) : State :=
  s.withTables (s.tables.putHeap { s.tables.heap with sinceSweep := 0 })

namespace Session

variable {r : Session}

/-- The state that event `n` meets where no sweep ever comes. -/
def unswept (r : Session) (n : Nat) : State :=
  (r.events.take n).foldl (fun s e => (s.unhurried.step r.host e).1) r.start

/-- The races that event `n` delivers there. -/
def unsweptRaces (r : Session) (n : Nat) : List Race :=
  match r.events[n]? with
  | some e => RaceMonitor.races ((r.unswept n).unhurried.step r.host e).2
  | none => []

theorem unswept_succ {n : Nat} {e : Event} (h : r.events[n]? = some e) :
    r.unswept (n + 1) = ((r.unswept n).unhurried.step r.host e).1 := by
  have htake : r.events.take (n + 1) = r.events.take n ++ [e] := by
    rw [List.take_add_one, h]
    rfl
  rw [unswept, htake, List.foldl_append]
  rfl

theorem unswept_succ_of_none {n : Nat} (h : r.events[n]? = none) :
    r.unswept (n + 1) = r.unswept n := by
  rw [unswept, List.take_add_one, h, Option.toList_none, List.append_nil, unswept]

/-! ### Side by side -/

/-- How the state `u` without sweeps goes with the one that event `n` meets: blocks that are only
in `u` have been swept, and the reports to a thread that is privy to all sweeps are the same. -/
structure Unswept (r : Session) (n : Nat) (u : State) : Prop where
  rehouses : (r.state n).Rehouses u
  filtered : u.tables.Filtered
  pruned : u.tables.heap.Pruned
  live : u.tables.heap.live = (r.heap n).live
  nextSeq : u.tables.heap.nextSeq = (r.heap n).nextSeq
  unlimited : u.tables.heap.maxFreed = 0
  kept : ∀ seq b, (r.heap n).core seq = some b → u.tables.heap.core seq = some b
  lost : ∀ seq c, u.tables.heap.core seq = some c → (r.heap n).core seq = none →
    ∃ k < n, r.Swept k c
  marks : ∀ (seq : Nat) (b c : Block), (r.heap n).freed[seq]? = some b →
    u.tables.heap.freed[seq]? = some c → ∀ tid a, b.extent.overlaps (Extent.ofByte a) = true →
    r.Privy n tid a → b.isReported tid a = c.isReported tid a

namespace Unswept

variable {n : Nat} {u u' : State}

theorem unhurried (w : r.Unswept n u) : r.Unswept n u.unhurried where
  rehouses := by
    obtain ⟨heap, pages, c, rfl⟩ := w.rehouses
    exact ⟨_, pages, c, rfl⟩
  filtered := by
    obtain ⟨⟨numbered, indexed, widest, clean⟩, marked⟩ := w.filtered
    exact ⟨⟨numbered, indexed, widest, clean⟩, marked⟩
  pruned := w.pruned
  live := w.live
  nextSeq := w.nextSeq
  unlimited := w.unlimited
  kept := w.kept
  lost := w.lost
  marks := w.marks

theorem lost_succ (w : r.Unswept n u) {seq : Nat} {c : Block}
    (found : u.tables.heap.core seq = some c) (gone : (r.heap n).core seq = none) :
    ∃ k < n + 1, r.Swept k c := by
  obtain ⟨k, lt, swept⟩ := w.lost seq c found gone
  exact ⟨k, Nat.lt_succ_of_lt lt, swept⟩

theorem of_same (w : r.Unswept n u) (rehouses : (r.state (n + 1)).Rehouses u')
    (filtered : u'.tables.Filtered) (mine : r.heap (n + 1) = r.heap n)
    (other : u'.tables.heap = u.tables.heap) : r.Unswept (n + 1) u' where
  rehouses := rehouses
  filtered := filtered
  pruned := other ▸ w.pruned
  live := by rw [mine, other, w.live]
  nextSeq := by rw [mine, other, w.nextSeq]
  unlimited := other ▸ w.unlimited
  kept := by
    rw [mine, other]
    exact w.kept
  lost seq c found gone := by
    rw [mine] at gone
    rw [other] at found
    exact w.lost_succ found gone
  marks seq b c found found' tid a covers privy := by
    rw [mine] at found
    rw [other] at found'
    exact w.marks seq b c found found' tid a covers privy.of_succ

/-- An allocation does the same to both. -/
theorem allocated (w : r.Unswept n u) {tid : ThreadId} {pc addr size : Word}
    (event : r.events[n]? = some (.alloc tid pc addr size)) :
    r.Unswept (n + 1) (u.allocate r.host tid pc addr size).1 := by
  have after : r.state (n + 1) = ((r.state n).allocate r.host tid pc addr size).1 :=
    state_succ event
  have mine := ((r.state n).allocate_allocated r.host tid pc addr size).1
  have other := (u.allocate_allocated r.host tid pc addr size).1
  rw [← after] at mine
  have rehouses : (r.state (n + 1)).Rehouses (u.allocate r.host tid pc addr size).1 := by
    obtain ⟨heap, pages, c, rfl⟩ := w.rehouses
    exact after ▸ (r.state n).allocate_rehouses heap pages c r.host tid pc addr size
  have config := w.rehouses.config
  have filtered := State.step_filtered r.quiet w.filtered (.alloc tid pc addr size)
  have pruned := State.step_pruned r.quiet w.filtered w.pruned (.alloc tid pc addr size)
  rw [State.step] at filtered pruned
  generalize (u.allocate r.host tid pc addr size).1 = u' at other rehouses filtered pruned
  have core := mine.core (r.filtered n) (r.pruned n)
  have core' := other.core w.filtered w.pruned
  rw [config] at core'
  exact {
    rehouses, filtered, pruned
    live := by rw [heap, other.live_eq, mine.live_eq, config, w.live, heap]
    nextSeq := by
      rw [heap, other.thinned.heap.nextSeq, mine.thinned.heap.nextSeq]
      exact w.nextSeq
    unlimited := other.thinned.heap.maxFreed.trans w.unlimited
    kept := fun seq b found => by
      rw [heap, core] at found
      obtain ⟨c, known, handed⟩ := Option.bind_eq_some_iff.mp found
      rw [core', w.kept seq c known]
      exact handed
    lost := fun seq c found gone => by
      rw [core'] at found
      obtain ⟨c₀, known, handed⟩ := Option.bind_eq_some_iff.mp found
      cases left : (r.heap n).core seq with
      | some d =>
        obtain rfl := Option.some.inj ((w.kept seq d left).symm.trans known)
        rw [heap, core, ← heap, left] at gone
        cases handed.symm.trans gone
      | none =>
        obtain ⟨k, lt, swept⟩ := w.lost_succ known left
        split at handed
        · exact ⟨k, lt, swept.reissue handed⟩
        · exact ⟨k, lt, Option.some.inj handed ▸ swept⟩
    marks := fun seq b c found found' tid a covers privy => by
      obtain ⟨b₀, known, _, _, rfl⟩ := mine.thinned.heap.kept seq b found
      obtain ⟨c₀, known', _, _, rfl⟩ := other.thinned.heap.kept seq c found'
      exact w.marks seq b₀ c₀ known known' tid a covers privy.of_succ }

/-- A free adds the same block to both, and what goes from the one is swept. -/
theorem freed (w : r.Unswept n u) (unlimited : r.start.config.maxFreed = 0)
    (unhurried : u.tables.heap.sinceSweep = 0) {tid : ThreadId} {addr : Word}
    (event : r.events[n]? = some (.free tid addr)) :
    r.Unswept (n + 1) (u.deallocate r.host tid addr).1 := by
  have after : r.state (n + 1) = ((r.state n).deallocate r.host tid addr).1 := state_succ event
  have filtered := State.step_filtered r.quiet w.filtered (.free tid addr)
  have pruned := State.step_pruned r.quiet w.filtered w.pruned (.free tid addr)
  rw [State.step] at filtered pruned
  obtain ⟨g, pages, counters, rfl⟩ := w.rehouses
  have live' : g.live = (r.heap n).live := w.live
  have numbers : g.nextSeq = (r.heap n).nextSeq := w.nextSeq
  obtain ⟨rehouses, both⟩ := (r.state n).deallocate_both g pages counters r.host tid addr live'
  rw [← after] at rehouses both
  generalize (State.deallocate _ r.host tid addr).1 = u' at filtered pruned rehouses both
  cases both with
  | idle mine other => exact w.of_same rehouses filtered mine other
  | buried tracking t b tracked live mine other =>
    rw [r.config] at tracking
    have touches : r.Touches n tid t := ⟨⟨_, event, rfl⟩, tracked⟩
    have mine : ((r.heap n).bury b t.epoch).MaySweep ((r.state (n + 1)).tables.floor r.order)
        (r.heap (n + 1)) := by
      show Heap.MaySweep _ _ (r.state (n + 1)).tables.heap
      rw [mine]
      exact Heap.maySweep_tidied (h := (r.heap n).bury b t.epoch)
        ((r.maxFreed n).trans unlimited) _
    have other : u'.tables.heap = g.bury b t.epoch :=
      other.trans (Heap.tidied_bury w.unlimited unhurried b t.epoch _)
    have before (seq : Nat) (d : Block) (found : ((r.heap n).bury b t.epoch).core seq = some d) :
        u'.tables.heap.core seq = some d :=
      other ▸ Heap.core_bury_of_core numbers w.kept b t.epoch found
    exact {
      rehouses, filtered, pruned
      live := by
        rw [other, mine.live]
        exact congrArg (·.erase b.extent.base) live'
      nextSeq := by
        rw [other, mine.nextSeq]
        exact congrArg (· + 1) numbers
      unlimited := other ▸ w.unlimited
      kept := fun seq d found => by
        obtain ⟨d', there, rfl⟩ := Heap.core_eq_some.mp found
        exact before seq _ (Heap.core_eq_some.mpr ⟨d', mine.freed there, rfl⟩)
      lost := fun seq c found gone => by
        cases there : ((r.heap n).bury b t.epoch).core seq with
        | some d =>
          obtain rfl := Option.some.inj ((before seq d there).symm.trans found)
          exact ⟨n, Nat.lt_succ_self n, swept_of_gone tracking event touches live mine there gone⟩
        | none =>
          rw [Heap.core_bury] at there
          rw [other, Heap.core_bury, numbers] at found
          split at there
          · cases there
          · rename_i older
            rw [if_neg older] at found
            exact w.lost_succ found there
      marks := fun seq d c found found' tid a covers privy => by
        have found := mine.freed found
        rw [Heap.bury_freed] at found
        rw [other, Heap.bury_freed, numbers] at found'
        split at found
        · rename_i own
          rw [if_pos own] at found'
          rw [Option.some.inj (found.symm.trans found')]
        · rename_i older
          rw [if_neg older] at found'
          exact w.marks seq d c found found' tid a covers privy.of_succ }

/-! ### Accesses -/

theorem access_rehouses (w : r.Unswept n u) {write : Bool} {tid : ThreadId} {pc addr size : Word}
    (event : r.events[n]? = some (.access write tid pc addr size)) :
    (r.state (n + 1)).Rehouses (u.access r.host write tid pc addr size).1 := by
  rw [state_succ event, State.step_access]
  obtain ⟨heap, pages, counters, rfl⟩ := w.rehouses
  exact (r.state n).access_rehouses heap pages counters r.quiet write tid pc addr size

/-- The same thread makes the access in both, or it is refused in both. -/
theorem met (w : r.Unswept n u) {write : Bool} {tid : ThreadId} {pc addr size : Word}
    (event : r.events[n]? = some (.access write tid pc addr size)) :
    ((r.state (n + 1)).tables = (r.state n).tables ∧
      (u.access r.host write tid pc addr size).1.tables = u.tables ∧
      RaceMonitor.races (u.access r.host write tid pc addr size).2 = []) ∨
    ∃ t, r.Processed n write tid pc addr size t ∧
      Accessed u t write pc addr size (u.access r.host write tid pc addr size).1
        (RaceMonitor.races (u.access r.host write tid pc addr size).2) := by
  have rehouses := w.access_rehouses event
  have other := u.access_handled r.quiet write tid pc addr size
  generalize u.access r.host write tid pc addr size = res at rehouses other
  have threads := rehouses.threads
  rcases processed_of_handled event (handled event) with ⟨missing, tables, _⟩ | ⟨t, processed, _⟩
  · generalize RaceMonitor.races res.2 = delivered at other
    cases other with
    | refused _ _ _ _ tables' => exact .inl ⟨tables, tables', rfl⟩
    | entered t s₁ enter _ same =>
      rw [← threads, same.1] at missing
      exact absurd (Table.mem_iff_exists.mpr ⟨t, enter.there⟩) missing
  · refine .inr ⟨t, processed, ?_⟩
    have tracked := processed.tracked
    rw [← threads] at tracked
    generalize RaceMonitor.races res.2 = delivered at other
    generalize res.1 = u' at tracked other
    cases other with
    | refused missing _ _ _ tables' =>
      rw [tables'] at tracked
      exact absurd (Table.mem_iff_exists.mpr ⟨t, tracked⟩) missing
    | entered t' s₁ enter _ same _ accessed =>
      rw [same.1] at tracked
      exact Option.some.inj (enter.there.symm.trans tracked) ▸ accessed

/-- What is a freed block in both has the same core. -/
theorem told (w : r.Unswept n u) {seq : Nat} {b c : Block} (found : (r.heap n).freed[seq]? = some b)
    (found' : u.tables.heap.freed[seq]? = some c) : b.core = c.core := by
  have known := w.kept seq b.core (Heap.core_eq_some.mpr ⟨b, found, rfl⟩)
  obtain ⟨c', there, same⟩ := Heap.core_eq_some.mp known
  rw [← same, Option.some.inj (found'.symm.trans there)]

/-- A thread that is privy to the sweeps has the same blocks to be told of in both. -/
theorem stale_iff (w : r.Unswept n u) {write : Bool} {tid : ThreadId} {pc addr size : Word}
    {t : Thread} (processed : r.Processed n write tid pc addr size t) (privy : r.Privy n tid addr)
    (seq : Nat) : (∃ b, (r.heap n).Stale tid addr t.clock seq b) ↔
      ∃ c, u.tables.heap.Stale tid addr t.clock seq c := by
  constructor
  · rintro ⟨b, stale⟩
    have known := w.kept seq b.core (Heap.core_eq_some.mpr ⟨b, stale.kept, rfl⟩)
    obtain ⟨c, found, _⟩ := Heap.core_eq_some.mp known
    exact ⟨c, stale.of_core found (w.told stale.kept found).symm
      (w.marks seq b c stale.kept found tid addr stale.covers privy).symm⟩
  · rintro ⟨c, stale⟩
    cases left : (r.heap n).freed[seq]? with
    | some b =>
      have same := w.told left stale.kept
      have covers : b.extent.overlaps (Extent.ofByte addr) = true := by
        rw [← b.core_extent, same]
        exact stale.covers
      exact ⟨b, stale.of_core left same (w.marks seq b c left stale.kept tid addr covers privy)⟩
    | none =>
      -- The block has been swept, and the thread has observed its free by then.
      have gone : (r.heap n).core seq = none := by rw [Heap.core, left, Option.map_none]
      obtain ⟨k, lt, swept⟩ := w.lost seq c.core (Heap.core_eq_some.mpr ⟨c, stale.kept, rfl⟩) gone
      have descends := privy k lt (swept.sweeps addr stale.covers)
      have seen := swept.seen (Nat.lt_succ_of_lt lt) descends processed.tracked
      exact absurd stale.unseen (by rw [← c.unseenBy_core, seen, Bool.not_eq_true])

/-- Such a thread is told of the same block in both. -/
theorem used (w : r.Unswept n u) {write : Bool} {tid : ThreadId} {pc addr size : Word} {t : Thread}
    (processed : r.Processed n write tid pc addr size t) {delivered : List Race}
    (other : Accessed u t write pc addr size u' delivered) {race : Race} (mem : race ∈ delivered)
    (use : race.kind = .useAfterFree) (privy : r.Privy n race.second.tid race.second.addr) :
    ∃ race' ∈ r.races n, race'.kind = .useAfterFree ∧ race'.second = race.second ∧
      race'.first.block = race.first.block := by
  have config := w.rehouses.config
  have mine := processed.accessed.races
  rw [other.races, w.rehouses.heard] at mem
  split at mem
  · rename_i heard
    rw [if_pos heard] at mine
    obtain ⟨hit, found, hrace⟩ := use_of_report mem use
    have tracking := config ▸ tracking_of_reportUse found
    have tid_eq : race.second.tid = t.tid := hrace ▸ State.side_tid _ _ _ _
    have place : race.second.addr = addr := hrace ▸ State.side_addr _ _ _ _
    rw [tid_eq, place] at privy
    obtain rfl := processed.tid_eq
    subst hrace
    rcases State.reportUse_cases w.filtered t addr with ⟨none, _⟩ | ⟨_, seq, c, found', _, rfl, due⟩
    · cases found.symm.trans none
    obtain rfl := Option.some.inj (found.symm.trans found')
    obtain ⟨b, due'⟩ := (Heap.due_congr (w.stale_iff processed privy) seq).mpr ⟨c, due⟩
    rcases State.reportUse_cases (r.filtered n) t addr with
      ⟨_, _, none⟩ | ⟨_, seq', b', reported, _, rfl, due''⟩
    · exact absurd due'.toStale (none tracking seq b)
    obtain rfl := due'.unique due''
    refine ⟨(r.state n).useReport addr (t.accessing write pc size) (b'.useBy t.tid addr
      (r.state n).tables.shadow[addr]?), ?_, rfl, ?_, ?_⟩
    · rw [mine, State.report, reported]
      exact List.mem_singleton_self _
    · simp only [State.useReport, State.side, State.blockAt_congr config w.live, config]
    · have same : b'.core.extent = c.core.extent := by rw [w.told due''.kept due.kept]
      exact same
  · cases mem

/-- An access is entered into the same block in both. -/
theorem accessed (w : r.Unswept n u) {write : Bool} {tid : ThreadId} {pc addr size : Word}
    (event : r.events[n]? = some (.access write tid pc addr size)) :
    r.Unswept (n + 1) (u.access r.host write tid pc addr size).1 := by
  have rehouses := w.access_rehouses event
  have filtered := State.step_filtered r.quiet w.filtered (.access write tid pc addr size)
  have pruned := State.step_pruned r.quiet w.filtered w.pruned (.access write tid pc addr size)
  rw [State.step_access] at filtered pruned
  rcases w.met event with ⟨tables, tables', _⟩ | ⟨t, processed, other⟩
  · exact w.of_same rehouses filtered (congrArg Tables.heap tables) (congrArg Tables.heap tables')
  · have mine := processed.accessed
    obtain rfl := processed.tid_eq
    generalize (u.access r.host write t.tid pc addr size).1 = u' at rehouses filtered pruned other
    have config := w.rehouses.config
    cases tracking : r.start.config.trackAllocations with
    | false =>
      have off : (r.state n).config.trackAllocations = false := (r.config n).symm ▸ tracking
      exact w.of_same rehouses filtered (mine.untracked off) (other.untracked (config.symm ▸ off))
    | true =>
      have on : (r.state n).config.trackAllocations = true := (r.config n).symm ▸ tracking
      obtain ⟨freed, after, core⟩ := mine.marked (r.filtered n)
      obtain ⟨freed', after', core'⟩ := other.marked w.filtered
      exact {
        rehouses, filtered, pruned
        live := by
          rw [heap, after, after']
          exact w.live
        nextSeq := by
          rw [heap, after, after']
          exact w.nextSeq
        unlimited := by
          rw [after']
          exact w.unlimited
        kept := fun seq b found => by
          rw [core']
          exact w.kept seq b ((core seq).symm.trans found)
        lost := fun seq c found gone => by
          rw [core'] at found
          exact w.lost_succ found ((core seq).symm.trans gone)
        marks := fun seq b' c' found found' tid a covers privy => by
          obtain ⟨b, known, ⟨_, rfl⟩, marks⟩ := mine.freed (r.filtered n) on found
          obtain ⟨c, known', ⟨_, rfl⟩, marks'⟩ := other.freed w.filtered (config ▸ on) found'
          have before := w.marks seq b c known known' tid a covers privy.of_succ
          rw [Bool.eq_iff_iff, marks, marks', before]
          refine or_congr_right (and_congr_right fun own => ?_)
          cases own
          exact Heap.due_congr (w.stale_iff processed privy.of_succ) seq }

/-- What an event does to both. -/
theorem step (w : r.Unswept n u) (unlimited : r.start.config.maxFreed = 0)
    (unhurried : u.tables.heap.sinceSweep = 0) {e : Event} (event : r.events[n]? = some e) :
    r.Unswept (n + 1) (u.step r.host e).1 := by
  cases heeds : e.heeds with
  | false =>
    have filtered := State.step_filtered r.quiet w.filtered e
    obtain ⟨heap', pages, counters, rfl⟩ := w.rehouses
    obtain ⟨rehouses, mine, other⟩ :=
      (r.state n).heedless_rehouses heap' pages counters r.host heeds
    rw [← state_succ event] at rehouses mine
    exact w.of_same rehouses filtered mine other
  | true =>
    cases e with
    | read tid pc addr size =>
      have event : r.events[n]? = some (.access false tid pc addr size) := event
      exact w.accessed event
    | write tid pc addr size =>
      have event : r.events[n]? = some (.access true tid pc addr size) := event
      exact w.accessed event
    | alloc tid pc addr size => exact w.allocated event
    | free tid addr => exact w.freed unlimited unhurried event
    | fork | join | detach | finish | acquire | release | happensBefore | happensAfter | enter
    | exit | mapShadow => cases heeds

end Unswept

/-- Without a limit on freed blocks, the session without sweeps goes along. -/
theorem unswept_alongside (unlimited : r.start.config.maxFreed = 0) (n : Nat) :
    r.Unswept n (r.unswept n) := by
  induction n with
  | zero =>
    have heap : (r.heap 0) = Heap.empty r.start.config.maxFreed r.start.tables.heap.nextSeq :=
      congrArg Tables.heap r.fresh
    exact {
      rehouses := .refl _
      filtered := r.filtered 0
      pruned := r.pruned 0
      live := rfl
      nextSeq := rfl
      unlimited := (r.maxFreed 0).trans unlimited
      kept := fun _ _ found => found
      lost := fun _ _ found gone => nomatch found.symm.trans gone
      marks := fun _ _ _ found found' _ _ _ _ => by rw [Option.some.inj (found.symm.trans found')] }
  | succ n ih =>
    cases event : r.events[n]? with
    | some e =>
      rw [unswept_succ event]
      exact ih.unhurried.step unlimited rfl event
    | none =>
      rw [unswept_succ_of_none event]
      refine ih.of_same ?_ ih.filtered ?_ rfl
      · rw [state_succ_of_none event]
        exact ih.rehouses
      · rw [heap, state_succ_of_none event, heap]

/-- There no free makes a freed block go. -/
theorem unswept_keeps (unlimited : r.start.config.maxFreed = 0) {n : Nat} {tid : ThreadId}
    {base : Word} (event : r.events[n]? = some (.free tid base)) {seq : Nat} {b : Block}
    (found : (r.unswept n).tables.heap.freed[seq]? = some b) :
    (r.unswept (n + 1)).tables.heap.freed[seq]? = some b := by
  have w := (r.unswept_alongside unlimited n).unhurried
  have found : (r.unswept n).unhurried.tables.heap.freed[seq]? = some b := found
  rw [unswept_succ event]
  have unhurried : (r.unswept n).unhurried.tables.heap.sinceSweep = 0 := rfl
  generalize (r.unswept n).unhurried = u at w found unhurried
  have both :=
    (u.deallocate_both u.tables.heap u.tables.freedPages u.counters r.host tid base rfl).2
  rw [State.rehoused_self] at both
  have after : (u.step r.host (.free tid base)).1 = (u.deallocate r.host tid base).1 := rfl
  rw [after]
  cases both with
  | idle mine => rwa [mine]
  | buried _ t b' _ _ _ other =>
    rw [other, Heap.tidied_bury w.unlimited unhurried, Heap.bury_freed,
      if_neg (Nat.ne_of_lt (w.filtered.valid.numbered seq b found))]
    exact found

/-- **A sweep loses no use after free by a thread that was live, or that descends from one that
was.** Such a use, reported in the session without sweeps, is reported in the session itself: the
same access, against the same block. -/
theorem useAfterFree_of_unswept (unlimited : r.start.config.maxFreed = 0) {n : Nat} {race : Race}
    (delivered : race ∈ r.unsweptRaces n) (use : race.kind = .useAfterFree)
    (privy : r.Privy n race.second.tid race.second.addr) :
    ∃ race' ∈ r.races n, race'.kind = .useAfterFree ∧ race'.second = race.second ∧
      race'.first.block = race.first.block := by
  unfold unsweptRaces at delivered
  split at delivered
  · rename_i e event
    have w := (r.unswept_alongside unlimited n).unhurried
    generalize (r.unswept n).unhurried = u at delivered w
    obtain ⟨write, tid, pc, addr, size, rfl⟩ :
        ∃ write tid pc addr size, e = .access write tid pc addr size := by
      have step := u.step_remembers r.quiet e
      generalize RaceMonitor.races (u.step r.host e).2 = races at step delivered
      cases step with
      | accessed => exact ⟨_, _, _, _, _, rfl⟩
      | allocated | freed | aside => cases delivered
    rw [State.step_access] at delivered
    rcases w.met event with ⟨_, _, none⟩ | ⟨t, processed, other⟩
    · rw [none] at delivered
      cases delivered
    · exact w.used processed other delivered use privy
  · cases delivered

/-- Thread 1 allocates and frees blocks of 8 bytes, one after the other. -/
def churn (n : Nat) : List Event :=
  (List.range n).flatMap fun i =>
    [.alloc 1 1 (256 + 8 * i.toUInt64) 8, .free 1 (256 + 8 * i.toUInt64)]

/-- Thread 2 is told of 63 frees, but not of the next one, of a block where the first one was. With
that the blocks are swept. -/
def informed : Session :=
  .under { Config.default with maxFreed := 0 } (.fork 1 2 :: churn 63 ++
    [.happensBefore 1 9, .happensAfter 2 9, .alloc 1 1 256 8, .free 1 256, .read 2 2 256 8])

theorem informed_runs : (informed.unsweptRaces 131).map (fun race =>
      (race.kind, race.second.tid, race.second.addr)) = [(.useAfterFree, 2, 256)] ∧
    (informed.state 1).tables.threads.contains 2 = true ∧
    (informed.state 131).tables.threads.contains 2 = true ∧ (informed.heap 131).freed.size = 1 := by
  simp only [heap, state_eq_foldl, unsweptRaces, unswept, State.step.eq_def, State.allocate.eq_def,
    State.deallocate.eq_def, State.sweep.eq_def, State.access.eq_def, State.accessBy.eq_def,
    State.reportUse.eq_def, Tables.unmarkPages.eq_def, Heap.handOut.eq_def, Heap.keep.eq_def,
    Heap.reportUse.eq_def, Heap.unreported.eq_def, Heap.touchesPage.eq_def, Heap.overlapping_eq,
    Heap.touching_eq]
  decide +kernel

/-- The use of the block freed last is reported, after a sweep of the others. -/
theorem useAfterFree_of_unswept_informed : informed.start.config.maxFreed = 0 ∧
    (informed.heap 131).freed.size = 1 ∧
    ∃ race ∈ informed.unsweptRaces 131, race.kind = .useAfterFree ∧
      informed.Privy 131 race.second.tid race.second.addr ∧
      ∃ race' ∈ informed.races 131, race'.kind = .useAfterFree ∧ race'.second = race.second ∧
        race'.first.block = race.first.block := by
  obtain ⟨delivers, first, last, left⟩ := informed_runs
  obtain ⟨race, delivered, same⟩ := List.mem_map.mp (delivers ▸ List.mem_singleton_self _)
  obtain ⟨use, reader, _⟩ : race.kind = .useAfterFree ∧ race.second.tid = 2 ∧
    race.second.addr = 256 := by simpa using same
  have privy : informed.Privy 131 race.second.tid race.second.addr := by
    rw [reader]
    refine .of_live (i := 1) (Std.ExtTreeMap.mem_iff_contains.mpr first)
      (Std.ExtTreeMap.mem_iff_contains.mpr last) fun k lt tid base => ?_
    obtain rfl : k = 0 := by omega
    nofun
  exact ⟨rfl, left, race, delivered, use, privy, useAfterFree_of_unswept rfl delivered use privy⟩

/-- Thread 2 is first named after a sweep of all blocks. -/
def latecomer : Session :=
  .under { Config.default with maxFreed := 0 } (churn 64 ++ [.read 2 2 256 8])

/-- Its use after free is lost. -/
theorem latecomer_unwarned :
    (∃ race ∈ latecomer.unsweptRaces 128, race.kind = .useAfterFree) ∧
      latecomer.races 128 = [] := by
  simp only [races, output, state_eq_foldl, unsweptRaces, unswept, State.step.eq_def,
    State.allocate.eq_def, State.deallocate.eq_def, State.sweep.eq_def, State.access.eq_def,
    State.accessBy.eq_def, State.reportUse.eq_def, Tables.unmarkPages.eq_def, Heap.handOut.eq_def,
    Heap.keep.eq_def, Heap.reportUse.eq_def, Heap.unreported.eq_def, Heap.touchesPage.eq_def,
    Heap.overlapping_eq, Heap.touching_eq]
  decide +kernel

end Session

end RaceMonitor
