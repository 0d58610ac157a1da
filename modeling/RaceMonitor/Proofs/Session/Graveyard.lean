import RaceMonitor.Proofs.Engine.Recast
import RaceMonitor.Proofs.Engine.Rehoused
import RaceMonitor.Proofs.Heap.Newest
import RaceMonitor.Proofs.Race.Blame

/-! A smaller graveyard.

With room for fewer freed blocks, uses after free are lost and nothing else comes of it
(`Session.uses_sublist_of_limit`). Two sessions that differ in the limit alone go the same way but
for the freed blocks, and of those the one with less room has the newest (`State.Roomier`). A use
that it reports is reported by the other at the same event and in the same words: the block that is
due in the one is due in the other. -/
namespace RaceMonitor

namespace State

/-- `u` is as `s`, with room for more freed blocks. -/
structure Roomier (s u : State) : Prop where
  rehouses : s.Rehouses u
  filtered : s.tables.Filtered
  filtered' : u.tables.Filtered
  pruned : s.tables.heap.Pruned
  pruned' : u.tables.heap.Pruned
  blocks : s.tables.heap.Newest u.tables.heap

variable {s u : State} {h : Host}

/-! ### Allocations and frees -/

/-- What an allocation makes of the blocks. -/
theorem allocate_heap_eq (s : State) (h : Host) (tid : ThreadId) (pc addr size : Word) :
    (s.allocate h tid pc addr size).1.tables.heap =
      if !s.config.trackAllocations || size == 0 then s.tables.heap
      else ((s.tables.heap.reissued ⟨addr, size⟩
        (Tables.forgetRange h.order s.tables.shadow ⟨addr, size⟩).1).allocate
          (Block.new tid pc ⟨addr, size⟩)).2 := by
  have allocates := s.allocate_allocates h tid pc addr size
  generalize s.allocate h tid pc addr size = res at allocates ⊢
  cases allocates with
  | ignored why => rw [if_pos (by simpa using why)]
  | made tracking nonempty hand forgot placed =>
    rw [if_neg (by simp [tracking, nonempty]), Heap.reissued, hand, forgot, placed]
    rfl

theorem Roomier.allocate (w : s.Roomier u) (tid : ThreadId) (pc addr size : Word) :
    (s.allocate h tid pc addr size).1.tables.heap.Newest
      (u.allocate h tid pc addr size).1.tables.heap := by
  have within : ∀ p ∈ (Tables.forgetRange h.order s.tables.shadow ⟨addr, size⟩).1,
      Extent.spans ⟨addr, size⟩ p.1 = true :=
    fun p mem => ((Tables.mem_forgetRange h.order _ _ p.1 p.2).mp mem).1
  have reissued := w.blocks.reissued w.filtered.valid w.filtered'.valid w.pruned w.pruned' within
  rw [allocate_heap_eq, allocate_heap_eq, w.rehouses.config]
  split
  · exact w.blocks
  · obtain ⟨heap, pages, c, rfl⟩ := w.rehouses
    exact reissued.allocate _

/-- After a free there is room again in both, and both are swept when it is time to. -/
theorem Roomier.deallocate (w : s.Roomier u) (tid : ThreadId) (addr : Word) :
    (s.deallocate h tid addr).1.Rehouses (u.deallocate h tid addr).1 ∧
      (s.deallocate h tid addr).1.tables.heap.Newest (u.deallocate h tid addr).1.tables.heap := by
  obtain ⟨heap, pages, c, rfl⟩ := w.rehouses
  have blocks : s.tables.heap.Newest heap := w.blocks
  obtain ⟨rehouses, both⟩ := s.deallocate_both heap pages c h tid addr blocks.live
  refine ⟨rehouses, ?_⟩
  cases both with
  | idle mine other =>
    rw [mine, other]
    exact blocks
  | buried _ t b _ _ mine other =>
    have evicted := (blocks.bury w.filtered.valid w.filtered'.valid b t.epoch).evict
    rw [mine, other, Heap.tidied, Heap.tidied, evicted.sinceSweep]
    split
    · exact evicted.dropObserved _
    · exact evicted

/-! ### Accesses -/

/-- The same thread makes the access in both, or it is refused in both. -/
theorem Rehouses.accessed (w : s.Rehouses u) (quiet : h.Quiet) (write : Bool) (tid : ThreadId)
    (pc addr size : Word) :
    ((s.access h write tid pc addr size).1.tables.heap = s.tables.heap ∧
      (u.access h write tid pc addr size).1.tables.heap = u.tables.heap ∧
      races (s.access h write tid pc addr size).2 = [] ∧
      races (u.access h write tid pc addr size).2 = []) ∨
    ∃ t, Accessed s t write pc addr size (s.access h write tid pc addr size).1
        (races (s.access h write tid pc addr size).2) ∧
      Accessed u t write pc addr size (u.access h write tid pc addr size).1
        (races (u.access h write tid pc addr size).2) := by
  have rehouses : (s.access h write tid pc addr size).1.Rehouses
      (u.access h write tid pc addr size).1 := by
    obtain ⟨heap, pages, c, rfl⟩ := w
    exact s.access_rehouses heap pages c quiet write tid pc addr size
  have threads := rehouses.threads
  have mine := s.access_handled quiet write tid pc addr size
  have other := u.access_handled quiet write tid pc addr size
  generalize (s.access h write tid pc addr size).1 = s' at threads mine
  generalize (u.access h write tid pc addr size).1 = u' at threads other
  generalize races (s.access h write tid pc addr size).2 = delivered at mine
  generalize races (u.access h write tid pc addr size).2 = delivered' at other
  cases mine with
  | refused missing _ _ _ tables =>
    cases other with
    | refused _ _ _ _ tables' =>
      exact .inl ⟨congrArg Tables.heap tables, congrArg Tables.heap tables', rfl, rfl⟩
    | entered t _ enter _ same =>
      have there := enter.there
      rw [← same.1, threads, tables] at there
      exact absurd (Table.mem_iff_exists.mpr ⟨t, there⟩) missing
  | entered t _ enter _ same _ accessed =>
    have there := enter.there
    rw [← same.1, ← threads] at there
    cases other with
    | refused missing _ _ _ tables' =>
      rw [tables'] at there
      exact absurd (Table.mem_iff_exists.mpr ⟨t, there⟩) missing
    | entered t' _ enter' _ same' _ accessed' =>
      have there' := enter'.there
      rw [← same'.1, there] at there'
      obtain rfl := Option.some.inj there'
      exact .inr ⟨t, accessed, accessed'⟩

/-- Reports of uses after a free. -/
def uses (delivered : List Race) : List Race :=
  delivered.filter fun race => race.kind = .useAfterFree

/-- The uses after a free that an access reports: one, if there is a block to report it against. -/
theorem uses_report (s : State) (t : Thread) (write : Bool) (pc addr size : Word) :
    uses (s.report t write pc addr size) =
      ((s.reportUse t addr).1.map (s.useReport addr (t.accessing write pc size))).toList := by
  unfold report
  split
  · rename_i hit found
    rw [found]
    rfl
  · rename_i none
    rw [none, Option.map_none, Option.toList_none]
    refine List.filter_eq_nil_iff.mpr fun race mem => ?_
    split at mem
    · simpa using Session.conflictReport_kind mem
    · cases mem

/-- What `s` has to report, `u` reports, too. -/
theorem Roomier.reportUse (w : s.Roomier u) (t : Thread) (addr : Word) :
    (s.reportUse t addr).2.tables.heap.Newest (u.reportUse t addr).2.tables.heap ∧
      ((s.reportUse t addr).1 = none ∨ (u.reportUse t addr).1 = (s.reportUse t addr).1) := by
  have histories : u.tables.shadow = s.tables.shadow := by
    obtain ⟨_, _, _, rfl⟩ := w.rehouses
    rfl
  rcases State.reportUse_cases w.filtered t addr with
    ⟨none, same, stale⟩ | ⟨hit, i, b, found, heap, use, due⟩
  · refine ⟨?_, .inl none⟩
    rw [same]
    rcases State.reportUse_cases w.filtered' t addr with
      ⟨_, same', _⟩ | ⟨_, i, b, found, heap', _, due⟩
    · rw [same']
      exact w.blocks
    · -- The block is older than all that `s` has, or it would be stale there.
      have tracking := w.rehouses.config ▸ Session.tracking_of_reportUse found
      rw [heap']
      refine w.blocks.report_aside (fun j there => ?_) _
      by_contra le
      exact stale tracking i b (w.blocks.stale there (by omega) due.toStale)
  · have due' := w.blocks.due due
    rcases State.reportUse_cases w.filtered' t addr with
      ⟨_, _, none⟩ | ⟨_, i', b', found', heap', use', due''⟩
    · have tracking := Session.tracking_of_reportUse found
      exact absurd due'.toStale (none (w.rehouses.config.symm ▸ tracking) i b)
    · obtain rfl := due'.unique due''
      obtain rfl := Option.some.inj (due'.kept.symm.trans due''.kept)
      rw [heap, heap', found, found', use, use', histories]
      exact ⟨w.blocks.report due.kept t.tid addr, .inr rfl⟩

theorem Roomier.access (w : s.Roomier u) (quiet : h.Quiet) (write : Bool) (tid : ThreadId)
    (pc addr size : Word) :
    (s.access h write tid pc addr size).1.tables.heap.Newest
        (u.access h write tid pc addr size).1.tables.heap ∧
      (uses (races (s.access h write tid pc addr size).2)).Sublist
        (uses (races (u.access h write tid pc addr size).2)) := by
  rcases w.rehouses.accessed quiet write tid pc addr size with
    ⟨same, same', none, none'⟩ | ⟨t, mine, other⟩
  · rw [same, same', none, none']
    exact ⟨w.blocks, .refl _⟩
  · obtain ⟨blocks, told⟩ := w.reportUse t addr
    rw [mine.heap, other.heap]
    refine ⟨blocks, ?_⟩
    rw [mine.races, other.races, w.rehouses.heard]
    split
    · rw [uses_report, uses_report]
      rcases told with none | same
      · rw [none]
        exact List.nil_sublist _
      · have report : u.useReport addr = s.useReport addr :=
          funext fun _ => funext (useReport_congr w.rehouses.config w.blocks.live addr _)
        rw [same, report]
    · exact .refl _

/-! ### Steps -/

/-- After every event `u` is as `s`, with room for more freed blocks, and `s` has reported no use
after free that `u` has not. -/
theorem Roomier.step (w : s.Roomier u) (quiet : h.Quiet) (e : Event) :
    (s.step h e).1.Roomier (u.step h e).1 ∧
      (uses (races (s.step h e).2)).Sublist (uses (races (u.step h e).2)) := by
  have filtered := step_filtered quiet w.filtered e
  have filtered' := step_filtered quiet w.filtered' e
  have pruned := step_pruned quiet w.filtered w.pruned e
  have pruned' := step_pruned quiet w.filtered' w.pruned' e
  suffices both : (s.step h e).1.Rehouses (u.step h e).1 ∧
      (s.step h e).1.tables.heap.Newest (u.step h e).1.tables.heap ∧
      (uses (races (s.step h e).2)).Sublist (uses (races (u.step h e).2)) from
    ⟨⟨both.1, filtered, filtered', pruned, pruned', both.2.1⟩, both.2.2⟩
  have accessed (write : Bool) (tid : ThreadId) (pc addr size : Word) :
      (s.access h write tid pc addr size).1.Rehouses (u.access h write tid pc addr size).1 := by
    obtain ⟨heap, pages, c, rfl⟩ := w.rehouses
    exact s.access_rehouses heap pages c quiet write tid pc addr size
  cases heeds : e.heeds with
  | false =>
    have blocks := w.blocks
    obtain ⟨heap, pages, c, rfl⟩ := w.rehouses
    obtain ⟨rehouses, mine, other⟩ := s.heedless_rehouses heap pages c h heeds
    obtain ⟨f, acts⟩ := s.step_heedless h heeds
    have whole : (s.rehoused heap pages c).step h e =
      ((s.step h e).1.rehoused heap pages (f c), (s.step h e).2) := acts heap pages c
    refine ⟨rehouses, ?_, ?_⟩
    · rw [mine, other]
      exact blocks
    · rw [whole]
  | true =>
    cases e with
    | read tid pc addr size =>
      exact ⟨accessed false tid pc addr size, w.access quiet false tid pc addr size⟩
    | write tid pc addr size =>
      exact ⟨accessed true tid pc addr size, w.access quiet true tid pc addr size⟩
    | alloc tid pc addr size =>
      have none : races (s.allocate h tid pc addr size).2 = [] :=
        (s.allocate_allocated h tid pc addr size).2
      have rehouses : (s.allocate h tid pc addr size).1.Rehouses
          (u.allocate h tid pc addr size).1 := by
        obtain ⟨heap, pages, c, rfl⟩ := w.rehouses
        exact s.allocate_rehouses heap pages c h tid pc addr size
      refine ⟨rehouses, w.allocate tid pc addr size, ?_⟩
      rw [State.step, none]
      exact List.nil_sublist _
    | free tid addr =>
      have none : races (s.deallocate h tid addr).2 = [] := (s.deallocate_deallocated h tid addr).2
      obtain ⟨rehouses, blocks⟩ := w.deallocate (h := h) tid addr
      refine ⟨rehouses, blocks, ?_⟩
      rw [State.step, none]
      exact List.nil_sublist _
    | fork | join | detach | finish | acquire | release | happensBefore | happensAfter | enter
    | exit | mapShadow => cases heeds

end State

namespace Session

/-- The session with another limit on freed blocks. -/
def limited (r : Session) (maxFreed : Word) : Session where
  start := { r.start with
    config := { r.start.config with maxFreed }
    tables := Tables.empty maxFreed r.start.tables.heap.nextSeq }
  order := r.order
  events := r.events
  fresh := rfl

/-- The uses after a free that are delivered, each with the event that delivers it. -/
def uses (r : Session) : List (Nat × Race) :=
  (List.range r.events.length).flatMap fun n => (State.uses (r.races n)).map fun race => (n, race)

variable (r : Session) {m k : Word}

theorem limited_start (limited : m ≠ 0) (roomier : k = 0 ∨ m ≤ k) :
    (r.limited m).start.Roomier
      ((r.limited k).start.recast r.start.policy fun _ => m) where
  rehouses := ⟨Heap.empty k r.start.tables.heap.nextSeq, ∅, r.start.counters, rfl⟩
  filtered := .empty m _
  filtered' := .empty k _
  pruned := .empty m _
  pruned' := .empty k _
  blocks := ⟨rfl, rfl, rfl, limited, roomier,
    fun _ _ there => absurd there Std.ExtTreeMap.not_mem_empty⟩

/-- The two sessions go the same way but for the freed blocks. -/
theorem limited_roomier (limited : m ≠ 0) (roomier : k = 0 ∨ m ≤ k) (n : Nat) :
    ((r.limited m).state n).Roomier
      (((r.limited k).state n).recast r.start.policy fun _ => m) := by
  induction n with
  | zero => exact r.limited_start limited roomier
  | succ n ih =>
    cases event : r.events[n]? with
    | none =>
      rw [state_succ_of_none (r := r.limited m) event, state_succ_of_none (r := r.limited k) event]
      exact ih
    | some e =>
      have recasts := State.step_recasts (r.quiet.blind r.start.policy fun _ => m)
        ((r.limited k).state n) e
      rw [state_succ (r := r.limited m) event, state_succ (r := r.limited k) event]
      exact recasts.1 ▸ (ih.step r.quiet e).1

theorem limited_uses (limited : m ≠ 0) (roomier : k = 0 ∨ m ≤ k) (n : Nat) :
    (State.uses ((r.limited m).races n)).Sublist (State.uses ((r.limited k).races n)) := by
  cases event : r.events[n]? with
  | none =>
    have none : (r.limited m).races n = [] := by
      rw [races, output, show (r.limited m).events[n]? = none from event]
      rfl
    rw [none]
    exact List.nil_sublist _
  | some e =>
    have recasts := State.step_recasts (r.quiet.blind r.start.policy fun _ => m)
      ((r.limited k).state n) e
    have told : RaceMonitor.races ((((r.limited k).state n).recast r.start.policy
        fun _ => m).step r.host e).2 = (r.limited k).races n := by
      rw [← races_delivered, recasts.2, races_delivered, races, output_eq (r := r.limited k) event]
      rfl
    have sublist := ((r.limited_roomier limited roomier n).step r.quiet e).2
    rw [told] at sublist
    rw [races, output_eq (r := r.limited m) event]
    exact sublist

/-- **A smaller graveyard only loses reports.** Of two sessions that differ in the limit on freed
blocks alone, the one with the smaller limit delivers some of the uses after a free that the other
one delivers, at the same events, with the same reports, and no others. -/
theorem uses_sublist_of_limit (limited : m ≠ 0) (roomier : k = 0 ∨ m ≤ k) :
    (r.limited m).uses.Sublist (r.limited k).uses := by
  have prefixes (n : Nat) : ((List.range n).flatMap fun i =>
      (State.uses ((r.limited m).races i)).map fun race => (i, race)).Sublist
      ((List.range n).flatMap fun i =>
        (State.uses ((r.limited k).races i)).map fun race => (i, race)) := by
    induction n with
    | zero => exact .refl _
    | succ n ih =>
      rw [List.range_succ, List.flatMap_append, List.flatMap_append]
      refine ih.append ?_
      rw [List.flatMap_singleton, List.flatMap_singleton]
      exact (r.limited_uses limited roomier n).map _
  exact prefixes r.events.length

/-- Thread 1 frees two blocks, and thread 2 reads both. -/
def graves : Session :=
  .default [.alloc 1 1 256 8, .alloc 1 1 512 8, .free 1 256, .free 1 512, .read 2 2 256 8,
    .read 2 2 512 8]

theorem graves_uses :
    (graves.limited 1).uses.map (fun use => (use.1, use.2.second.addr)) = [(5, 512)] ∧
    (graves.limited 2).uses.map (fun use => (use.1, use.2.second.addr)) =
      [(4, 256), (5, 512)] := by
  simp only [uses, races, output, state_eq_foldl, State.step.eq_def, State.allocate.eq_def,
    State.deallocate.eq_def, State.sweep.eq_def, State.access.eq_def, State.accessBy.eq_def,
    State.reportUse.eq_def, Tables.unmarkPages.eq_def, Heap.handOut.eq_def, Heap.keep.eq_def,
    Heap.reportUse.eq_def, Heap.unreported.eq_def, Heap.touchesPage.eq_def, Heap.free.eq_def,
    Heap.evict.eq_def, Heap.dropOldest_eq, Heap.overlapping_eq, Heap.touching_eq]
  decide +kernel

/-- With room for one freed block the first of two uses is lost. -/
theorem uses_sublist_of_limit_graves : (1 : Word) ≠ 0 ∧ ((2 : Word) = 0 ∨ (1 : Word) ≤ 2) ∧
    (graves.limited 1).uses.length = 1 ∧ (graves.limited 2).uses.length = 2 ∧
    (graves.limited 1).uses.Sublist (graves.limited 2).uses := by
  obtain ⟨one, two⟩ := graves_uses
  have limited : (1 : Word) ≠ 0 := by decide
  have roomier : (2 : Word) = 0 ∨ (1 : Word) ≤ 2 := .inr (by decide)
  refine ⟨limited, roomier, ?_, ?_, graves.uses_sublist_of_limit limited roomier⟩
  · simpa using congrArg List.length one
  · simpa using congrArg List.length two

end Session

end RaceMonitor
