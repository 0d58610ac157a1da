import RaceMonitor.Proofs.Engine.Counted
import RaceMonitor.Proofs.Engine.Step
import RaceMonitor.Proofs.Session.Live

/-! Accesses outside every region.

A region is kept by its start and reaches as far as any announcement from that start does. So an
address is mapped just if one of the announced regions spans it (`State.mapShadow_mapped`,
`Session.isUnmapped_eq`), and since no other event touches the regions (`State.step_frame`), the
counter of unmapped accesses counts the accesses, after the first announcement, to addresses that no
announced region contains. There is one exception. The end of a region saturates and lies outside
it, so that the last address of all is in no region, even in one that contains it: every access to
it is counted (`Session.unmapped_counted`). -/
namespace RaceMonitor

/-- The address that a read or write is made at. -/
def Event.address? : Event → Option Word
  | .read _ _ addr _ | .write _ _ addr _ => some addr
  | _ => none

/-- An address within a region. -/
def Tables.Mapped (t : Tables) (a : Word) : Prop :=
  ∃ start limit : Word, t.regions[start]? = some limit ∧ start ≤ a ∧ a < limit

theorem Tables.isUnmapped_iff {t : Tables} {a : Word} :
    t.isUnmapped a = true ↔ t.regions ≠ ∅ ∧ ¬ t.Mapped a := by
  have mapped : (t.regions.any fun start limit => start ≤ a && a < limit) = true ↔ t.Mapped a := by
    simp only [Table.any_iff, Bool.and_eq_true, decide_eq_true_eq, Mapped]
  rw [isUnmapped, Bool.and_eq_true, Bool.not_eq_true', Bool.not_eq_true',
    Std.ExtTreeMap.isEmpty_eq_false_iff, ← mapped, Bool.not_eq_true]

/-- The regions come from the announcement of those in `announced`. -/
structure Tables.Maps (t : Tables) (announced : List Extent) : Prop where
  none : t.regions = ∅ ↔ announced = []
  mapped : ∀ a, t.Mapped a ↔ ∃ e ∈ announced, e.spans a = true

theorem Tables.Maps.of_eq {t t' : Tables} {announced : List Extent} (maps : t.Maps announced)
    (same : t'.regions = t.regions) : t'.Maps announced := by
  refine ⟨same ▸ maps.none, fun a => ?_⟩
  rw [← maps.mapped a, Mapped, Mapped, same]

/-- A region ends at the last address at the latest, and its end is not in it. -/
theorem Extent.spans_eq_false_iff {e : Extent} {a : Word} :
    e.spans a = false ↔ a = Word.top ∨ e.contains a = false := by
  by_cases last : a = Word.top
  · have bound := e.limit.toNat_lt_size
    have top : a.toNat = UInt64.size - 1 := congrArg UInt64.toNat last
    have outside : ¬ a < e.limit := by
      rw [UInt64.lt_iff_toNat_lt]
      omega
    rw [spans, decide_eq_false outside, Bool.and_false]
    exact iff_of_true rfl (.inl last)
  · rw [← Bool.not_eq_true, ← Bool.not_eq_true, spans_iff last, contains_iff]
    exact (or_iff_right last).symm

namespace State

variable (s : State) {h : Host}

/-! ### Announcements -/

/-- From a start that is announced again the region reaches as far as the farther end. -/
theorem mapShadow_mapped (start size a : Word) :
    (s.mapShadow start size).1.tables.Mapped a ↔
      s.tables.Mapped a ∨ (⟨start, size⟩ : Extent).spans a = true := by
  obtain ⟨reach, put, reaches⟩ : ∃ reach : Word,
      (s.mapShadow start size).1.tables.regions = s.tables.regions.insert start reach ∧
      (a < reach ↔ a < Word.addSat start size ∨
        ∃ old, s.tables.regions[start]? = some old ∧ a < old) := by
    refine ⟨_, rfl, ?_⟩
    cases s.tables.regions[start]? with
    | none => simp
    | some old =>
      simp only [Option.some.injEq, exists_eq_left', UInt64.lt_iff_toNat_lt, Word.toNat_max]
      omega
  have spans : (⟨start, size⟩ : Extent).spans a = true ↔
      start ≤ a ∧ a < Word.addSat start size := by
    simp only [Extent.spans, Bool.and_eq_true, decide_eq_true_eq]
    exact Iff.rfl
  simp only [Tables.Mapped, put, Table.get_insert, spans]
  constructor
  · rintro ⟨base, limit, found, above, below⟩
    split at found
    · rename_i same
      cases found
      rw [same] at above
      rcases reaches.mp below with new | ⟨old, there, below⟩
      · exact .inr ⟨above, new⟩
      · exact .inl ⟨start, old, there, above, below⟩
    · exact .inl ⟨base, limit, found, above, below⟩
  · rintro (⟨base, limit, found, above, below⟩ | ⟨above, below⟩)
    · by_cases same : base = start
      · rw [same] at found above
        exact ⟨start, reach, if_pos rfl, above, reaches.mpr (.inr ⟨limit, found, below⟩)⟩
      · exact ⟨base, limit, (if_neg same).trans found, above, below⟩
    · exact ⟨start, reach, if_pos rfl, above, reaches.mpr (.inl below)⟩

theorem mapShadow_maps {s : State} {announced : List Extent} (maps : s.tables.Maps announced)
    (start size : Word) :
    (s.mapShadow start size).1.tables.Maps (announced ++ [⟨start, size⟩]) where
  none := by
    have there : start ∈ (s.mapShadow start size).1.tables.regions := Std.ExtTreeMap.mem_insert_self
    exact iff_of_false (Std.ExtTreeMap.ne_empty_of_mem there) (by simp)
  mapped a := by
    rw [mapShadow_mapped, maps.mapped a]
    simp only [List.mem_append, List.mem_singleton, or_and_right, exists_or, exists_eq_left]

/-! ### The counter -/

theorem access_unmapped (quiet : h.Quiet) (isWrite : Bool) (tid : ThreadId) (pc addr size : Word) :
    (s.access h isWrite tid pc addr size).1.counters.unmapped =
      s.counters.unmapped + if s.tables.isUnmapped addr then 1 else 0 := by
  obtain ⟨found, finding, counted⟩ := access_counted quiet s isWrite tid pc addr size
  refine (counted.counters .unmapped).trans ?_
  cases finding <;> cases isWrite <;> cases s.tables.isUnmapped addr <;> rfl

/-- Accesses to addresses that are not mapped are counted, and nothing else. -/
theorem step_unmapped (quiet : h.Quiet) (e : Event) :
    (s.step h e).1.counters.unmapped =
      s.counters.unmapped + if e.address?.any s.tables.isUnmapped then 1 else 0 := by
  rcases e.access_or_other with ⟨isWrite, tid, pc, addr, size, rfl⟩ | ⟨read, write⟩
  · rw [step_access, access_unmapped s quiet]
    cases isWrite <;> rfl
  · have none : e.address? = none := by
      cases e <;> first | rfl | contradiction
    rw [none]
    rcases s.step_orderly h read write with silent | told
    · exact silent.counters .unmapped
    · exact told.counters .unmapped

end State

namespace Session

variable {r : Session}

/-- The regions announced before event `n`. -/
def announced (r : Session) (n : Nat) : List Extent := (r.events.take n).filterMap Event.region?

/-- Event `n` is an access, made when a region has been announced, to an address that is in none of
those announced. The last address of all counts as in none. -/
def strays (r : Session) (n : Nat) : Bool :=
  (r.events[n]?.bind Event.address?).any fun a =>
    !(r.announced n).isEmpty && (a == Word.top || !(r.announced n).any (·.contains a))

theorem announced_succ {n : Nat} {e : Event} (event : r.events[n]? = some e) :
    r.announced (n + 1) = r.announced n ++ e.region?.toList := by
  rw [announced, List.take_add_one, event, List.filterMap_append, announced]
  cases e <;> rfl

/-- The regions are those announced so far. -/
theorem maps (r : Session) (n : Nat) : (r.state n).tables.Maps (r.announced n) := by
  induction n with
  | zero =>
    have none : (r.state 0).tables.regions = ∅ := by rw [state_zero, r.fresh, Tables.empty]
    refine ⟨iff_of_true none rfl, fun a => ?_⟩
    simp [Tables.Mapped, none, announced]
  | succ n ih =>
    cases event : r.events[n]? with
    | none =>
      have same : r.announced (n + 1) = r.announced n := by
        rw [announced, List.take_add_one, event, Option.toList_none, List.append_nil, announced]
      rwa [state_succ_of_none event, same]
    | some e =>
      rw [state_succ event, announced_succ event]
      cases region : e.region? with
      | none =>
        rw [Option.toList_none, List.append_nil]
        exact ih.of_eq ((State.step_frame r.quiet (r.state n) e).regions region)
      | some new =>
        cases e <;> cases region
        exact State.mapShadow_maps ih _ _

theorem isUnmapped_eq (r : Session) (n : Nat) (a : Word) : (r.state n).tables.isUnmapped a =
    (!(r.announced n).isEmpty && (a == Word.top || !(r.announced n).any (·.contains a))) := by
  have outside : (¬ ∃ e ∈ r.announced n, e.spans a = true) ↔
      a = Word.top ∨ ∀ e ∈ r.announced n, e.contains a = false := by
    simp only [not_exists, not_and, Bool.not_eq_true, Extent.spans_eq_false_iff]
    exact ⟨fun all => or_iff_not_imp_left.mpr fun other e mem => (all e mem).resolve_left other,
      fun any e mem => any.imp_right fun all => all e mem⟩
  rw [Bool.eq_iff_iff, Tables.isUnmapped_iff, (r.maps n).mapped, outside, Ne, (r.maps n).none]
  simp

/-- **The unmapped counter counts the accesses outside every announced region**, and those to the
last address. An event adds one to it just if it is an access, some region has been announced before
it, and either no announced region contains the address, or it is the last of all addresses. -/
theorem unmapped_counted (r : Session) (n : Nat) :
    (r.state (n + 1)).counters.unmapped =
      (r.state n).counters.unmapped + (if r.strays n then 1 else 0) ∧
    (r.state n).counters.unmapped =
      r.start.counters.unmapped + UInt64.ofNat ((List.range n).countP r.strays) := by
  have each (n : Nat) : (r.state (n + 1)).counters.unmapped =
      (r.state n).counters.unmapped + (if r.strays n then 1 else 0) := by
    cases event : r.events[n]? with
    | none =>
      rw [state_succ_of_none event, strays, event]
      exact (UInt64.add_zero _).symm
    | some e =>
      rw [state_succ event, State.step_unmapped _ (fun _ _ => rfl), strays, event,
        Option.bind_some, funext (r.isUnmapped_eq n)]
  refine ⟨each n, ?_⟩
  induction n with
  | zero => exact (UInt64.add_zero _).symm
  | succ n ih =>
    rw [each n, ih, List.range_succ, List.countP_append, List.countP_singleton, UInt64.ofNat_add,
      UInt64.add_assoc]
    cases r.strays n <;> rfl

/-- The region of one byte at the last address contains it, and an access there is counted. -/
theorem lastByte_unmapped :
    let r := Session.default [.mapShadow Word.top 1, .read 1 1 Word.top 1]
    r.announced 1 = [⟨Word.top, 1⟩] ∧ (⟨Word.top, 1⟩ : Extent).contains Word.top = true ∧
      (r.state 1).counters.unmapped = 0 ∧ (r.state 2).counters.unmapped = 1 := by
  decide +kernel

end Session

end RaceMonitor
