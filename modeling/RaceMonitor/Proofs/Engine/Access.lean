import RaceMonitor.Proofs.Engine.Performed

/-! What a read or write does.

An access ends in one of three ways (`Made`): its location is not tracked, or it is put on record
there and is a use after a free, or not. It touches the heap, where a use after a free is recorded
as reported, and the history of its location, nothing else (`Accessed`). The history takes the
access in if the location is tracked, whether or not there was a use after a free, and a use after a
free is delivered in the place of whatever the history check found. -/
namespace RaceMonitor

/-- The host only takes note of races. -/
def Host.Quiet (h : Host) : Prop := ∀ race s, h.onRace race s = (s, [])

/-- Threads, locks and signals are as they were. -/
def SameThreads (s s' : State) : Prop :=
  s'.tables.threads = s.tables.threads ∧ s'.tables.retired = s.tables.retired ∧
    s'.tables.locks = s.tables.locks ∧ s'.tables.signals = s.tables.signals

/-- All that an access looks at, but for its thread, is as it was. -/
structure SameMemory (s s' : State) : Prop where
  config : s'.config = s.config
  heard : s'.heard = s.heard
  shadow : s'.tables.shadow = s.tables.shadow
  heap : s'.tables.heap = s.tables.heap
  freedPages : s'.tables.freedPages = s.tables.freedPages

/-- A race that was found, as it is let out. -/
def Race.told (race : Race) (heard : Bool) : List Output :=
  .note (.raceDetected race) :: if heard then [.race race] else [.note (.raceUnheard race)]

/-- The access that a thread makes now. -/
def Thread.accessing (t : Thread) (write : Bool) (pc size : Word) : Access :=
  ⟨t.epoch, write, ⟨pc, size, t.stack⟩⟩

namespace State

/-- Whether the location has, or gets, a history. -/
def tracks (s : State) (addr : Word) : Bool :=
  s.tables.shadow.contains addr ||
    !Config.full (s.config.limit .locations).toNat s.tables.shadow.size

/-- The history of a location; of one not seen yet, the empty one. -/
def history (s : State) (addr : Word) : History := s.tables.shadow[addr]?.getD .empty

/-- The check of an access against the history, and the history with the access in it. -/
def checked (s : State) (t : Thread) (write : Bool) (pc addr size : Word) : Outcome × History :=
  (s.history addr).onAccess write t.tid t.clock ⟨pc, size, t.stack⟩

theorem side_addr (s : State) (a : Access) (x : Word) (block : Option Extent) :
    (s.side a x block).addr = x := by
  cases block <;> rfl

theorem side_tid (s : State) (a : Access) (x : Word) (block : Option Extent) :
    (s.side a x block).tid = a.tid := by
  cases block <;> rfl

/-- The report of an access against a freed block. -/
def useReport (s : State) (addr : Word) (current : Access) (hit : UseAfterFree) : Race :=
  ⟨.useAfterFree, s.side hit.prior hit.addr (some hit.block), s.side current addr (s.blockAt addr)⟩

/-- The report of what the history check found. -/
def conflictReport (s : State) (addr : Word) (current : Access) : Outcome → List Race
  | .race kind prior =>
    [⟨kind, s.side prior addr (s.blockAt addr), s.side current addr (s.blockAt addr)⟩]
  | _ => []

/-- The report of an access: a use after a free, or else what the history check found. -/
def report (s : State) (t : Thread) (write : Bool) (pc addr size : Word) : List Race :=
  match (s.reportUse t addr).1 with
  | some hit => [s.useReport addr (t.accessing write pc size) hit]
  | none =>
    if s.tracks addr then
      s.conflictReport addr (t.accessing write pc size) (s.checked t write pc addr size).1
    else []

end State

/-- What an access by the tracked thread `t` makes of `s`, and the races that it delivers. -/
structure Accessed (s : State) (t : Thread) (write : Bool) (pc addr size : Word) (s' : State)
    (delivered : List Race) : Prop where
  config : s'.config = s.config
  heard : s'.heard = s.heard
  heap : s'.tables.heap = (s.reportUse t addr).2.tables.heap
  freedPages : s'.tables.freedPages = s.tables.freedPages
  shadow : ∀ x, s'.tables.shadow[x]? = if x = addr ∧ s.tracks addr
    then some (s.checked t write pc addr size).2 else s.tables.shadow[x]?
  races : delivered = if s.heard then s.report t write pc addr size else []

namespace State

theorem deliver_eq {h : Host} (quiet : h.Quiet) (s : State) (race : Race) :
    s.deliver h race =
      (s.count fun c => { c with races := c.races + 1 }, race.told s.heard) := by
  have same : (s.count fun c => { c with races := c.races + 1 }).heard = s.heard := rfl
  unfold deliver
  cases heard : s.heard with
  | true =>
    simp only [same, heard, quiet race]
    rfl
  | false =>
    simp only [same, heard]
    rfl

/-- Counting does not matter to anything else. -/
theorem deliver_quiet {h : Host} (quiet : h.Quiet) (s : State) (race : Race) :
    (∃ f, (s.deliver h race).1 = s.count f) ∧
      races (s.deliver h race).2 = if s.heard then [race] else [] := by
  rw [deliver_eq quiet]
  refine ⟨⟨fun c => { c with races := c.races + 1 }, rfl⟩, ?_⟩
  cases s.heard <;> rfl

theorem raiseUse_quiet {h : Host} (quiet : h.Quiet) (s : State) (addr : Word) (hit : UseAfterFree)
    (current : Access) :
    (∃ f, (s.raiseUse h addr hit current).1 = s.count f) ∧
      races (s.raiseUse h addr hit current).2 =
        if s.heard then [s.useReport addr current hit] else [] := by
  obtain ⟨⟨f, hf⟩, hr⟩ := deliver_quiet quiet
    (s.count fun c => { c with useAfterFree := c.useAfterFree + 1 }) (s.useReport addr current hit)
  exact ⟨⟨fun c => f { c with useAfterFree := c.useAfterFree + 1 }, hf⟩, hr⟩

theorem settle_quiet {h : Host} (quiet : h.Quiet) (s : State) (addr : Word) (current : Access)
    (outcome : Outcome) :
    (∃ f, (s.settle h addr current outcome).1 = s.count f) ∧
      races (s.settle h addr current outcome).2 =
        if s.heard then s.conflictReport addr current outcome else [] := by
  cases outcome with
  | sameEpoch =>
    exact ⟨⟨fun c => { c with sameEpoch := c.sameEpoch + 1 }, rfl⟩,
      by simp [settle, conflictReport]⟩
  | ordered => exact ⟨⟨id, rfl⟩, by simp [settle, conflictReport]⟩
  | race kind prior => exact deliver_quiet quiet s _

section Told

variable {h : Host} (quiet : h.Quiet) {s s' : State} {addr : Word} {current : Access}
  {out : List Output}
include quiet

theorem raiseUse_shape {hit : UseAfterFree} (told : s.raiseUse h addr hit current = (s', out)) :
    ∃ f, s' = s.count f := by
  have counted := (raiseUse_quiet quiet s addr hit current).1
  rwa [told] at counted

theorem settleUse_shape {hit : Option UseAfterFree}
    (told : s.settleUse h addr current hit = (s', out)) : ∃ f, s' = s.count f := by
  cases hit with
  | none =>
    cases told
    exact ⟨id, rfl⟩
  | some hit => exact raiseUse_shape quiet told

theorem settle_shape {outcome : Outcome} (told : s.settle h addr current outcome = (s', out)) :
    ∃ f, s' = s.count f := by
  have counted := (settle_quiet quiet s addr current outcome).1
  rwa [told] at counted

end Told

/-- A report depends on the configuration and the live blocks alone. -/
theorem blockAt_congr {s s' : State} (config : s'.config = s.config)
    (live : s'.tables.heap.live = s.tables.heap.live) (addr : Word) :
    s'.blockAt addr = s.blockAt addr := by
  simp only [blockAt, Heap.blockAt, config, live]

theorem useReport_congr {s s' : State} (config : s'.config = s.config)
    (live : s'.tables.heap.live = s.tables.heap.live) (addr : Word) (current : Access)
    (hit : UseAfterFree) : s'.useReport addr current hit = s.useReport addr current hit := by
  simp only [useReport, side, blockAt_congr config live, config]

theorem conflictReport_congr {s s' : State} (config : s'.config = s.config)
    (live : s'.tables.heap.live = s.tables.heap.live) (addr : Word) (current : Access)
    (outcome : Outcome) :
    s'.conflictReport addr current outcome = s.conflictReport addr current outcome := by
  simp only [conflictReport, side, blockAt_congr config live, config]

/-- Looking for a use after a free changes at most which blocks are reported. -/
theorem reportUse_frame (s : State) (t : Thread) (addr : Word) :
    (s.reportUse t addr).2 =
      s.withTables (s.tables.putHeap (s.reportUse t addr).2.tables.heap) ∧
    (s.reportUse t addr).2.tables.heap.live = s.tables.heap.live := by
  unfold reportUse
  split
  · split
    · rename_i hit heap found
      refine ⟨rfl, ?_⟩
      unfold Heap.reportUse at found
      obtain ⟨seq, _, found⟩ := Option.bind_eq_some_iff.mp found
      obtain ⟨b, _, found⟩ := Option.map_eq_some_iff.mp found
      exact (congrArg (·.2.live) found).symm
    · exact ⟨rfl, rfl⟩
  · exact ⟨rfl, rfl⟩

theorem reportUse_shape {s s' : State} {t : Thread} {addr : Word} {hit : Option UseAfterFree}
    (used : s.reportUse t addr = (hit, s')) : ∃ heap, s' = s.withTables (s.tables.putHeap heap) ∧
      heap.live = s.tables.heap.live ∧ (s.reportUse t addr).2.tables.heap = heap := by
  obtain ⟨frame, live⟩ := s.reportUse_frame t addr
  rw [used] at frame live ⊢
  exact ⟨_, frame, live, rfl⟩

theorem tracks_of_location_none {s s' : State} {addr : Word} {out : List Output}
    (looked : s.location addr = (none, s', out)) : s.tracks addr = false := by
  have found := s.location_found addr
  rw [looked] at found
  cases found with
  | refused missing full =>
    have absent := Table.not_mem_iff.mpr missing
    rw [Std.ExtTreeMap.mem_iff_contains, Bool.not_eq_true] at absent
    simp only [Room, Bool.not_eq_false] at full
    simp [tracks, full, absent]

/-- A location that is given comes with the history that it has. -/
theorem history_of_location {s s' : State} {addr : Word} {history : History} {out : List Output}
    (looked : s.location addr = (some history, s', out)) :
    s.tracks addr = true ∧ history = s.history addr ∧
      ∀ x ≠ addr, s'.tables.shadow[x]? = s.tables.shadow[x]? := by
  have found := s.location_found addr
  rw [looked] at found
  cases found with
  | known _ there =>
    have known : addr ∈ s.tables.shadow := Table.mem_iff_exists.mpr ⟨history, there⟩
    exact ⟨by simp [tracks, known], by simp [State.history, there], fun _ _ => rfl⟩
  | made missing free =>
    refine ⟨?_, by simp [State.history, missing], fun x other => ?_⟩
    · simp only [Room] at free
      simp [tracks, free]
    · exact (Table.get_insert ..).trans (if_neg other)

end State

/-! ### The ways in which an access ends -/

/-- How an access by the tracked thread `t` ends: the state that it leaves, and what it lets out. -/
inductive Made (s : State) (h : Host) (t : Thread) (write : Bool) (pc addr size : Word) :
    State × List Output → Prop where
  | untracked {hit : Option UseAfterFree} {s₁ s₂ s₃ : State} {noted out : List Output}
    (used : s.reportUse t addr = (hit, s₁)) (looked : s₁.location addr = (none, s₂, noted))
    (told : s₂.countUntracked.settleUse h addr (t.accessing write pc size) hit = (s₃, out)) :
    Made s h t write pc addr size (s₃, noted ++ out)
  | used {hit : UseAfterFree} {history history' : History} {outcome : Outcome}
    {s₁ s₂ s₃ : State} {noted out : List Output} (used : s.reportUse t addr = (some hit, s₁))
    (looked : s₁.location addr = (some history, s₂, noted))
    (checked : history.onAccess write t.tid t.clock ⟨pc, size, t.stack⟩ = (outcome, history'))
    (told : (s₂.withTables (s₂.tables.putHistory addr history')).raiseUse h addr hit
      (t.accessing write pc size) = (s₃, out)) :
    Made s h t write pc addr size (s₃, noted ++ out)
  | settled {history history' : History} {outcome : Outcome} {s₁ s₂ s₃ : State}
    {noted out : List Output} (used : s.reportUse t addr = (none, s₁))
    (looked : s₁.location addr = (some history, s₂, noted))
    (checked : history.onAccess write t.tid t.clock ⟨pc, size, t.stack⟩ = (outcome, history'))
    (told : (s₂.withTables (s₂.tables.putHistory addr history')).settle h addr
      (t.accessing write pc size) outcome = (s₃, out)) :
    Made s h t write pc addr size (s₃, noted ++ out ++ [.note (.accessed t.tid pc addr write)])

theorem State.accessBy_made (s : State) (h : Host) (t : Thread) (write : Bool)
    (pc addr size : Word) :
    Made s h t write pc addr size (s.accessBy h t write pc addr size) := by
  unfold accessBy
  rcases used : s.reportUse t addr with ⟨hit, s₁⟩
  dsimp only
  rcases looked : s₁.location addr with ⟨_ | history, s₂, noted⟩
  · exact .untracked used looked rfl
  · cases hit with
    | none => exact .settled used looked rfl rfl
    | some hit => exact .used used looked rfl rfl

/-- The way in which an access ends decides all that it does. -/
theorem Made.eq {s : State} {h : Host} {t : Thread} {write : Bool} {pc addr size : Word}
    {res : State × List Output} (made : Made s h t write pc addr size res) :
    s.accessBy h t write pc addr size = res := by
  cases made with
  | untracked used looked told =>
    simp only [State.accessBy, used, looked]
    rw [← Thread.accessing, told]
  | used used looked checked told =>
    simp only [State.accessBy, used, looked, checked]
    rw [← Thread.accessing, told]
  | settled used looked checked told =>
    simp only [State.accessBy, used, looked, checked]
    rw [← Thread.accessing, told]

/-- Where an access may leave a trace. -/
theorem State.accessBy_shape {h : Host} (quiet : h.Quiet) {s s' : State} {t : Thread}
    {write : Bool} {pc addr size : Word} {out : List Output}
    (made : s.accessBy h t write pc addr size = (s', out)) : ∃ x c shadow heap,
      s' = { s with exhausted := x, counters := c, tables := { s.tables with shadow, heap } } := by
  have ends := s.accessBy_made h t write pc addr size
  rw [made] at ends
  cases ends with
  | untracked used looked told =>
    obtain ⟨heap, rfl, _⟩ := reportUse_shape used
    obtain ⟨x, shadow, rfl⟩ := location_shape looked
    obtain ⟨f, rfl⟩ := settleUse_shape quiet told
    exact ⟨_, _, _, _, rfl⟩
  | used used looked _ told =>
    obtain ⟨heap, rfl, _⟩ := reportUse_shape used
    obtain ⟨x, shadow, rfl⟩ := location_shape looked
    obtain ⟨f, rfl⟩ := raiseUse_shape quiet told
    exact ⟨_, _, _, _, rfl⟩
  | settled used looked _ told =>
    obtain ⟨heap, rfl, _⟩ := reportUse_shape used
    obtain ⟨x, shadow, rfl⟩ := location_shape looked
    obtain ⟨f, rfl⟩ := settle_shape quiet told
    exact ⟨_, _, _, _, rfl⟩

/-! ### What it puts on record -/

/-- What an access by `t` puts on record in `s`, before anything is reported. -/
structure Recorded (s : State) (t : Thread) (write : Bool) (pc addr size : Word) (s' : State) :
    Prop where
  config : s'.config = s.config
  heard : s'.heard = s.heard
  live : s'.tables.heap.live = s.tables.heap.live
  heap : s'.tables.heap = (s.reportUse t addr).2.tables.heap
  freedPages : s'.tables.freedPages = s.tables.freedPages
  shadow : ∀ x, s'.tables.shadow[x]? = if x = addr ∧ s.tracks addr
    then some (s.checked t write pc addr size).2 else s.tables.shadow[x]?
  threads : SameThreads s s'

namespace State

variable {s s₁ s₂ : State} {t : Thread} {write : Bool} {pc addr size : Word}
  {hit : Option UseAfterFree} {history : History} {noted : List Output}

/-- A location that is not tracked leaves nothing on record. -/
theorem recorded_of_untracked (used : s.reportUse t addr = (hit, s₁))
    (looked : s₁.location addr = (none, s₂, noted)) :
    s.tracks addr = false ∧ Recorded s t write pc addr size s₂ := by
  obtain ⟨heap, rfl, live, same⟩ := reportUse_shape used
  have untracked := tracks_of_location_none looked
  have untracked : s.tracks addr = false := untracked
  have found := State.location_found (s.withTables (s.tables.putHeap heap)) addr
  rw [looked] at found
  cases found with
  | refused =>
    refine ⟨untracked, rfl, rfl, live, same.symm, rfl, fun x => ?_, rfl, rfl, rfl, rfl⟩
    rw [if_neg (by simp [untracked])]
    rfl

/-- The access goes into the history of a tracked location. -/
theorem recorded_of_tracked (used : s.reportUse t addr = (hit, s₁))
    (looked : s₁.location addr = (some history, s₂, noted)) (write : Bool) (pc size : Word) :
    s.tracks addr = true ∧ history = s.history addr ∧ Recorded s t write pc addr size
      (s₂.withTables (s₂.tables.putHistory addr (s.checked t write pc addr size).2)) := by
  obtain ⟨heap, rfl, live, same⟩ := reportUse_shape used
  obtain ⟨tracked, own, others⟩ := history_of_location looked
  have tracked : s.tracks addr = true := tracked
  obtain ⟨x, shadow, rfl⟩ := location_shape looked
  refine ⟨tracked, own, rfl, rfl, live, same.symm, rfl, fun y => ?_, rfl, rfl, rfl, rfl⟩
  refine (Table.get_insert ..).trans ?_
  by_cases named : y = addr
  · simp [named, tracked]
  · rw [if_neg named, if_neg fun both => named both.1]
    exact others y named

theorem report_of_use {hit : UseAfterFree} (used : s.reportUse t addr = (some hit, s₁)) :
    s.report t write pc addr size = [s.useReport addr (t.accessing write pc size) hit] := by
  rw [report, used]

theorem report_of_none (used : s.reportUse t addr = (none, s₁)) :
    s.report t write pc addr size = if s.tracks addr then
      s.conflictReport addr (t.accessing write pc size) (s.checked t write pc addr size).1
    else [] := by
  rw [report, used]

end State

/-- Counting is all that is left to do, and what is delivered is the report. -/
theorem Recorded.accessed {s s' : State} {t : Thread} {write : Bool} {pc addr size : Word}
    (recorded : Recorded s t write pc addr size s') (f : Counters → Counters)
    {delivered : List Race}
    (races : delivered = if s.heard then s.report t write pc addr size else []) :
    Accessed s t write pc addr size (s'.count f) delivered ∧ SameThreads s (s'.count f) :=
  ⟨⟨recorded.config, recorded.heard, recorded.heap, recorded.freedPages, recorded.shadow, races⟩,
    recorded.threads⟩

/-- A use after a free is what is reported of an access. -/
theorem Recorded.of_use {h : Host} (quiet : h.Quiet) {s s₁ s₂ s₃ : State} {t : Thread}
    {write : Bool} {pc addr size : Word} {hit : UseAfterFree} {noted out : List Output}
    (recorded : Recorded s t write pc addr size s₂) (plain : Plain noted)
    (used : s.reportUse t addr = (some hit, s₁))
    (told : s₂.raiseUse h addr hit (t.accessing write pc size) = (s₃, out)) :
    Accessed s t write pc addr size s₃ (RaceMonitor.races (noted ++ out)) ∧ SameThreads s s₃ := by
  obtain ⟨⟨f, state⟩, races⟩ := State.raiseUse_quiet quiet s₂ addr hit (t.accessing write pc size)
  rw [told] at state races
  obtain rfl : s₃ = s₂.count f := state
  refine recorded.accessed f ?_
  rw [races_append, plain.races, List.nil_append, State.report_of_use used, races, recorded.heard,
    State.useReport_congr recorded.config recorded.live]

/-- **What an access by a tracked thread does.** -/
theorem State.accessBy_accessed {h : Host} (quiet : h.Quiet) (s : State) (t : Thread)
    (write : Bool) (pc addr size : Word) :
    Accessed s t write pc addr size (s.accessBy h t write pc addr size).1
        (races (s.accessBy h t write pc addr size).2) ∧
      SameThreads s (s.accessBy h t write pc addr size).1 := by
  have made := s.accessBy_made h t write pc addr size
  generalize s.accessBy h t write pc addr size = res at made ⊢
  cases made with
  | @untracked hit _ s₂ _ noted _ used looked told =>
    obtain ⟨untracked, recorded⟩ := recorded_of_untracked used looked
    have plain := location_plain looked
    cases hit with
    | some hit =>
      have counted : Recorded s t write pc addr size s₂.countUntracked :=
        ⟨recorded.config, recorded.heard, recorded.live, recorded.heap, recorded.freedPages,
          recorded.shadow, recorded.threads⟩
      exact counted.of_use quiet plain used told
    | none =>
      cases told
      have nothing : races (noted ++ []) =
          if s.heard then s.report t write pc addr size else [] := by
        rw [List.append_nil, plain.races, report_of_none used, untracked]
        simp
      exact recorded.accessed (fun c => { c with untracked := c.untracked + 1 }) nothing
  | used used looked checked told =>
    obtain ⟨_, rfl, recorded⟩ := recorded_of_tracked used looked write pc size
    obtain rfl : (s.checked t write pc addr size).2 = _ := congrArg Prod.snd checked
    exact recorded.of_use quiet (location_plain looked) used told
  | @settled _ _ outcome _ s₂ _ noted out used looked checked told =>
    obtain ⟨tracked, rfl, recorded⟩ := recorded_of_tracked used looked write pc size
    obtain ⟨rfl, rfl⟩ : (s.checked t write pc addr size).1 = outcome ∧
        (s.checked t write pc addr size).2 = _ :=
      ⟨congrArg Prod.fst checked, congrArg Prod.snd checked⟩
    obtain ⟨⟨f, state⟩, settled⟩ := settle_quiet quiet _ addr (t.accessing write pc size)
      (s.checked t write pc addr size).1
    rw [told] at state settled
    subst state
    have delivered : races (noted ++ out ++ [.note (.accessed t.tid pc addr write)]) =
        if s.heard then s.report t write pc addr size else [] := by
      rw [races_append, races_append, (location_plain looked).races, settled, recorded.heard,
        conflictReport_congr recorded.config recorded.live, report_of_none used, if_pos tracked]
      simp
    exact recorded.accessed f delivered

theorem SameMemory.reportUse {s s' : State} (same : SameMemory s s') (t : Thread) (addr : Word) :
    (s'.reportUse t addr).1 = (s.reportUse t addr).1 ∧
      (s'.reportUse t addr).2.tables.heap = (s.reportUse t addr).2.tables.heap := by
  simp only [State.reportUse, same.config, same.freedPages, same.heap, same.shadow]
  split
  · split
    · exact ⟨rfl, rfl⟩
    · exact ⟨rfl, same.heap⟩
  · exact ⟨rfl, same.heap⟩

theorem SameMemory.tracks {s s' : State} (same : SameMemory s s') (addr : Word) :
    s'.tracks addr = s.tracks addr := by
  simp only [State.tracks, same.config, same.shadow]

theorem SameMemory.checked {s s' : State} (same : SameMemory s s') (t : Thread) (write : Bool)
    (pc addr size : Word) : s'.checked t write pc addr size = s.checked t write pc addr size := by
  simp only [State.checked, State.history, same.shadow]

theorem SameMemory.report {s s' : State} (same : SameMemory s s') (t : Thread) (write : Bool)
    (pc addr size : Word) : s'.report t write pc addr size = s.report t write pc addr size := by
  have live : s'.tables.heap.live = s.tables.heap.live := by rw [same.heap]
  simp only [State.report, (same.reportUse t addr).1, State.useReport_congr same.config live,
    State.conflictReport_congr same.config live, same.tracks, same.checked]

/-- An access sees no difference. -/
theorem Accessed.of_same {s s₁ s' : State} {t : Thread} {write : Bool} {pc addr size : Word}
    {delivered : List Race} (same : SameMemory s s₁)
    (h : Accessed s₁ t write pc addr size s' delivered) :
    Accessed s t write pc addr size s' delivered where
  config := h.config.trans same.config
  heard := h.heard.trans same.heard
  heap := h.heap.trans (same.reportUse t addr).2
  freedPages := h.freedPages.trans same.freedPages
  shadow x := by
    rw [h.shadow, same.tracks, same.checked, same.shadow]
  races := by rw [h.races, same.heard, same.report]

theorem Entered.sameMemory {s s₁ : State} {tid : ThreadId} {t : Thread}
    (h : Entered s tid t s₁) : SameMemory s s₁ := by
  cases h <;> exact ⟨rfl, rfl, rfl, rfl, rfl⟩

/-- What a read or write makes of `s`, and the races that it delivers. -/
inductive Handled (s : State) (write : Bool) (tid : ThreadId) (pc addr size : Word) :
    State → List Race → Prop where
  | refused (missing : tid ∉ s.tables.threads) (s' : State) (config : s'.config = s.config)
    (heard : s'.heard = s.heard) (tables : s'.tables = s.tables) :
    Handled s write tid pc addr size s' []
  | entered (t : Thread) (s₁ : State) (enter : Entered (s.countAccess write addr) tid t s₁)
    (s' : State) (threads : SameThreads s₁ s') (delivered : List Race)
    (accessed : Accessed s t write pc addr size s' delivered) :
    Handled s write tid pc addr size s' delivered

theorem State.access_handled {h : Host} (quiet : h.Quiet) (s : State) (write : Bool)
    (tid : ThreadId) (pc addr size : Word) :
    Handled s write tid pc addr size (s.access h write tid pc addr size).1
      (races (s.access h write tid pc addr size).2) := by
  rcases met : (s.countAccess write addr).thread tid with ⟨_ | t, s₁, noted⟩
  · rw [access_refused met, (thread_plain met).races]
    obtain ⟨missing, x, rfl⟩ := thread_refused met
    have missing : tid ∉ s.tables.threads := missing
    exact .refused missing _ rfl rfl rfl
  · have enter := thread_entered met
    have same : SameMemory s s₁ := by
      obtain ⟨config, heard, shadow, heap, freedPages⟩ := enter.sameMemory
      exact ⟨config, heard, shadow, heap, freedPages⟩
    obtain ⟨accessed, threads⟩ := accessBy_accessed quiet s₁ t write pc addr size
    rw [access_entered met, races_append, (thread_plain met).races, List.nil_append]
    exact .entered t s₁ enter _ threads _ (accessed.of_same same)

end RaceMonitor
