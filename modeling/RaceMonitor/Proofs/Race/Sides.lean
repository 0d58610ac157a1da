import RaceMonitor.Proofs.Heap.Coverage
import RaceMonitor.Proofs.Race.Blame

/-! The two sides of a report.

What a side says about its access fits together (`Side.WellFormed`): the block it shows lies around
its address, and its stack, of at most the configured depth, ends with its program counter. The
second side is the access that the event makes. What the two sides are, reads or writes, decides
the kind of a conflict (`RaceKind.ofWrites?`), as a history keeps a write for its last write and
reads for its readers (`History.Proper`). All of this holds of every report that is delivered
(`report_wellFormed`). -/
namespace RaceMonitor

/-! ### Stacks -/

theorem CallStack.length_innermost_le (n : Nat) (s : CallStack) : (innermost n s).length ≤ n := by
  induction s generalizing n with
  | empty => simp [innermost]
  | frame pc depth caller ih =>
    cases n with
    | zero => simp [innermost]
    | succ n => exact Nat.succ_le_succ (ih n)

namespace Side

/-- The words that count are those attached, the innermost ones if there are too many. -/
theorem stack_withStack (s : Side) (frames : List Word) :
    (s.withStack frames).stack = frames.drop (frames.length - stackCapacity) := by
  have fits : (frames.drop (frames.length - stackCapacity)).length ≤ stackCapacity := by
    rw [List.length_drop]
    omega
  show ((Vector.ofFn _).toList.take _) = _
  dsimp only [withStack]
  generalize frames.drop (frames.length - stackCapacity) = kept at fits
  have count : (UInt64.ofNat kept.length).toNat = kept.length := by
    rw [UInt64.toNat_ofNat']
    exact Nat.mod_eq_of_lt (Nat.lt_of_le_of_lt fits (by decide))
  rw [count, Vector.toList_ofFn]
  refine List.ext_getElem ?_ fun i taken there => ?_
  · rw [List.length_take, List.length_ofFn]
    omega
  · rw [List.getElem_take, List.getElem_ofFn, List.getElem?_eq_getElem there, Option.getD_some]

/-- What a side shows fits together: the block it names is around its address, or it names none,
and its stack, of at most `depth` words, ends with the program counter. -/
structure WellFormed (depth : Nat) (s : Side) : Prop where
  onHeap : s.onHeap = true → s.block.base ≤ s.addr ∧ s.addr - s.block.base < s.block.size
  offHeap : s.onHeap = false → s.block = ⟨0, 0⟩
  nonempty : 1 ≤ s.stack.length
  within : s.stack.length ≤ depth
  ends : s.stack.getLast? = some s.pc

end Side

theorem Config.stackDepth_bounds (c : Config) :
    1 ≤ c.stackDepth ∧ c.stackDepth ≤ stackCapacity := by
  have room : 1 ≤ stackCapacity := by decide
  unfold stackDepth
  omega

/-- With room for it, the stack of an access is shown to the depth that is asked for. -/
theorem Access.stack_side (a : Access) (addr : Word) {depth : Nat} (one : 1 ≤ depth)
    (fits : depth ≤ stackCapacity) :
    (a.side addr depth).stack = a.site.stack.frames (depth - 1) ++ [a.site.pc] := by
  have short := CallStack.length_innermost_le (depth - 1) a.site.stack
  have all : (a.site.stack.frames (depth - 1) ++ [a.site.pc]).length - stackCapacity = 0 := by
    rw [List.length_append, CallStack.frames, List.length_reverse, List.length_singleton]
    omega
  rw [Access.side, Side.stack_withStack, all, List.drop_zero]

theorem State.side_wellFormed (s : State) (a : Access) (addr : Word) {block : Option Extent}
    (around : ∀ e, block = some e → e.contains addr = true) :
    (s.side a addr block).WellFormed s.config.stackDepth := by
  obtain ⟨one, fits⟩ := s.config.stackDepth_bounds
  have short := CallStack.length_innermost_le (s.config.stackDepth - 1) a.site.stack
  have stack : (s.side a addr block).stack =
      a.site.stack.frames (s.config.stackDepth - 1) ++ [a.site.pc] := by
    rw [← a.stack_side addr one fits]
    cases block <;> rfl
  have length : (s.side a addr block).stack.length =
      (CallStack.innermost (s.config.stackDepth - 1) a.site.stack).length + 1 := by
    rw [stack, List.length_append, CallStack.frames, List.length_reverse, List.length_singleton]
  constructor
  · intro on
    cases block with
    | none => cases on
    | some e =>
      have inside := around e rfl
      simp only [Extent.contains, Bool.and_eq_true, decide_eq_true_eq] at inside
      exact inside
  · intro off
    cases block with
    | none => rfl
    | some e => cases off
  · omega
  · omega
  · rw [stack, List.getLast?_concat]
    cases block <;> rfl

/-! ### Blocks -/

theorem State.blockAt_contains {s : State} {addr : Word} {e : Extent}
    (found : s.blockAt addr = some e) : e.contains addr = true := by
  unfold State.blockAt at found
  split at found
  · exact Heap.blockAt_contains found
  · cases found

/-- The earlier side of a use after free is at the address, or where the block starts. -/
theorem Block.contains_prior {b : Block} {addr : Word} (around : b.extent.contains addr = true)
    (tid : ThreadId) (history : Option History) :
    b.extent.contains (b.prior tid addr history).1 = true := by
  have nonempty := Extent.nonempty_of_covers (Extent.contains_iff.mp around)
  have start : b.extent.contains b.extent.base = true :=
    Extent.contains_iff.mpr (Extent.covers_base nonempty)
  unfold prior
  split
  · exact around
  · split
    · exact around
    · exact start

/-! ### Reads and writes -/

/-- The kind of conflict between two accesses, by which of them are writes, the earlier first. -/
def RaceKind.ofWrites? : Bool → Bool → Option RaceKind
  | true, true => some .writeWrite
  | true, false => some .writeRead
  | false, true => some .readWrite
  | false, false => none

namespace History

/-- What is kept as the last write is a write, and the readers have read. -/
structure Proper (h : History) : Prop where
  write : ∀ w, h.write = some w → w.write = true
  reads : ∀ a ∈ h.reads.toList, a.write = false

variable {h : History} {tid : ThreadId} {vc : VectorClock} {site : Site}

theorem Proper.empty : History.empty.Proper := ⟨nofun, nofun⟩

theorem Proper.onAccess (proper : h.Proper) (write : Bool) :
    (h.onAccess write tid vc site).2.Proper := by
  have reading : History.Proper { h with reads := h.reads.add ⟨vc.epoch tid, false, site⟩ } := by
    refine ⟨proper.write, fun a mem => ?_⟩
    rcases Readers.mem_add mem with rfl | mem
    · rfl
    · exact proper.reads a mem
  have writing : History.Proper ⟨some ⟨vc.epoch tid, true, site⟩, .none⟩ :=
    ⟨fun w written => Option.some.inj written ▸ rfl, nofun⟩
  cases write with
  | false =>
    have read := read_onRead h tid vc site
    simp only [History.onAccess, Bool.false_eq_true, if_false]
    generalize h.onRead tid vc site = result at read
    cases read with
    | repeated => exact proper
    | ordered | race => exact reading
  | true =>
    have written := write_onWrite h tid vc site
    simp only [History.onAccess, if_true]
    generalize h.onWrite tid vc site = result at written
    cases written with
    | repeated => exact proper
    | ordered | race => exact writing

/-- A conflict is of the kind that its sides make it. -/
theorem Proper.kind (proper : h.Proper) {write : Bool} {kind : RaceKind} {prior : Access}
    (race : (h.onAccess write tid vc site).1 = .race kind prior) :
    RaceKind.ofWrites? prior.write write = some kind := by
  have after_write {w : Access} (found : h.unobservedWrite vc = some w) : w.write = true :=
    proper.write w (unobservedWrite_some found).1
  cases write with
  | false =>
    simp only [History.onAccess, Bool.false_eq_true, if_false, onRead] at race
    split at race
    · cases race
    · dsimp only at race
      cases found : h.unobservedWrite vc with
      | none => simp [found, outcomeOf] at race
      | some w =>
        simp only [found, outcomeOf, Outcome.race.injEq] at race
        obtain ⟨rfl, rfl⟩ := race
        rw [after_write found]
        rfl
  | true =>
    simp only [History.onAccess, if_true, onWrite] at race
    split at race
    · cases race
    · dsimp only at race
      cases found : h.unobservedWrite vc with
      | some w =>
        simp only [found, Outcome.race.injEq] at race
        obtain ⟨rfl, rfl⟩ := race
        rw [after_write found]
        rfl
      | none =>
        cases reader : h.unobservedReader tid vc with
        | none => simp [found, reader, outcomeOf] at race
        | some a =>
          simp only [found, reader, outcomeOf, Outcome.race.injEq] at race
          obtain ⟨rfl, rfl⟩ := race
          rw [proper.reads a (List.mem_of_find?_eq_some reader)]
          rfl

end History

namespace Session

variable {r : Session}

/-- The histories are proper at every moment. -/
theorem proper (r : Session) (n : Nat) (x : Word) : ((r.state n).history x).Proper := by
  induction n with
  | zero =>
    rw [state_zero, State.history, r.fresh]
    simpa [Tables.empty] using History.Proper.empty
  | succ n ih =>
    rcases r.shadow_succ n x with ⟨write, tid, pc, size, t, _, there⟩ | ⟨_, dropped⟩ | ⟨_, same⟩
    · rw [State.history, there]
      exact ih.onAccess write
    · rw [State.history, dropped]
      exact .empty
    · rwa [history_eq_of_shadow same]

/-- The access that a thread makes, as the second side of a report. -/
theorem Processed.event_side {n : Nat} {write : Bool} {tid : ThreadId} {pc addr size : Word}
    {t : Thread} (h : r.Processed n write tid pc addr size t) (block : Option Extent) {side : Side}
    (made : side = (r.state n).side (t.accessing write pc size) addr block) :
    r.events[n]? = some (.access side.write side.tid side.pc side.addr side.size) := by
  obtain ⟨_, processed⟩ := (named_side (s := r.state n) h.recorded block).1
  rw [made]
  exact processed.event

/-- **Every report is well formed.** The second side is the access that the event makes. In a
conflict the sides are a write and a write, a write and a read or a read and a write, as its kind
says, at one address and with one block. The block on either side is around the address, and a side
without one says so. The stack on either side has between one word and the configured depth, and
ends with the program counter. -/
theorem report_wellFormed {n : Nat} {race : Race} (delivered : race ∈ r.races n) :
    r.events[n]? = some (.access race.second.write race.second.tid race.second.pc race.second.addr
      race.second.size) ∧
    (race.kind ≠ .useAfterFree →
      RaceKind.ofWrites? race.first.write race.second.write = some race.kind ∧
      race.first.addr = race.second.addr ∧ race.first.onHeap = race.second.onHeap ∧
      race.first.block = race.second.block) ∧
    race.first.WellFormed r.start.config.stackDepth ∧
    race.second.WellFormed r.start.config.stackDepth := by
  obtain ⟨write, tid, pc, addr, size, t, processed, reported⟩ := mem_races delivered
  have around (e : Extent) (found : (r.state n).blockAt addr = some e) : e.contains addr = true :=
    State.blockAt_contains found
  rw [← r.config n]
  by_cases use : race.kind = .useAfterFree
  · obtain ⟨hit, found, rfl⟩ := use_of_report reported use
    refine ⟨processed.event_side _ rfl, fun conflict => absurd use conflict, ?_,
      (r.state n).side_wellFormed _ addr around⟩
    rcases State.reportUse_cases (r.filtered n) t addr with
      ⟨none, _⟩ | ⟨_, seq, b, found', _, rfl, due⟩
    · cases none.symm.trans found
    · obtain rfl := Option.some.inj (found.symm.trans found')
      show ((r.state n).side _ _ (some b.extent)).WellFormed _
      refine (r.state n).side_wellFormed _ _ fun e own => ?_
      obtain rfl := Option.some.inj own
      have inside := Extent.contains_iff.mpr (Extent.covers_of_overlaps due.covers)
      exact Block.contains_prior inside _ _
  · obtain ⟨prior, found, first, second⟩ := conflict_of_report reported use
    refine ⟨processed.event_side _ second, fun _ => ?_, ?_, ?_⟩
    · have kind := (r.proper n addr).kind found
      rw [first, second]
      cases (r.state n).blockAt addr <;> exact ⟨kind, rfl, rfl, rfl⟩
    · rw [first]
      exact (r.state n).side_wellFormed prior addr around
    · rw [second]
      exact (r.state n).side_wellFormed _ addr around

/-- A thread writes to its block from within a function, and the thread that it has forked reads
there. -/
def nested : Session :=
  .default [.alloc 0 1 256 16, .fork 0 1, .enter 0 7, .write 0 8 264 8, .read 1 9 264 4]

/-- The write is shown with the function it was made in, and in its block. -/
theorem nested_delivers : ∃ race ∈ nested.races 4, race.kind = .writeRead ∧
    race.first.stack = [7, 8] ∧ race.first.block = ⟨256, 16⟩ := by
  simp only [nested, races, output, state, Session.default, host, List.take, State.run, State.step,
    State.allocate, Heap.handOut, Heap.overlapping, Heap.touching_eq, State.access, State.accessBy,
    State.reportUse, Heap.reportUse, Heap.unreported]
  decide +kernel

theorem report_wellFormed_nested : ∃ race ∈ nested.races 4, race.kind = .writeRead ∧
    race.second.pc = 9 ∧ race.second.write = false ∧ race.first.write = true ∧
    race.second.block = ⟨256, 16⟩ ∧ race.first.WellFormed 16 ∧ race.second.WellFormed 16 := by
  obtain ⟨race, delivered, kind, _, block⟩ := nested_delivers
  obtain ⟨event, conflict, first, second⟩ := report_wellFormed delivered
  obtain ⟨sides, _, _, same⟩ := conflict (by rw [kind]; decide)
  have made : Event.access false 1 9 264 4 = .access race.second.write race.second.tid
    race.second.pc race.second.addr race.second.size := Option.some.inj event
  obtain ⟨write, _, pc, _⟩ := Event.access_inj.mp made
  rw [kind, ← write] at sides
  have written : race.first.write = true := by
    cases flag : race.first.write with
    | true => rfl
    | false => simp [flag, RaceKind.ofWrites?] at sides
  exact ⟨race, delivered, kind, pc.symm, write.symm, written, same ▸ block, first, second⟩

end Session

end RaceMonitor
