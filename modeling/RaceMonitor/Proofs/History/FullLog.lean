import RaceMonitor.Proofs.History

/-! A history against the full log.

A history forgets: of the writes it keeps the last one, and of the reads since then the latest of
each thread. A monitor that keeps every access it has recorded (`Log`) knows more and gives the
same answers (`History.run_agrees`). What a history and the log have in common is `History.Follows`;
one access keeps it, whether the readers are none, one or several and whether or not there is a
race. -/
namespace RaceMonitor

/-- A read or write as a history sees it: by which thread, with which clock, and where. -/
structure Call where
  write : Bool
  tid : ThreadId
  vc : VectorClock
  site : Site
  deriving DecidableEq, Repr

namespace Call

/-- The access to record. -/
def access (c : Call) : Access := ⟨c.vc.epoch c.tid, c.write, c.site⟩

/-- Whether an earlier access is not ordered before this one. -/
def misses (c : Call) (a : Access) : Bool := !a.epoch.observedBy c.vc

end Call

/-- Every access that was recorded, the newest first. -/
abbrev Log := List Access

namespace Log

def lastWrite (l : Log) : Option Access := l.find? fun a => a.write

/-- The reads since the last write. -/
def readsSince (l : Log) : List Access := l.takeWhile fun a => !a.write

/-- The thread's latest read since the last write. -/
def latestRead (l : Log) (tid : ThreadId) : Option Access :=
  l.readsSince.find? fun a => a.tid == tid

/-- The latest reads of all threads. -/
def latestReads (l : Log) : List Access :=
  l.readsSince.filter fun a => l.latestRead a.tid = some a

/-- Whether the access has the epoch of the last write, or of the thread's latest read. -/
def repeats (l : Log) (c : Call) : Bool :=
  (if c.write then l.lastWrite else l.latestRead c.tid).map Access.epoch =
    some (c.vc.epoch c.tid)

/-- Of the other threads whose latest read is not ordered before the access, the lowest one's. -/
def reader (l : Log) (c : Call) : Option Access :=
  (l.latestReads.filter fun a => a.tid != c.tid && c.misses a).minOn? Access.tid

def answer (l : Log) (c : Call) : Outcome :=
  if l.repeats c then .sameEpoch
  else
    match l.lastWrite.filter c.misses with
    | some w => .race (if c.write then .writeWrite else .writeRead) w
    | none =>
      match if c.write then l.reader c else none with
      | some r => .race .readWrite r
      | none => .ordered

/-- The log after the access: a repetition is not recorded. -/
def next (l : Log) (c : Call) : Log := if l.repeats c then l else c.access :: l

/-- The answers to some accesses, and the log in the end. -/
def run (l : Log) : List Call → List Outcome × Log
  | [] => ([], l)
  | c :: cs =>
    let (answers, l') := (l.next c).run cs
    (l.answer c :: answers, l')

variable {l : Log} {tid : ThreadId} {a : Access}

theorem latestRead_tid (latest : l.latestRead tid = some a) : a.tid = tid := by
  simpa using List.find?_some latest

theorem mem_latestReads : a ∈ l.latestReads ↔ l.latestRead a.tid = some a := by
  rw [latestReads, List.mem_filter, decide_eq_true_eq]
  exact ⟨And.right, fun latest => ⟨List.mem_of_find?_eq_some latest, latest⟩⟩

theorem lastWrite_read (read : a.write = false) (l : Log) :
    lastWrite (a :: l) = l.lastWrite := by
  rw [lastWrite, List.find?_cons, read]
  rfl

theorem lastWrite_write (written : a.write = true) (l : Log) : lastWrite (a :: l) = some a := by
  rw [lastWrite, List.find?_cons, written]

theorem latestRead_read (read : a.write = false) (l : Log) (tid : ThreadId) :
    latestRead (a :: l) tid = if a.tid = tid then some a else l.latestRead tid := by
  rw [latestRead, readsSince, List.takeWhile_cons, read, latestRead, readsSince]
  by_cases own : a.tid = tid <;> simp [own]

theorem latestRead_write (written : a.write = true) (l : Log) (tid : ThreadId) :
    latestRead (a :: l) tid = none := by
  rw [latestRead, readsSince, List.takeWhile_cons, written]
  rfl

theorem write_of_latestRead (latest : l.latestRead tid = some a) : a.write = false := by
  have since := List.all_eq_true.mp List.all_takeWhile a (List.mem_of_find?_eq_some latest)
  simpa using since

end Log

/-! ### Readers in their order -/

namespace Readers

variable {as bs : List Access} {a b : Access} {r : Readers}

/-- One read a thread, in the order of the threads. -/
def Sorted (as : List Access) : Prop := as.Pairwise fun a b => a.tid < b.tid

namespace Sorted

theorem place (sorted : Sorted as) (a : Access) : Sorted (place a as) := by
  induction as with
  | nil => exact List.pairwise_singleton _ a
  | cons x xs ih =>
    obtain ⟨later, rest⟩ := List.pairwise_cons.mp sorted
    unfold Readers.place
    split
    · rename_i before
      refine List.pairwise_cons.mpr ⟨fun y mem => ?_, ih rest⟩
      rcases mem_place mem with rfl | mem
      · exact before
      · exact later y mem
    · rename_i behind
      split
      · rename_i same
        exact List.pairwise_cons.mpr ⟨same ▸ later, rest⟩
      · rename_i other
        have first : a.tid < x.tid :=
          UInt32.lt_of_le_of_ne (UInt32.not_lt.mp behind) (Ne.symm other)
        refine List.pairwise_cons.mpr ⟨fun y mem => ?_, sorted⟩
        rcases List.mem_cons.mp mem with rfl | mem
        · exact first
        · exact UInt32.lt_trans first (later y mem)

theorem eq_of_tid (sorted : Sorted as) (ha : a ∈ as) (hb : b ∈ as) (same : a.tid = b.tid) :
    a = b := by
  induction as with
  | nil => cases ha
  | cons x xs ih =>
    obtain ⟨later, rest⟩ := List.pairwise_cons.mp sorted
    cases ha with
    | head =>
      cases hb with
      | head => rfl
      | tail _ hb => exact absurd same (UInt32.ne_of_lt (later b hb))
    | tail _ ha =>
      cases hb with
      | head => exact absurd same.symm (UInt32.ne_of_lt (later a ha))
      | tail _ hb => exact ih rest ha hb

theorem find?_tid (sorted : Sorted as) {tid : ThreadId} :
    (as.find? fun a => a.tid == tid) = some a ↔ a ∈ as ∧ a.tid = tid := by
  constructor
  · intro found
    exact ⟨List.mem_of_find?_eq_some found, by simpa using List.find?_some found⟩
  · intro own
    obtain ⟨mem, rfl⟩ := own
    cases found : as.find? fun b => b.tid == a.tid with
    | none => exact absurd (List.find?_eq_none.mp found a mem) (by simp)
    | some b =>
      have same : b.tid = a.tid := by simpa using List.find?_some found
      rw [sorted.eq_of_tid (List.mem_of_find?_eq_some found) mem same]

/-- What is found first is by the lowest thread. -/
theorem find?_le (sorted : Sorted as) {p : Access → Bool} (found : as.find? p = some a)
    (mem : b ∈ as) (holds : p b = true) : a.tid ≤ b.tid := by
  obtain ⟨_, before, after, rfl, passed⟩ := List.find?_eq_some_iff_append.mp found
  obtain ⟨_, rest, _⟩ := List.pairwise_append.mp sorted
  rcases List.mem_append.mp mem with mem | mem
  · have failed := passed b mem
    simp [holds] at failed
  · rcases List.mem_cons.mp mem with rfl | mem
    · exact UInt32.le_refl _
    · exact UInt32.le_of_lt ((List.pairwise_cons.mp rest).1 b mem)

/-- The first of sorted reads with a property is the lowest thread's, in whatever order they are. -/
theorem find?_eq_minOn? (sorted : Sorted as) (same : ∀ a, a ∈ bs ↔ a ∈ as) (p : Access → Bool) :
    as.find? p = (bs.filter p).minOn? Access.tid := by
  cases found : as.find? p with
  | none =>
    have none : bs.filter p = [] := List.filter_eq_nil_iff.mpr fun b mem =>
      List.find?_eq_none.mp found b ((same b).mp mem)
    rw [none, List.minOn?_nil]
  | some a =>
    have mem : a ∈ bs.filter p := List.mem_filter.mpr
      ⟨(same a).mpr (List.mem_of_find?_eq_some found), List.find?_some found⟩
    have below := List.apply_get_minOn?_le_of_mem (f := Access.tid) mem
    cases least : (bs.filter p).minOn? Access.tid with
    | none => exact absurd (List.isSome_minOn?_of_mem (f := Access.tid) mem) (by simp [least])
    | some b =>
      simp only [least, Option.get_some] at below
      obtain ⟨memb, holds⟩ := List.mem_filter.mp (List.minOn?_mem least)
      have memb := (same b).mp memb
      have tid := UInt32.le_antisymm (sorted.find?_le found memb holds) below
      rw [sorted.eq_of_tid (List.mem_of_find?_eq_some found) memb tid]

end Sorted

theorem length_le_place (a : Access) (as : List Access) : as.length ≤ (place a as).length := by
  induction as with
  | nil => exact Nat.zero_le _
  | cons x xs ih =>
    unfold place
    split
    · exact Nat.succ_le_succ ih
    · split
      · exact Nat.le_refl _
      · exact Nat.le_succ _

/-- The readers are sorted, and they are shared only if there are several. -/
structure Kept (r : Readers) : Prop where
  sorted : Sorted r.toList
  several : ∀ as, r = .shared as → 2 ≤ as.length

theorem Kept.none : Kept .none := ⟨.nil, fun _ => nofun⟩

theorem Kept.add (kept : r.Kept) (a : Access) : (r.add a).Kept := by
  cases r with
  | none => exact ⟨List.pairwise_singleton _ a, fun _ => nofun⟩
  | exclusive x =>
    by_cases same : x.tid = a.tid
    · rw [add_exclusive_same same]
      exact ⟨List.pairwise_singleton _ a, fun _ => nofun⟩
    · rw [add_exclusive same]
      refine ⟨kept.sorted.place a, fun as shared => ?_⟩
      cases shared
      unfold place
      split
      · exact Nat.le_refl _
      · exact Nat.le_refl _
  | shared as =>
    refine ⟨kept.sorted.place a, fun bs shared => ?_⟩
    cases shared
    exact Nat.le_trans (kept.several as rfl) (length_le_place a as)

theorem Kept.mem_add_iff (kept : r.Kept) :
    b ∈ (r.add a).toList ↔ b = a ∨ b ∈ r.toList ∧ b.tid ≠ a.tid := by
  constructor
  · intro mem
    by_cases same : b.tid = a.tid
    · exact .inl ((kept.add a).sorted.eq_of_tid mem (mem_add_self r a) same)
    · exact (mem_add mem).imp id fun old => ⟨old, same⟩
  · intro new
    rcases new with rfl | ⟨old, other⟩
    · exact mem_add_self r b
    · exact mem_add_of_ne old other

end Readers

namespace History

/-- An access is checked and recorded. -/
def call (h : History) (c : Call) : Outcome × History := h.onAccess c.write c.tid c.vc c.site

/-- The outcomes of some accesses, and the history in the end. -/
def run (h : History) : List Call → List Outcome × History
  | [] => ([], h)
  | c :: cs =>
    let (outcome, h) := h.call c
    let (outcomes, h) := h.run cs
    (outcome :: outcomes, h)

/-- The history has the last write and the latest reads of the log. -/
structure Follows (h : History) (l : Log) : Prop where
  write : h.write = l.lastWrite
  kept : h.reads.Kept
  reads : ∀ a, a ∈ h.reads.toList ↔ l.latestRead a.tid = some a

variable {h : History} {l : Log}

theorem Follows.empty : Follows .empty [] := ⟨rfl, .none, fun _ => ⟨nofun, nofun⟩⟩

namespace Follows

theorem latestRead (follows : h.Follows l) (tid : ThreadId) :
    (h.reads.toList.find? fun a => a.tid == tid) = l.latestRead tid := by
  refine Option.ext fun a => ?_
  rw [follows.kept.sorted.find?_tid, follows.reads]
  constructor
  · intro latest
    obtain ⟨latest, rfl⟩ := latest
    exact latest
  · intro latest
    obtain rfl := Log.latestRead_tid latest
    exact ⟨latest, rfl⟩

theorem reader (follows : h.Follows l) (c : Call) : h.unobservedReader c.tid c.vc = l.reader c :=
  follows.kept.sorted.find?_eq_minOn?
    (fun a => Log.mem_latestReads.trans (follows.reads a).symm) _

/-- A read is put to the latest reads, in the place of the thread's own one. -/
theorem read (follows : h.Follows l) {a : Access} (read : a.write = false) :
    Follows { h with reads := h.reads.add a } (a :: l) where
  write := follows.write.trans (Log.lastWrite_read read l).symm
  kept := follows.kept.add a
  reads b := by
    show b ∈ (h.reads.add a).toList ↔ _
    rw [follows.kept.mem_add_iff, Log.latestRead_read read]
    by_cases own : a.tid = b.tid
    · simp [own, eq_comm]
    · have other : b.tid ≠ a.tid := Ne.symm own
      have ne : b ≠ a := fun same => other (congrArg Access.tid same)
      simp [own, other, ne, follows.reads b]

/-- After a write, nothing has been read. -/
theorem written (l : Log) {a : Access} (written : a.write = true) :
    Follows ⟨some a, .none⟩ (a :: l) where
  write := (Log.lastWrite_write written l).symm
  kept := .none
  reads b := by
    rw [Log.latestRead_write written]
    exact ⟨nofun, nofun⟩

theorem repeats_read (follows : h.Follows l) {c : Call} (isRead : c.write = false) :
    h.reads.epochOf c.tid = some (c.vc.epoch c.tid) ↔ l.repeats c = true := by
  rw [Readers.epochOf, follows.latestRead, Log.repeats, isRead, decide_eq_true_eq]
  exact Iff.rfl

theorem repeats_write (follows : h.Follows l) {c : Call} (isWrite : c.write = true) :
    h.write.map Access.epoch = some (c.vc.epoch c.tid) ↔ l.repeats c = true := by
  rw [follows.write, Log.repeats, isWrite, decide_eq_true_eq]
  exact Iff.rfl

/-- One access has the outcome that the log answers, and is recorded here just when it is there. -/
theorem call (follows : h.Follows l) (c : Call) :
    (h.call c).1 = l.answer c ∧ (h.call c).2.Follows (l.next c) := by
  have unobserved : h.unobservedWrite c.vc = l.lastWrite.filter c.misses := by
    rw [unobservedWrite, follows.write]
    rfl
  have reader := follows.reader c
  rw [History.call, onAccess, Log.answer, Log.next]
  cases kind : c.write with
  | false =>
    have repeats := follows.repeats_read kind
    rw [if_neg Bool.false_ne_true, onRead]
    by_cases again : l.repeats c = true
    · rw [if_pos (repeats.mpr again), if_pos again, if_pos again]
      exact ⟨rfl, follows⟩
    · rw [if_neg (again ∘ repeats.mp), if_neg again, if_neg again, unobserved]
      refine ⟨?_, kind ▸ follows.read (a := c.access) kind⟩
      cases l.lastWrite.filter c.misses <;> rfl
  | true =>
    have repeats := follows.repeats_write kind
    rw [if_pos rfl, onWrite]
    dsimp only
    by_cases again : l.repeats c = true
    · rw [if_pos (repeats.mpr again), if_pos again, if_pos again]
      exact ⟨rfl, follows⟩
    · rw [if_neg (again ∘ repeats.mp), if_neg again, if_neg again, unobserved, reader]
      refine ⟨?_, kind ▸ written l (a := c.access) kind⟩
      cases l.lastWrite.filter c.misses with
      | some w => rfl
      | none => cases l.reader c <;> rfl

theorem run (follows : h.Follows l) (cs : List Call) :
    (h.run cs).1 = (l.run cs).1 ∧ (h.run cs).2.Follows (l.run cs).2 := by
  induction cs generalizing h l with
  | nil => exact ⟨rfl, follows⟩
  | cons c cs ih =>
    obtain ⟨outcome, next⟩ := follows.call c
    obtain ⟨outcomes, last⟩ := ih next
    exact ⟨List.cons_eq_cons.mpr ⟨outcome, outcomes⟩, last⟩

end Follows

/-- **A history answers as the full log does.** Whatever accesses come, by any threads with any
clocks, each has the outcome that a monitor finds which keeps every access it has recorded. In the
end, and so at any time, shared readers are at least two, one a thread and sorted by thread, all of
them reads; and the kept accesses are the last write of the log and then, in the order of the
threads, each thread's latest read since. -/
theorem run_agrees (calls : List Call) :
    let run := History.empty.run calls
    let log := Log.run [] calls
    run.1 = log.1 ∧
    (∀ as, run.2.reads = .shared as → 2 ≤ as.length ∧
      (as.Pairwise fun a b => a.tid < b.tid) ∧ ∀ a ∈ as, a.write = false) ∧
    ∃ reads, run.2.accesses = log.2.lastWrite.toList ++ reads ∧
      (reads.Pairwise fun a b => a.tid < b.tid) ∧
      ∀ a, a ∈ reads ↔ log.2.latestRead a.tid = some a := by
  intro run log
  obtain ⟨outcomes, follows⟩ := Follows.empty.run calls
  refine ⟨outcomes, fun as shared => ?_, run.2.reads.toList, ?_, follows.kept.sorted,
    follows.reads⟩
  · have sorted := follows.kept.sorted
    have reads := follows.reads
    rw [shared] at sorted reads
    exact ⟨follows.kept.several as shared, sorted,
      fun a mem => Log.write_of_latestRead ((reads a).mp mem)⟩
  · rw [accesses, follows.write]

/-- Two threads read, and a third one writes that has seen the first of them only. -/
example : (empty.run [⟨false, 1, .ofList [⟨1, 1⟩], default⟩, ⟨false, 3, .ofList [⟨3, 1⟩], default⟩,
    ⟨true, 2, .ofList [⟨1, 1⟩, ⟨2, 1⟩], default⟩]).1 =
      [.ordered, .ordered, .race .readWrite ⟨⟨3, 1⟩, false, default⟩] := by decide

end History

end RaceMonitor
