import RaceMonitor.History

/-! What one access does to a history.

The history keeps the new access or a repetition of it, and of the others only ones that it kept
before. A conflict is with a kept access that the new one has not observed. Reads by two threads may
come in either order. When it is dropped, the last write stands for all of it, or else a latest read
(`History.Foremost`). -/
namespace RaceMonitor

namespace Readers

theorem mem_place {a b : Access} {as : List Access} (h : b ∈ place a as) : b = a ∨ b ∈ as := by
  induction as with
  | nil => exact .inl (List.mem_singleton.mp h)
  | cons x xs ih =>
    unfold place at h
    split at h
    · rcases List.mem_cons.mp h with rfl | h
      · exact .inr List.mem_cons_self
      · exact (ih h).imp id (List.mem_cons_of_mem x)
    · split at h
      · exact (List.mem_cons.mp h).imp id (List.mem_cons_of_mem x)
      · exact List.mem_cons.mp h

theorem mem_place_self (a : Access) (as : List Access) : a ∈ place a as := by
  induction as with
  | nil => exact List.mem_singleton.mpr rfl
  | cons x xs ih =>
    unfold place
    split
    · exact List.mem_cons_of_mem x ih
    · split <;> exact List.mem_cons_self

theorem mem_place_of_ne {a b : Access} {as : List Access} (h : b ∈ as) (ne : b.tid ≠ a.tid) :
    b ∈ place a as := by
  induction as with
  | nil => cases h
  | cons x xs ih =>
    unfold place
    split
    · rcases List.mem_cons.mp h with rfl | h
      · exact List.mem_cons_self
      · exact List.mem_cons_of_mem x (ih h)
    · split
      · rename_i same
        rcases List.mem_cons.mp h with rfl | h
        · exact absurd same ne
        · exact List.mem_cons_of_mem a h
      · exact List.mem_cons_of_mem a h

theorem mem_add {r : Readers} {a b : Access} (h : b ∈ (r.add a).toList) :
    b = a ∨ b ∈ r.toList := by
  cases r with
  | none => exact .inl (List.mem_singleton.mp h)
  | exclusive x =>
    simp only [add] at h
    split at h
    · exact .inl (List.mem_singleton.mp h)
    · exact mem_place h
  | shared as => exact mem_place h

theorem mem_add_self (r : Readers) (a : Access) : a ∈ (r.add a).toList := by
  cases r with
  | none => exact List.mem_singleton.mpr rfl
  | exclusive x =>
    simp only [add]
    split
    · exact List.mem_singleton.mpr rfl
    · exact mem_place_self a [x]
  | shared as => exact mem_place_self a as

/-- A read takes the place of one by its own thread only. -/
theorem mem_add_of_ne {r : Readers} {a b : Access} (h : b ∈ r.toList) (ne : b.tid ≠ a.tid) :
    b ∈ (r.add a).toList := by
  cases r with
  | none => cases h
  | exclusive x =>
    obtain rfl := List.mem_singleton.mp h
    simp only [add, ne, if_false]
    exact mem_place_of_ne (List.mem_singleton.mpr rfl) ne
  | shared as => exact mem_place_of_ne h ne

/-- The latest read by a thread is one of the kept ones. -/
theorem mem_of_epochOf {r : Readers} {tid : ThreadId} {e : Epoch} (h : r.epochOf tid = some e) :
    ∃ a ∈ r.toList, a.tid = tid ∧ a.epoch = e := by
  obtain ⟨a, found, rfl⟩ := Option.map_eq_some_iff.mp h
  exact ⟨a, List.mem_of_find?_eq_some found, by simpa using List.find?_some found, rfl⟩

/-! ### Reads by two threads -/

variable {a b : Access} {tid : ThreadId}

/-- Reads by two threads take their places in either order. -/
theorem place_comm (ne : a.tid ≠ b.tid) (as : List Access) :
    place a (place b as) = place b (place a as) := by
  induction as with
  | nil =>
    simp only [place]
    grind
  | cons x xs ih =>
    -- By where the two belong: behind, at or before `x`.
    simp only [place]
    grind [place]

theorem find?_place (ne : a.tid ≠ tid) (as : List Access) :
    ((place a as).find? fun b => b.tid == tid) = as.find? fun b => b.tid == tid := by
  have other : (a.tid == tid) = false := by simpa using ne
  induction as with
  | nil => rw [place, List.find?_cons, other]
  | cons x xs ih =>
    unfold place
    split
    · rw [List.find?_cons, List.find?_cons, ih]
    · split
      · rename_i same
        rw [List.find?_cons, List.find?_cons, same, other]
      · rw [List.find?_cons, other]

theorem place_same {x : Access} (same : x.tid = a.tid) : place a [x] = [a] := by
  rw [place, if_neg (same ▸ UInt32.lt_irrefl _), if_pos same]

theorem add_exclusive (ne : a.tid ≠ b.tid) : (exclusive a).add b = shared (place b [a]) :=
  if_neg ne

theorem add_exclusive_same {x : Access} (same : x.tid = a.tid) :
    (exclusive x).add a = exclusive a := if_pos same

theorem add_comm (ne : a.tid ≠ b.tid) (r : Readers) : (r.add a).add b = (r.add b).add a := by
  cases r with
  | none =>
    exact (add_exclusive ne).trans ((congrArg shared (place_comm ne.symm [])).trans
      (add_exclusive ne.symm).symm)
  | exclusive x =>
    by_cases xa : x.tid = a.tid
    · have xb : x.tid ≠ b.tid := xa ▸ ne
      rw [add_exclusive xb, add_exclusive_same xa, add_exclusive ne]
      exact congrArg shared ((place_same xa) ▸ place_comm ne.symm [x])
    · rw [add_exclusive xa]
      by_cases xb : x.tid = b.tid
      · rw [add_exclusive_same xb, add_exclusive ne.symm]
        exact congrArg shared ((place_same xb) ▸ place_comm ne.symm [x])
      · rw [add_exclusive xb]
        exact congrArg shared (place_comm ne.symm [x])
  | shared as => exact congrArg shared (place_comm ne.symm as)

theorem epochOf_add (ne : a.tid ≠ tid) (r : Readers) : (r.add a).epochOf tid = r.epochOf tid := by
  have other : (a.tid == tid) = false := by simpa using ne
  cases r with
  | none => rw [add, epochOf, toList, List.find?_cons, other]; rfl
  | exclusive x =>
    by_cases xa : x.tid = a.tid
    · rw [add_exclusive_same xa]
      simp only [epochOf, toList, List.find?_cons, xa, other]
    · rw [add_exclusive xa]
      exact congrArg (Option.map Access.epoch) (find?_place ne [x])
  | shared as => exact congrArg (Option.map Access.epoch) (find?_place ne as)

/-- Takes a read in, unless it repeats one within an epoch. -/
def record (r : Readers) (a : Access) : Readers :=
  if r.epochOf a.tid = some a.epoch then r else r.add a

theorem epochOf_record (ne : a.tid ≠ tid) (r : Readers) :
    (r.record a).epochOf tid = r.epochOf tid := by
  unfold record
  split
  · rfl
  · exact epochOf_add ne r

theorem record_comm (ne : a.tid ≠ b.tid) (r : Readers) :
    (r.record a).record b = (r.record b).record a := by
  have first : (r.record a).record b =
      if r.epochOf b.tid = some b.epoch then r.record a else (r.record a).add b := by
    rw [record, epochOf_record ne]
  have second : (r.record b).record a =
      if r.epochOf a.tid = some a.epoch then r.record b else (r.record b).add a := by
    rw [record, epochOf_record ne.symm]
  rw [first, second, record, record]
  by_cases old : r.epochOf a.tid = some a.epoch
  · rw [if_pos old, if_pos old]
  · rw [if_neg old, if_neg old]
    split
    · rfl
    · exact add_comm ne r

end Readers

namespace History

variable {h : History} {tid : ThreadId} {vc : VectorClock} {site : Site}

theorem mem_accesses {a : Access} :
    a ∈ h.accesses ↔ h.write = some a ∨ a ∈ h.reads.toList := by
  simp only [accesses, List.mem_append, Option.mem_toList]

theorem latest_mem {as : List Access} {a : Access} (h : latest as = some a) : a ∈ as := by
  induction as generalizing a with
  | nil => cases h
  | cons b bs ih =>
    unfold latest at h
    split at h
    · rename_i c found
      split at h
      · exact List.mem_cons_of_mem b (ih (h ▸ found))
      · exact Option.some.inj h ▸ List.mem_cons_self
    · exact Option.some.inj h ▸ List.mem_cons_self

theorem latest_eq_none {as : List Access} : latest as = none ↔ as = [] := by
  cases as with
  | nil => simp [latest]
  | cons a as =>
    unfold latest
    cases latest as with
    | none => simp
    | some b => by_cases le : a.epoch.clock ≤ b.epoch.clock <;> simp [le]

theorem latest_greatest {as : List Access} {a : Access} (found : latest as = some a) :
    ∀ b ∈ as, b.epoch.clock ≤ a.epoch.clock := by
  induction as generalizing a with
  | nil => exact fun b mem => absurd mem List.not_mem_nil
  | cons c cs ih =>
    unfold latest at found
    split at found
    · rename_i d later
      split at found
      · rename_i le
        cases found
        exact List.forall_mem_cons.mpr ⟨le, ih later⟩
      · rename_i gt
        cases found
        have lt := UInt32.not_le.mp gt
        exact List.forall_mem_cons.mpr ⟨UInt32.le_refl _, fun b mem =>
          UInt32.le_trans (ih later b mem) (UInt32.le_of_lt lt)⟩
    · rename_i none
      cases found
      rw [latest_eq_none.mp none]
      simp

theorem last_mem {h : History} {a : Access} (last : h.last = some a) : a ∈ h.accesses := by
  rw [mem_accesses]
  exact (Option.or_eq_some_iff.mp last).imp id fun read => latest_mem read.2

/-- An access that stands for a whole history: the last write, or where there is none, a read with
the greatest clock. -/
inductive Foremost (h : History) : Access → Prop where
  | write (a : Access) (written : h.write = some a) : Foremost h a
  | read (a : Access) (unwritten : h.write = none) (kept : a ∈ h.reads.toList)
    (greatest : ∀ b ∈ h.reads.toList, b.epoch.clock ≤ a.epoch.clock) : Foremost h a

theorem last_foremost {h : History} {a : Access} (last : h.last = some a) : h.Foremost a := by
  rcases Option.or_eq_some_iff.mp last with written | ⟨unwritten, read⟩
  · exact .write a written
  · exact .read a unwritten (latest_mem read) (latest_greatest read)

/-- There is a last access unless there is none at all. -/
theorem last_eq_none {h : History} : h.last = none ↔ h.accesses = [] := by
  rw [last, Option.or_eq_none_iff, latest_eq_none, accesses, List.append_eq_nil_iff,
    Option.toList_eq_nil_iff]

/-- What a read comes to. -/
inductive Read (h : History) (tid : ThreadId) (vc : VectorClock) (site : Site) :
    Outcome × History → Prop where
  | repeated (a : Access) (kept : a ∈ h.reads.toList) (same : a.epoch = vc.epoch tid) :
    Read h tid vc site (.sameEpoch, h)
  | ordered (observed : ∀ w, h.write = some w → w.epoch.observedBy vc = true) :
    Read h tid vc site (.ordered, { h with reads := h.reads.add ⟨vc.epoch tid, false, site⟩ })
  | race (w : Access) (kept : h.write = some w) (unobserved : w.epoch.observedBy vc = false) :
    Read h tid vc site (.race .writeRead w,
      { h with reads := h.reads.add ⟨vc.epoch tid, false, site⟩ })

/-- What a write comes to. -/
inductive Write (h : History) (tid : ThreadId) (vc : VectorClock) (site : Site) :
    Outcome × History → Prop where
  | repeated (w : Access) (kept : h.write = some w) (same : w.epoch = vc.epoch tid) :
    Write h tid vc site (.sameEpoch, h)
  | ordered (observed : ∀ w, h.write = some w → w.epoch.observedBy vc = true)
    (read : ∀ a ∈ h.reads.toList, a.tid ≠ tid → a.epoch.observedBy vc = true) :
    Write h tid vc site (.ordered, ⟨some ⟨vc.epoch tid, true, site⟩, .none⟩)
  | race (kind : RaceKind) (other : kind ≠ .useAfterFree) (a : Access) (kept : a ∈ h.accesses)
    (unobserved : a.epoch.observedBy vc = false) :
    Write h tid vc site (.race kind a, ⟨some ⟨vc.epoch tid, true, site⟩, .none⟩)

theorem unobservedWrite_none (none : h.unobservedWrite vc = none) (w : Access)
    (kept : h.write = some w) : w.epoch.observedBy vc = true := by
  simpa [unobservedWrite, kept, Option.filter_eq_none_iff] using none

theorem unobservedWrite_some {w : Access} (found : h.unobservedWrite vc = some w) :
    h.write = some w ∧ w.epoch.observedBy vc = false := by
  simpa [unobservedWrite, Option.filter_eq_some_iff] using found

theorem read_onRead (h : History) (tid : ThreadId) (vc : VectorClock) (site : Site) :
    Read h tid vc site (h.onRead tid vc site) := by
  unfold onRead
  dsimp only
  split
  · rename_i same
    obtain ⟨a, kept, _, same⟩ := Readers.mem_of_epochOf same
    exact .repeated a kept same
  · cases found : h.unobservedWrite vc with
    | none => exact .ordered (unobservedWrite_none found)
    | some w =>
      obtain ⟨kept, unobserved⟩ := unobservedWrite_some found
      exact .race w kept unobserved

theorem write_onWrite (h : History) (tid : ThreadId) (vc : VectorClock) (site : Site) :
    Write h tid vc site (h.onWrite tid vc site) := by
  unfold onWrite
  dsimp only
  split
  · rename_i same
    obtain ⟨w, kept, same⟩ := Option.map_eq_some_iff.mp same
    exact .repeated w kept same
  · cases found : h.unobservedWrite vc with
    | none =>
      cases reader : h.unobservedReader tid vc with
      | none =>
        refine .ordered (unobservedWrite_none found) fun a ha ne => ?_
        simpa [ne] using List.find?_eq_none.mp reader a ha
      | some a =>
        have kept := List.mem_of_find?_eq_some reader
        have unobserved : (a.tid != tid) && !a.epoch.observedBy vc := by
          simpa using List.find?_some reader
        simp only [Bool.and_eq_true, Bool.not_eq_true'] at unobserved
        exact .race .readWrite (by decide) a (mem_accesses.mpr (.inr kept)) unobserved.2
    | some w =>
      obtain ⟨kept, unobserved⟩ := unobservedWrite_some found
      exact .race .writeWrite (by decide) w (mem_accesses.mpr (.inl kept)) unobserved

/-- Only the new access is new. -/
theorem mem_onAccess {write : Bool} {a : Access}
    (ha : a ∈ (h.onAccess write tid vc site).2.accesses) :
    a = ⟨vc.epoch tid, write, site⟩ ∨ a ∈ h.accesses := by
  rw [mem_accesses (h := h)]
  cases write with
  | false =>
    have read := read_onRead h tid vc site
    simp only [onAccess, Bool.false_eq_true, if_false] at ha
    generalize h.onRead tid vc site = result at read ha
    cases read with
    | repeated => exact .inr (mem_accesses.mp ha)
    | ordered | race =>
      cases mem_accesses.mp ha with
      | inl ha => exact .inr (.inl ha)
      | inr ha => exact (Readers.mem_add ha).imp id .inr
  | true =>
    have written := write_onWrite h tid vc site
    simp only [onAccess, if_true] at ha
    generalize h.onWrite tid vc site = result at written ha
    cases written with
    | repeated => exact .inr (mem_accesses.mp ha)
    | ordered | race =>
      cases mem_accesses.mp ha with
      | inl ha => exact .inl (Option.some.inj ha).symm
      | inr ha => cases ha

/-- A conflict is with a kept access that has not been observed. -/
theorem race_onAccess {write : Bool} {kind : RaceKind} {a : Access}
    (race : (h.onAccess write tid vc site).1 = .race kind a) :
    kind ≠ .useAfterFree ∧ a ∈ h.accesses ∧ a.epoch.observedBy vc = false := by
  cases write with
  | false =>
    have read := read_onRead h tid vc site
    simp only [onAccess, Bool.false_eq_true, if_false] at race
    generalize h.onRead tid vc site = result at read race
    cases read with
    | repeated | ordered => cases race
    | race w kept unobserved =>
      cases race
      exact ⟨by decide, mem_accesses.mpr (.inl kept), unobserved⟩
  | true =>
    have written := write_onWrite h tid vc site
    simp only [onAccess, if_true] at race
    generalize h.onWrite tid vc site = result at written race
    cases written with
    | repeated | ordered => cases race
    | race kind other a kept unobserved =>
      cases race
      exact ⟨other, kept, unobserved⟩

/-- What an access without a conflict makes of a history. -/
inductive Passed (h : History) (tid : ThreadId) (vc : VectorClock) (site : Site) :
    Bool → History → Prop where
  | rereads (a : Access) (kept : a ∈ h.reads.toList) (same : a.epoch = vc.epoch tid) :
    Passed h tid vc site false h
  | reads (observed : ∀ w, h.write = some w → w.epoch.observedBy vc = true) :
    Passed h tid vc site false { h with reads := h.reads.add ⟨vc.epoch tid, false, site⟩ }
  | rewrites (w : Access) (kept : h.write = some w) (same : w.epoch = vc.epoch tid) :
    Passed h tid vc site true h
  | writes (observed : ∀ w, h.write = some w → w.epoch.observedBy vc = true)
    (read : ∀ a ∈ h.reads.toList, a.tid ≠ tid → a.epoch.observedBy vc = true) :
    Passed h tid vc site true ⟨some ⟨vc.epoch tid, true, site⟩, .none⟩

theorem passed_onAccess {write : Bool}
    (clean : ∀ kind a, (h.onAccess write tid vc site).1 ≠ .race kind a) :
    Passed h tid vc site write (h.onAccess write tid vc site).2 := by
  cases write with
  | false =>
    have read := read_onRead h tid vc site
    simp only [onAccess, Bool.false_eq_true, if_false] at clean ⊢
    generalize h.onRead tid vc site = result at read clean
    cases read with
    | repeated a kept same => exact .rereads a kept same
    | ordered observed => exact .reads observed
    | race w => exact absurd rfl (clean _ w)
  | true =>
    have written := write_onWrite h tid vc site
    simp only [onAccess, if_true] at clean ⊢
    generalize h.onWrite tid vc site = result at written clean
    cases written with
    | repeated w kept same => exact .rewrites w kept same
    | ordered observed read => exact .writes observed read
    | race kind other a => exact absurd rfl (clean kind a)

/-! ### Reads by two threads -/

variable {tid' : ThreadId} {vc' : VectorClock} {site' : Site}

/-- A read is checked against the last write and recorded among the reads. -/
theorem onRead_eq (h : History) (tid : ThreadId) (vc : VectorClock) (site : Site) :
    h.onRead tid vc site =
      (if h.reads.epochOf tid = some (vc.epoch tid) then .sameEpoch
        else outcomeOf .writeRead (h.unobservedWrite vc),
        { h with reads := h.reads.record ⟨vc.epoch tid, false, site⟩ }) := by
  have tid_eq : Access.tid ⟨vc.epoch tid, false, site⟩ = tid := rfl
  rw [onRead, Readers.record, tid_eq]
  dsimp only
  split <;> rfl

/-- What a read comes to does not depend on a read by another thread before it. -/
theorem onRead_outcome (ne : tid' ≠ tid) (h : History) :
    ((h.onRead tid' vc' site').2.onRead tid vc site).1 = (h.onRead tid vc site).1 := by
  rw [onRead_eq, onRead_eq, onRead_eq]
  dsimp only
  rw [Readers.epochOf_record (a := ⟨vc'.epoch tid', false, site'⟩) ne]
  rfl

/-- Reads by two threads are recorded in either order. -/
theorem onRead_comm (ne : tid' ≠ tid) (h : History) :
    ((h.onRead tid' vc' site').2.onRead tid vc site).2 =
      ((h.onRead tid vc site).2.onRead tid' vc' site').2 := by
  simp only [onRead_eq]
  exact congrArg (History.mk h.write) (Readers.record_comm (a := ⟨vc'.epoch tid', false, site'⟩)
    (b := ⟨vc.epoch tid, false, site⟩) ne h.reads)

end History

end RaceMonitor
