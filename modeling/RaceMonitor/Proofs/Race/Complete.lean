import RaceMonitor.Proofs.Race.Genuine

/-! No racy location goes unreported.

The history forgets: a write drops the readers, a reader keeps one access a thread, and a
repetition within an epoch is not checked. As long as no race at a location is reported, nothing
is lost by that: whoever observes what is kept has the forgotten access happen before
(`Guarded`), and a kept reader comes after the kept write (`kept_ordered`). The repetition is
harmless because no other thread can know a running thread's present (`present_unknown`). -/
namespace RaceMonitor.Session

variable {r : Session}

/-- No race at `x` has been reported since the history of `x` was last dropped. -/
def Silent (r : Session) (n : Nat) (x : Word) : Prop :=
  ∀ k < n, (∃ race ∈ r.races k, race.second.addr = x) → ∃ m, k < m ∧ m < n ∧ r.Wipes m x

theorem Silent.of_succ {n : Nat} {x : Word} (h : r.Silent (n + 1) x) (unwiped : ¬ r.Wipes n x) :
    r.Silent n x := by
  intro k hk race
  obtain ⟨m, hkm, hm, wipes⟩ := h k (Nat.lt_succ_of_lt hk) race
  rcases Nat.lt_succ_iff_lt_or_eq.mp hm with hm | rfl
  · exact ⟨m, hkm, hm, wipes⟩
  · exact absurd wipes unwiped

theorem Silent.no_race {n : Nat} {x : Word} (h : r.Silent (n + 1) x) :
    ∀ race ∈ r.races n, race.second.addr ≠ x := by
  intro race delivered addr
  obtain ⟨m, hnm, hm, _⟩ := h n (Nat.lt_succ_self n) ⟨race, delivered, addr⟩
  omega

/-- What a thread observes of its own present is all of it. -/
theorem observed_self (t : Thread) : t.epoch.observedBy t.clock = true :=
  Epoch.observedBy_iff.mpr (Nat.le_refl _)

section

variable (unsaturated : r.Unsaturated) (unlimited : r.start.config.maxLocations = 0)
  (heard : r.start.heard = true)

include unlimited in
theorem tracks_all (n : Nat) (x : Word) : (r.state n).tracks x = true := by
  have hlimit : (r.state n).config.limit .locations = 0 := by
    rw [r.config n]
    exact unlimited
  simp [State.tracks, hlimit, Config.full]

include unlimited heard in
/-- An access that no race was reported for has passed its check, and the history has taken it
in. -/
theorem Processed.passed {n : Nat} {write : Bool} {tid : ThreadId} {pc x size : Word} {t : Thread}
    (h : r.Processed n write tid pc x size t)
    (silent : ∀ race ∈ r.races n, race.second.addr ≠ x) :
    History.Passed ((r.state n).history x) tid t.clock ⟨pc, size, t.stack⟩ write
      ((r.state (n + 1)).history x) := by
  have clean : ∀ kind prior, ((r.state n).checked t write pc x size).1 ≠ .race kind prior := by
    intro kind prior found
    have reported := h.accessed.races
    rw [r.heard n, heard, if_pos rfl] at reported
    rw [reported] at silent
    unfold State.report at silent
    cases hit : ((r.state n).reportUse t x).1 with
    | some hit' =>
      simp only [hit] at silent
      exact silent _ List.mem_cons_self (State.side_addr _ _ _ _)
    | none =>
      simp only [hit, tracks_all unlimited n x, if_true, found] at silent
      exact silent _ List.mem_cons_self (State.side_addr _ _ _ _)
  have entered : (r.state (n + 1)).history x = ((r.state n).checked t write pc x size).2 := by
    rw [State.history, h.accessed.shadow, if_pos ⟨rfl, tracks_all unlimited n x⟩]
    rfl
  rw [entered, ← h.tid_eq]
  exact History.passed_onAccess clean

include unsaturated in
/-- No other thread knows a running thread's present. -/
theorem present_unknown {m j : Nat} {u tid : ThreadId} {a t : Thread} (lt : m < j)
    (first : r.Touches m u a) (second : r.Touches j tid t) (ne : u ≠ tid) :
    t.epoch.observedBy a.clock = false := by
  have htid : t.epoch.tid = tid := (r.tidy (j + 1)).keyed tid t second.tracked
  have hpresent : t.epoch.clock.toNat = (r.board (j + 1)).known (.thread tid) tid :=
    second.present.symm
  refine Bool.eq_false_iff.mpr fun observed => ?_
  rw [Epoch.observedBy_iff, htid, ← known_of_tracked first.tracked, hpresent] at observed
  have live_later : (r.board (j + 1)).live tid := second.plain.live
  have started := (r.sound (j + 1)).started tid live_later
  have live : (r.board (m + 1)).live tid := by
    refine Classical.byContradiction fun dead => ?_
    by_cases retired : (r.board (m + 1)).retired tid
    · exact (r.sound (j + 1)).apart tid live_later (retired_of_le (by omega) retired)
    · have := (r.sound (m + 1)).unborn (.thread u) tid ⟨dead, retired⟩
      omega
  have reached := (elapsed live (by omega : m + 1 ≤ j + 1)).reached live_later
  cases (r.sound (m + 1)).alone (.thread u) tid live (by simp) (by simpa using ne) with
  | inl less => omega
  | inr last =>
    obtain ⟨t', tracked⟩ := Table.mem_iff_exists.mp live
    rw [known_of_tracked tracked] at last
    exact unsaturated (m + 1) tid t' tracked (UInt32.toNat_inj.mp last)

include unsaturated unlimited heard in
/-- A kept reader comes after the kept write. -/
theorem kept_ordered {n : Nat} {x : Word} (silent : r.Silent n x) {w a : Access}
    (written : ((r.state n).history x).write = some w)
    (read : a ∈ ((r.state n).history x).reads.toList) :
    ∃ i j, i < j ∧ j < n ∧ r.Recorded i x w ∧ r.Recorded j x a ∧ r.HappensBefore i j := by
  induction n with
  | zero =>
    rw [state_zero, State.history, r.fresh] at written
    simp [Tables.empty, History.empty] at written
  | succ n ih =>
    have older (unwiped : ¬ r.Wipes n x) (written : ((r.state n).history x).write = some w)
        (read : a ∈ ((r.state n).history x).reads.toList) :
        ∃ i j, i < j ∧ j < n + 1 ∧ r.Recorded i x w ∧ r.Recorded j x a ∧ r.HappensBefore i j := by
      obtain ⟨i, j, hij, hj, rest⟩ := ih (silent.of_succ unwiped) written read
      exact ⟨i, j, hij, Nat.lt_succ_of_lt hj, rest⟩
    rcases r.shadow_succ n x with ⟨write, tid, pc, size, t, processed, _⟩ | ⟨_, dropped⟩ |
      ⟨unwiped, same⟩
    · have passed := processed.passed unlimited heard silent.no_race
      have unwiped := processed.not_wipes x
      generalize (r.state (n + 1)).history x = h' at passed written read
      cases passed with
      | rereads | rewrites => exact older unwiped written read
      | reads observed =>
        rcases Readers.mem_add read with rfl | read
        · have kept : w ∈ ((r.state n).history x).accesses :=
            History.mem_accesses.mpr (.inl written)
          obtain ⟨i, lt, recorded, _⟩ := r.kept_recorded n x w kept
          obtain ⟨th, touches, epoch⟩ := recorded.touches
          have before := happensBefore_of_observed unsaturated lt touches processed.touches
            (epoch ▸ observed w written)
          exact ⟨i, n, lt, Nat.lt_succ_self n, recorded, processed.tid_eq ▸ processed.recorded,
            before⟩
        · exact older unwiped written read
      | writes => cases read
    · rw [State.history, dropped] at written
      cases written
    · rw [history_eq_of_shadow same] at written read
      exact older unwiped written read

/-- Whoever observes the epoch of `a` from `n` on has event `i` happen before. -/
def Covers (r : Session) (n i : Nat) (a : Access) : Prop :=
  ∀ j ≥ n, ∀ tid t, r.Touches j tid t → a.epoch.observedBy t.clock = true → r.HappensBefore i j

theorem Covers.mono {n m i : Nat} {a : Access} (h : r.Covers n i a) (le : n ≤ m) :
    r.Covers m i a :=
  fun j hj => h j (Nat.le_trans le hj)

include unsaturated in
/-- The epoch of an event covers it, and all that happens before it. -/
theorem covers_of_epoch {m i : Nat} {tid : ThreadId} {t : Thread} {a : Access}
    (touches : r.Touches m tid t) (same : a.epoch = t.epoch) (before : r.HappensBefore i m) :
    r.Covers (m + 1) i a := by
  intro j hj tid' t' touches' observed
  exact before.trans (happensBefore_of_observed unsaturated hj touches touches' (same ▸ observed))

/-- The access of event `i` to `x`, by thread `u`, is covered by what is kept of `x`: by the
write, or if it is a read by one of the same thread. -/
inductive Guarded (r : Session) (i : Nat) (write : Bool) (u : ThreadId) (x : Word) (n : Nat) :
    Prop where
  | write (w : Access) (kept : ((r.state n).history x).write = some w) (covers : r.Covers n i w)
  | read (isRead : write = false) (a : Access) (kept : a ∈ ((r.state n).history x).reads.toList)
    (own : a.tid = u) (covers : r.Covers n i a)

theorem Guarded.of_same {i : Nat} {write : Bool} {u : ThreadId} {x : Word} {n : Nat}
    (h : r.Guarded i write u x n)
    (same : (r.state (n + 1)).history x = (r.state n).history x) :
    r.Guarded i write u x (n + 1) := by
  cases h with
  | write w kept covers => exact .write w (same ▸ kept) (covers.mono (Nat.le_succ n))
  | read isRead a kept own covers =>
    exact .read isRead a (same ▸ kept) own (covers.mono (Nat.le_succ n))

include unsaturated unlimited heard in
/-- An access that passes its check is covered. -/
theorem Processed.guarded {n : Nat} {write : Bool} {tid : ThreadId} {pc x size : Word} {t : Thread}
    (h : r.Processed n write tid pc x size t)
    (silent : ∀ race ∈ r.races n, race.second.addr ≠ x) : r.Guarded n write tid x (n + 1) := by
  have passed := h.passed unlimited heard silent
  have epoch : t.clock.epoch tid = t.epoch := by rw [Thread.epoch, h.tid_eq]
  generalize hs : (r.state (n + 1)).history x = h' at passed
  cases passed with
  | rereads a kept same =>
    have own : a.tid = tid := by rw [Access.tid, same]; rfl
    exact .read rfl a (hs ▸ kept) own
      (covers_of_epoch unsaturated h.touches (same.trans epoch) .refl)
  | reads observed =>
    have added := Readers.mem_add_self ((r.state n).history x).reads
      ⟨t.clock.epoch tid, false, ⟨pc, size, t.stack⟩⟩
    exact .read rfl ⟨t.clock.epoch tid, false, ⟨pc, size, t.stack⟩⟩ (hs ▸ added) rfl
      (covers_of_epoch unsaturated h.touches epoch .refl)
  | rewrites w kept same =>
    exact .write w (hs ▸ kept) (covers_of_epoch unsaturated h.touches (same.trans epoch) .refl)
  | writes observed read =>
    exact .write _ (by rw [hs]) (covers_of_epoch unsaturated h.touches epoch .refl)

include unsaturated unlimited heard in
/-- What is covered stays covered, as long as no race is reported and the history is kept. -/
theorem Guarded.succ {i : Nat} {write : Bool} {u : ThreadId} {x : Word} {n : Nat} (lt : i < n)
    (actor : r.actor? i = some u) (h : r.Guarded i write u x n) (unwiped : ¬ r.Wipes n x)
    (silent : ∀ race ∈ r.races n, race.second.addr ≠ x) : r.Guarded i write u x (n + 1) := by
  rcases r.shadow_succ n x with ⟨write', tid, pc, size, t, processed, _⟩ | ⟨wipes, _⟩ | ⟨_, same⟩
  · have passed := processed.passed unlimited heard silent
    have epoch : t.clock.epoch tid = t.epoch := by rw [Thread.epoch, processed.tid_eq]
    have touches := processed.touches
    generalize hs : (r.state (n + 1)).history x = h' at passed
    cases passed with
    | rereads | rewrites => exact h.of_same hs
    | reads observed =>
      cases h with
      | write w kept covers => exact .write w (hs ▸ kept) (covers.mono (Nat.le_succ n))
      | read isRead a kept own covers =>
        by_cases same : a.tid = tid
        · have before := happensBefore_of_actor lt actor (own ▸ same ▸ touches.actor)
          have added := Readers.mem_add_self ((r.state n).history x).reads
            ⟨t.clock.epoch tid, false, ⟨pc, size, t.stack⟩⟩
          exact .read isRead ⟨t.clock.epoch tid, false, ⟨pc, size, t.stack⟩⟩ (hs ▸ added)
            (same.symm.trans own) (covers_of_epoch unsaturated touches epoch before)
        · exact .read isRead a (hs ▸ Readers.mem_add_of_ne kept same) own
            (covers.mono (Nat.le_succ n))
    | writes observed read =>
      have before : r.HappensBefore i n := by
        cases h with
        | write w kept covers => exact covers n (Nat.le_refl n) tid t touches (observed w kept)
        | read isRead a kept own covers =>
          by_cases same : a.tid = tid
          · exact happensBefore_of_actor lt actor (own ▸ same ▸ touches.actor)
          · exact covers n (Nat.le_refl n) tid t touches (read a kept same)
      exact .write _ (by rw [hs]) (covers_of_epoch unsaturated touches epoch before)
  · exact absurd wipes unwiped
  · exact h.of_same (history_eq_of_shadow same)

include unsaturated unlimited heard in
/-- A later conflicting access of another thread that passes its check comes after what is
covered. -/
theorem Guarded.happensBefore {i j : Nat} {write write' : Bool} {u tid : ThreadId}
    {pc x size : Word} {t : Thread} (h : r.Guarded i write u x j)
    (second : r.Processed j write' tid pc x size t) (other : u ≠ tid)
    (conflict : write = true ∨ write' = true) (silent : r.Silent (j + 1) x) :
    r.HappensBefore i j := by
  have passed := second.passed unlimited heard silent.no_race
  have touches := second.touches
  have epoch : t.clock.epoch tid = t.epoch := by rw [Thread.epoch, second.tid_eq]
  have ordered {w a : Access} := kept_ordered unsaturated unlimited heard (w := w) (a := a)
    (silent.of_succ (second.not_wipes x))
  generalize (r.state (j + 1)).history x = h' at passed
  cases passed with
  | rereads b kept same =>
    cases h with
    | read isRead => simp [isRead] at conflict
    | write w written covers =>
      -- The write was not checked now, but it was when the kept read was made.
      obtain ⟨m, k, hmk, hkj, recorded, recorded', before⟩ := ordered written kept
      obtain ⟨tw, touchesW, epochW⟩ := recorded.touches
      obtain ⟨tb, touchesB, _⟩ := recorded'.touches
      have own : b.tid = tid := by rw [Access.tid, same]; rfl
      have after := before.trans (happensBefore_of_actor hkj touchesB.actor (own ▸ touches.actor))
      have observed := observed_of_happensBefore (Nat.lt_trans hmk hkj) touchesW touches after
      exact covers j (Nat.le_refl j) tid t touches (epochW ▸ observed)
  | reads observed =>
    cases h with
    | read isRead => simp [isRead] at conflict
    | write w written covers => exact covers j (Nat.le_refl j) tid t touches (observed w written)
  | rewrites w written same =>
    cases h with
    | write w' written' covers =>
      obtain rfl : w = w' := Option.some.inj (written.symm.trans written')
      have observed : w.epoch.observedBy t.clock = true := by
        rw [same, epoch]
        exact observed_self t
      exact covers j (Nat.le_refl j) tid t touches observed
    | read isRead a kept own covers =>
      -- The reader came after the write and would have known the writer's present.
      obtain ⟨m, k, hmk, hkj, recorded, recorded', before⟩ := ordered written kept
      obtain ⟨tw, touchesW, epochW⟩ := recorded.touches
      obtain ⟨ta, touchesA, _⟩ := recorded'.touches
      have known := observed_of_happensBefore hmk touchesW touchesA before
      have unknown := present_unknown unsaturated hkj touchesA touches (own ▸ other)
      rw [epochW, same, epoch, unknown] at known
      cases known
  | writes observed read =>
    cases h with
    | write w written covers => exact covers j (Nat.le_refl j) tid t touches (observed w written)
    | read isRead a kept own covers =>
      exact covers j (Nat.le_refl j) tid t touches (read a kept (own ▸ other))

end

/-- **No racy location goes unreported**: when all locations are tracked and no thread's logical
time ends, of two accesses to `x` by different threads, at least one of them a write, since the
last tracked allocation around `x`, one happens before the other, or a race at `x` has been
reported after that allocation and no later than the second access. -/
theorem racy_location_reported (unsaturated : r.Unsaturated)
    (unlimited : r.start.config.maxLocations = 0) (heard : r.start.heard = true) {x : Word}
    (hx : x ≠ Word.top) {i j : Nat} {write write' : Bool} {u tid : ThreadId}
    {pc pc' size size' : Word} {a t : Thread} (lt : i < j)
    (first : r.Processed i write u pc x size a) (second : r.Processed j write' tid pc' x size' t)
    (other : u ≠ tid) (conflict : write = true ∨ write' = true)
    (since : ∀ k, i < k → k < j → ¬ r.Resets k x) (unordered : ¬ r.HappensBefore i j) :
    ∃ k ≤ j, (∀ m < j, r.Resets m x → m < k) ∧ ∃ race ∈ r.races k, race.second.addr = x := by
  refine Classical.byContradiction fun unreported => ?_
  have silent : r.Silent (j + 1) x := by
    intro k hk h
    obtain ⟨race, delivered, addr⟩ := h
    refine Classical.byContradiction fun kept => unreported ⟨k, Nat.lt_succ_iff.mp hk, ?_, race,
      delivered, addr⟩
    intro m hm resets
    have wipes := (wipes_iff_resets hx).mpr resets
    rcases Nat.lt_trichotomy m k with less | rfl | more
    · exact less
    · obtain ⟨_, _, _, _, _, _, processed, _⟩ := mem_races delivered
      exact absurd wipes (processed.not_wipes x)
    · exact absurd ⟨m, more, Nat.lt_succ_of_lt hm, wipes⟩ kept
  have unwiped : ∀ n, i ≤ n → n ≤ j → ¬ r.Wipes n x := by
    intro n hin hnj wipes
    rcases Nat.lt_or_eq_of_le hin with hin | rfl
    · rcases Nat.lt_or_eq_of_le hnj with hnj | rfl
      · exact since n hin hnj ((wipes_iff_resets hx).mp wipes)
      · exact second.not_wipes x wipes
    · exact first.not_wipes x wipes
  have quiet : ∀ n, i ≤ n → n ≤ j → ∀ race ∈ r.races n, race.second.addr ≠ x := by
    intro n hin hnj race delivered addr
    obtain ⟨m, hnm, hm, wipes⟩ := silent n (Nat.lt_succ_of_le hnj) ⟨race, delivered, addr⟩
    exact unwiped m (by omega) (by omega) wipes
  have guarded : ∀ n, i + 1 ≤ n → n ≤ j → r.Guarded i write u x n := by
    intro n hin
    induction hin with
    | refl =>
      have quiet := quiet i (Nat.le_refl i) (Nat.le_of_lt lt)
      exact fun _ => first.guarded unsaturated unlimited heard quiet
    | @step n hin ih =>
      intro hnj
      have hin : i < n := hin
      exact (ih (by omega)).succ unsaturated unlimited heard hin first.touches.actor
        (unwiped n (by omega) (by omega)) (quiet n (by omega) (by omega))
  exact unordered ((guarded j lt (Nat.le_refl j)).happensBefore unsaturated unlimited heard second
    other conflict silent)

theorem racy_location_reported_contended : ∃ a t, contended.Unsaturated ∧
    contended.start.config.maxLocations = 0 ∧ contended.start.heard = true ∧ 100 ≠ Word.top ∧
    5 < 7 ∧ contended.Processed 5 true 1 2 100 8 a ∧ contended.Processed 7 false 0 3 100 4 t ∧
    (1 : ThreadId) ≠ 0 ∧ (∀ k, 5 < k → k < 7 → ¬ contended.Resets k 100) ∧
    ¬ contended.HappensBefore 5 7 ∧
    ∃ k ≤ 7, (∀ m < 7, contended.Resets m 100 → m < k) ∧
      ∃ race ∈ contended.races k, race.second.addr = 100 := by
  have writer : ((contended.state 6).tables.threads[(1 : ThreadId)]?).isSome := by decide +kernel
  have reader : ((contended.state 8).tables.threads[(0 : ThreadId)]?).isSome := by decide +kernel
  obtain ⟨a, ha⟩ := Option.isSome_iff_exists.mp writer
  obtain ⟨t, ht⟩ := Option.isSome_iff_exists.mp reader
  have first : contended.Processed 5 true 1 2 100 8 a := ⟨rfl, ha⟩
  have second : contended.Processed 7 false 0 3 100 4 t := ⟨rfl, ht⟩
  have unsaturated : contended.Unsaturated := unsaturated_of_length (by decide)
  have since : ∀ k, 5 < k → k < 7 → ¬ contended.Resets k 100 := by
    intro k hk hk' h
    obtain ⟨_, tid, pc, addr, size, event, _⟩ := h
    obtain rfl : k = 6 := by omega
    simp [contended, Session.default] at event
  have unordered : ¬ contended.HappensBefore 5 7 := fun before => by
    have observed := observed_of_happensBefore (by decide) first.touches second.touches before
    have unknown : (((contended.state 6).tables.threads[(1 : ThreadId)]?).any fun a =>
        ((contended.state 8).tables.threads[(0 : ThreadId)]?).any fun t =>
          a.epoch.observedBy t.clock) = false := by decide +kernel
    simp [ha, ht, observed] at unknown
  exact ⟨a, t, unsaturated, rfl, rfl, by decide, by decide, first, second, by decide, since,
    unordered, racy_location_reported unsaturated rfl rfl (by decide) (by decide) first second
      (by decide) (.inl rfl) since unordered⟩

/-- Two writes that only the life of a child that does nothing puts in order are not reported. -/
theorem handoverWrites_unreported : ∃ a t, handoverWrites.Unsaturated ∧
    (∀ k, handoverWrites.start.config.limit k = 0) ∧
    handoverWrites.start.config.maxFreed = 0 ∧ handoverWrites.start.heard = true ∧
    handoverWrites.Processed 0 true 1 1 256 8 a ∧ handoverWrites.Processed 3 true 3 2 256 8 t ∧
    (∀ k, ¬ handoverWrites.Resets k 256) ∧
    ¬ Relation.ReflTransGen handoverWrites.Direct 0 3 ∧
    ¬ Relation.ReflTransGen handoverWrites.Direct 3 0 ∧ ∀ k, handoverWrites.races k = [] := by
  have unsaturated : handoverWrites.Unsaturated := unsaturated_of_length (by decide)
  have writer : ((handoverWrites.state 1).tables.threads[(1 : ThreadId)]?).isSome := by
    decide +kernel
  have later : ((handoverWrites.state 4).tables.threads[(3 : ThreadId)]?).isSome := by
    decide +kernel
  obtain ⟨a, ha⟩ := Option.isSome_iff_exists.mp writer
  obtain ⟨t, ht⟩ := Option.isSome_iff_exists.mp later
  have unlimited : ∀ k, handoverWrites.start.config.limit k = 0 := fun k => by cases k <;> rfl
  have kept : ∀ k, ¬ handoverWrites.Resets k 256 := fun k resets => by
    obtain ⟨_, _, _, _, _, event, _⟩ := resets
    have made := List.mem_of_getElem? event
    simp [handoverWrites, handover, Session.under] at made
  have back : ¬ Relation.ReflTransGen handoverWrites.Direct 3 0 := fun path => by
    have before : handoverWrites.HappensBefore 3 0 :=
      Relation.ReflTransGen.mono (fun _ _ => Edge.direct) _ _ path
    exact absurd before.le (by decide)
  have silent : ∀ k, handoverWrites.races k = [] := by
    rintro (_ | _ | _ | _ | k)
    iterate 4 decide +kernel
    rfl
  exact ⟨a, t, unsaturated, unlimited, rfl, rfl, ⟨rfl, ha⟩, ⟨rfl, ht⟩, kept,
    handoverWrites_parted.2, back, silent⟩

end RaceMonitor.Session
