import RaceMonitor.Proofs.Order.Turns

/-! Clocks tell the order of events.

A thread's clock has observed the epoch of an earlier access or free just when that event
happens before. To one side this holds in every session (`observed_of_happensBefore`). To the
other it needs that no thread has come to the end of its logical time, where distinct epochs
look alike (`observedBy_iff_happensBefore`).

Both follow from one comparison: where an epoch is known and where its event has got to obey the
same recursion over the session, `Board.known_turn` and `Session.past_succ`. -/
namespace RaceMonitor

namespace Board

variable {a : Option ThreadId} {l : Link → Prop} {b b' : Board}

theorem Admits.retired (step : Admits a b b') : b'.retired = b.retired := by
  cases step <;> rfl

theorem Turn.retired (step : Turn a l b b') {t : ThreadId} (h : b.retired t) : b'.retired t := by
  cases step with
  | finish | join => exact .inr h
  | idle | fork | publish | acquire | await => exact h

/-- An event that leaves a mark with no retired thread takes in from none. -/
theorem Turn.not_retired (sound : b.Sound none) (step : Turn a l b b') {p : Place}
    (gives : Gives a l p) (hp : ∀ t, p = .thread t → ¬ b'.retired t) {t : ThreadId}
    (takes : Takes a l (.thread t)) : ¬ b.retired t := by
  rw [gives_iff] at gives
  rw [takes_iff] at takes
  -- Only a thread that makes no link may be retired; its mark is with itself.
  have alone (none : ∀ k, ¬ l k) : ¬ b'.retired t := by
    simp only [none, false_and, exists_false, or_false, Place.thread.injEq] at gives takes
    obtain ⟨u, hu, rfl⟩ := gives
    obtain ⟨u', hu', rfl⟩ := takes
    exact hp t (by rw [Option.some.inj (hu.symm.trans hu')])
  cases step with
  | idle none => exact alone none
  | finish u live none => exact fun hr => alone none (.inr hr)
  | fork x y actor live unborn only =>
    simp only [only, actor, reduceCtorEq, false_and, exists_false, or_false, Option.some.injEq,
      Place.thread.injEq, exists_eq_left'] at takes
    exact takes ▸ sound.apart x live
  | join x y actor live child ne only =>
    simp only [only, actor, Link.join.injEq, Option.some.injEq, Place.thread.injEq,
      exists_eq_left', reduceCtorEq, and_false, exists_false, or_false] at takes
    rcases takes with rfl | ⟨u, v, ⟨rfl, rfl⟩, rfl⟩
    · exact sound.apart _ live
    · exact sound.apart _ child
  | publish u ch actor live only =>
    simp only [only, actor, reduceCtorEq, false_and, exists_false, or_false, Option.some.injEq,
      Place.thread.injEq, exists_eq_left'] at takes
    exact takes ▸ sound.apart u live
  | acquire u ch actor live only =>
    simp only [only, actor, reduceCtorEq, false_and, and_false, exists_false, or_false,
      Option.some.injEq, Place.thread.injEq, exists_eq_left'] at takes
    exact takes ▸ sound.apart u live
  | await u ch actor live only =>
    simp only [only, actor, reduceCtorEq, false_and, and_false, exists_false, or_false,
      Option.some.injEq, Place.thread.injEq, exists_eq_left'] at takes
    exact takes ▸ sound.apart u live

end Board

namespace Session

variable {r : Session}

/-- The clocks that event `n` meets. -/
def board (r : Session) (n : Nat) : Board := (r.state n).tables.board

theorem quiet (r : Session) : r.host.Quiet := fun _ _ => rfl

theorem start_tidy (r : Session) : r.start.tables.Tidy := by
  rw [r.fresh]
  exact .empty _ _

theorem start_sound (r : Session) : r.start.tables.board.Sound none := by
  rw [r.fresh]
  exact Tables.empty_sound _ _

/-- The clocks are in order at every moment. -/
theorem tidy_sound (r : Session) (n : Nat) :
    (r.state n).tables.Tidy ∧ (r.board n).Sound none := by
  refine r.invariant (p := fun s => s.tables.Tidy ∧ s.tables.board.Sound none)
    ⟨r.start_tidy, r.start_sound⟩ (fun n e _ ⟨tidy, sound⟩ => ?_) n
  obtain ⟨tidy', b, admits, turn⟩ := State.turned r.quiet tidy sound e
  exact ⟨tidy', (sound.admits admits).turn turn⟩

theorem tidy (r : Session) (n : Nat) : (r.state n).tables.Tidy := (r.tidy_sound n).1

theorem sound (r : Session) (n : Nat) : (r.board n).Sound none := (r.tidy_sound n).2

/-- Every event lets its thread enter and takes a turn. -/
theorem turned (r : Session) (n : Nat) : ∃ b, Board.Admits (r.actor? n) (r.board n) b ∧
    Board.Turn (r.actor? n) (r.Links n) b (r.board (n + 1)) := by
  cases h : r.events[n]? with
  | none =>
    have hb : r.board (n + 1) = r.board n := by rw [board, state_succ_of_none h, board]
    rw [hb]
    refine ⟨_, .known, .idle fun k hk => ?_⟩
    obtain ⟨e, he, _⟩ := hk
    rw [h] at he
    cases he
  | some e =>
    obtain ⟨b, admits, turn⟩ := (State.turned r.quiet (r.tidy n) (r.sound n) e).turn
    have hactor : r.actor? n = e.actor? := by rw [actor?, h]; rfl
    have hlinks : r.Links n = (r.state n).Makes r.host e := by
      funext k
      refine propext ⟨fun ⟨e', he', hk⟩ => ?_, fun hk => ⟨e, h, hk⟩⟩
      rw [h] at he'
      exact Option.some.inj he' ▸ hk
    rw [hactor, hlinks]
    refine ⟨b, admits, ?_⟩
    rw [board, state_succ h]
    exact turn

/-! ### One epoch over a session -/

/-- Event `i` is made by the tracked thread `u` and makes no link. -/
structure Plain (r : Session) (i : Nat) (u : ThreadId) : Prop where
  actor : r.actor? i = some u
  alone : ∀ k, ¬ r.Links i k
  live : (r.board (i + 1)).live u

/-- The present of the thread at event `i`. -/
def present (r : Session) (i : Nat) (u : ThreadId) : Nat := (r.board (i + 1)).known (.thread u) u

/-- Nobody has retired at a place. -/
def Vacant (r : Session) (n : Nat) (p : Place) : Prop :=
  ∀ t, p = .thread t → ¬ (r.board n).retired t

/-- A thread that has retired does not come back. -/
theorem retired_of_le {n m : Nat} (h : n ≤ m) {t : ThreadId} (retired : (r.board n).retired t) :
    (r.board m).retired t := by
  induction h with
  | refl => exact retired
  | @step m h ih =>
    obtain ⟨b, admits, turn⟩ := r.turned m
    exact turn.retired (by rwa [admits.retired])

theorem Vacant.of_succ {n : Nat} {p : Place} (h : r.Vacant (n + 1) p) : r.Vacant n p :=
  fun t ht hr => h t ht (retired_of_le (Nat.le_succ n) hr)

theorem vacant_of_live {n : Nat} {t : ThreadId} (h : (r.board n).live t) :
    r.Vacant n (.thread t) := by
  intro u hu
  cases hu
  exact (r.sound n).apart t h

theorem Vacant.of_takes {n : Nat} {p q : Place} (h : r.Vacant (n + 1) p)
    (gives : Gives (r.actor? n) (r.Links n) p) (takes : Takes (r.actor? n) (r.Links n) q) :
    r.Vacant n q := by
  intro t same hr
  obtain rfl := same
  obtain ⟨b, admits, turn⟩ := r.turned n
  exact turn.not_retired ((r.sound n).admits admits) gives h takes (by rwa [admits.retired])

/-- A live thread has reached its present, whatever becomes of it. -/
theorem elapsed {i : Nat} {u : ThreadId} (live : (r.board i).live u) {n : Nat} (hn : i ≤ n) :
    (r.board n).Elapsed u ((r.board i).known (.thread u) u) := by
  induction hn with
  | refl => exact ⟨(r.sound i).started u live, fun hu => hu.1 live, fun _ => Nat.le_refl _⟩
  | @step n hn ih =>
    obtain ⟨b, admits, turn⟩ := r.turned n
    exact (ih.admits admits).turn ((r.sound n).admits admits) turn

theorem Plain.elapsed {i : Nat} {u : ThreadId} (h : r.Plain i u) {n : Nat} (hn : i + 1 ≤ n) :
    (r.board n).Elapsed u (r.present i u) :=
  Session.elapsed h.live hn

/-- How the epoch of event `i` spreads with event `n`. -/
theorem Plain.known_succ {i : Nat} {u : ThreadId} (h : r.Plain i u) {n : Nat} (hn : i + 1 ≤ n)
    {p : Place} (hp : r.Vacant (n + 1) p) :
    r.present i u ≤ (r.board (n + 1)).known p u ↔ r.present i u ≤ (r.board n).known p u ∨
      (Gives (r.actor? n) (r.Links n) p ∧
        ∃ q, Takes (r.actor? n) (r.Links n) q ∧ r.present i u ≤ (r.board n).known q u) := by
  obtain ⟨b, admits, turn⟩ := r.turned n
  have known := Board.known_admits (h.elapsed hn) admits
  rw [Board.known_turn ((r.sound n).admits admits) ((h.elapsed hn).admits admits) turn hp]
  simp only [known]

/-- Where event `i` has got to, its epoch is known. -/
theorem Plain.known_of_past {i : Nat} {u : ThreadId} (h : r.Plain i u) {n : Nat} (hn : i + 1 ≤ n)
    {p : Place} (hp : r.Vacant n p) (past : r.Past n p i) :
    r.present i u ≤ (r.board n).known p u := by
  induction hn generalizing p with
  | refl =>
    rw [past_self h.actor h.alone] at past
    exact past ▸ Nat.le_refl _
  | @step n hn ih =>
    rw [h.known_succ hn hp]
    rcases (past_succ hn p).mp past with past | ⟨gives, q, takes, past⟩
    · exact .inl (ih hp.of_succ past)
    · exact .inr ⟨gives, q, takes, ih (hp.of_takes gives takes) past⟩

/-- Before logical time ends, an epoch is known nowhere else. -/
theorem Plain.past_of_known {i : Nat} {u : ThreadId} (h : r.Plain i u)
    (early : r.present i u ≠ Tick.limit) {n : Nat} (hn : i + 1 ≤ n) {p : Place}
    (hp : r.Vacant n p) (known : r.present i u ≤ (r.board n).known p u) : r.Past n p i := by
  induction hn generalizing p with
  | refl =>
    rw [past_self h.actor h.alone]
    refine Classical.byContradiction fun hne => ?_
    cases (r.sound (i + 1)).alone p u h.live (by simp) hne with
    | inl lt => exact absurd known (Nat.not_le.mpr lt)
    | inr last => exact early last
  | @step n hn ih =>
    rw [past_succ hn]
    rcases (h.known_succ hn hp).mp known with known | ⟨gives, q, takes, known⟩
    · exact .inl (ih hp.of_succ known)
    · exact .inr ⟨gives, q, takes, ih (hp.of_takes gives takes) known⟩

/-! ### Accesses and frees -/

/-- No thread comes to the end of its logical time. -/
def Unsaturated (r : Session) : Prop :=
  ∀ (n : Nat) (tid : ThreadId) (t : Thread), (r.state n).tables.threads[tid]? = some t →
    t.clock.get tid ≠ Tick.last

theorem Touches.actor {i : Nat} {tid : ThreadId} {t : Thread} (h : r.Touches i tid t) :
    r.actor? i = some tid := by
  obtain ⟨e, he, hm⟩ := h.event
  rw [actor?, he]
  exact Event.actor_of_memory hm

theorem Touches.plain {i : Nat} {tid : ThreadId} {t : Thread} (h : r.Touches i tid t) :
    r.Plain i tid where
  actor := h.actor
  alone k := by
    intro given
    obtain ⟨e', he', hk⟩ := given
    obtain ⟨e, he, hm⟩ := h.event
    rw [he] at he'
    cases he'
    cases hk <;> cases hm
  live := Table.mem_iff_exists.mpr ⟨t, h.tracked⟩

/-- What a clock on the board knows. -/
theorem known_of_tracked {n : Nat} {tid : ThreadId} {t : Thread}
    (h : (r.state n).tables.threads[tid]? = some t) (u : ThreadId) :
    (r.board n).known (.thread tid) u = (t.clock.get u).toNat := by
  simp only [board, Tables.board, Tables.clockAt_thread h]

theorem Touches.present {i : Nat} {tid : ThreadId} {t : Thread} (h : r.Touches i tid t) :
    r.present i tid = t.epoch.clock.toNat := by
  have htid := (r.tidy (i + 1)).keyed tid t h.tracked
  rw [Session.present, known_of_tracked h.tracked]
  simp only [Thread.epoch, VectorClock.epoch, htid]

theorem Touches.observedBy_iff {i n : Nat} {u tid : ThreadId} {a t : Thread}
    (h : r.Touches i u a) (tracked : (r.state n).tables.threads[tid]? = some t) :
    a.epoch.observedBy t.clock = true ↔ r.present i u ≤ (r.board n).known (.thread tid) u := by
  rw [Epoch.observedBy_iff, known_of_tracked tracked, h.present]
  have htid : a.epoch.tid = u := (r.tidy (i + 1)).keyed u a h.tracked
  rw [htid]

/-! ### How long logical time lasts -/

/-- Each event advances one thread's time by one, if any. -/
theorem within (r : Session) (n : Nat) : (r.board n).Within (n + 1) := by
  induction n with
  | zero =>
    intro p u
    have hzero : (r.board 0).known p u = 0 := by
      show ((r.start.tables.clockAt p).get u).toNat = 0
      rw [r.fresh]
      rcases p with t | lock | signal <;> simp [Tables.clockAt, Tables.empty]
    omega
  | succ n ih =>
    obtain ⟨b, admits, turn⟩ := r.turned n
    exact (ih.admits (Nat.le_add_left 1 n) admits).turn (Nat.le_add_left 1 n) turn

theorem state_of_length_le {n : Nat} (h : r.events.length ≤ n) :
    r.state n = r.state r.events.length := by
  unfold state
  rw [List.take_of_length_le h, List.take_length]

/-- A session of less than 2^32 - 2 events does not come to the end of logical time. -/
theorem unsaturated_of_length (h : r.events.length + 1 < Tick.limit) : r.Unsaturated := by
  intro n tid t tracked last
  have hknown := known_of_tracked tracked tid
  rw [last] at hknown
  have hlimit : Tick.last.toNat = Tick.limit := rfl
  cases Nat.le_total n r.events.length with
  | inl hn =>
    have := r.within n (.thread tid) tid
    omega
  | inr hn =>
    have := r.within r.events.length (.thread tid) tid
    rw [board, state_of_length_le hn] at hknown
    rw [board] at this
    omega

/-! ### Both ways -/

/-- **What happens before has been observed**, in every session. -/
theorem observed_of_happensBefore {i j : Nat} {u tid : ThreadId} {a t : Thread} (lt : i < j)
    (first : r.Touches i u a) (second : r.Touches j tid t) (before : r.HappensBefore i j) :
    a.epoch.observedBy t.clock = true := by
  rw [first.observedBy_iff second.tracked]
  refine first.plain.known_of_past (Nat.succ_le_succ (Nat.le_of_lt lt))
    (vacant_of_live second.plain.live) ?_
  exact (past_succ_actor lt second.actor).mpr before

/-- What has been observed happens before, as long as no thread's logical time ends. -/
theorem happensBefore_of_observed (unsaturated : r.Unsaturated) {i j : Nat} {u tid : ThreadId}
    {a t : Thread} (lt : i < j) (first : r.Touches i u a) (second : r.Touches j tid t)
    (observed : a.epoch.observedBy t.clock = true) : r.HappensBefore i j := by
  rw [first.observedBy_iff second.tracked] at observed
  have early : r.present i u ≠ Tick.limit := fun he => by
    have hknown := known_of_tracked first.tracked u
    exact unsaturated (i + 1) u a first.tracked (UInt32.toNat_inj.mp (hknown.symm.trans he))
  exact (past_succ_actor lt second.actor).mp (first.plain.past_of_known early
    (Nat.succ_le_succ (Nat.le_of_lt lt)) (vacant_of_live second.plain.live) observed)

/-- **Clocks tell the order of events**: as long as no thread's logical time ends, a thread has
observed the epoch of an earlier access or free just when that event happens before. -/
theorem observedBy_iff_happensBefore (unsaturated : r.Unsaturated) {i j : Nat}
    {u tid : ThreadId} {a t : Thread} (lt : i < j) (first : r.Touches i u a)
    (second : r.Touches j tid t) :
    a.epoch.observedBy t.clock = true ↔ r.HappensBefore i j :=
  ⟨happensBefore_of_observed unsaturated lt first second, observed_of_happensBefore lt first second⟩

/-- Thread 1 is forked and writes under a lock; its parent takes the lock next and signals to
thread 2, which reads. -/
def relayed : Session :=
  .default [.write 0 1 100 8, .fork 0 1, .acquire 1 7 false true, .write 1 2 200 8,
    .release 1 7 true, .acquire 0 7 false true, .happensBefore 0 9, .happensAfter 2 9,
    .read 2 3 200 8]

theorem observedBy_iff_happensBefore_relayed :
    relayed.Unsaturated ∧ 3 < 8 ∧ ∃ a t, relayed.Touches 3 1 a ∧ relayed.Touches 8 2 t ∧
      (a.epoch.observedBy t.clock = true ↔ relayed.HappensBefore 3 8) := by
  have unsaturated : relayed.Unsaturated := unsaturated_of_length (by decide)
  have writer : ((relayed.state 4).tables.threads[(1 : ThreadId)]?).isSome := by decide +kernel
  have reader : ((relayed.state 9).tables.threads[(2 : ThreadId)]?).isSome := by decide +kernel
  obtain ⟨a, ha⟩ := Option.isSome_iff_exists.mp writer
  obtain ⟨t, ht⟩ := Option.isSome_iff_exists.mp reader
  have first : relayed.Touches 3 1 a := ⟨⟨_, rfl, rfl⟩, ha⟩
  have second : relayed.Touches 8 2 t := ⟨⟨_, rfl, rfl⟩, ht⟩
  exact ⟨unsaturated, by decide, a, t, first, second,
    observedBy_iff_happensBefore unsaturated (by decide) first second⟩

/-- Without the life of a child that does nothing, clocks know more than the order says. -/
theorem handoverWrites_observed : ∃ a t, handoverWrites.Unsaturated ∧ handoverWrites.Touches 0 1 a ∧
    handoverWrites.Touches 3 3 t ∧ a.epoch.observedBy t.clock = true ∧
    ¬ Relation.ReflTransGen handoverWrites.Direct 0 3 := by
  have unsaturated : handoverWrites.Unsaturated := unsaturated_of_length (by decide)
  have writer : ((handoverWrites.state 1).tables.threads[(1 : ThreadId)]?).isSome := by
    decide +kernel
  have later : ((handoverWrites.state 4).tables.threads[(3 : ThreadId)]?).isSome := by
    decide +kernel
  obtain ⟨a, ha⟩ := Option.isSome_iff_exists.mp writer
  obtain ⟨t, ht⟩ := Option.isSome_iff_exists.mp later
  have first : handoverWrites.Touches 0 1 a := ⟨⟨_, rfl, rfl⟩, ha⟩
  have second : handoverWrites.Touches 3 3 t := ⟨⟨_, rfl, rfl⟩, ht⟩
  obtain ⟨before, parted⟩ := handoverWrites_parted
  exact ⟨a, t, unsaturated, first, second,
    observed_of_happensBefore (by decide) first second before, parted⟩

end Session

end RaceMonitor
