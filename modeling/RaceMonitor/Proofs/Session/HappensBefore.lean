import Mathlib.Logic.Relation
import RaceMonitor.Proofs.Session.Basic

/-! Which events of a session come before which others.

The order is generated by the events' positions and by what the engine accepted, never by
clocks: a thread's events in their order; all that a parent did before a fork, before the child;
all that a child did, before what follows a join of it; the outermost release of a lock, before
every later outermost acquire of that lock; a `happensBefore`, before every later `happensAfter`
of the same id (`Direct`). A child that does nothing has a beginning and an end all the same, so
its fork comes before a join of it (`Edge`). That does not follow from the rest: where another
thread than the parent joins the child, no event of the child ties the two (`handover_parted`).

For the proofs the rules are read as one: an event leaves its mark at some places, takes in what
it finds at others, and comes before a later event that takes in what is at a place where it
left its mark (`edge_iff`). -/
namespace RaceMonitor

/-- Neither an anomaly nor dropped as untracked. -/
def State.Accepts (s : State) (h : Host) (e : Event) : Prop :=
  (s.step h e).1.counters.anomalies = s.counters.anomalies ∧
    (s.step h e).1.counters.untracked = s.counters.untracked

/-- How often `tid` holds a lock. -/
def State.nesting (s : State) (lock : Word) (tid : ThreadId) : UInt32 :=
  (s.tables.locks[lock]?.getD .fresh).depth tid

/-- The event reads, writes, allocates or frees, and `tid` does it. -/
inductive Event.Uses (tid : ThreadId) : Event → Prop where
  | read (pc addr size : Word) : Uses tid (.read tid pc addr size)
  | write (pc addr size : Word) : Uses tid (.write tid pc addr size)
  | alloc (pc addr size : Word) : Uses tid (.alloc tid pc addr size)
  | free (addr : Word) : Uses tid (.free tid addr)

theorem Event.Uses.actor {tid : ThreadId} {e : Event} (uses : e.Uses tid) :
    e.actor? = some tid := by
  cases uses <;> rfl

namespace Session

variable (r : Session)

/-- The thread of event `n`. -/
def actor? (n : Nat) : Option ThreadId := r.events[n]?.bind Event.actor?

/-- Event `n` is `e`, and the engine accepts it. -/
def Accepted (n : Nat) (e : Event) : Prop := r.events[n]? = some e ∧ (r.state n).Accepts r.host e

/-- Event `n` is an outermost acquire: the thread did not hold the lock before. -/
def Acquires (n : Nat) (tid : ThreadId) (lock : Word) : Prop :=
  (∃ recursive isWrite, r.Accepted n (.acquire tid lock recursive isWrite)) ∧
    (r.state n).nesting lock tid = 0

/-- Event `n` is an outermost release: the thread does not hold the lock any more. -/
def Releases (n : Nat) (tid : ThreadId) (lock : Word) : Prop :=
  (∃ isWrite, r.Accepted n (.release tid lock isWrite)) ∧
    (r.state (n + 1)).nesting lock tid = 0

/-- Event `i` comes right before event `j`: the same thread does both, `i` forks the thread that
does `j`, `j` joins the thread that does `i`, or `j` takes in what `i` has left with a lock or
signal. -/
inductive Direct (i j : Nat) : Prop where
  | program (tid : ThreadId) (lt : i < j) (first : r.actor? i = some tid)
      (second : r.actor? j = some tid)
  | fork (parent child : ThreadId) (lt : i < j) (first : r.Accepted i (.fork parent child))
      (second : r.actor? j = some child)
  | join (parent child : ThreadId) (lt : i < j) (first : r.actor? i = some child)
      (second : r.Accepted j (.join parent child))
  | lock (releaser acquirer : ThreadId) (lock : Word) (lt : i < j)
      (first : r.Releases i releaser lock) (second : r.Acquires j acquirer lock)
  | signal (sender waiter : ThreadId) (id : Word) (lt : i < j)
      (first : r.Accepted i (.happensBefore sender id))
      (second : r.Accepted j (.happensAfter waiter id))

/-- Event `i` comes right before event `j`, or `i` begins the life of a thread and `j` ends it. -/
inductive Edge (i j : Nat) : Prop where
  | direct (edge : r.Direct i j)
  | life (parent joiner child : ThreadId) (lt : i < j) (first : r.Accepted i (.fork parent child))
      (second : r.Accepted j (.join joiner child))

/-- The reflexive and transitive closure of the edges. -/
def HappensBefore : Nat → Nat → Prop := Relation.ReflTransGen r.Edge

/-! ### A child that does nothing -/

variable {r}

/-- Where no edge leads across, no path does. -/
theorem parted_of_cut {n : Nat} (cut : ∀ i < n, ∀ j ≥ n, ¬ r.Direct i j) {i j : Nat}
    (before : i < n) (after : n ≤ j) : ¬ Relation.ReflTransGen r.Direct i j := by
  intro path
  have stays : j < n := by
    clear after
    induction path with
    | refl => exact before
    | tail _ edge ih => exact Nat.lt_of_not_le fun beyond => cut _ ih _ beyond edge
  omega

/-- Thread 1 reads, writes, allocates or frees, and then forks thread 2. Thread 2 does nothing, and
it is thread 3 that joins it and goes on. Nothing is limited. -/
def handover (es : List Event) (e : Event) : Session :=
  .under { Config.default with maxFreed := 0 } ((es ++ [.fork 1 2]) ++ [.join 3 2, e])

/-- Without the life of thread 2, nothing that thread 1 has done comes before what thread 3 does. -/
theorem handover_parted {es : List Event} {e : Event} (own : ∀ x ∈ es, x.Uses 1) (last : e.Uses 3)
    {i j : Nat} (before : i ≤ es.length) (after : es.length < j) :
    ¬ Relation.ReflTransGen (handover es e).Direct i j := by
  have earlier {i : Nat} (before : i < es.length + 1) {x : Event}
      (event : (handover es e).events[i]? = some x) : x.Uses 1 ∨ x = .fork 1 2 := by
    rw [handover, Session.under, List.getElem?_append_left (by simpa using before)] at event
    exact (List.mem_append.mp (List.mem_of_getElem? event)).imp (own x) List.mem_singleton.mp
  have later {j : Nat} (after : es.length + 1 ≤ j) {y : Event}
      (event : (handover es e).events[j]? = some y) : y.Uses 3 ∨ y = .join 3 2 := by
    rw [handover, Session.under, List.getElem?_append_right (by simpa using after)] at event
    rcases List.mem_cons.mp (List.mem_of_getElem? event) with rfl | rest
    · exact .inr rfl
    · exact .inl (List.mem_singleton.mp rest ▸ last)
  have first {i : Nat} (before : i < es.length + 1) {tid : ThreadId}
      (actor : (handover es e).actor? i = some tid) : tid = 1 := by
    obtain ⟨x, event, actor⟩ := Option.bind_eq_some_iff.mp actor
    rcases earlier before event with uses | rfl
    · exact Option.some.inj (actor.symm.trans uses.actor)
    · exact Option.some.inj actor.symm
  have second {j : Nat} (after : es.length + 1 ≤ j) {tid : ThreadId}
      (actor : (handover es e).actor? j = some tid) : tid = 3 := by
    obtain ⟨y, event, actor⟩ := Option.bind_eq_some_iff.mp actor
    rcases later after event with uses | rfl
    · exact Option.some.inj (actor.symm.trans uses.actor)
    · exact Option.some.inj actor.symm
  refine parted_of_cut (fun i before j after edge => ?_) (Nat.lt_succ_of_le before) after
  cases edge with
  | program tid _ mine other =>
    exact absurd ((first before mine).symm.trans (second after other)) (by decide)
  | fork p c _ forks actor =>
    rcases earlier before forks.1 with uses | same
    · cases uses
    · cases same
      exact absurd (second after actor) (by decide)
  | join p c _ actor joins =>
    rcases later after joins.1 with uses | same
    · cases uses
    · cases same
      exact absurd (first before actor) (by decide)
  | lock _ _ _ _ releases =>
    obtain ⟨⟨_, event, _⟩, _⟩ := releases
    rcases earlier before event with uses | same
    · cases uses
    · cases same
  | signal _ _ _ _ sends =>
    rcases earlier before sends.1 with uses | same
    · cases uses
    · cases same

/-- Both threads write. -/
def handoverWrites : Session := handover [.write 1 1 256 8] (.write 3 2 256 8)

/-- One write comes before the other, and no path of the first kind of edges says so. -/
theorem handoverWrites_parted : handoverWrites.HappensBefore 0 3 ∧
    ¬ Relation.ReflTransGen handoverWrites.Direct 0 3 := by
  have forks : handoverWrites.Accepted 1 (.fork 1 2) := ⟨rfl, by decide +kernel, by decide +kernel⟩
  have joins : handoverWrites.Accepted 2 (.join 3 2) := ⟨rfl, by decide +kernel, by decide +kernel⟩
  have begins : handoverWrites.Edge 0 1 := .direct (.program 1 (by decide) rfl rfl)
  have lives : handoverWrites.Edge 1 2 := .life 1 3 2 (by decide) forks joins
  have goes_on : handoverWrites.Edge 2 3 := .direct (.program 3 (by decide) rfl rfl)
  refine ⟨.tail (.tail (.single begins) lives) goes_on, ?_⟩
  exact handover_parted (by simpa using .write ..) (.write ..) (by decide) (by decide)

end Session

/-- What threads pass on what they have observed through. -/
inductive Channel where
  | lock (id : Word)
  | signal (id : Word)
  deriving DecidableEq

/-- Where observations are kept. -/
inductive Place where
  | thread (tid : ThreadId)
  | channel (c : Channel)
  deriving DecidableEq

/-- How an accepted event ties its thread to another or to a channel. -/
inductive Link where
  | fork (parent child : ThreadId)
  | join (parent child : ThreadId)
  | publish (tid : ThreadId) (c : Channel)
  | take (tid : ThreadId) (c : Channel)

/-- The link that an event makes, if it is accepted. -/
inductive State.Makes (s : State) (h : Host) : Event → Link → Prop where
  | fork {parent child : ThreadId} (ok : s.Accepts h (.fork parent child)) :
    Makes s h (.fork parent child) (.fork parent child)
  | join {parent child : ThreadId} (ok : s.Accepts h (.join parent child)) :
    Makes s h (.join parent child) (.join parent child)
  | release {tid : ThreadId} {lock : Word} {isWrite : Bool}
    (ok : s.Accepts h (.release tid lock isWrite))
    (outermost : (s.step h (.release tid lock isWrite)).1.nesting lock tid = 0) :
    Makes s h (.release tid lock isWrite) (.publish tid (.lock lock))
  | acquire {tid : ThreadId} {lock : Word} {recursive isWrite : Bool}
    (ok : s.Accepts h (.acquire tid lock recursive isWrite)) (outermost : s.nesting lock tid = 0) :
    Makes s h (.acquire tid lock recursive isWrite) (.take tid (.lock lock))
  | signal {tid : ThreadId} {id : Word} (ok : s.Accepts h (.happensBefore tid id)) :
    Makes s h (.happensBefore tid id) (.publish tid (.signal id))
  | await {tid : ThreadId} {id : Word} (ok : s.Accepts h (.happensAfter tid id)) :
    Makes s h (.happensAfter tid id) (.take tid (.signal id))

/-- The links that event `n` makes. -/
def Session.Links (r : Session) (n : Nat) (k : Link) : Prop :=
  ∃ e, r.events[n]? = some e ∧ (r.state n).Makes r.host e k

/-- Where an event with actor `a` and links `l` leaves its mark. -/
inductive Gives (a : Option ThreadId) (l : Link → Prop) : Place → Prop where
  | self (tid : ThreadId) (h : a = some tid) : Gives a l (.thread tid)
  | child (parent child : ThreadId) (h : l (.fork parent child)) : Gives a l (.thread child)
  | publish (tid : ThreadId) (c : Channel) (h : l (.publish tid c)) : Gives a l (.channel c)

/-- Where an event with actor `a` and links `l` takes in what it finds. -/
inductive Takes (a : Option ThreadId) (l : Link → Prop) : Place → Prop where
  | self (tid : ThreadId) (h : a = some tid) : Takes a l (.thread tid)
  | child (parent child : ThreadId) (h : l (.join parent child)) : Takes a l (.thread child)
  | take (tid : ThreadId) (c : Channel) (h : l (.take tid c)) : Takes a l (.channel c)

namespace Session

variable {r : Session}

theorem links_fork {n : Nat} {parent child : ThreadId} :
    r.Links n (.fork parent child) ↔ r.Accepted n (.fork parent child) := by
  constructor
  · intro given
    obtain ⟨e, he, hm⟩ := given
    cases hm with
    | fork ok => exact ⟨he, ok⟩
  · exact fun h => ⟨_, h.1, .fork h.2⟩

theorem links_join {n : Nat} {parent child : ThreadId} :
    r.Links n (.join parent child) ↔ r.Accepted n (.join parent child) := by
  constructor
  · intro given
    obtain ⟨e, he, hm⟩ := given
    cases hm with
    | join ok => exact ⟨he, ok⟩
  · exact fun h => ⟨_, h.1, .join h.2⟩

theorem links_release {n : Nat} {tid : ThreadId} {lock : Word} :
    r.Links n (.publish tid (.lock lock)) ↔ r.Releases n tid lock := by
  constructor
  · intro h
    obtain ⟨e, he, hm⟩ := h
    cases hm with
    | release ok outermost => exact ⟨⟨_, he, ok⟩, state_succ he ▸ outermost⟩
  · intro h
    obtain ⟨⟨w, he, ok⟩, outermost⟩ := h
    exact ⟨_, he, .release ok (state_succ he ▸ outermost)⟩

theorem links_acquire {n : Nat} {tid : ThreadId} {lock : Word} :
    r.Links n (.take tid (.lock lock)) ↔ r.Acquires n tid lock := by
  constructor
  · intro h
    obtain ⟨e, he, hm⟩ := h
    cases hm with
    | acquire ok outermost => exact ⟨⟨_, _, he, ok⟩, outermost⟩
  · intro h
    obtain ⟨⟨x, w, he, ok⟩, outermost⟩ := h
    exact ⟨_, he, .acquire ok outermost⟩

theorem links_signal {n : Nat} {tid : ThreadId} {id : Word} :
    r.Links n (.publish tid (.signal id)) ↔ r.Accepted n (.happensBefore tid id) := by
  constructor
  · intro given
    obtain ⟨e, he, hm⟩ := given
    cases hm with
    | signal ok => exact ⟨he, ok⟩
  · exact fun h => ⟨_, h.1, .signal h.2⟩

theorem links_await {n : Nat} {tid : ThreadId} {id : Word} :
    r.Links n (.take tid (.signal id)) ↔ r.Accepted n (.happensAfter tid id) := by
  constructor
  · intro given
    obtain ⟨e, he, hm⟩ := given
    cases hm with
    | await ok => exact ⟨he, ok⟩
  · exact fun h => ⟨_, h.1, .await h.2⟩

theorem edge_iff {i j : Nat} : r.Edge i j ↔
    i < j ∧ ∃ p, Gives (r.actor? i) (r.Links i) p ∧ Takes (r.actor? j) (r.Links j) p := by
  constructor
  · rintro (⟨⟨tid, lt, h, k⟩ | ⟨p, c, lt, h, k⟩ | ⟨p, c, lt, h, k⟩ | ⟨t, u, l, lt, h, k⟩ |
      ⟨t, u, id, lt, h, k⟩⟩ | ⟨p, q, c, lt, h, k⟩)
    · exact ⟨lt, _, .self tid h, .self tid k⟩
    · exact ⟨lt, _, .child p c (links_fork.mpr h), .self c k⟩
    · exact ⟨lt, _, .self c h, .child p c (links_join.mpr k)⟩
    · exact ⟨lt, _, .publish t _ (links_release.mpr h), .take u _ (links_acquire.mpr k)⟩
    · exact ⟨lt, _, .publish t _ (links_signal.mpr h), .take u _ (links_await.mpr k)⟩
    · exact ⟨lt, _, .child p c (links_fork.mpr h), .child q c (links_join.mpr k)⟩
  · intro given
    obtain ⟨lt, p, hg, ht⟩ := given
    cases hg with
    | self tid h =>
      cases ht with
      | self _ k => exact .direct (.program tid lt h k)
      | child q _ k => exact .direct (.join q tid lt h (links_join.mp k))
    | child p c h =>
      cases ht with
      | self _ k => exact .direct (.fork p c lt (links_fork.mp h) k)
      | child q _ k => exact .life p q c lt (links_fork.mp h) (links_join.mp k)
    | publish t c h =>
      cases ht with
      | take u _ k =>
        cases c with
        | lock l => exact .direct (.lock t u l lt (links_release.mp h) (links_acquire.mp k))
        | signal id => exact .direct (.signal t u id lt (links_signal.mp h) (links_await.mp k))

theorem Edge.lt {i j : Nat} (h : r.Edge i j) : i < j := (edge_iff.mp h).1

theorem HappensBefore.le {i j : Nat} (h : r.HappensBefore i j) : i ≤ j := by
  induction h with
  | refl => exact Nat.le_refl i
  | tail _ e ih => exact Nat.le_trans ih (Nat.le_of_lt e.lt)

variable (r) in
/-- What is at a place before event `n`: the events that come before one that left its mark
there. -/
def Past (n : Nat) (p : Place) (i : Nat) : Prop :=
  ∃ k < n, r.HappensBefore i k ∧ Gives (r.actor? k) (r.Links k) p

/-- An event comes after those that it finds where it takes in. -/
theorem happensBefore_iff_past {i n : Nat} (lt : i < n) :
    r.HappensBefore i n ↔ ∃ p, Takes (r.actor? n) (r.Links n) p ∧ r.Past n p i := by
  constructor
  · intro h
    rcases Relation.ReflTransGen.cases_tail h with rfl | ⟨k, hik, hkn⟩
    · exact absurd lt (Nat.lt_irrefl _)
    · obtain ⟨hkn, p, hg, ht⟩ := edge_iff.mp hkn
      exact ⟨p, ht, k, hkn, hik, hg⟩
  · intro given
    obtain ⟨p, ht, k, hkn, hik, hg⟩ := given
    exact Relation.ReflTransGen.tail hik (edge_iff.mpr ⟨hkn, p, hg, ht⟩)

/-- An event adds to the places where it leaves its mark what it takes in. -/
theorem past_succ {i n : Nat} (lt : i < n) (p : Place) : r.Past (n + 1) p i ↔
    r.Past n p i ∨ (Gives (r.actor? n) (r.Links n) p ∧
      ∃ q, Takes (r.actor? n) (r.Links n) q ∧ r.Past n q i) := by
  rw [← happensBefore_iff_past lt]
  constructor
  · intro h
    obtain ⟨k, hk, hik, hg⟩ := h
    rcases Nat.lt_succ_iff_lt_or_eq.mp hk with hk | rfl
    · exact .inl ⟨k, hk, hik, hg⟩
    · exact .inr ⟨hg, hik⟩
  · intro h
    rcases h with ⟨k, hk, hik, hg⟩ | ⟨hg, hik⟩
    · exact ⟨k, Nat.lt_succ_of_lt hk, hik, hg⟩
    · exact ⟨n, Nat.lt_succ_self n, hik, hg⟩

/-- An event is at its own place and, unless it makes a link, nowhere else. -/
theorem past_self {i : Nat} {tid : ThreadId} (actor : r.actor? i = some tid)
    (alone : ∀ l, ¬ r.Links i l) (p : Place) : r.Past (i + 1) p i ↔ p = .thread tid := by
  constructor
  · intro given
    obtain ⟨k, hk, hik, hg⟩ := given
    obtain rfl : k = i := Nat.le_antisymm (Nat.lt_succ_iff.mp hk) hik.le
    cases hg with
    | self _ h => rw [Option.some.inj (actor.symm.trans h)]
    | child _ _ h => exact absurd h (alone _)
    | publish _ _ h => exact absurd h (alone _)
  · intro given
    obtain rfl := given
    exact ⟨i, Nat.lt_succ_self i, .refl, .self tid actor⟩

/-- What is with a thread just after an event of that thread is what comes before the event. -/
theorem past_succ_actor {i n : Nat} {tid : ThreadId} (lt : i < n)
    (actor : r.actor? n = some tid) : r.Past (n + 1) (.thread tid) i ↔ r.HappensBefore i n := by
  rw [past_succ lt, ← happensBefore_iff_past lt]
  constructor
  · intro given
    rcases given with h | ⟨_, h⟩
    · exact (happensBefore_iff_past lt).mpr ⟨_, .self tid actor, h⟩
    · exact h
  · exact fun h => .inr ⟨.self tid actor, h⟩

end Session

end RaceMonitor
