import RaceMonitor.Proofs.Engine.Anomalies
import RaceMonitor.Proofs.Engine.Updates

/-! What an event is counted as.

An event is a read, a write or neither, and comes to one race, one anomaly or neither; this is
what it adds to the counters (`Event.Counts`), wherever in a handler they are counted. What it adds
agrees with what it lets out (`State.step_counted`). -/
namespace RaceMonitor

/-! ### Counters one by one -/

namespace Counters

def get (c : Counters) : Count → Word
  | .reads => c.reads
  | .writes => c.writes
  | .sameEpoch => c.sameEpoch
  | .races => c.races
  | .useAfterFree => c.useAfterFree
  | .anomalies => c.anomalies
  | .unmapped => c.unmapped

theorem get_zero (k : Count) : zero.get k = 0 := by
  cases k <;> rfl

theorem get_bump (c : Counters) (i k : Count) :
    (c.bump i).get k = c.get k + if i = k then 1 else 0 := by
  cases i <;> cases k <;> simp [bump, get]

end Counters

/-! ### What is counted along with what is let out -/

/-- From `s`, the counters go up as `counts` says (those of dropped events aside), and races and
anomalies are let out in the same numbers: races to the race callback if there is one, anomalies
to the log, and to the anomaly callback if there is one. -/
structure Counted (s : State) (counts : List Count) (res : State × List Output) : Prop where
  heard : res.1.heard = s.heard
  listening : res.1.listening = s.listening
  counters : ∀ k, res.1.counters.get k = s.counters.get k + UInt64.ofNat (counts.count k)
  races : (races res.2).length = if s.heard then counts.count .races else 0
  uses : (RaceMonitor.races res.2).countP (fun race => race.kind = .useAfterFree) =
    if s.heard then counts.count .useAfterFree else 0
  anomalies : (anomalies res.2).length = counts.count .anomalies
  announced : announced res.2 = if s.listening then RaceMonitor.anomalies res.2 else []

/-- Counting moves the counters and nothing else. -/
theorem State.updates_counts (s : State) (counts : List Count) :
    (s.updates (counts.map .count)).heard = s.heard ∧
    (s.updates (counts.map .count)).listening = s.listening ∧
    ∀ k, (s.updates (counts.map .count)).counters.get k =
      s.counters.get k + UInt64.ofNat (counts.count k) := by
  induction counts generalizing s with
  | nil => exact ⟨rfl, rfl, fun k => by simp [updates]⟩
  | cons c cs ih =>
    obtain ⟨heard, listening, counters⟩ := ih (s.update (.count c))
    refine ⟨heard, listening, fun k => (counters k).trans ?_⟩
    show (s.counters.bump c).get k + _ = _
    rw [Counters.get_bump, List.count_cons, UInt64.add_assoc, UInt64.ofNat_add,
      UInt64.add_comm (UInt64.ofNat _)]
    by_cases same : c = k <;> simp [same]

namespace Counted

variable {s s' s'' : State} {counts counts' : List Count} {out out' : List Output}

/-- Nothing is counted, and nothing let out but notes. -/
theorem plain (heard : s'.heard = s.heard) (listening : s'.listening = s.listening)
    (counters : ∀ k, s'.counters.get k = s.counters.get k) (plain : Plain out) :
    Counted s [] (s', out) where
  heard := heard
  listening := listening
  counters k := by simp [counters k]
  races := by simp [plain.races]
  uses := by simp [plain.races]
  anomalies := by simp [plain.anomalies]
  announced := by simp [plain.announced, plain.anomalies]

theorem refl (s : State) : Counted s [] (s, []) := plain rfl rfl (fun _ => rfl) .nil

theorem trans (first : Counted s counts (s', out)) (second : Counted s' counts' (s'', out')) :
    Counted s (counts ++ counts') (s'', out ++ out') where
  heard := second.heard.trans first.heard
  listening := second.listening.trans first.listening
  counters k := by
    rw [second.counters, first.counters, List.count_append, UInt64.ofNat_add, UInt64.add_assoc]
  races := by
    have two := second.races
    rw [first.heard] at two
    rw [races_append, List.length_append, first.races, two, List.count_append]
    split <;> rfl
  uses := by
    have two := second.uses
    rw [first.heard] at two
    rw [races_append, List.countP_append, first.uses, two, List.count_append]
    split <;> rfl
  anomalies := by
    rw [anomalies_append, List.length_append, first.anomalies, second.anomalies,
      List.count_append]
  announced := by
    have two := second.announced
    rw [first.listening] at two
    rw [announced_append, first.announced, two, anomalies_append]
    split <;> rfl

theorem noting (counted : Counted s counts (s', out)) (notes : Plain out') :
    Counted s counts (s', out ++ out') := by
  have both := counted.trans (plain (s := s') rfl rfl (fun _ => rfl) notes)
  rwa [List.append_nil] at both

theorem putting (counted : Counted s counts (s', out)) (t : Tables) :
    Counted s counts (s'.withTables t, out) :=
  ⟨counted.heard, counted.listening, counted.counters, counted.races, counted.uses,
    counted.anomalies, counted.announced⟩

/-- Dropped events are counted apart. -/
theorem dropping (counted : Counted s counts (s', out)) :
    Counted s counts (s'.countUntracked, out) :=
  ⟨counted.heard, counted.listening, fun k => by rw [← counted.counters k]; cases k <;> rfl,
    counted.races, counted.uses, counted.anomalies, counted.announced⟩

/-! ### Looking up, anomalies and races -/

theorem thread {t : Option Thread} {tid : ThreadId} (met : s.thread tid = (t, s', out)) :
    Counted s [] (s', out) := by
  have noted := State.thread_plain met
  obtain ⟨x, threads, rfl⟩ := State.thread_shape met
  exact plain rfl rfl (fun _ => rfl) noted

theorem location {history : Option History} {addr : Word}
    (looked : s.location addr = (history, s', out)) : Counted s [] (s', out) := by
  have noted := State.location_plain looked
  obtain ⟨x, shadow, rfl⟩ := State.location_shape looked
  exact plain rfl rfl (fun _ => rfl) noted

theorem raiseAnomaly (s : State) (a : Anomaly) : Counted s [.anomalies] (s.raiseAnomaly a) where
  heard := rfl
  listening := rfl
  counters k := by
    show (s.counters.bump .anomalies).get k = _
    rw [Counters.get_bump]
    cases k <;> rfl
  races := by
    unfold State.raiseAnomaly
    cases s.listening <;> cases s.heard <;> rfl
  uses := by
    unfold State.raiseAnomaly
    cases s.listening <;> cases s.heard <;> rfl
  anomalies := by
    rw [State.anomalies_raiseAnomaly]
    rfl
  announced := by
    unfold State.raiseAnomaly
    cases s.listening <;> rfl

/-- A race that was found: it is counted, once more as a use after free if it is one, and told. -/
theorem told (s : State) (race : Race) {counts : List Count} (one : counts.count .races = 1)
    (uses : counts.count .useAfterFree = if race.kind = .useAfterFree then 1 else 0)
    (none : counts.count .anomalies = 0) :
    Counted s counts (s.updates (counts.map .count), race.told s.heard) := by
  obtain ⟨heard, listening, counters⟩ := s.updates_counts counts
  refine ⟨heard, listening, counters, ?_, ?_, ?_, ?_⟩ <;> unfold Race.told
  · rw [one]
    cases s.heard <;> rfl
  · rw [uses]
    cases s.heard <;> by_cases use : race.kind = .useAfterFree <;> simp [use]
  · rw [none]
    cases s.heard <;> rfl
  · cases s.heard <;> cases s.listening <;> rfl

/-- What is counted without a word. -/
theorem untold (s : State) {counts : List Count} (races : counts.count .races = 0)
    (uses : counts.count .useAfterFree = 0) (anomalies : counts.count .anomalies = 0) :
    Counted s counts (s.updates (counts.map .count), []) := by
  obtain ⟨heard, listening, counters⟩ := s.updates_counts counts
  refine ⟨heard, listening, counters, ?_, ?_, anomalies.symm, ?_⟩
  · rw [races]
    split <;> rfl
  · rw [uses]
    split <;> rfl
  · split <;> rfl

end Counted

/-- At most an anomaly is counted. -/
def Orderly (s : State) (res : State × List Output) : Prop :=
  Counted s [] res ∨ Counted s [.anomalies] res

theorem Reports.orderly {s : State} {e : Event} {res : State × List Output}
    (reports : Reports s e res) : Orderly s res := by
  cases reports with
  | plain heard listening counters plain =>
    obtain ⟨n, same⟩ := counters
    exact .inl (.plain heard listening (fun k => by rw [same]; cases k <;> rfl) plain)
  | anomaly a looked plain =>
    subst looked
    have silent : Counted s [] (s.withTables (s.tables.enrolled e.looksUp?), _) :=
      .plain rfl rfl (fun _ => rfl) plain
    exact .inr (silent.trans (.raiseAnomaly _ a))

/-! ### Accesses -/

/-- What the checks of an access come to: nothing, a repetition, a conflict or a use after free. -/
inductive Finding : List Count → Prop where
  | nothing : Finding []
  | repetition : Finding [.sameEpoch]
  | conflict : Finding [.races]
  | use : Finding [.useAfterFree, .races]

namespace State

variable {h : Host} (quiet : h.Quiet) (s : State)

theorem countAccess_counted (isWrite : Bool) (addr : Word) :
    Counted s ((if isWrite then .writes else .reads) ::
      if s.tables.isUnmapped addr then [.unmapped] else []) (s.countAccess isWrite addr, []) := by
  rw [countAccess_eq, countUpdates]
  cases isWrite <;> cases s.tables.isUnmapped addr <;> exact .untold s rfl rfl rfl

include quiet

theorem raiseUse_counted (addr : Word) (hit : UseAfterFree) (current : Access) :
    Counted s [.useAfterFree, .races] (s.raiseUse h addr hit current) := by
  rw [raiseUse_eq quiet]
  exact .told s _ rfl rfl rfl

theorem settleUse_counted (addr : Word) (current : Access) (hit : Option UseAfterFree) :
    ∃ found, Finding found ∧ Counted s found (s.settleUse h addr current hit) := by
  cases hit with
  | none => exact ⟨_, .nothing, .refl s⟩
  | some hit => exact ⟨_, .use, raiseUse_counted quiet s addr hit current⟩

theorem settle_counted (addr : Word) (current : Access) {outcome : Outcome}
    (conflict : ∀ kind prior, outcome = .race kind prior → kind ≠ .useAfterFree) :
    ∃ found, Finding found ∧ Counted s found (s.settle h addr current outcome) := by
  rw [settle_eq quiet]
  cases outcome with
  | sameEpoch => exact ⟨_, .repetition, .untold s rfl rfl rfl⟩
  | ordered => exact ⟨_, .nothing, .untold s rfl rfl rfl⟩
  | race kind prior =>
    rw [conflictReport, List.flatMap_singleton]
    refine ⟨_, .conflict, .told s _ rfl ?_ rfl⟩
    exact (if_neg (conflict kind prior rfl)).symm

theorem accessBy_counted (t : Thread) (isWrite : Bool) (pc addr size : Word) :
    ∃ found, Finding found ∧ Counted s found (s.accessBy h t isWrite pc addr size) := by
  have looking {hit : Option UseAfterFree} {history : Option History} {s₁ s₂ : State}
      {noted : List Output} (used : s.reportUse t addr = (hit, s₁))
      (looked : s₁.location addr = (history, s₂, noted)) : Counted s [] (s₂, noted) := by
    obtain ⟨heap, rfl, _⟩ := reportUse_shape used
    exact ((Counted.refl s).putting _).trans (.location looked)
  have made := s.accessBy_made h t isWrite pc addr size
  generalize s.accessBy h t isWrite pc addr size = res at made
  cases made with
  | @untracked hit _ s₂ _ _ _ used looked told =>
    obtain ⟨found, finding, settled⟩ := settleUse_counted quiet s₂.countUntracked addr
      (t.accessing isWrite pc size) hit
    rw [told] at settled
    exact ⟨found, finding, (looking used looked).dropping.trans settled⟩
  | used used looked checked told =>
    exact ⟨_, .use, ((looking used looked).putting _).trans (told ▸ raiseUse_counted quiet ..)⟩
  | settled used looked checked told =>
    obtain ⟨found, finding, settled⟩ := told ▸ settle_counted quiet _ addr _ fun kind prior race =>
      (History.race_onAccess ((congrArg Prod.fst checked).trans race)).1
    exact ⟨found, finding,
      (((looking used looked).putting _).trans settled).noting (.note _ nofun)⟩

theorem access_counted (isWrite : Bool) (tid : ThreadId) (pc addr size : Word) :
    ∃ found, Finding found ∧ Counted s
      (((if isWrite then .writes else .reads) ::
        if s.tables.isUnmapped addr then [.unmapped] else []) ++ found)
      (s.access h isWrite tid pc addr size) := by
  have counted := s.countAccess_counted isWrite addr
  rcases met : (s.countAccess isWrite addr).thread tid with ⟨_ | t, s₁, noted⟩
  · rw [access_refused met]
    exact ⟨[], .nothing, (counted.trans (.thread met)).dropping⟩
  · obtain ⟨found, finding, settled⟩ := accessBy_counted quiet s₁ t isWrite pc addr size
    have both := (counted.trans (.thread met)).trans settled
    rw [List.append_nil] at both
    rw [access_entered met]
    exact ⟨found, finding, both⟩

end State

/-! ### Events -/

namespace Event

def isRead : Event → Bool
  | read .. => true
  | _ => false

def isWrite : Event → Bool
  | write .. => true
  | _ => false

/-- What an event may add to the counters: an access is counted as what it is, and may repeat or
race, not both; an event is reported at most once. -/
structure Counts (e : Event) (counts : List Count) : Prop where
  reads : counts.count .reads = if e.isRead then 1 else 0
  writes : counts.count .writes = if e.isWrite then 1 else 0
  once : counts.count .sameEpoch + counts.count .races ≤
    counts.count .reads + counts.count .writes
  reported : counts.count .races + counts.count .anomalies ≤ 1

theorem Counts.nothing {e : Event} (read : e.isRead = false) (write : e.isWrite = false) :
    e.Counts [] := by
  constructor <;> simp [read, write]

theorem Counts.anomaly {e : Event} (read : e.isRead = false) (write : e.isWrite = false) :
    e.Counts [.anomalies] := by
  constructor <;> simp [read, write]

theorem isRead_access (w : Bool) (tid : ThreadId) (pc addr size : Word) :
    (Event.access w tid pc addr size).isRead = !w := by
  cases w <;> rfl

theorem isWrite_access (w : Bool) (tid : ThreadId) (pc addr size : Word) :
    (Event.access w tid pc addr size).isWrite = w := by
  cases w <;> rfl

/-- An event is an access, or neither a read nor a write. -/
theorem access_or_other (e : Event) :
    (∃ w tid pc addr size, e = .access w tid pc addr size) ∨
      e.isRead = false ∧ e.isWrite = false := by
  cases e with
  | read tid pc addr size => exact .inl ⟨false, tid, pc, addr, size, rfl⟩
  | write tid pc addr size => exact .inl ⟨true, tid, pc, addr, size, rfl⟩
  | _ => exact .inr ⟨rfl, rfl⟩

theorem Counts.access (w : Bool) (tid : ThreadId) (pc addr size : Word) (outside : Bool)
    {found : List Count} (finding : Finding found) :
    (Event.access w tid pc addr size).Counts
      (((if w then .writes else .reads) :: if outside then [.unmapped] else []) ++ found) := by
  constructor
  · rw [isRead_access]
    cases finding <;> cases w <;> cases outside <;> rfl
  · rw [isWrite_access]
    cases finding <;> cases w <;> cases outside <;> rfl
  · cases finding <;> cases w <;> cases outside <;> decide
  · cases finding <;> cases w <;> cases outside <;> decide

end Event

namespace State

variable {h : Host}

/-- An event that is no access counts at most an anomaly. -/
theorem step_orderly (h : Host) (s : State) {e : Event} (read : e.isRead = false)
    (write : e.isWrite = false) : Orderly s (s.step h e) := by
  refine ((s.performed h e).reports fun w tid pc addr size access => ?_).orderly
  subst access
  cases w <;> contradiction

/-- What an event adds to the counters agrees with what it lets out. -/
theorem step_counted (quiet : h.Quiet) (s : State) (e : Event) :
    ∃ counts, e.Counts counts ∧ Counted s counts (s.step h e) := by
  rcases e.access_or_other with ⟨isWrite, tid, pc, addr, size, rfl⟩ | ⟨read, write⟩
  · obtain ⟨found, finding, counted⟩ := access_counted quiet s isWrite tid pc addr size
    rw [← step_access] at counted
    exact ⟨_, .access isWrite tid pc addr size _ finding, counted⟩
  · rcases step_orderly h s read write with silent | told
    · exact ⟨_, .nothing read write, silent⟩
    · exact ⟨_, .anomaly read write, told⟩

end State

namespace Counted

variable {s s' : State} {counts : List Count} {out : List Output} {e : Event}

theorem length_announced_le (counted : Counted s counts (s', out)) :
    (RaceMonitor.announced out).length ≤ counts.count .anomalies := by
  rw [counted.announced]
  split
  · exact counted.anomalies.le
  · exact Nat.zero_le _

/-- An event that counts so comes to one race or one anomaly at most. -/
theorem length_delivered_le (counted : Counted s counts (s', out)) (of : e.Counts counts) :
    (delivered out).length ≤ 1 := by
  have races := counted.races
  have anomalies := counted.length_announced_le
  have reported := of.reported
  rw [length_delivered]
  split at races <;> dsimp only at races <;> omega

/-- Races are found by accesses. -/
theorem accesses_of_race (counted : Counted s counts (s', out)) (of : e.Counts counts) {race : Race}
    (found : race ∈ RaceMonitor.races out) : e.isRead = true ∨ e.isWrite = true := by
  have races := counted.races
  have some : 0 < (RaceMonitor.races out).length := List.length_pos_of_mem found
  have once := of.once
  by_contra neither
  rw [not_or, Bool.not_eq_true, Bool.not_eq_true] at neither
  simp only [of.reads, of.writes, neither.1, neither.2, Bool.false_eq_true, if_false] at once
  split at races <;> dsimp only at races <;> omega

end Counted

end RaceMonitor
