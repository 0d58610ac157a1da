import RaceMonitor.Proofs.Engine.Enumeration
import RaceMonitor.Proofs.Engine.Access
import RaceMonitor.Proofs.Engine.Heedless
import RaceMonitor.Proofs.Heap.Numbering

/-! Engines that differ in the numbers of their freed blocks.

Two states that are the same but for these numbers remain so under every event and command, let
out the same and have the same results (`State.step_follows`, `State.exec_follows`). Their hosts
may enumerate populations in different orders; their race callbacks must act alike, which they do
if they turn to the engine with commands (`Host.reentrant_alike`). -/
namespace RaceMonitor

/-- The same state, but for the numbers of the freed blocks, `k` higher. -/
def State.Renumbered (k : Nat) (s s' : State) : Prop :=
  ∃ heap, s.tables.heap.Renumbered k heap ∧
    s' = s.rehoused heap s.tables.freedPages s.counters

/-- Both steps let out the same, and lead to states that are the same but for the numbers. -/
def State.Follows (k : Nat) (res res' : State × List Output) : Prop :=
  res.1.Renumbered k res'.1 ∧ res'.2 = res.2

/-- The race callbacks of two hosts act alike: they do not see the numbers of freed blocks. -/
def Host.Alike (h h' : Host) : Prop :=
  ∀ (k : Nat) (race : Race) (s s' : State), s.Renumbered k s' →
    State.Follows k (h.onRace race s) (h'.onRace race s')

namespace State

variable {k : Nat} {s s' : State} {h h' : Host}

/-- What pays no heed to the heap does not see the numbers. -/
theorem Heedless.follows {act : State → State × List Output} (heedless : s.Heedless act)
    (same : s.Renumbered k s') : Follows k (act s) (act s') := by
  obtain ⟨heap, same, rfl⟩ := same
  obtain ⟨f, acts⟩ := heedless
  have own := acts s.tables.heap s.tables.freedPages s.counters
  rw [rehoused_self] at own
  rw [acts]
  generalize act s = res at own
  obtain ⟨s₁, out⟩ := res
  obtain ⟨left, _⟩ := Prod.mk.inj own
  refine ⟨⟨heap, ?_, ?_⟩, rfl⟩
  · rw [left]
    exact same
  · rw [left]
    rfl

theorem thread_follows (same : s.Renumbered k s') {tid : ThreadId} {t : Option Thread} {s₁ : State}
    {out : List Output} (met : s.thread tid = (t, s₁, out)) :
    ∃ s₁', s'.thread tid = (t, s₁', out) ∧ s₁.Renumbered k s₁' := by
  obtain ⟨heap, blocks, rfl⟩ := same
  refine ⟨_, thread_rehoused heap _ _ met, heap, ?_⟩
  obtain ⟨x, threads, rfl⟩ := thread_shape met
  exact ⟨blocks, rfl⟩

theorem location_follows (same : s.Renumbered k s') {addr : Word} {history : Option History}
    {s₁ : State} {out : List Output} (looked : s.location addr = (history, s₁, out)) :
    ∃ s₁', s'.location addr = (history, s₁', out) ∧ s₁.Renumbered k s₁' := by
  obtain ⟨heap, blocks, rfl⟩ := same
  refine ⟨_, location_rehoused heap _ _ looked, heap, ?_⟩
  obtain ⟨x, shadow, rfl⟩ := location_shape looked
  exact ⟨blocks, rfl⟩

theorem Follows.andThen {out : List Output} {res res' : State × List Output}
    (follows : Follows k res res') : Follows k (res.1, out ++ res.2) (res'.1, out ++ res'.2) :=
  ⟨follows.1, congrArg (out ++ ·) follows.2⟩

/-! ### Deliveries -/

theorem Renumbered.blockAt (same : s.Renumbered k s') (addr : Word) :
    s'.blockAt addr = s.blockAt addr := by
  obtain ⟨heap, same, rfl⟩ := same
  exact congrArg (fun block => if s.config.trackAllocations then block else none)
    (same.blockAt addr)

theorem Renumbered.count (same : s.Renumbered k s') (f : Counters → Counters) :
    (s.count f).Renumbered k (s'.count f) := by
  obtain ⟨heap, same, rfl⟩ := same
  exact ⟨heap, same, rfl⟩

theorem deliver_follows (alike : h.Alike h') (same : s.Renumbered k s') (race : Race) :
    Follows k (s.deliver h race) (s'.deliver h' race) := by
  have counted := same.count fun c => { c with races := c.races + 1 }
  have heard (s : State) (f : Counters → Counters) : (s.count f).heard = s.heard := rfl
  have hears : s'.heard = s.heard := by
    obtain ⟨heap, _, rfl⟩ := same
    rfl
  simp only [deliver, heard, hears]
  split
  · obtain ⟨after, out⟩ := alike k race _ _ counted
    exact ⟨after, congrArg (fun out => .note (.raceDetected race) :: .race race :: out) out⟩
  · exact ⟨counted, rfl⟩

theorem raiseConflict_follows (alike : h.Alike h') (same : s.Renumbered k s') (addr : Word)
    (kind : RaceKind) (prior current : Access) :
    Follows k (s.raiseConflict h addr kind prior current)
      (s'.raiseConflict h' addr kind prior current) := by
  unfold raiseConflict
  rw [same.blockAt]
  obtain ⟨heap, blocks, rfl⟩ := same
  exact deliver_follows alike ⟨heap, blocks, rfl⟩ _

theorem raiseUse_follows (alike : h.Alike h') (same : s.Renumbered k s') (addr : Word)
    (hit : UseAfterFree) (current : Access) :
    Follows k (s.raiseUse h addr hit current) (s'.raiseUse h' addr hit current) := by
  have counted := same.count fun c => { c with useAfterFree := c.useAfterFree + 1 }
  unfold raiseUse
  rw [same.blockAt]
  obtain ⟨heap, _, rfl⟩ := same
  exact deliver_follows alike counted _

theorem settleUse_follows (alike : h.Alike h') (same : s.Renumbered k s') (addr : Word)
    (current : Access) (hit : Option UseAfterFree) :
    Follows k (s.settleUse h addr current hit) (s'.settleUse h' addr current hit) := by
  cases hit with
  | none => exact ⟨same, rfl⟩
  | some hit => exact raiseUse_follows alike same addr hit current

theorem settle_follows (alike : h.Alike h') (same : s.Renumbered k s') (addr : Word)
    (current : Access) (outcome : Outcome) :
    Follows k (s.settle h addr current outcome) (s'.settle h' addr current outcome) := by
  cases outcome with
  | sameEpoch => exact ⟨same.count _, rfl⟩
  | ordered => exact ⟨same, rfl⟩
  | race kind prior => exact raiseConflict_follows alike same addr kind prior current

/-! ### Accesses -/

theorem reportUse_follows (same : s.Renumbered k s') {t : Thread} {addr : Word}
    {hit : Option UseAfterFree} {s₁ : State} (used : s.reportUse t addr = (hit, s₁)) :
    ∃ s₁', s'.reportUse t addr = (hit, s₁') ∧ s₁.Renumbered k s₁' := by
  obtain ⟨heap, same, rfl⟩ := same
  unfold reportUse at used ⊢
  rw [rehoused_config, rehoused_freedPages, rehoused_heap, rehoused_shadow]
  cases looks : s.config.trackAllocations && s.tables.freedPages.contains (Extent.pageOf addr) with
  | false =>
    rw [looks] at used
    cases used
    exact ⟨_, rfl, heap, same, rfl⟩
  | true =>
    rw [looks] at used
    rcases same.reportUse t.tid addr t.clock s.tables.shadow[addr]? with
      ⟨none, none'⟩ | ⟨hit, g, g', found, found', same⟩
    · rw [none] at used
      cases used
      rw [none']
      exact ⟨_, rfl, heap, same, rfl⟩
    · rw [found] at used
      cases used
      rw [found']
      exact ⟨_, rfl, g', same, rfl⟩

theorem accessBy_follows (alike : h.Alike h') (same : s.Renumbered k s') (t : Thread)
    (write : Bool) (pc addr size : Word) :
    Follows k (s.accessBy h t write pc addr size) (s'.accessBy h' t write pc addr size) := by
  have recorded {s s' : State} (same : s.Renumbered k s') (history : History) :
      (s.withTables (s.tables.putHistory addr history)).Renumbered k
        (s'.withTables (s'.tables.putHistory addr history)) := by
    obtain ⟨heap, same, rfl⟩ := same
    exact ⟨heap, same, rfl⟩
  have made := s.accessBy_made h t write pc addr size
  generalize s.accessBy h t write pc addr size = res at made ⊢
  cases made with
  | @untracked hit _ s₂ _ _ _ used looked told =>
    obtain ⟨s₁', used', same⟩ := reportUse_follows same used
    obtain ⟨s₂', looked', same⟩ := location_follows same looked
    have counted : s₂.countUntracked.Renumbered k s₂'.countUntracked := same.count _
    have settled := settleUse_follows alike counted addr (t.accessing write pc size) hit
    rcases told' : s₂'.countUntracked.settleUse h' addr (t.accessing write pc size) hit with
      ⟨s₃', out'⟩
    rw [told, told'] at settled
    rw [(Made.untracked used' looked' told').eq]
    exact settled.andThen
  | @used hit _ history' _ _ _ _ _ _ used looked checked told =>
    obtain ⟨s₁', used', same⟩ := reportUse_follows same used
    obtain ⟨s₂', looked', same⟩ := location_follows same looked
    have raised := raiseUse_follows alike (recorded same history') addr hit
      (t.accessing write pc size)
    rcases told' : (s₂'.withTables (s₂'.tables.putHistory addr history')).raiseUse h' addr hit
      (t.accessing write pc size) with ⟨s₃', out'⟩
    rw [told, told'] at raised
    rw [(Made.used used' looked' checked told').eq]
    exact raised.andThen
  | @settled _ history' outcome _ _ _ noted _ used looked checked told =>
    obtain ⟨s₁', used', same⟩ := reportUse_follows same used
    obtain ⟨s₂', looked', same⟩ := location_follows same looked
    have settled := settle_follows alike (recorded same history') addr (t.accessing write pc size)
      outcome
    rcases told' : (s₂'.withTables (s₂'.tables.putHistory addr history')).settle h' addr
      (t.accessing write pc size) outcome with ⟨s₃', out'⟩
    rw [told, told'] at settled
    rw [(Made.settled used' looked' checked told').eq]
    exact ⟨settled.1, congrArg (fun out => noted ++ out ++ _) settled.2⟩

theorem access_follows (alike : h.Alike h') (same : s.Renumbered k s') (write : Bool)
    (tid : ThreadId) (pc addr size : Word) :
    Follows k (s.access h write tid pc addr size) (s'.access h' write tid pc addr size) := by
  have counted : (s.countAccess write addr).Renumbered k (s'.countAccess write addr) := by
    obtain ⟨heap, same, rfl⟩ := same
    exact ⟨heap, same, rfl⟩
  rcases met : (s.countAccess write addr).thread tid with ⟨_ | t, s₁, noted⟩
  · obtain ⟨s₁', met', same⟩ := thread_follows counted met
    rw [access_refused met, access_refused met']
    exact ⟨same.count _, rfl⟩
  · obtain ⟨s₁', met', same⟩ := thread_follows counted met
    rw [access_entered met, access_entered met']
    exact (accessBy_follows alike same t write pc addr size).andThen

/-! ### Allocations and frees -/

/-- Which pages are unmarked does not depend on the numbers. -/
theorem unmarkPages_putHeap {heap heap' : Heap} (same : heap.Renumbered k heap') (t : Tables)
    (gone : List Extent) : (t.putHeap heap').unmarkPages gone =
      ((t.putHeap heap).unmarkPages gone).putHeap heap' := by
  have touches (page : Word) : (t.putHeap heap').heap.touchesPage page =
      (t.putHeap heap).heap.touchesPage page := same.touchesPage page
  simp only [Tables.unmarkPages, touches]
  rfl

/-- The accesses that go with a range are kept, in whichever order they come. -/
theorem keepAll_renumbered (o o' : Enumeration) {heap heap' : Heap}
    (same : heap.Renumbered k heap') (shadow : Table Word History) (e : Extent) :
    ((Tables.forgetRange o shadow e).1.foldl (fun heap p => heap.keep p.1 p.2) heap).Renumbered k
      ((Tables.forgetRange o' shadow e).1.foldl (fun heap p => heap.keep p.1 p.2) heap') := by
  rw [Heap.keepAll_perm heap' (Tables.forgetRange_perm o o' shadow e).1
    (Tables.forgetRange_nodup o shadow e)]
  exact same.keepAll _

theorem allocate_follows (same : s.Renumbered k s') (tid : ThreadId) (pc addr size : Word) :
    Follows k (s.allocate h tid pc addr size) (s'.allocate h' tid pc addr size) := by
  obtain ⟨heap, same, rfl⟩ := same
  have allocates := s.allocate_allocates h tid pc addr size
  generalize s.allocate h tid pc addr size = res at allocates ⊢
  cases allocates with
  | ignored why =>
    rw [(Allocates.ignored (s := s.rehoused heap s.tables.freedPages s.counters) why).eq]
    exact ⟨⟨heap, same, rfl⟩, rfl⟩
  | @made reused gone kept replaced handed placed shadow tracking nonempty hand forgot put =>
    rcases hand' : heap.handOut ⟨addr, size⟩ with ⟨reused', gone', handed'⟩
    obtain ⟨same_reused, same_gone, sameHanded⟩ := same.handOut ⟨addr, size⟩
    rw [hand, hand'] at same_reused same_gone sameHanded
    obtain rfl : reused' = reused := same_reused
    obtain rfl : gone' = gone := same_gone
    rcases forgot' : Tables.forgetRange h'.order s.tables.shadow ⟨addr, size⟩ with ⟨kept', shadow'⟩
    have dropped := (Tables.forgetRange_perm h.order h'.order s.tables.shadow ⟨addr, size⟩).2
    have keeps := keepAll_renumbered h.order h'.order sameHanded s.tables.shadow ⟨addr, size⟩
    rw [forgot, forgot'] at dropped keeps
    obtain rfl : shadow' = shadow := dropped
    have stashed : (if reused' then kept.foldl (fun heap p => heap.keep p.1 p.2) handed
        else handed).Renumbered k
          (if reused' then kept'.foldl (fun heap p => heap.keep p.1 p.2) handed' else handed') := by
      split
      · exact keeps
      · exact sameHanded
    obtain ⟨same_replaced, same_placed⟩ := stashed.allocate (Block.new tid pc ⟨addr, size⟩)
    rcases put' : (if reused' then kept'.foldl (fun heap p => heap.keep p.1 p.2) handed'
      else handed').allocate (Block.new tid pc ⟨addr, size⟩) with ⟨replaced', placed'⟩
    rw [put, put'] at same_replaced same_placed
    obtain rfl : replaced' = replaced := same_replaced
    rw [(Allocates.made (s := s.rehoused heap s.tables.freedPages s.counters) tracking nonempty
      hand' forgot' put').eq]
    exact ⟨⟨placed', same_placed, congrArg s.withTables
      (unmarkPages_putHeap same_placed (s.tables.putShadow shadow') gone')⟩, rfl⟩

theorem sweep_follows (same : s.Renumbered k s') (h h' : Host) :
    Follows k (s.sweep h) (s'.sweep h') := by
  obtain ⟨heap, same, rfl⟩ := same
  have floors (e : Epoch) : e.observedBy
      ((s.rehoused heap s.tables.freedPages s.counters).tables.floor h'.order) =
        e.observedBy (s.tables.floor h.order) :=
    Tables.observedBy_floor_congr h.order h'.order s.tables e
  unfold sweep
  rw [rehoused_heap, heap.dropObserved_congr floors]
  have swept := same.dropObserved (s.tables.floor h.order)
  generalize s.tables.heap.dropObserved (s.tables.floor h.order) = res,
    heap.dropObserved (s.tables.floor h.order) = res' at swept
  obtain ⟨gone, h₁⟩ := res
  obtain ⟨gone', h₁'⟩ := res'
  obtain ⟨(rfl : gone' = gone), (swept : h₁.Renumbered k h₁')⟩ := swept
  refine ⟨⟨h₁', swept, congrArg s.withTables (unmarkPages_putHeap swept s.tables gone')⟩, ?_⟩
  dsimp only
  rw [swept.freed.size]

/-- A free that comes to something marks pages, and may unmark others. -/
theorem Renumbered.marked {heap heap' : Heap} (same : s.Renumbered k s')
    (blocks : heap.Renumbered k heap') (freed : Freed) :
    (s.withTables (((s.tables.putHeap heap).markPages freed.block).unmarkPages
      freed.evicted)).Renumbered k
    (s'.withTables (((s'.tables.putHeap heap').markPages freed.block).unmarkPages
      freed.evicted)) := by
  obtain ⟨_, _, rfl⟩ := same
  exact ⟨heap', blocks, congrArg s.withTables
    (unmarkPages_putHeap blocks (s.tables.markPages freed.block) freed.evicted)⟩

theorem Renumbered.free (same : s.Renumbered k s') (addr : Word) (epoch : Epoch) :
    (∃ fault, s.tables.heap.free addr epoch = .error fault ∧
      s'.tables.heap.free addr epoch = .error fault) ∨
    ∃ freed heap heap', s.tables.heap.free addr epoch = .ok (freed, heap) ∧
      s'.tables.heap.free addr epoch = .ok (freed, heap') ∧ heap.Renumbered k heap' := by
  obtain ⟨heap, blocks, rfl⟩ := same
  exact blocks.free addr epoch

theorem deallocate_follows (same : s.Renumbered k s') (tid : ThreadId) (addr : Word) :
    Follows k (s.deallocate h tid addr) (s'.deallocate h' tid addr) := by
  have config : s'.config = s.config := by
    obtain ⟨heap, _, rfl⟩ := same
    rfl
  have frees := s.deallocate_frees h tid addr
  generalize s.deallocate h tid addr = res at frees ⊢
  cases frees with
  | ignored why =>
    rw [(Frees.ignored (config ▸ why)).eq]
    exact ⟨same, rfl⟩
  | refused tracking met =>
    obtain ⟨s₁', met', same⟩ := thread_follows same met
    rw [(Frees.refused (config ▸ tracking) met').eq]
    exact ⟨same.count _, rfl⟩
  | @misused t s₁ _ fault tracking met failed =>
    obtain ⟨s₁', met', same⟩ := thread_follows same met
    rcases same.free addr t.epoch with ⟨fault', own, failed'⟩ | ⟨_, _, _, own, _⟩
    · cases own.symm.trans failed
      rw [(Frees.misused (config ▸ tracking) met' failed').eq]
      exact ((s₁.raiseAnomaly_heedless _).follows same).andThen
    · cases own.symm.trans failed
  | @freed t s₁ _ freed heap tracking met done early =>
    obtain ⟨s₁', met', same⟩ := thread_follows same met
    rcases same.free addr t.epoch with ⟨_, own, _⟩ | ⟨_, _, heap', own, done', blocks⟩
    · cases own.symm.trans done
    · cases own.symm.trans done
      rw [(Frees.freed (config ▸ tracking) met' done' early).eq]
      exact ⟨same.marked blocks freed, rfl⟩
  | @swept t s₁ _ _ _ freed heap tracking met done due sweeps =>
    obtain ⟨s₁', met', same⟩ := thread_follows same met
    rcases same.free addr t.epoch with ⟨_, own, _⟩ | ⟨_, _, heap', own, done', blocks⟩
    · cases own.symm.trans done
    · cases own.symm.trans done
      have swept := sweep_follows (same.marked blocks freed) h h'
      rcases sweeps' : (s₁'.withTables (((s₁'.tables.putHeap heap').markPages
        freed.block).unmarkPages freed.evicted)).sweep h' with ⟨s₂', out'⟩
      rw [sweeps, sweeps'] at swept
      rw [(Frees.swept (config ▸ tracking) met' done' due sweeps').eq]
      exact swept.andThen

/-! ### Steps -/

/-- Every event keeps the states the same but for the numbers. -/
theorem step_follows (alike : h.Alike h') (same : s.Renumbered k s') (e : Event) :
    Follows k (s.step h e) (s'.step h' e) := by
  cases heeds : e.heeds with
  | false =>
    have anywhere : s'.step h' e = s'.step h e := by cases e <;> first | rfl | cases heeds
    rw [anywhere]
    exact (s.step_heedless h heeds).follows same
  | true =>
    cases e with
    | read tid pc addr size => exact access_follows alike same false tid pc addr size
    | write tid pc addr size => exact access_follows alike same true tid pc addr size
    | alloc tid pc addr size => exact allocate_follows same tid pc addr size
    | free tid addr => exact deallocate_follows same tid addr
    | _ => cases heeds

theorem Renumbered.opened (same : s.Renumbered k s') (config : Config) :
    (s.opened config).Renumbered k (s'.opened config) := by
  obtain ⟨heap, same, rfl⟩ := same
  exact ⟨_, same.clear.setMaxFreed config.maxFreed, rfl⟩

/-- So does every command, and it has the same result. -/
theorem exec_follows (alike : h.Alike h') (same : s.Renumbered k s') (c : Command) :
    (s'.exec h' c).1 = (s.exec h c).1 ∧ Follows k (s.exec h c).2 (s'.exec h' c).2 := by
  cases c with
  | event e => exact ⟨rfl, step_follows alike same e⟩
  | init args =>
    have kept : s'.config = s.config ∧ s'.policy = s.policy := by
      obtain ⟨heap, _, rfl⟩ := same
      exact ⟨rfl, rfl⟩
    simp only [exec, init, kept]
    cases (s.config.walk args).2 with
    | error fault => exact ⟨rfl, same, rfl⟩
    | ok config => exact ⟨rfl, same.opened config, rfl⟩
  | finalize =>
    obtain ⟨heap, same, rfl⟩ := same
    refine ⟨rfl, ⟨_, same.clear, rfl⟩, ?_⟩
    have left : (h'.order.threads s.tables.threads).countP (fun t => t.parent.isSome) =
        (h.order.threads s.tables.threads).countP fun t => t.parent.isSome :=
      ((h'.order.threads_perm _).trans (h.order.threads_perm _).symm).countP_eq _
    simp only [exec, finalize, rehoused_threads, left]
    rfl
  | listen on =>
    obtain ⟨heap, same, rfl⟩ := same
    exact ⟨rfl, ⟨heap, same, rfl⟩, rfl⟩

theorem execAll_follows (alike : h.Alike h') (same : s.Renumbered k s') (cs : List Command) :
    Follows k (s.execAll h cs) (s'.execAll h' cs) := by
  induction cs generalizing s s' with
  | nil => exact ⟨same, rfl⟩
  | cons c cs ih =>
    obtain ⟨_, follows, out⟩ := exec_follows alike same c
    obtain ⟨rest, outs⟩ := ih follows
    exact ⟨rest, by simp only [execAll, out, outs]⟩

end State

namespace Host

/-- Callbacks that only take note of races act alike. -/
theorem recording_alike (order order' : Enumeration) :
    Alike ⟨order, fun _ s => (s, [])⟩ ⟨order', fun _ s => (s, [])⟩ :=
  fun _ _ _ _ same => ⟨same, rfl⟩

/-- Callbacks that turn to the engine with the same commands act alike. -/
theorem reentrant_alike (order order' : Enumeration) (commands : List Command) :
    (reentrant order commands).Alike (reentrant order' commands) :=
  fun _ _ _ _ same => State.execAll_follows (recording_alike order order') same commands

end Host

end RaceMonitor
