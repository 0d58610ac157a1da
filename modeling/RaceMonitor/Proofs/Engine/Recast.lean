import RaceMonitor.Proofs.Engine.Renumbered

/-! The parts of the configuration that no event looks at.

The policy shows in the log only, and the configured limit on freed blocks is taken over by the
heap when a session is opened; no event reads either. A state under another policy and another
configured limit takes the same steps and delivers the same (`State.step_recasts`). Where the
policy alone is another one, so does every command (`State.exec_recasts`): opening a session
notes it, and nothing else. -/
namespace RaceMonitor

namespace State

/-- The state under another policy, and with `f` of the configured limit on freed blocks. The
heap keeps the limit that it has. -/
def recast (p : Policy) (f : Word → Word) (s : State) : State :=
  { s with policy := p, config := { s.config with maxFreed := f s.config.maxFreed } }

/-- Both deliver the same, and lead to the same state but for the policy and the configured limit
on freed blocks. -/
def Recasts (p : Policy) (f : Word → Word) (res res' : State × List Output) : Prop :=
  res'.1 = res.1.recast p f ∧ delivered res'.2 = delivered res.2

variable {p : Policy} {f : Word → Word}

theorem Recasts.of_eq {res res' : State × List Output}
    (same : res' = (res.1.recast p f, res.2)) : Recasts p f res res' :=
  same ▸ ⟨rfl, rfl⟩

theorem Recasts.around {res res' : State × List Output} (same : Recasts p f res res')
    (before after : List Output) : Recasts p f (res.1, before ++ res.2 ++ after)
      (res'.1, before ++ res'.2 ++ after) :=
  ⟨same.1, by simp only [delivered_append, same.2]⟩

theorem Recasts.andThen {res res' : State × List Output} (same : Recasts p f res res')
    (before : List Output) : Recasts p f (res.1, before ++ res.2) (res'.1, before ++ res'.2) :=
  ⟨same.1, by simp only [delivered_append, same.2]⟩

end State

/-- The race callback does not see the policy, nor the configured limit on freed blocks. -/
def Host.Blind (p : Policy) (f : Word → Word) (h : Host) : Prop :=
  ∀ race s, State.Recasts p f (h.onRace race s) (h.onRace race (s.recast p f))

theorem Host.Quiet.blind {h : Host} (quiet : h.Quiet) (p : Policy) (f : Word → Word) :
    h.Blind p f := by
  intro race s
  rw [quiet, quiet]
  exact ⟨rfl, rfl⟩

namespace State

section Lookup

variable (p f) {s s' : State} {out : List Output}

theorem thread_recast {tid : ThreadId} {t : Option Thread} (met : s.thread tid = (t, s', out)) :
    (s.recast p f).thread tid = (t, s'.recast p f, out) := by
  obtain ⟨x, threads, rfl⟩ := thread_shape met
  exact thread_guised met (s.recast p f).guise

theorem location_recast {addr : Word} {history : Option History}
    (looked : s.location addr = (history, s', out)) :
    (s.recast p f).location addr = (history, s'.recast p f, out) := by
  obtain ⟨x, shadow, rfl⟩ := location_shape looked
  exact location_guised looked (s.recast p f).guise

end Lookup

section Handlers

variable (p f) (s : State) (h : Host)

theorem heedless_recast {e : Event} (heedless : e.heeds = false) :
    (s.recast p f).step h e = ((s.step h e).1.recast p f, (s.step h e).2) := by
  obtain ⟨count, acts⟩ := s.step_guised h heedless
  -- what is left under the guise is as it was in its own
  have own : (s.step h e).1 = (s.step h e).1.guised (s.guise.count count) :=
    congrArg Prod.fst (acts s.guise)
  refine (acts (s.recast p f).guise).trans (Prod.ext ?_ rfl)
  dsimp only
  generalize (s.step h e).1 = s' at own
  rw [own]
  rfl

/-! ### Allocations and frees -/

theorem allocate_recast (tid : ThreadId) (pc addr size : Word) :
    (s.recast p f).allocate h tid pc addr size =
      ((s.allocate h tid pc addr size).1.recast p f, (s.allocate h tid pc addr size).2) := by
  have allocates := s.allocate_allocates h tid pc addr size
  generalize s.allocate h tid pc addr size = res at allocates ⊢
  cases allocates with
  | ignored why => exact (Allocates.ignored (s := s.recast p f) why).eq
  | made tracking nonempty hand forgot placed =>
    exact (Allocates.made (s := s.recast p f) tracking nonempty hand forgot placed).eq

theorem deallocate_recast (tid : ThreadId) (addr : Word) :
    (s.recast p f).deallocate h tid addr =
      ((s.deallocate h tid addr).1.recast p f, (s.deallocate h tid addr).2) := by
  have frees := s.deallocate_frees h tid addr
  generalize s.deallocate h tid addr = res at frees ⊢
  cases frees with
  | ignored why => exact (Frees.ignored (s := s.recast p f) why).eq
  | refused tracking met =>
    exact (Frees.refused (s := s.recast p f) tracking (thread_recast p f met)).eq
  | misused tracking met failed =>
    exact (Frees.misused (s := s.recast p f) tracking (thread_recast p f met) failed).eq
  | freed tracking met done early =>
    exact (Frees.freed (s := s.recast p f) tracking (thread_recast p f met) done early).eq
  | swept tracking met done due sweeps =>
    cases sweeps
    exact (Frees.swept (s := s.recast p f) tracking (thread_recast p f met) done due rfl).eq

end Handlers

/-! ### Accesses -/

section Accesses

variable {h : Host} (blind : h.Blind p f) (s : State)

include blind

theorem deliver_recasts (race : Race) :
    Recasts p f (s.deliver h race) ((s.recast p f).deliver h race) := by
  have heard (s : State) : (s.recast p f).heard = s.heard := rfl
  let counted := s.count fun c => { c with races := c.races + 1 }
  have counting : (s.recast p f).count (fun c => { c with races := c.races + 1 }) =
    counted.recast p f := rfl
  unfold deliver
  rw [counting]
  simp only [heard]
  split
  · obtain ⟨state, out⟩ := blind race counted
    exact ⟨state, congrArg (Output.race race :: ·) out⟩
  · exact ⟨rfl, rfl⟩

theorem raiseUse_recasts (addr : Word) (hit : UseAfterFree) (current : Access) :
    Recasts p f (s.raiseUse h addr hit current)
      ((s.recast p f).raiseUse h addr hit current) :=
  deliver_recasts blind (s.count fun c => { c with useAfterFree := c.useAfterFree + 1 }) _

theorem settle_recasts (addr : Word) (current : Access) (outcome : Outcome) :
    Recasts p f (s.settle h addr current outcome)
      ((s.recast p f).settle h addr current outcome) := by
  cases outcome with
  | sameEpoch => exact ⟨rfl, rfl⟩
  | ordered => exact ⟨rfl, rfl⟩
  | race kind prior => exact deliver_recasts blind s _

omit blind in
theorem reportUse_recast {s s' : State} {t : Thread} {addr : Word} {hit : Option UseAfterFree}
    (used : s.reportUse t addr = (hit, s')) :
    (s.recast p f).reportUse t addr = (hit, s'.recast p f) := by
  have tables : (s.recast p f).tables = s.tables := rfl
  have tracking : (s.recast p f).config.trackAllocations = s.config.trackAllocations := rfl
  obtain ⟨rfl, rfl⟩ : (s.reportUse t addr).1 = hit ∧ (s.reportUse t addr).2 = s' :=
    ⟨congrArg Prod.fst used, congrArg Prod.snd used⟩
  unfold reportUse
  rw [tables, tracking]
  split
  · cases s.tables.heap.reportUse t.tid addr t.clock s.tables.shadow[addr]? <;> rfl
  · rfl

theorem accessBy_recasts (t : Thread) (write : Bool) (pc addr size : Word) :
    Recasts p f (s.accessBy h t write pc addr size)
      ((s.recast p f).accessBy h t write pc addr size) := by
  have made := s.accessBy_made h t write pc addr size
  generalize s.accessBy h t write pc addr size = res at made ⊢
  cases made with
  | @untracked hit _ s₂ _ noted _ used looked told =>
    have looked := location_recast p f looked
    have settled : Recasts p f (s₂.countUntracked.settleUse h addr (t.accessing write pc size) hit)
        ((s₂.countUntracked.recast p f).settleUse h addr (t.accessing write pc size) hit) := by
      cases hit with
      | none => exact ⟨rfl, rfl⟩
      | some hit => exact raiseUse_recasts blind s₂.countUntracked addr hit _
    rw [(Made.untracked (reportUse_recast used) looked rfl).eq]
    rw [told] at settled
    exact settled.andThen noted
  | @used hit _ history' _ _ s₂ _ noted _ used looked checked told =>
    have raised := raiseUse_recasts blind (s₂.withTables (s₂.tables.putHistory addr history')) addr
      hit (t.accessing write pc size)
    rw [(Made.used (reportUse_recast used) (location_recast p f looked) checked rfl).eq]
    rw [told] at raised
    exact raised.andThen noted
  | @settled _ history' outcome _ s₂ _ noted _ used looked checked told =>
    have settled := settle_recasts blind (s₂.withTables (s₂.tables.putHistory addr history')) addr
      (t.accessing write pc size) outcome
    rw [(Made.settled (reportUse_recast used) (location_recast p f looked) checked rfl).eq]
    rw [told] at settled
    exact settled.around noted _

theorem access_recasts (write : Bool) (tid : ThreadId) (pc addr size : Word) :
    Recasts p f (s.access h write tid pc addr size)
      ((s.recast p f).access h write tid pc addr size) := by
  rcases met : (s.countAccess write addr).thread tid with ⟨t, s₁, noted⟩
  have met' : ((s.recast p f).countAccess write addr).thread tid = _ := thread_recast p f met
  cases t with
  | none =>
    rw [access_refused met, access_refused met']
    exact ⟨rfl, rfl⟩
  | some t =>
    rw [access_entered met, access_entered met']
    exact (accessBy_recasts blind s₁ t write pc addr size).andThen noted

end Accesses

/-! ### Steps -/

variable {h : Host}

/-- Every event does the same under another policy and another configured limit. -/
theorem step_recasts (blind : h.Blind p f) (s : State) (e : Event) :
    Recasts p f (s.step h e) ((s.recast p f).step h e) := by
  cases heeds : e.heeds with
  | false => exact .of_eq (s.heedless_recast p f h heeds)
  | true =>
    cases e with
    | read tid pc addr size => exact access_recasts blind s false tid pc addr size
    | write tid pc addr size => exact access_recasts blind s true tid pc addr size
    | alloc tid pc addr size => exact .of_eq (s.allocate_recast p f h tid pc addr size)
    | free tid addr => exact .of_eq (s.deallocate_recast p f h tid addr)
    | _ => cases heeds

/-- So does every command where the configuration is the same, and it has the same result. -/
theorem exec_recasts (blind : h.Blind p id) (s : State) (c : Command) :
    ((s.recast p id).exec h c).1 = (s.exec h c).1 ∧
      Recasts p id (s.exec h c).2 ((s.recast p id).exec h c).2 := by
  cases c with
  | event e => exact ⟨rfl, step_recasts blind s e⟩
  | init args =>
    have config : (s.recast p id).config = s.config := rfl
    simp only [exec, init, config]
    cases (s.config.walk args).2 with
    | error fault => exact ⟨rfl, rfl, by simp⟩
    | ok config => exact ⟨rfl, rfl, by simp⟩
  | finalize => exact ⟨rfl, rfl, rfl⟩
  | listen on => exact ⟨rfl, rfl, rfl⟩

theorem execAll_recasts (blind : h.Blind p id) (s : State) (cs : List Command) :
    Recasts p id (s.execAll h cs) ((s.recast p id).execAll h cs) := by
  induction cs generalizing s with
  | nil => exact ⟨rfl, rfl⟩
  | cons c cs ih =>
    obtain ⟨_, state, out⟩ := exec_recasts blind s c
    obtain ⟨rest, outs⟩ := ih (s.exec h c).2.1
    simp only [execAll, state, rest, delivered_append, out, outs, Recasts, and_self]

end State

/-- A callback that turns to the engine with commands does not see the policy. -/
theorem Host.reentrant_blind (order : Enumeration) (commands : List Command) (p : Policy) :
    (reentrant order commands).Blind p id := by
  have quiet : Quiet ⟨order, fun _ s => (s, [])⟩ := fun _ _ => rfl
  exact fun _ s => State.execAll_recasts (quiet.blind p id) s commands

end RaceMonitor
